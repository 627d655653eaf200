import DaggerWorkflows.Yaml.Node.OfTokens

/-!
# Steps of a reader of nodes

What a reader of nodes does is decided by the next token. There is one equation
for each kind of token that may start a node without tag and anchor, and one
each for the end of a collection and for an entry of it; a proof about a tree
needs nothing else about the reader.
-/

namespace DaggerWorkflows.Yaml.NodeReader

variable {r r' : NodeReader} {rest : List Token} {t : Token} {fuel : Nat}
  {block indentless : Bool}

theorem run_bind {α β : Type} (act : Reading α) (f : α → Reading β)
    (r : NodeReader) :
    (act >>= f).run r = (f (act.run r).1).run (act.run r).2 := rfl

theorem run_pure {α : Type} (a : α) (r : NodeReader) :
    (pure a : Reading α).run r = (a, r) := rfl

theorem run_peek? (r : NodeReader) : peek?.run r = (r.tokens.head?, r) := rfl

theorem run_skip (r : NodeReader) :
    skip.run r = ((), { r with tokens := r.tokens.tail }) := rfl

theorem run_expandTag_none (start : Mark) (r : NodeReader) :
    (expandTag start none).run r = (none, r) := rfl

/-- Whether a token starts a node that has neither tag nor anchor and is no
alias. -/
def startsBare : Token.Kind → Bool
  | .anchor _ | .tag _ | .reference _ => false
  | _ => true

theorem run_readProperties (ht : r.tokens.head? = some t)
    (hk : startsBare t.kind = true) :
    readProperties.run r = ((none, none), r) := by
  obtain ⟨kind, start, stop⟩ := t
  cases kind <;>
    first
      | (cases hk; done)
      | simp only [readProperties, readAnchor, readTag, ht, run_bind, run_pure,
          run_peek?, Option.isSome_none, Bool.false_eq_true, if_false]

/-- A node that has neither tag nor anchor, as its first token tells. -/
def readBare (fuel : Nat) (block indentless : Bool) (t : Token) :
    Reading Node := do
  if indentless && t.kind == .blockEntry then
    let (items, closed) ← readIndentlessItems fuel
    return .sequence items closed .none t.start
  match t.kind, block with
  | .scalar text style, _ =>
      skip
      return .scalar text style .none t.start
  | .flowSequenceStart, _ =>
      skip
      let (items, closed) ← readFlowItems fuel t.start true
      return .sequence items closed .none t.start
  | .flowMappingStart, _ =>
      skip
      let (entries, closed) ← readFlowEntries fuel t.start true
      return .mapping entries closed .none t.start
  | .blockSequenceStart, true =>
      skip
      let (items, closed) ← readBlockItems fuel t.start
      return .sequence items closed .none t.start
  | .blockMappingStart, true =>
      skip
      let (entries, closed) ← readBlockEntries fuel t.start
      return .mapping entries closed .none t.start
  | _, _ =>
      fail .nodeExpected t.start
        (some (if block then .blockNode else .flowNode, t.start))
      return .missing

theorem run_readNode (ht : r.tokens.head? = some t)
    (hk : startsBare t.kind = true) :
    (readNode (fuel + 1) block indentless).run r =
      (readBare fuel block indentless t).run r := by
  have hproperties := run_readProperties ht hk
  obtain ⟨kind, start, stop⟩ := t
  cases kind <;> cases block <;>
    first
      | (cases hk; done)
      | simp only [readNode, readBare, run_bind, run_peek?, ht, hproperties,
          run_expandTag_none, Option.isNone_some, Bool.false_eq_true, if_false]
        rfl

theorem run_slot {ends : Token.Kind → Bool} {mark : Mark} {node : Reading Node}
    (ht : r.tokens.head? = some t) (hends : ends t.kind = false) :
    (slot ends mark node).run r = node.run r := by
  simp only [slot, run_bind, run_peek?, ht, hends, Bool.false_eq_true, if_false]

theorem run_readNode_scalar {text : String} {style : ScalarStyle}
    (ht : r.tokens = t :: rest) (hk : t.kind = .scalar text style) :
    (readNode (fuel + 1) block indentless).run r =
      (.scalar text style .none t.start, { r with tokens := rest }) := by
  have hentry : (Token.Kind.scalar text style == .blockEntry) = false := by simp
  rw [run_readNode (t := t) (by simp [ht]) (by simp [hk, startsBare])]
  simp only [readBare, hk, hentry, Bool.and_false, Bool.false_eq_true, if_false,
    run_bind, run_skip, run_pure, ht, List.tail_cons]

theorem run_readNode_items {items : List Node} (ht : r.tokens = t :: rest)
    (hk : t.kind = .blockSequenceStart)
    (hitems : (readBlockItems fuel t.start).run { r with tokens := rest } =
      ((items, true), r')) :
    (readNode (fuel + 1) true indentless).run r =
      (.sequence items true .none t.start, r') := by
  have hentry : (Token.Kind.blockSequenceStart == .blockEntry) = false := rfl
  rw [run_readNode (t := t) (by simp [ht]) (by simp [hk, startsBare])]
  simp only [readBare, hk, hentry, Bool.and_false, Bool.false_eq_true, if_false,
    run_bind, run_skip, run_pure, ht, List.tail_cons, hitems]

theorem run_readNode_entries {entries : List (Node × Node)}
    (ht : r.tokens = t :: rest) (hk : t.kind = .blockMappingStart)
    (hentries : (readBlockEntries fuel t.start).run { r with tokens := rest } =
      ((entries, true), r')) :
    (readNode (fuel + 1) true indentless).run r =
      (.mapping entries true .none t.start, r') := by
  have hentry : (Token.Kind.blockMappingStart == .blockEntry) = false := rfl
  rw [run_readNode (t := t) (by simp [ht]) (by simp [hk, startsBare])]
  simp only [readBare, hk, hentry, Bool.and_false, Bool.false_eq_true, if_false,
    run_bind, run_skip, run_pure, ht, List.tail_cons, hentries]

theorem run_readNode_indentless {items : List Node}
    (ht : r.tokens.head? = some t) (hk : t.kind = .blockEntry)
    (hitems : (readIndentlessItems fuel).run r = ((items, true), r')) :
    (readNode (fuel + 1) block true).run r =
      (.sequence items true .none t.start, r') := by
  have hentry : (Token.Kind.blockEntry == .blockEntry) = true := rfl
  rw [run_readNode ht (by simp [hk, startsBare])]
  simp only [readBare, hk, hentry, Bool.and_true, if_true, run_bind,
    run_pure, hitems]

theorem run_readNode_flowItems {items : List Node} (ht : r.tokens = t :: rest)
    (hk : t.kind = .flowSequenceStart)
    (hitems : (readFlowItems fuel t.start true).run { r with tokens := rest } =
      ((items, true), r')) :
    (readNode (fuel + 1) block indentless).run r =
    (.sequence items true .none t.start, r') := by
  have hentry : (Token.Kind.flowSequenceStart == .blockEntry) = false := rfl
  rw [run_readNode (t := t) (by simp [ht]) (by simp [hk, startsBare])]
  simp only [readBare, hk, hentry, Bool.and_false, Bool.false_eq_true, if_false,
    run_bind, run_skip, run_pure, ht, List.tail_cons, hitems]

theorem run_readNode_flowEntries {entries : List (Node × Node)}
    (ht : r.tokens = t :: rest) (hk : t.kind = .flowMappingStart)
    (hentries :
      (readFlowEntries fuel t.start true).run { r with tokens := rest } =
      ((entries, true), r')) :
    (readNode (fuel + 1) block indentless).run r =
      (.mapping entries true .none t.start, r') := by
  have hentry : (Token.Kind.flowMappingStart == .blockEntry) = false := rfl
  rw [run_readNode (t := t) (by simp [ht]) (by simp [hk, startsBare])]
  simp only [readBare, hk, hentry, Bool.and_false, Bool.false_eq_true, if_false,
    run_bind, run_skip, run_pure, ht, List.tail_cons, hentries]

/-! ## Collections that are written by indentation -/

variable {t' k v : Token} {r'' : NodeReader} {start : Mark}
  {node key value : Node} {items : List Node} {entries : List (Node × Node)}

theorem run_readBlockItems_end (ht : r.tokens = t :: rest)
    (hk : t.kind = .blockEnd) :
    (readBlockItems (fuel + 1) start).run r =
      (([], true), { r with tokens := rest }) := by
  obtain ⟨kind, place, stop⟩ := t
  obtain rfl : kind = .blockEnd := hk
  simp only [readBlockItems, run_bind, run_peek?, run_skip, run_pure, ht,
    List.head?_cons, List.tail_cons]

theorem run_readBlockItems_entry (ht : r.tokens = t :: t' :: rest)
    (hk : t.kind = .blockEntry) (hends : endsItem t'.kind = false)
    (hnode : (readNode fuel true false).run { r with tokens := t' :: rest } =
      (node, r'))
    (hitems : (readBlockItems fuel start).run r' = ((items, true), r'')) :
    (readBlockItems (fuel + 1) start).run r = ((node :: items, true), r'') := by
  obtain ⟨kind, place, stop⟩ := t
  obtain rfl : kind = .blockEntry := hk
  have hslot : (slot endsItem stop (readNode fuel true false)).run
    { r with tokens := t' :: rest } =
      (node, r') := (run_slot rfl hends).trans hnode
  simp only [readBlockItems, run_bind, run_peek?, run_skip, run_pure, ht,
    List.head?_cons, List.tail_cons, hslot, hitems]

theorem run_readIndentlessItems_end (ht : r.tokens.head? = some t)
    (hk : t.kind ≠ .blockEntry) :
    (readIndentlessItems (fuel + 1)).run r = (([], true), r) := by
  obtain ⟨kind, place, stop⟩ := t
  cases kind <;>
    first
      | exact absurd rfl hk
      | simp only [readIndentlessItems, run_bind, run_peek?, run_pure, ht]

theorem run_readIndentlessItems_entry (ht : r.tokens = t :: t' :: rest)
    (hk : t.kind = .blockEntry) (hends : endsIndentlessItem t'.kind = false)
    (hnode : (readNode fuel true false).run { r with tokens := t' :: rest } =
      (node, r'))
    (hitems : (readIndentlessItems fuel).run r' = ((items, true), r'')) :
    (readIndentlessItems (fuel + 1)).run r = ((node :: items, true), r'') := by
  obtain ⟨kind, place, stop⟩ := t
  obtain rfl : kind = .blockEntry := hk
  have hslot : (slot endsIndentlessItem stop (readNode fuel true false)).run
      { r with tokens := t' :: rest } = (node, r') :=
        (run_slot rfl hends).trans hnode
  simp only [readIndentlessItems, run_bind, run_peek?, run_skip, run_pure, ht,
    List.head?_cons, List.tail_cons, hslot, hitems]

theorem run_readBlockEntries_end (ht : r.tokens = t :: rest)
    (hk : t.kind = .blockEnd) :
    (readBlockEntries (fuel + 1) start).run r =
      (([], true), { r with tokens := rest }) := by
  obtain ⟨kind, place, stop⟩ := t
  obtain rfl : kind = .blockEnd := hk
  simp only [readBlockEntries, run_bind, run_peek?, run_skip, run_pure, ht,
    List.head?_cons, List.tail_cons]

theorem run_readBlockEntries_entry {text : String} {style : ScalarStyle}
    (ht : r.tokens = t :: k :: v :: t' :: rest) (hkey : t.kind = .key)
    (hk : k.kind = .scalar text style) (hv : v.kind = .value)
    (hends : endsField t'.kind = false)
    (hvalue : (readNode (fuel + 1) true true).run
      { r with tokens := t' :: rest } = (value, r'))
    (hentries : (readBlockEntries (fuel + 1) start).run r' =
      ((entries, true), r'')) :
    (readBlockEntries (fuel + 1 + 1) start).run r =
      (((.scalar text style .none k.start, value) :: entries, true), r'') := by
  obtain ⟨kind, place, stop⟩ := t
  obtain rfl : kind = .key := hkey
  obtain ⟨kind', place', stop'⟩ := v
  obtain rfl : kind' = .value := hv
  have hkey : (slot endsField stop (readNode (fuel + 1) true true)).run
      { r with tokens := k :: ⟨.value, place', stop'⟩ :: t' :: rest } =
        (.scalar text style .none k.start,
          { r with tokens := ⟨.value, place', stop'⟩ :: t' :: rest }) :=
    (run_slot rfl (by simp [hk, endsField])).trans (run_readNode_scalar rfl hk)
  have hvalue : (slot endsField stop' (readNode (fuel + 1) true true)).run
      { r with tokens := t' :: rest } = (value, r') :=
        (run_slot rfl hends).trans hvalue
  rw [readBlockEntries]
  simp only [run_bind, run_peek?, run_skip, run_pure, ht, List.head?_cons,
    List.tail_cons, hkey, hvalue, hentries]

/-! ## Collections between brackets -/

variable {closing : Token.Kind} {problem : Problem} {context : Context × Mark}

theorem run_separator_first (r : NodeReader) :
    (separator true closing problem context).run r = ((), r) := by
  cases h : r.tokens.head? <;>
    simp only [separator, run_bind, run_peek?, run_pure, h, Bool.true_or,
      if_true]

theorem run_separator_closing (ht : r.tokens.head? = some t)
    (hk : t.kind = closing) (first : Bool) :
    (separator first closing problem context).run r = ((), r) := by
  simp only [separator, run_bind, run_peek?, run_pure, ht, hk, beq_self_eq_true,
    Bool.or_true, if_true]

theorem run_separator_comma (ht : r.tokens = t :: rest)
    (hk : t.kind = .flowEntry) (hclosing : closing ≠ .flowEntry) :
    (separator false closing problem context).run r =
      ((), { r with tokens := rest }) := by
  have hclosing : (Token.Kind.flowEntry == closing) = false :=
    beq_false_of_ne hclosing.symm
  simp only [separator, run_bind, run_peek?, run_skip, ht, List.head?_cons, hk,
    hclosing,
    Bool.or_false, Bool.false_eq_true, if_false, beq_self_eq_true, if_true,
      List.tail_cons]

theorem run_readFlowItems_end {first : Bool} (ht : r.tokens = t :: rest)
    (hk : t.kind = .flowSequenceEnd) :
    (readFlowItems (fuel + 1) start first).run r =
    (([], true), { r with tokens := rest }) := by
  have hseparator : (separator first .flowSequenceEnd .sequenceSeparatorExpected
      (.flowSequence, start)).run r = ((), r) :=
        run_separator_closing (by simp [ht]) hk first
  obtain ⟨kind, place, stop⟩ := t
  obtain rfl : kind = .flowSequenceEnd := hk
  simp only [readFlowItems, run_bind, hseparator, run_peek?, run_skip,
    run_pure, ht, List.head?_cons, List.tail_cons]

theorem run_readFlowItems_item {first : Bool} {r₀ : NodeReader}
    (hseparator : (separator first .flowSequenceEnd .sequenceSeparatorExpected
      (.flowSequence, start)).run r₀ = ((), r)) (ht : r.tokens.head? = some t)
    (hend : t.kind ≠ .flowSequenceEnd) (hkey : t.kind ≠ .key)
    (hnode : (readNode fuel false false).run r = (node, r'))
    (hitems : (readFlowItems fuel start false).run r' = ((items, true), r'')) :
    (readFlowItems (fuel + 1) start first).run r₀ =
      ((node :: items, true), r'') := by
  obtain ⟨kind, place, stop⟩ := t
  cases kind <;>
    first
      | exact absurd rfl hend
      | exact absurd rfl hkey
      | simp only [readFlowItems, run_bind, hseparator, run_peek?, run_pure, ht,
          hnode, hitems]

theorem run_readFlowEntries_end {first : Bool} (ht : r.tokens = t :: rest)
    (hk : t.kind = .flowMappingEnd) :
    (readFlowEntries (fuel + 1) start first).run r =
    (([], true), { r with tokens := rest }) := by
  have hseparator : (separator first .flowMappingEnd .mappingSeparatorExpected
      (.flowMapping, start)).run r = ((), r) :=
        run_separator_closing (by simp [ht]) hk first
  obtain ⟨kind, place, stop⟩ := t
  obtain rfl : kind = .flowMappingEnd := hk
  simp only [readFlowEntries, run_bind, hseparator, run_peek?, run_skip,
    run_pure, ht, List.head?_cons, List.tail_cons]

theorem run_flowValue {node : Reading Node} {ends : Token.Kind → Bool}
    (hv : v.kind = .value) (hends : ends t'.kind = false)
    (ht : r.tokens = v :: t' :: rest) :
    (flowValue node ends).run r = node.run { r with tokens := t' :: rest } := by
  obtain ⟨kind, place, stop⟩ := v
  obtain rfl : kind = .value := hv
  have hslot : (slot ends t'.start node).run { r with tokens := t' :: rest } =
      node.run { r with tokens := t' :: rest } := run_slot rfl hends
  simp only [flowValue, run_bind, run_peek?, run_skip, ht, List.head?_cons,
    List.tail_cons, hslot]

theorem run_readFlowEntries_entry {first : Bool} {r₀ : NodeReader}
    {text : String} {style : ScalarStyle}
    (hseparator : (separator first .flowMappingEnd .mappingSeparatorExpected
      (.flowMapping, start)).run r₀ = ((), r))
    (ht : r.tokens = t :: k :: v :: t' :: rest) (hkey : t.kind = .key)
    (hk : k.kind = .scalar text style) (hv : v.kind = .value)
    (hends : endsFlowValue t'.kind = false)
    (hvalue : (readNode (fuel + 1) false false).run
      { r with tokens := t' :: rest } = (value, r'))
    (hentries : (readFlowEntries (fuel + 1) start false).run r' =
      ((entries, true), r'')) :
    (readFlowEntries (fuel + 1 + 1) start first).run r₀ =
      (((.scalar text style .none k.start, value) :: entries, true), r'') := by
  obtain ⟨kind, place, stop⟩ := t
  obtain rfl : kind = .key := hkey
  have hkey : (slot endsFlowKey k.start (readNode (fuel + 1) false false)).run
      { r with tokens := k :: v :: t' :: rest } =
        (.scalar text style .none k.start,
          { r with tokens := v :: t' :: rest }) :=
    (run_slot rfl (by simp [hk, endsFlowKey])).trans
      (run_readNode_scalar rfl hk)
  have hvalue : (flowValue (readNode (fuel + 1) false false) endsFlowValue).run
      { r with tokens := v :: t' :: rest } = (value, r') :=
        (run_flowValue hv hends rfl).trans hvalue
  rw [readFlowEntries]
  simp only [run_bind, hseparator, run_peek?, run_skip, run_pure, ht,
    List.head?_cons, List.tail_cons, hkey, hvalue, hentries]

/-! ## The root -/

/-- A document without directives and without a start line is its root. -/
theorem run_readRoot (ht : r.tokens.head? = some t) (hend : t.kind ≠ .streamEnd)
    (hexplicit : startsExplicit t.kind = false) :
    readRoot.run r = (readNode (4 * r.tokens.length + 4) true false).run
      { r with handles := defaultHandles } := by
  have hend : (t.kind == .streamEnd) = false := beq_false_of_ne hend
  have hsteps : steps.run r = (4 * r.tokens.length + 4, r) := rfl
  rw [readRoot, run_bind, hsteps]
  simp only [run_bind, run_peek?, ht, hend, hexplicit, Bool.false_eq_true,
    if_false, Bool.not_false, if_true]
  rfl

end DaggerWorkflows.Yaml.NodeReader

namespace DaggerWorkflows.Yaml.Document

/-- The document of a text whose tokens are those of one node and the end. -/
theorem ofText_of_readNode {text : String} {list : List Token}
    {kind : Token.Kind} {kinds : List Token.Kind} {P : Node → Prop}
    (htokens : Tokens.ofText text = ⟨list, none⟩)
    (hlist : list.map (·.kind) = kind :: kinds ++ [.streamEnd])
    (hend : kind ≠ .streamEnd)
    (hexplicit : NodeReader.startsExplicit kind = false)
    (hread : ∀ (ts rest : List Token) (r : NodeReader) (fuel : Nat),
      ts.map (·.kind) = kind :: kinds → r.tokens = ts ++ rest →
      2 * ts.length + 2 ≤ fuel →
      ∃ n, P n ∧ (NodeReader.readNode fuel true false).run r = (n,
        { r with tokens := rest })) :
    ∃ root, P root ∧ Document.ofText text = ⟨root, none, false⟩ := by
  obtain ⟨ts, rest, rfl, hts, hrest⟩ := List.map_eq_append_iff.1 hlist
  obtain ⟨last, rfl, hlast⟩ := List.map_eq_singleton_iff.1 hrest
  obtain ⟨t, ts, rfl, rfl, -⟩ := List.map_eq_cons_iff.1 hts
  let r : NodeReader := ⟨t :: ts ++ [last], none, [], []⟩
  have hroot := NodeReader.run_readRoot (r := r) rfl hend hexplicit
  obtain ⟨root, hP, hnode⟩ :=
    hread (t :: ts) [last] { r with handles := NodeReader.defaultHandles }
    (4 * r.tokens.length + 4) hts rfl (by simp [r]; omega)
  refine ⟨root, hP, ?_⟩
  rw [hnode] at hroot
  simp only [Document.ofText, htokens,
    show NodeReader.readRoot.run ⟨t :: ts ++ [last], none, [], []⟩
    = _ from hroot, hlast, beq_self_eq_true, if_true]

end DaggerWorkflows.Yaml.Document
