import DaggerWorkflows.Proofs.BlockTokens
import DaggerWorkflows.Proofs.FlowTokens
import DaggerWorkflows.Proofs.NodeSteps

/-!
# Nodes of written data

A node `Says` data if it is the tree of the data without tags, anchors and
aliases, where a text without quotes is one that means itself. The tokens that
data is written as are read as a node that says the data, and nothing after them
is touched. Every collection costs a step to enter and every entry one to go on,
so twice as many steps as there are tokens suffice.
-/

namespace DaggerWorkflows

open Yaml
  (Atom Document Lexer Mark Node NodeReader Properties ScalarStyle Token)

/-- A plain scalar that is a text means its own characters. -/
theorem Yaml.Atom.eq_of_ofPlain {s t : String} (h : Atom.ofPlain s = .text t) :
    s = t := by
  unfold Atom.ofPlain at h
  dsimp only at h
  repeat' split at h
  all_goals first
    | cases h; done
    | exact Atom.text.inj h

namespace Datum

mutual

/-- A node is the tree of the data. -/
inductive Says : Datum → Node → Prop where
  | text {s : String} {style : ScalarStyle} {mark : Mark}
      (h : style = .plain → Atom.ofPlain s = .text s) :
      Says (.text s) (.scalar s style .none mark)
  | flag {b : Bool} {mark : Mark} :
      Says (.flag b) (.scalar (String.ofList (yamlFlag b)) .plain .none mark)
  | list {items : List Datum} {nodes : List Node} {mark : Mark}
      (h : SaysItems items nodes) :
      Says (.list items) (.sequence nodes true .none mark)
  | map {entries : List (String × Datum)} {nodes : List (Node × Node)}
      {mark : Mark} (h : SaysEntries entries nodes) :
      Says (.map entries) (.mapping nodes true .none mark)

/-- Nodes are the trees of the items of a list. -/
inductive SaysItems : List Datum → List Node → Prop where
  | nil : SaysItems [] []
  | cons {d : Datum} {n : Node} {items : List Datum} {nodes : List Node}
      (h : Says d n) (hitems : SaysItems items nodes) :
      SaysItems (d :: items) (n :: nodes)

/-- Pairs of nodes are the trees of the keys and values of a map. -/
inductive SaysEntries : List (String × Datum) → List (Node × Node) → Prop where
  | nil : SaysEntries [] []
  | cons {key : String} {d : Datum} {k n : Node}
      {entries : List (String × Datum)} {nodes : List (Node × Node)}
      (hkey : Says (.text key) k) (h : Says d n)
      (hentries : SaysEntries entries nodes) :
      SaysEntries ((key, d) :: entries) ((k, n) :: nodes)

end

/-- A text in the style that the writer has chosen means itself. -/
theorem says_readStyle (s : String) (mark : Mark) :
    Says (.text s) (.scalar s (Scalar.readStyle s) .none mark) := by
  refine .text fun hplain => ?_
  have hsuits := Scalar.suits_style s
  have hstyle : Scalar.style s = .plain := by
    unfold Scalar.readStyle at hplain
    cases hstyle : Scalar.style s <;> simp_all
  rw [hstyle] at hsuits
  have hdifferent := hsuits.2
  unfold Scalar.looksDifferent at hdifferent
  split at hdifferent
  · next t htext => rwa [← Atom.eq_of_ofPlain htext] at htext
  · simp at hdifferent

/-- A node between double quotes says its text. -/
theorem says_doubleQuoted (s : String) (mark : Mark) :
    Says (.text s) (.scalar s .doubleQuoted .none mark) :=
  .text nofun

/-- What comes first of data is no token that ends a place for a node. -/
theorem blockKinds_eq_cons (d : Datum) (short : Bool) :
    ∃ kind kinds, d.blockKinds short = kind :: kinds ∧
      kind ≠ .key ∧ kind ≠ .value ∧ kind ≠ .blockEnd ∧
      (short = false → kind ≠ .blockEntry) := by
  match d, short with
  | text s, _ => exact ⟨_, _, rfl, by simp⟩
  | flag b, _ => exact ⟨_, _, rfl, by simp⟩
  | list [], _ => exact ⟨_, _, rfl, by simp⟩
  | list (_ :: _), true => exact ⟨_, _, rfl, by simp⟩
  | list (_ :: _), false => exact ⟨_, _, rfl, by simp⟩
  | map [], _ => exact ⟨_, _, rfl, by simp⟩
  | map (_ :: _), _ => exact ⟨_, _, rfl, by simp⟩

end Datum

namespace Yaml.NodeReader

open Datum (Says SaysItems SaysEntries itemKinds entryKinds blockKinds_eq_cons)

/-- The first token of data and those after it. -/
theorem exists_eq_cons {d : Datum} {short : Bool} {ts : List Token}
    (h : ts.map (·.kind) = d.blockKinds short) :
    ∃ t ts', ts = t :: ts' ∧ endsField t.kind = false ∧
      (short = false → endsItem t.kind = false ∧
        endsIndentlessItem t.kind = false) := by
  obtain ⟨kind, kinds, hkinds, hkey, hvalue, hend, hentry⟩ :=
    blockKinds_eq_cons d short
  obtain ⟨t, ts', rfl, rfl, -⟩ := List.map_eq_cons_iff.1 (h.trans hkinds)
  refine ⟨t, ts', rfl, by
    simp [endsField, hkey, hvalue, hend], fun hshort => ?_⟩
  simp [endsItem, endsIndentlessItem, hkey, hvalue, hend, hentry hshort]

/-- The tokens of an entry start with one for it, and those of the entries after
it follow. -/
theorem exists_eq_entry {ts : List Token} {kind : Token.Kind}
    {as bs : List Token.Kind} (h : ts.map (·.kind) = kind :: as ++ bs) :
    ∃ t own others, ts = t :: (own ++ others) ∧ t.kind = kind ∧
    own.map (·.kind) = as ∧ others.map (·.kind) = bs := by
  obtain ⟨t, ts, rfl, hk, hts⟩ := List.map_eq_cons_iff.1 h
  obtain ⟨own, others, rfl, hown, hothers⟩ := List.map_eq_append_iff.1 hts
  exact ⟨t, own, others, rfl, hk, hown, hothers⟩

/-- The tokens of a collection stand between two that are about itself. -/
theorem exists_eq_enclosed {ts : List Token} {start stop : Token.Kind}
    {kinds : List Token.Kind} (h : ts.map (·.kind) = start :: kinds ++ [stop]) :
    ∃ t inner t', ts = t :: (inner ++ [t']) ∧ t.kind = start ∧
    inner.map (·.kind) = kinds ∧ t'.kind = stop := by
  obtain ⟨t, inner, last, rfl, hk, hinner, hlast⟩ := exists_eq_entry h
  obtain ⟨t', rfl, hk'⟩ := List.map_eq_singleton_iff.1 hlast
  exact ⟨t, inner, t', rfl, hk, hinner, hk'⟩

mutual

/-- The tokens of data are read as a node that says the data. -/
theorem says_of_readNode : ∀ (d : Datum) (fuel : Nat) {short indentless : Bool}
    {ts rest : List Token} {r : NodeReader}, ts.map (·.kind) =
    d.blockKinds short →
    r.tokens = ts ++ rest → 2 * ts.length + 2 ≤ fuel →
    (short = true → indentless = true ∧ ∃ t ∈ rest.head?,
      t.kind ≠ .blockEntry) →
    ∃ n, Says d n ∧ (readNode fuel true indentless).run r = (n,
      { r with tokens := rest })
  | .text s, fuel, short, indentless, ts, rest, r, hts, hr, hfuel, hshort => by
      obtain ⟨t, rfl, hk⟩ := List.map_eq_singleton_iff.1 hts
      obtain ⟨fuel, rfl⟩ : ∃ k, fuel = k + 1 := ⟨fuel - 1, by omega⟩
      exact ⟨_, Datum.says_readStyle s t.start, run_readNode_scalar hr hk⟩
  | .flag b, fuel, short, indentless, ts, rest, r, hts, hr, hfuel, hshort => by
      obtain ⟨t, rfl, hk⟩ := List.map_eq_singleton_iff.1 hts
      obtain ⟨fuel, rfl⟩ : ∃ k, fuel = k + 1 := ⟨fuel - 1, by omega⟩
      exact ⟨_, .flag, run_readNode_scalar hr hk⟩
  | .list [], fuel, short, indentless, ts, rest, r, hts, hr, hfuel, hshort => by
      obtain ⟨t, ts', rfl, hk, hts'⟩ := List.map_eq_cons_iff.1 hts
      obtain ⟨t', rfl, hk'⟩ := List.map_eq_singleton_iff.1 hts'
      obtain ⟨fuel, rfl⟩ : ∃ k, fuel = k + 1 + 1 :=
        ⟨fuel - 2, by simp at hfuel; omega⟩
      exact ⟨_, .list .nil,
        run_readNode_flowItems hr hk (run_readFlowItems_end rfl hk')⟩
  | .map [], fuel, short, indentless, ts, rest, r, hts, hr, hfuel, hshort => by
      obtain ⟨t, ts', rfl, hk, hts'⟩ := List.map_eq_cons_iff.1 hts
      obtain ⟨t', rfl, hk'⟩ := List.map_eq_singleton_iff.1 hts'
      obtain ⟨fuel, rfl⟩ : ∃ k, fuel = k + 1 + 1 :=
        ⟨fuel - 2, by simp at hfuel; omega⟩
      exact ⟨_, .map .nil,
        run_readNode_flowEntries hr hk (run_readFlowEntries_end rfl hk')⟩
  | .list (d :: items), fuel, true, indentless, ts, rest, r, hts, hr, hfuel,
      hshort => by
      obtain ⟨rfl, t, hrest, ht⟩ := hshort rfl
      obtain ⟨fuel, rfl⟩ : ∃ k, fuel = k + 1 := ⟨fuel - 1, by omega⟩
      obtain ⟨nodes, hsays, hread⟩ :=
        says_of_readIndentlessItems (d :: items) fuel hts hr (by omega) hrest ht
      obtain ⟨t', ts', rfl, hk', -⟩ := List.map_eq_cons_iff.1 hts
      exact ⟨_, .list hsays,
        run_readNode_indentless (by rw [hr]; rfl) hk' hread⟩
  | .list (d :: items), fuel, false, indentless, ts, rest, r, hts, hr, hfuel,
      hshort => by
      obtain ⟨t, inner, t', rfl, hk, hinner, hk'⟩ := exists_eq_enclosed hts
      obtain ⟨fuel, rfl⟩ : ∃ k, fuel = k + 1 := ⟨fuel - 1, by omega⟩
      simp only [List.length_cons, List.length_append, List.length_nil] at hfuel
      obtain ⟨nodes, hsays, hread⟩ := says_of_readBlockItems (d :: items) fuel
        (r := { r with tokens := inner ++ t' :: rest }) hinner rfl hk'
          (by omega)
      exact ⟨_, .list hsays, run_readNode_items (by simpa using hr) hk hread⟩
  | .map (e :: entries), fuel, short, indentless, ts, rest, r, hts, hr, hfuel,
      hshort => by
      obtain ⟨t, inner, t', rfl, hk, hinner, hk'⟩ := exists_eq_enclosed hts
      obtain ⟨fuel, rfl⟩ : ∃ k, fuel = k + 1 := ⟨fuel - 1, by omega⟩
      simp only [List.length_cons, List.length_append, List.length_nil] at hfuel
      obtain ⟨nodes, hsays, hread⟩ :=
        says_of_readBlockEntries (e :: entries) fuel
        (r := { r with tokens := inner ++ t' :: rest }) hinner rfl hk'
          (by omega)
      exact ⟨_, .map hsays, run_readNode_entries (by simpa using hr) hk hread⟩
termination_by structural d => d

/-- The tokens of items that are indented. -/
theorem says_of_readBlockItems :
    ∀ (items : List Datum) (fuel : Nat) {ts rest : List Token}
    {t : Token} {r : NodeReader} {start : Mark}, ts.map (·.kind) =
      itemKinds items →
    r.tokens = ts ++ t :: rest → t.kind = .blockEnd → 2 * ts.length + 1 ≤ fuel →
    ∃ nodes, SaysItems items nodes ∧
      (readBlockItems fuel start).run r =
        ((nodes, true), { r with tokens := rest })
  | [], fuel, ts, rest, t, r, start, hts, hr, hk, hfuel => by
      obtain rfl := List.map_eq_nil_iff.1 hts
      obtain ⟨fuel, rfl⟩ : ∃ k, fuel = k + 1 := ⟨fuel - 1, by omega⟩
      exact ⟨[], .nil, run_readBlockItems_end hr hk⟩
  | d :: items, fuel, ts, rest, t, r, start, hts, hr, hk, hfuel => by
      obtain ⟨fuel, rfl⟩ : ∃ k, fuel = k + 1 := ⟨fuel - 1, by omega⟩
      obtain ⟨t₁, own, others, rfl, hk₁, hown, hothers⟩ := exists_eq_entry hts
      obtain ⟨t₂, own, rfl, -, hends⟩ := exists_eq_cons hown
      simp only [List.length_cons, List.length_append] at hfuel
      obtain ⟨n, hsays, hread⟩ := says_of_readNode d fuel
        (r := { r with tokens := t₂ :: own ++ (others ++ t :: rest) }) hown rfl
        (by simp only [List.length_cons]; omega) nofun
      obtain ⟨nodes, hsays', hread'⟩ := says_of_readBlockItems items fuel
        (r := { r with tokens := others ++ t :: rest }) hothers rfl hk
          (by omega)
      exact ⟨_, .cons hsays hsays',
        run_readBlockItems_entry (by simpa using hr) hk₁ (hends rfl).1
        hread hread'⟩
termination_by structural items => items

/-- The tokens of items that are not indented further than the keys around
them. -/
theorem says_of_readIndentlessItems :
    ∀ (items : List Datum) (fuel : Nat) {ts rest : List Token}
    {t : Token} {r : NodeReader}, ts.map (·.kind) = itemKinds items →
    r.tokens = ts ++ rest → 2 * ts.length + 1 ≤ fuel → t ∈ rest.head? →
    t.kind ≠ .blockEntry →
    ∃ nodes, SaysItems items nodes ∧
      (readIndentlessItems fuel).run r =
        ((nodes, true), { r with tokens := rest })
  | [], fuel, ts, rest, t, r, hts, hr, hfuel, ht, hk => by
      obtain rfl := List.map_eq_nil_iff.1 hts
      obtain ⟨fuel, rfl⟩ : ∃ k, fuel = k + 1 := ⟨fuel - 1, by omega⟩
      refine ⟨[], .nil, ?_⟩
      rw [run_readIndentlessItems_end (by rw [hr]; exact ht) hk]
      cases r
      exact congrArg _ (by simp_all)
  | d :: items, fuel, ts, rest, t, r, hts, hr, hfuel, ht, hk => by
      obtain ⟨fuel, rfl⟩ : ∃ k, fuel = k + 1 := ⟨fuel - 1, by omega⟩
      obtain ⟨t₁, own, others, rfl, hk₁, hown, hothers⟩ := exists_eq_entry hts
      obtain ⟨t₂, own, rfl, -, hends⟩ := exists_eq_cons hown
      simp only [List.length_cons, List.length_append] at hfuel
      obtain ⟨n, hsays, hread⟩ := says_of_readNode d fuel
        (r := { r with tokens := t₂ :: own ++ (others ++ rest) }) hown rfl
        (by simp only [List.length_cons]; omega) nofun
      obtain ⟨nodes, hsays', hread'⟩ := says_of_readIndentlessItems items fuel
        (r := { r with tokens := others ++ rest }) hothers rfl (by omega) ht hk
      exact ⟨_, .cons hsays hsays',
        run_readIndentlessItems_entry (by simpa using hr) hk₁
        (hends rfl).2 hread hread'⟩
termination_by structural items => items

/-- The tokens of entries. -/
theorem says_of_readBlockEntries :
    ∀ (entries : List (String × Datum)) (fuel : Nat)
    {ts rest : List Token} {t : Token} {r : NodeReader} {start : Mark},
    ts.map (·.kind) = entryKinds entries → r.tokens = ts ++ t :: rest →
    t.kind = .blockEnd →
    2 * ts.length + 1 ≤ fuel →
    ∃ nodes, SaysEntries entries nodes ∧
      (readBlockEntries fuel start).run r =
        ((nodes, true), { r with tokens := rest })
  | [], fuel, ts, rest, t, r, start, hts, hr, hk, hfuel => by
      obtain rfl := List.map_eq_nil_iff.1 hts
      obtain ⟨fuel, rfl⟩ : ∃ k, fuel = k + 1 := ⟨fuel - 1, by omega⟩
      exact ⟨[], .nil, run_readBlockEntries_end hr hk⟩
  | (key, d) :: entries, fuel, ts, rest, t, r, start, hts, hr, hk, hfuel => by
      obtain ⟨t₁, ts, rfl, hk₁, hts⟩ := List.map_eq_cons_iff.1 hts
      obtain ⟨t₂, ts, rfl, hk₂, hts⟩ := List.map_eq_cons_iff.1 hts
      obtain ⟨t₃, own, others, rfl, hk₃, hown, hothers⟩ := exists_eq_entry hts
      obtain ⟨t₄, own, rfl, hends, -⟩ := exists_eq_cons hown
      simp only [List.length_cons, List.length_append] at hfuel
      obtain ⟨fuel, rfl⟩ : ∃ k, fuel = k + 1 + 1 := ⟨fuel - 2, by omega⟩
      -- a list under a short key ends at the next key or where the map does
      have hnext : ∃ t' ∈ (others ++ t :: rest).head?,
          t'.kind ≠ .blockEntry := by
        cases entries with
        | nil =>
            obtain rfl := List.map_eq_nil_iff.1 hothers
            exact ⟨t, rfl, by simp [hk]⟩
        | cons e entries =>
            obtain ⟨t', others, rfl, hk', -⟩ := List.map_eq_cons_iff.1 hothers
            exact ⟨t', rfl, by simp [hk']⟩
      obtain ⟨n, hsays, hread⟩ := says_of_readNode d (fuel + 1)
        (r := { r with tokens := t₄ :: own ++ (others ++ t :: rest) }) hown rfl
        (by simp only [List.length_cons]; omega) fun _ => ⟨rfl, hnext⟩
      obtain ⟨nodes, hsays', hread'⟩ :=
        says_of_readBlockEntries entries (fuel + 1)
        (r := { r with tokens := others ++ t :: rest }) hothers rfl hk
          (by omega)
      exact ⟨_, .cons (Datum.says_readStyle key t₂.start) hsays hsays',
        run_readBlockEntries_entry (by simpa using hr) hk₁ hk₂ hk₃ hends
          hread hread'⟩
termination_by structural entries => entries

end

/-! ## Between brackets -/

open Datum (flowItemKinds flowEntryKinds)

/-- The first token of data between brackets and those after it. -/
theorem exists_eq_cons_of_flowKinds {d : Datum} {ts : List Token}
    (h : ts.map (·.kind) = d.flowKinds) :
    ∃ t ts', ts = t :: ts' ∧ t.kind ≠ .flowSequenceEnd ∧ t.kind ≠ .key ∧
      endsFlowValue t.kind = false := by
  have hfirst : ∃ kind kinds, d.flowKinds = kind :: kinds ∧
    kind ≠ .flowSequenceEnd ∧ kind ≠ .key ∧ endsFlowValue kind = false := by
    match d with
    | .text s => exact ⟨_, _, rfl, by simp, by simp, rfl⟩
    | .flag b => exact ⟨_, _, rfl, by simp, by simp, rfl⟩
    | .list [] => exact ⟨_, _, rfl, by simp, by simp, rfl⟩
    | .list (_ :: _) => exact ⟨_, _, rfl, by simp, by simp, rfl⟩
    | .map [] => exact ⟨_, _, rfl, by simp, by simp, rfl⟩
    | .map (_ :: _) => exact ⟨_, _, rfl, by simp, by simp, rfl⟩
  obtain ⟨kind, kinds, hkinds, hfirst⟩ := hfirst
  obtain ⟨t, ts', rfl, rfl, -⟩ := List.map_eq_cons_iff.1 (h.trans hkinds)
  exact ⟨t, ts', rfl, hfirst⟩

mutual

/-- The tokens of data between brackets are read as a node that says the
data. -/
theorem says_of_readFlowNode :
    ∀ (d : Datum) (fuel : Nat) {block : Bool} {ts rest : List Token}
    {r : NodeReader}, ts.map (·.kind) = d.flowKinds → r.tokens = ts ++ rest →
    2 * ts.length + 2 ≤ fuel →
    ∃ n, Says d n ∧ (readNode fuel block false).run r = (n,
      { r with tokens := rest })
  | .text s, fuel, block, ts, rest, r, hts, hr, hfuel => by
      obtain ⟨t, rfl, hk⟩ := List.map_eq_singleton_iff.1 hts
      obtain ⟨fuel, rfl⟩ : ∃ k, fuel = k + 1 := ⟨fuel - 1, by omega⟩
      exact ⟨_, Datum.says_doubleQuoted _ _, run_readNode_scalar hr hk⟩
  | .flag b, fuel, block, ts, rest, r, hts, hr, hfuel => by
      obtain ⟨t, rfl, hk⟩ := List.map_eq_singleton_iff.1 hts
      obtain ⟨fuel, rfl⟩ : ∃ k, fuel = k + 1 := ⟨fuel - 1, by omega⟩
      exact ⟨_, .flag, run_readNode_scalar hr hk⟩
  | .list [], fuel, block, ts, rest, r, hts, hr, hfuel => by
      obtain ⟨t, ts', rfl, hk, hts'⟩ := List.map_eq_cons_iff.1 hts
      obtain ⟨t', rfl, hk'⟩ := List.map_eq_singleton_iff.1 hts'
      obtain ⟨fuel, rfl⟩ : ∃ k, fuel = k + 1 + 1 :=
        ⟨fuel - 2, by simp at hfuel; omega⟩
      exact ⟨_, .list .nil,
        run_readNode_flowItems hr hk (run_readFlowItems_end rfl hk')⟩
  | .map [], fuel, block, ts, rest, r, hts, hr, hfuel => by
      obtain ⟨t, ts', rfl, hk, hts'⟩ := List.map_eq_cons_iff.1 hts
      obtain ⟨t', rfl, hk'⟩ := List.map_eq_singleton_iff.1 hts'
      obtain ⟨fuel, rfl⟩ : ∃ k, fuel = k + 1 + 1 :=
        ⟨fuel - 2, by simp at hfuel; omega⟩
      exact ⟨_, .map .nil,
        run_readNode_flowEntries hr hk (run_readFlowEntries_end rfl hk')⟩
  | .list (d :: items), fuel, block, ts, rest, r, hts, hr, hfuel => by
      obtain ⟨t, inner, t', rfl, hk, hinner, hk'⟩ := exists_eq_enclosed hts
      obtain ⟨own, others, rfl, hown, hothers⟩ :=
        List.map_eq_append_iff.1 hinner
      obtain ⟨t₁, own, rfl, hend, hkey, -⟩ := exists_eq_cons_of_flowKinds hown
      simp only [List.length_cons, List.length_append, List.length_nil] at hfuel
      obtain ⟨fuel, rfl⟩ : ∃ k, fuel = k + 1 + 1 := ⟨fuel - 2, by omega⟩
      obtain ⟨n, hsays, hread⟩ := says_of_readFlowNode d fuel
        (r := { r with tokens := t₁ :: own ++ (others ++ t' :: rest) }) hown rfl
        (by simp only [List.length_cons]; omega)
      obtain ⟨nodes, hsays', hread'⟩ := says_of_readFlowItems items fuel
        (r := { r with tokens := others ++ t' :: rest }) hothers rfl hk'
          (by omega)
      have hitems := run_readFlowItems_item (run_separator_first _) rfl hend
        hkey hread hread'
      exact ⟨_, .list (.cons hsays hsays'),
        run_readNode_flowItems (by simpa using hr) hk hitems⟩
  | .map ((key, d) :: entries), fuel, block, ts, rest, r, hts, hr, hfuel => by
      obtain ⟨t, inner, t', rfl, hk, hinner, hk'⟩ := exists_eq_enclosed hts
      obtain ⟨t₁, inner, rfl, hk₁, hinner⟩ := List.map_eq_cons_iff.1 hinner
      obtain ⟨t₂, inner, rfl, hk₂, hinner⟩ := List.map_eq_cons_iff.1 hinner
      obtain ⟨t₃, own, others, rfl, hk₃, hown, hothers⟩ :=
        exists_eq_entry hinner
      obtain ⟨t₄, own, rfl, -, -, hends⟩ := exists_eq_cons_of_flowKinds hown
      simp only [List.length_cons, List.length_append, List.length_nil] at hfuel
      obtain ⟨fuel, rfl⟩ : ∃ k, fuel = k + 1 + 1 + 1 := ⟨fuel - 3, by omega⟩
      obtain ⟨n, hsays, hread⟩ := says_of_readFlowNode d (fuel + 1)
        (r := { r with tokens := t₄ :: own ++ (others ++ t' :: rest) }) hown rfl
        (by simp only [List.length_cons]; omega)
      obtain ⟨nodes, hsays', hread'⟩ :=
        says_of_readFlowEntries entries (fuel + 1)
        (r := { r with tokens := others ++ t' :: rest }) hothers rfl hk'
          (by omega)
      have hentries := run_readFlowEntries_entry
        (run_separator_first { r with
          tokens := t₁ :: t₂ :: t₃ :: t₄ :: own ++ (others ++ t' :: rest) })
        rfl hk₁ hk₂ hk₃ hends hread hread'
      exact ⟨_, .map (.cons (Datum.says_doubleQuoted _ _) hsays hsays'),
        run_readNode_flowEntries (by simpa using hr) hk hentries⟩
termination_by structural d => d

/-- The tokens of items after the first. -/
theorem says_of_readFlowItems :
    ∀ (items : List Datum) (fuel : Nat) {ts rest : List Token}
    {t : Token} {r : NodeReader} {start : Mark}, ts.map (·.kind) =
      flowItemKinds items →
    r.tokens = ts ++ t :: rest → t.kind = .flowSequenceEnd →
    2 * ts.length + 1 ≤ fuel →
    ∃ nodes, SaysItems items nodes ∧
      (readFlowItems fuel start false).run r =
        ((nodes, true), { r with tokens := rest })
  | [], fuel, ts, rest, t, r, start, hts, hr, hk, hfuel => by
      obtain rfl := List.map_eq_nil_iff.1 hts
      obtain ⟨fuel, rfl⟩ : ∃ k, fuel = k + 1 := ⟨fuel - 1, by omega⟩
      exact ⟨[], .nil, run_readFlowItems_end hr hk⟩
  | d :: items, fuel, ts, rest, t, r, start, hts, hr, hk, hfuel => by
      obtain ⟨t₁, own, others, rfl, hk₁, hown, hothers⟩ := exists_eq_entry hts
      obtain ⟨t₂, own, rfl, hend, hkey, -⟩ := exists_eq_cons_of_flowKinds hown
      simp only [List.length_cons, List.length_append] at hfuel
      obtain ⟨fuel, rfl⟩ : ∃ k, fuel = k + 1 := ⟨fuel - 1, by omega⟩
      obtain ⟨n, hsays, hread⟩ := says_of_readFlowNode d fuel
        (r := { r with tokens := t₂ :: own ++ (others ++ t :: rest) }) hown rfl
        (by simp only [List.length_cons]; omega)
      obtain ⟨nodes, hsays', hread'⟩ := says_of_readFlowItems items fuel
        (r := { r with tokens := others ++ t :: rest }) hothers rfl hk
          (by omega)
      have hcomma : (separator false .flowSequenceEnd .sequenceSeparatorExpected
          (.flowSequence, start)).run r =
            ((), { r with tokens := t₂ :: own ++ (others ++ t :: rest) }) :=
        run_separator_comma (by simpa using hr) hk₁ (by simp)
      exact ⟨_, .cons hsays hsays',
        run_readFlowItems_item hcomma rfl hend hkey hread hread'⟩
termination_by structural items => items

/-- The tokens of entries after the first. -/
theorem says_of_readFlowEntries :
    ∀ (entries : List (String × Datum)) (fuel : Nat)
    {ts rest : List Token} {t : Token} {r : NodeReader} {start : Mark},
    ts.map (·.kind) = flowEntryKinds entries → r.tokens = ts ++ t :: rest →
    t.kind = .flowMappingEnd → 2 * ts.length + 1 ≤ fuel →
    ∃ nodes, SaysEntries entries nodes ∧
      (readFlowEntries fuel start false).run r =
        ((nodes, true), { r with tokens := rest })
  | [], fuel, ts, rest, t, r, start, hts, hr, hk, hfuel => by
      obtain rfl := List.map_eq_nil_iff.1 hts
      obtain ⟨fuel, rfl⟩ : ∃ k, fuel = k + 1 := ⟨fuel - 1, by omega⟩
      exact ⟨[], .nil, run_readFlowEntries_end hr hk⟩
  | (key, d) :: entries, fuel, ts, rest, t, r, start, hts, hr, hk, hfuel => by
      obtain ⟨t₀, ts, rfl, hk₀, hts⟩ := List.map_eq_cons_iff.1 hts
      obtain ⟨t₁, ts, rfl, hk₁, hts⟩ := List.map_eq_cons_iff.1 hts
      obtain ⟨t₂, ts, rfl, hk₂, hts⟩ := List.map_eq_cons_iff.1 hts
      obtain ⟨t₃, own, others, rfl, hk₃, hown, hothers⟩ := exists_eq_entry hts
      obtain ⟨t₄, own, rfl, -, -, hends⟩ := exists_eq_cons_of_flowKinds hown
      simp only [List.length_cons, List.length_append] at hfuel
      obtain ⟨fuel, rfl⟩ : ∃ k, fuel = k + 1 + 1 := ⟨fuel - 2, by omega⟩
      obtain ⟨n, hsays, hread⟩ := says_of_readFlowNode d (fuel + 1)
        (r := { r with tokens := t₄ :: own ++ (others ++ t :: rest) }) hown rfl
        (by simp only [List.length_cons]; omega)
      obtain ⟨nodes, hsays', hread'⟩ :=
        says_of_readFlowEntries entries (fuel + 1)
        (r := { r with tokens := others ++ t :: rest }) hothers rfl hk
          (by omega)
      have hcomma : (separator false .flowMappingEnd .mappingSeparatorExpected
          (.flowMapping, start)).run r =
            ((), { r with
              tokens := t₁ :: t₂ :: t₃ :: t₄ :: own ++ (others ++ t :: rest) }) :=
        run_separator_comma (by simpa using hr) hk₀ (by simp)
      exact ⟨_, .cons (Datum.says_doubleQuoted _ _) hsays hsays',
        run_readFlowEntries_entry hcomma rfl hk₁ hk₂ hk₃ hends hread hread'⟩
termination_by structural entries => entries

end

end Yaml.NodeReader

namespace Yaml.Document

/-- The text of a map is one document, whose root says the map. -/
theorem ofText_yaml (entries : List (String × Datum)) :
    ∃ root, (Datum.map entries).Says root ∧
      Document.ofText (Datum.map entries).yaml = ⟨root, none, false⟩ := by
  obtain ⟨list, htokens, hlist⟩ := Lexer.ofText_yaml entries
  have hread : ∀ (ts rest : List Token) (r : NodeReader) (fuel : Nat),
      ts.map (·.kind) = (Datum.map entries).blockKinds false →
        r.tokens = ts ++ rest →
      2 * ts.length + 2 ≤ fuel → ∃ n, (Datum.map entries).Says n ∧
        (NodeReader.readNode fuel true false).run r =
          (n, { r with tokens := rest }) :=
    fun _ _ _ fuel hts hr hfuel =>
      NodeReader.says_of_readNode (.map entries) fuel hts hr hfuel nofun
  cases entries with
  | nil => exact ofText_of_readNode htokens hlist (by simp) rfl hread
  | cons e entries => exact ofText_of_readNode htokens hlist (by simp) rfl hread

/-- So is its JSON text, if both formats agree about what stands in it. -/
theorem ofText_json (entries : List (String × Datum))
    (hshared : Datum.AreSharedEntries entries) :
    ∃ root, (Datum.map entries).Says root ∧
      Document.ofText (Datum.map entries).json = ⟨root, none, false⟩ := by
  obtain ⟨list, htokens, hlist⟩ := Lexer.ofText_json entries hshared
  have hread : ∀ (ts rest : List Token) (r : NodeReader) (fuel : Nat),
      ts.map (·.kind) = (Datum.map entries).flowKinds → r.tokens = ts ++ rest →
      2 * ts.length + 2 ≤ fuel → ∃ n, (Datum.map entries).Says n ∧
        (NodeReader.readNode fuel true false).run r =
          (n, { r with tokens := rest }) :=
    fun _ _ _ fuel hts hr hfuel =>
      NodeReader.says_of_readFlowNode (.map entries) fuel hts hr hfuel
  cases entries with
  | nil => exact ofText_of_readNode htokens hlist (by simp) rfl hread
  | cons e entries => exact ofText_of_readNode htokens hlist (by simp) rfl hread

end Yaml.Document

end DaggerWorkflows
