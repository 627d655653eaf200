import DaggerWorkflows.Proofs.FieldOrder
import DaggerWorkflows.Proofs.NodeValues

/-!
# Documents and the order of their keys

`Node.Reordered` relates nodes that differ in the order of the keys of mappings
and in where they stand. What has been read of the one can be read of the other,
as long as there are no aliases: an alias stands for the last node of its
anchor, and which node is the last is a matter of order.

That a reading of one document is as good as another one of another document is
said by `Decoding.Carries`, which goes through readings as they are put
together. The entries of a mapping are the one place where the order gets lost,
and `carries_mapM_reorders` is for them.
-/

namespace DaggerWorkflows.Yaml

/-! ## Nodes in another order -/

namespace Node

/-- Nodes that differ in the order of the keys of mappings, and in where they
stand. -/
inductive Reordered : Node → Node → Prop where
  | missing : Reordered .missing .missing
  | void (mark mark' : Mark) : Reordered (.void mark) (.void mark')
  | reference (anchor : Nat) (mark mark' : Mark) :
      Reordered (.reference anchor mark) (.reference anchor mark')
  | scalar (text : String) (style : ScalarStyle)
      {properties properties' : Properties}
      (htag : properties.tag = properties'.tag) (mark mark' : Mark) :
      Reordered (.scalar text style properties mark)
        (.scalar text style properties' mark')
  | sequence {items items' : List Node} (closed : Bool)
      {properties properties' : Properties}
      (htag : properties.tag = properties'.tag) (mark mark' : Mark)
      (hitems : List.Forall₂ Reordered items items') :
      Reordered (.sequence items closed properties mark)
        (.sequence items' closed properties' mark')
  | mapping {entries between entries' : List (Node × Node)} (closed : Bool)
      {properties properties' : Properties}
      (htag : properties.tag = properties'.tag) (mark mark' : Mark)
      (hperm : entries.Perm between)
      (hkeys : List.Forall₂ Reordered (between.map (·.1)) (entries'.map (·.1)))
      (hvalues : List.Forall₂ Reordered (between.map (·.2))
        (entries'.map (·.2))) :
      Reordered (.mapping entries closed properties mark)
        (.mapping entries' closed properties' mark')

/-- A mapping with such entries stands somewhere in a node. -/
inductive Holds : Node → List (Node × Node) → Prop where
  | here (entries : List (Node × Node)) (closed : Bool)
      (properties : Properties) (mark : Mark) :
      Holds (.mapping entries closed properties mark) entries
  | item {n : Node} {items : List Node} {entries : List (Node × Node)}
      (hmem : n ∈ items) (h : Holds n entries) (closed : Bool)
      (properties : Properties) (mark : Mark) :
      Holds (.sequence items closed properties mark) entries
  | key {e : Node × Node} {outer entries : List (Node × Node)}
      (hmem : e ∈ outer) (h : Holds e.1 entries) (closed : Bool)
      (properties : Properties) (mark : Mark) :
      Holds (.mapping outer closed properties mark) entries
  | value {e : Node × Node} {outer entries : List (Node × Node)}
      (hmem : e ∈ outer) (h : Holds e.2 entries) (closed : Bool)
      (properties : Properties) (mark : Mark) :
      Holds (.mapping outer closed properties mark) entries

theorem Reordered.tag {n n' : Node} (h : n.Reordered n') :
    n.properties.tag = n'.properties.tag := by
  cases h with
  | missing | void | reference => rfl
  | scalar _ _ htag => exact htag
  | sequence _ htag => exact htag
  | mapping _ htag => exact htag

theorem Reordered.symm {n n' : Node} (h : n.Reordered n') : n'.Reordered n := by
  refine @Reordered.rec (fun n n' _ => n'.Reordered n)
    (fun items items' _ => List.Forall₂ Reordered items' items)
    ?missing ?void ?reference ?scalar ?sequence ?mapping ?nil ?cons n n' h
  case missing => exact .missing
  case void => exact fun mark mark' => .void mark' mark
  case reference => exact fun anchor mark mark' => .reference anchor mark' mark
  case scalar =>
    intro text style _ _ htag mark mark'
    exact .scalar text style htag.symm mark' mark
  case sequence =>
    intro _ _ closed _ _ htag mark mark' _ hitems
    exact .sequence closed htag.symm mark' mark hitems
  case mapping =>
    intro _ _ _ closed _ _ htag mark mark' hperm _ _ hkeys hvalues
    obtain ⟨between, hperm', hpairs⟩ :=
      Reorders.of_perm (forall₂_pairs.2 ⟨hkeys, hvalues⟩) hperm.symm
    obtain ⟨hkeys', hvalues'⟩ := forall₂_pairs.1 hpairs
    exact .mapping closed htag.symm mark' mark hperm' hkeys' hvalues'
  case nil => exact .nil
  case cons => exact fun _ _ h hs => .cons h hs

theorem Reordered.missing_iff {n n' : Node} (h : n.Reordered n') :
    n = .missing ↔ n' = .missing := by
  cases h <;> simp

theorem Reordered.isReference_iff {n n' : Node} (h : n.Reordered n') :
    n.IsReference ↔ n'.IsReference := by
  cases h <;> simp [IsReference]

end Node

/-- No two keys of a mapping in a node mean the same. -/
def Document.KeysDistinct (d : Document) (n : Node) : Prop :=
  ∀ entries, n.Holds entries →
    entries.Pairwise fun a b => ∀ v, Means d a.1 v → ¬ Means d b.1 v

/-! ## Readings that carry over -/

namespace Decoding

variable {α β γ δ : Type} {d d' : Document}

/-- Whatever one reading gives that is wanted, another reading gives something
that corresponds to it, without following aliases. -/
def Carries (d d' : Document) (wanted : β → Prop) (R : β → γ → Prop)
    (act : Decoding β) (act' : Decoding γ) : Prop :=
  ∀ n b n', Gives d n act b n' → wanted b →
    ∃ b', R b b' ∧ ∀ k, Gives d' k act' b' k

/-- Anything is wanted. -/
abbrev Any : β → Prop := fun _ => True

variable {wanted : β → Prop} {R : β → γ → Prop} {act : Decoding β}
  {act' : Decoding γ}

theorem carries_pure {b : β} {b' : γ} (h : R b b') :
    Carries d d' wanted R (pure b) (pure b') := by
  intro n a n' ha _
  obtain ⟨rfl, -⟩ := gives_pure.1 ha
  exact ⟨b', h, fun k => gives_pure.2 ⟨rfl, rfl⟩⟩

theorem carries_throw {e : Complaint} : Carries d d' wanted R (throw e) act' :=
  fun _ _ _ h => absurd h not_gives_throw

theorem Carries.mono {wanted' : β → Prop} (h : Carries d d' wanted R act act')
    (hwanted : ∀ b, wanted' b → wanted b) : Carries d d' wanted' R act act' :=
  fun n b n' hb hb' => h n b n' hb (hwanted b hb')

theorem carries_bind {S : α → δ → Prop} {first : Decoding α}
    {first' : Decoding δ} {f : α → Decoding β} {f' : δ → Decoding γ}
    (hfirst : Carries d d' Any S first first')
    (h : ∀ a a', S a a' → Carries d d' wanted R (f a) (f' a')) :
    Carries d d' wanted R (first >>= f) (first' >>= f') := by
  intro n b n' hb hwanted
  obtain ⟨a, k, ha, hb⟩ := gives_bind.1 hb
  obtain ⟨a', hS, ha'⟩ := hfirst _ _ _ ha trivial
  obtain ⟨b', hR, hb'⟩ := h a a' hS _ _ _ hb hwanted
  exact ⟨b', hR, fun k => gives_bind.2 ⟨a', k, ha' k, hb' k⟩⟩

theorem carries_locate {p p' : Place} {mark mark' : Mark}
    (h : Carries d d' wanted R act act') :
    Carries d d' wanted R (p.locate mark act) (p'.locate mark' act') := by
  intro n b n' hb hwanted
  obtain ⟨b', hR, hb'⟩ := h _ _ _ (gives_locate.1 hb) hwanted
  exact ⟨b', hR, fun k => gives_locate.2 (hb' k)⟩

theorem carries_pair {ε ζ : Type} {S : β → γ → Prop} {T : ε → ζ → Prop}
    {first : Decoding β} {first' : Decoding γ} {second : Decoding ε}
    {second' : Decoding ζ} (hfirst : Carries d d' Any S first first')
    (hsecond : Carries d d' Any T second second') :
    Carries d d' Any (fun x x' => S x.1 x'.1 ∧ T x.2 x'.2)
      (do let a ← first; return (a, ← second))
        (do let a ← first'; return (a, ← second')) :=
  carries_bind hfirst fun _ _ hS => carries_bind hsecond fun _ _ hT =>
    carries_pure ⟨hS, hT⟩

theorem exists_of_carries {f : α → Decoding β} {f' : δ → Decoding γ}
    {as : List α} {as' : List δ} {bs : List β}
    (hall :
      List.Forall₂ (fun a a' => Carries d d' wanted R (f a) (f' a')) as as')
    (hbs : List.Forall₂ (fun a b => ∃ k k', Gives d k (f a) b k') as bs)
    (hwanted : ∀ b ∈ bs, wanted b) :
    ∃ bs', List.Forall₂ R bs bs' ∧ ∀ k, Gives d' k (as'.mapM f') bs' k := by
  induction hall generalizing bs with
  | nil =>
      cases hbs
      exact ⟨[], .nil, fun k => gives_pure.2 ⟨rfl, rfl⟩⟩
  | cons ha _ ih =>
      cases hbs with
      | cons hb hbs =>
          obtain ⟨k, k', hb⟩ := hb
          obtain ⟨b', hR, hb'⟩ := ha _ _ _ hb (hwanted _ List.mem_cons_self)
          obtain ⟨bs', hRs, hbs'⟩ := ih hbs fun b hmem =>
            hwanted b (List.mem_cons_of_mem _ hmem)
          exact ⟨b' :: bs', .cons hR hRs, fun k =>
            gives_mapM_cons (hb' k) (hbs' k)⟩

theorem carries_mapM {f : α → Decoding β} {f' : δ → Decoding γ} {as : List α}
    {as' : List δ}
    (h : List.Forall₂ (fun a a' => Carries d d' wanted R (f a) (f' a'))
      as as') :
    Carries d d' (fun bs => ∀ b ∈ bs, wanted b) (List.Forall₂ R) (as.mapM f)
      (as'.mapM f') :=
  fun _ _ _ hbs hwanted =>
    exists_of_carries h (forall₂_of_gives_mapM hbs) hwanted

/-- What has been read one after the other can be read in another order. -/
theorem carries_mapM_reorders {f : α → Decoding β} {f' : δ → Decoding γ}
    {as : List α} {as' : List δ}
    (h : Reorders (fun a a' => Carries d d' Any R (f a) (f' a')) as as') :
    Carries d d' Any (Reorders R) (as.mapM f) (as'.mapM f') := by
  intro n bs n' hbs _
  obtain ⟨between, hperm, hall⟩ := h
  obtain ⟨bs₁, hbetween, hperm'⟩ :=
    List.perm_comp_forall₂ hperm.symm (forall₂_of_gives_mapM hbs)
  obtain ⟨bs', hRs, hbs'⟩ := exists_of_carries hall hbetween fun _ _ => trivial
  exact ⟨bs', ⟨bs₁, hperm'.symm, hRs⟩, hbs'⟩

end Decoding

/-! ## Readings of places -/

namespace Place

open Decoding

/-- Places as deep as one another, with nodes that differ in the order of their
keys, none of which comes twice. -/
structure Reordered (d : Document) (p p' : Place) : Prop where
  depth : p.depth = p'.depth
  node : p.node.Reordered p'.node
  distinct : d.KeysDistinct p.node

variable {β γ : Type} {d d' : Document} {p p' : Place} {wanted : β → Prop}
  {R : β → γ → Prop}

theorem not_reference_of_gives_resolve (hanchors : d.root.anchored = [])
    {n n' : Nat} {q : Place} (h : Gives d n p.resolve q n') :
    p.node ≠ .missing ∧ ¬ p.node.IsReference := by
  obtain ⟨hfollow, hstands⟩ := gives_resolve_cases h
  cases hnode : p.node with
  | missing =>
      rw [hfollow, hnode] at hstands
      rcases hstands with hcontent | ⟨mark, hvoid⟩
      · exact hcontent.elim
      · cases hvoid
  | reference anchor mark =>
      have htarget : d.target? anchor = none := by
        rw [Document.target?, hanchors]
        rfl
      rw [hfollow, hnode, Document.follow, htarget] at hstands
      rcases hstands with hcontent | ⟨mark, hvoid⟩
      · exact hcontent.elim
      · cases hvoid
  | _ =>
      refine ⟨?_, id⟩
      intro h
      cases h

/-- Without anchors a place is what is looked at. -/
theorem carries_resolve_self (hanchors : d.root.anchored = [])
    (hp : p.Reordered d p') :
    Carries d d' Any
      (fun q q' => (q = p ∧ q' = p') ∧ p.node ≠ .missing ∧ ¬ p.node.IsReference)
      p.resolve p'.resolve := by
  intro n q n' hq _
  obtain ⟨hmissing, halias⟩ := not_reference_of_gives_resolve hanchors hq
  have hself : Gives d n p.resolve p n := gives_resolve hmissing halias
  obtain rfl : p = q := by
    rw [Gives, hself] at hq
    cases hq
    rfl
  exact ⟨p', ⟨⟨rfl, rfl⟩, hmissing, halias⟩, fun k => gives_resolve
    (mt hp.node.missing_iff.2 hmissing) (mt hp.node.isReference_iff.2 halias)⟩

theorem carries_resolve (hanchors : d.root.anchored = [])
    (hp : p.Reordered d p') {f : Place → Decoding β} {f' : Place → Decoding γ}
    (h : p.node ≠ .missing → ¬ p.node.IsReference →
      Carries d d' wanted R (f p) (f' p')) :
    Carries d d' wanted R (p.resolve >>= f) (p'.resolve >>= f') := by
  refine carries_bind (carries_resolve_self hanchors hp) ?_
  rintro _ _ ⟨⟨rfl, rfl⟩, hmissing, halias⟩
  exact h hmissing halias

theorem carries_unexpected {wanted' : Wanted} {act' : Decoding γ} :
    Carries d d' wanted R (p.unexpected wanted') act' :=
  fun _ _ _ h => absurd h not_gives_unexpected

/-- Where nothing is as good as something empty. -/
theorem carries_ifEmpty {wanted' : Wanted} {act : Decoding β}
    {act' : Decoding γ} (hempty : p.isEmpty = p'.isEmpty)
    (h : Carries d d' wanted R act act') :
    Carries d d' wanted R (if p.isEmpty then act else p.unexpected wanted')
      (if p'.isEmpty then act' else p'.unexpected wanted') := by
  rw [← hempty]
  cases p.isEmpty with
  | false => exact carries_unexpected
  | true => exact h

theorem carries_refuse {mark : Mark} {mismatch : Mismatch} {act' : Decoding γ} :
    Carries d d' wanted R (p.refuse mark mismatch) act' :=
  carries_throw

theorem carries_readScalar (hanchors : d.root.anchored = [])
    (hp : p.Reordered d p') (wanted' : Wanted) :
    Carries d d' Any Eq (p.readScalar wanted') (p'.readScalar wanted') := by
  refine carries_resolve hanchors hp fun _ _ => ?_
  obtain ⟨path, depth, node⟩ := p
  obtain ⟨path', depth', node'⟩ := p'
  obtain ⟨-, hnode, -⟩ := hp
  cases hnode with
  | scalar text => exact carries_pure rfl
  | _ => exact carries_unexpected

theorem carries_inner {mark mark' : Mark} (hdepth : p.depth = p'.depth) :
    Carries d d' Any Eq (p.inner mark) (p'.inner mark') := by
  unfold inner
  rw [← hdepth]
  cases p.depth with
  | zero => exact carries_throw
  | succ depth => exact carries_pure rfl

/-- The places of items: as deep as one another, and in their order. -/
theorem forall₂_items {items items' : List Node}
    (hitems : List.Forall₂ Node.Reordered items items')
    (hdistinct : ∀ n ∈ items, d.KeysDistinct n) (path path' : Path)
    (depth i : Nat) :
    List.Forall₂
      (fun e e' : Node × Nat => Reordered d ⟨.item path e.2, depth, e.1⟩
      ⟨.item path' e'.2, depth, e'.1⟩) (items.zipIdx i) (items'.zipIdx i) := by
  induction hitems generalizing i with
  | nil => exact .nil
  | cons hitem _ ih =>
      rw [List.zipIdx_cons, List.zipIdx_cons]
      refine .cons ⟨rfl, hitem, hdistinct _ List.mem_cons_self⟩ (ih ?_ (i + 1))
      exact fun n hn => hdistinct n (List.mem_cons_of_mem _ hn)

theorem keysDistinct_item {items : List Node} {closed : Bool}
    {properties : Properties} {mark : Mark}
    (h : d.KeysDistinct (.sequence items closed properties mark)) :
    ∀ n ∈ items, d.KeysDistinct n :=
  fun _ hn entries hentries =>
    h entries (.item hn hentries closed properties mark)

theorem keysDistinct_key {entries : List (Node × Node)} {closed : Bool}
    {properties : Properties} {mark : Mark}
    (h : d.KeysDistinct (.mapping entries closed properties mark)) :
    ∀ e ∈ entries, d.KeysDistinct e.1 ∧ d.KeysDistinct e.2 :=
  fun _ he =>
    ⟨fun inner hinner => h inner (.key he hinner closed properties mark),
    fun inner hinner => h inner (.value he hinner closed properties mark)⟩

theorem carries_readItems (hanchors : d.root.anchored = [])
    (hp : p.Reordered d p') {read : Place → Decoding β}
    {read' : Place → Decoding γ}
    (hread : ∀ q q' : Place, q.Reordered d q' →
      Carries d d' wanted R (read q) (read' q')) :
    Carries d d' (fun bs => ∀ b ∈ bs, wanted b) (List.Forall₂ R)
      (p.readItems read) (p'.readItems read') := by
  refine carries_resolve hanchors hp fun _ _ => ?_
  obtain ⟨path, depth, node⟩ := p
  obtain ⟨path', depth', node'⟩ := p'
  obtain ⟨rfl, hnode, hdistinct⟩ := hp
  cases hnode with
  | sequence closed htag mark mark' hitems =>
      refine carries_locate (carries_bind (carries_inner rfl) ?_)
      rintro depth _ rfl
      refine carries_mapM ?_
      exact (forall₂_items hitems (keysDistinct_item hdistinct) path path'
        depth 0).imp fun e e' he => hread _ _ he
  | _ => exact carries_ifEmpty rfl (carries_pure .nil)

/-- The places of entries: as deep as one another, in whatever order. -/
theorem reorders_entries {entries between entries' : List (Node × Node)}
    (hperm : entries.Perm between)
    (hkeys : List.Forall₂ Node.Reordered (between.map (·.1))
      (entries'.map (·.1)))
    (hvalues : List.Forall₂ Node.Reordered (between.map (·.2))
      (entries'.map (·.2)))
    (hdistinct : ∀ e ∈ entries, d.KeysDistinct e.1 ∧ d.KeysDistinct e.2) :
    Reorders (fun e e' => (e.1.Reordered e'.1 ∧ e.2.Reordered e'.2) ∧
      d.KeysDistinct e.1 ∧ d.KeysDistinct e.2) entries entries' := by
  refine ⟨between, hperm, ?_⟩
  have hboth : ∀ e ∈ between, d.KeysDistinct e.1 ∧ d.KeysDistinct e.2 :=
    fun e he => hdistinct e (hperm.mem_iff.2 he)
  exact ((List.forall₂_and_left _ _).2
    ⟨hboth, forall₂_pairs.2 ⟨hkeys, hvalues⟩⟩).imp fun _ _ h => ⟨h.2, h.1⟩

theorem carries_readEntries (hanchors : d.root.anchored = [])
    (hp : p.Reordered d p') {wanted' : Wanted}
    {read : List (Place × Place) → Decoding β}
    {read' : List (Place × Place) → Decoding γ}
    (hread : ∀ places places',
      Reorders (fun e e' => e.1.Reordered d e'.1 ∧ e.2.Reordered d e'.2)
      places places' → Carries d d' wanted R (read places) (read' places')) :
    Carries d d' wanted R (p.readEntries wanted' read)
      (p'.readEntries wanted' read') := by
  refine carries_resolve hanchors hp fun _ _ => ?_
  obtain ⟨path, depth, node⟩ := p
  obtain ⟨path', depth', node'⟩ := p'
  obtain ⟨rfl, hnode, hdistinct⟩ := hp
  cases hnode with
  | mapping closed htag mark mark' hperm hkeys hvalues =>
      refine carries_locate (carries_bind (carries_inner rfl) ?_)
      rintro depth _ rfl
      refine hread _ _
        ((reorders_entries hperm hkeys hvalues (keysDistinct_key hdistinct)).map
          ?_)
      rintro e e' ⟨⟨hkey, hvalue⟩, hkeyDistinct, hvalueDistinct⟩
      exact ⟨⟨rfl, hkey, hkeyDistinct⟩, rfl, hvalue, hvalueDistinct⟩
  | _ => exact carries_ifEmpty rfl (carries_locate (hread _ _ ⟨[], .nil, .nil⟩))

/-! ## Values -/

/-- Keys that mean different things have different values. -/
theorem nodup_of_keysDistinct {entries : List (Node × Node)}
    {values : List (Value × Value)}
    (hentries : entries.Pairwise fun a b =>
      ∀ v, Means d a.1 v → ¬ Means d b.1 v)
    (h : List.Forall₂ (fun e v => Means d e.1 v.1) entries values) :
    (values.map (·.1)).Nodup := by
  induction h with
  | nil => exact .nil
  | @cons e v entries values hv hvalues ih =>
      obtain ⟨hfirst, hrest⟩ := List.pairwise_cons.1 hentries
      rw [List.map_cons, List.nodup_cons]
      refine ⟨fun hmem => ?_, ih hrest⟩
      obtain ⟨v', hv', heq⟩ := List.mem_map.1 hmem
      obtain ⟨e', he', hmeans⟩ := exists_of_forall₂ hvalues.flip hv'
      exact hfirst e' he' v.1 hv (heq ▸ hmeans)

/-- The entries of a mapping, each read by itself, make a mapping in another
order. -/
theorem carries_mapping {inside : Path → Node → Decoding Value}
    {entries entries' : List (Node × Node)}
    (hmeans : ∀ path node k w k', Gives d k (inside path node) w k' →
      Means d node w)
    (hentries : Reorders (fun e e' => ∀ path path' : Path,
      Carries d d' Any Value.Reordered (inside path e.1) (inside path' e'.1) ∧
        Carries d d' Any Value.Reordered (inside path e.2) (inside path' e'.2))
          entries entries')
    (hdistinct : entries.Pairwise fun a b =>
      ∀ v, Means d a.1 v → ¬ Means d b.1 v) (path path' : Path) :
    Carries d d' Any Value.Reordered
      (do return .map (← entries.mapM fun e => do
        let key ← inside path e.1
        return (key, ← inside (valuePath path e.1) e.2)))
      (do return .map (← entries'.mapM fun e => do
        let key ← inside path' e.1
        return (key, ← inside (valuePath path' e.1) e.2))) := by
  intro n b n' hb _
  obtain ⟨values, k, hread, hb⟩ := gives_bind.1 hb
  obtain ⟨rfl, -⟩ := gives_pure.1 hb
  have hnodup : (values.map (·.1)).Nodup :=
    nodup_of_keysDistinct hdistinct
      ((means_of_gives_entries hmeans hread).imp fun _ _ h => h.1)
  have hall := hentries.imp fun e e' he => carries_pair (he path path').1
    (he (valuePath path e.1) (valuePath path' e'.1)).2
  obtain ⟨values', ⟨between, hperm, hpairs⟩, hread'⟩ :=
    carries_mapM_reorders hall n values k hread trivial
  obtain ⟨hkeys, hvalues⟩ := forall₂_pairs.1 hpairs
  exact ⟨.map values', .map hnodup hperm hkeys hvalues, fun k =>
    gives_bind.2 ⟨values', k, hread' k, gives_pure.2 ⟨rfl, rfl⟩⟩⟩

theorem carries_valueWith (hanchors : d.root.anchored = [])
    {inside : Option (Path → Node → Decoding Value)}
    (hmeans : ∀ read ∈ inside,
      ∀ path node k w k', Gives d k (read path node) w k' →
      Means d node w)
    (hinside : ∀ read ∈ inside, ∀ path path' node node', node.Reordered node' →
      d.KeysDistinct node →
      Carries d d' Any Value.Reordered (read path node) (read path' node'))
    (hp : p.Reordered d p') :
    Carries d d' Any Value.Reordered (valueWith inside p)
      (valueWith inside p') := by
  refine carries_resolve hanchors hp fun hmissing halias => ?_
  obtain ⟨path, depth, node⟩ := p
  obtain ⟨path', depth', node'⟩ := p'
  obtain ⟨-, hnode, hdistinct⟩ := hp
  dsimp only
  rw [← hnode.tag]
  split
  · exact carries_bind (S := fun _ _ => False) carries_refuse fun _ _ h =>
      h.elim
  · cases hnode with
    | missing => exact absurd rfl hmissing
    | void mark mark' => exact carries_pure (.atom .null)
    | reference anchor mark mark' => exact absurd trivial halias
    | scalar text style htag mark mark' =>
        dsimp only
        rw [← htag]
        split
        · exact carries_refuse
        · exact carries_refuse
        · next atom _ _ => exact carries_pure (.atom atom)
    | sequence closed htag mark mark' hitems =>
        cases inside with
        | none => exact carries_throw
        | some read =>
            have hall :=
              (forall₂_items hitems (keysDistinct_item hdistinct) path path'
                depth 0).imp
              fun e e' he =>
                hinside read rfl (.item path e.2) (.item path' e'.2) e.1 e'.1
                he.node he.distinct
            exact carries_bind ((carries_mapM hall).mono fun _ _ _ _ => trivial)
              fun _ _ hvalues => carries_pure (.sequence hvalues)
    | @mapping entries between entries' closed _ _ htag mark mark' hperm hkeys
        hvalues =>
        cases inside with
        | none => exact carries_throw
        | some read =>
            refine carries_mapping (hmeans read rfl) ?_
              (hdistinct entries (.here entries closed _ mark)) path path'
            refine (reorders_entries hperm hkeys hvalues
              (keysDistinct_key hdistinct)).imp ?_
            rintro e e' ⟨⟨hkey, hvalue⟩, hkeyDistinct, hvalueDistinct⟩
              path path'
            exact ⟨hinside read rfl path path' _ _ hkey hkeyDistinct,
              hinside read rfl path path' _ _ hvalue hvalueDistinct⟩

/-- The values of nodes that differ in the order of their keys differ in that
order. -/
theorem carries_valueAt (hanchors : d.root.anchored = []) (depth : Nat)
    (path path' : Path) {node node' : Node} (hnode : node.Reordered node')
    (hdistinct : d.KeysDistinct node) :
    Carries d d' Any Value.Reordered (valueAt depth path node)
      (valueAt depth path' node') := by
  induction depth generalizing path path' node node' with
  | zero => exact carries_valueWith hanchors nofun nofun ⟨rfl, hnode, hdistinct⟩
  | succ depth ih =>
      refine carries_valueWith hanchors ?_ ?_ ⟨rfl, hnode, hdistinct⟩
      · intro read hread path node k w k' h
        cases hread
        exact means_of_gives_valueAt h
      · intro read hread path path' node node' hnode hdistinct
        cases hread
        exact ih path path' hnode hdistinct

theorem carries_value (hanchors : d.root.anchored = [])
    (hp : p.Reordered d p') :
    Carries d d' Any Value.Reordered p.value p'.value := by
  unfold value
  rw [← hp.depth]
  exact carries_valueAt hanchors p.depth p.path p'.path hp.node hp.distinct

end Place

end DaggerWorkflows.Yaml
