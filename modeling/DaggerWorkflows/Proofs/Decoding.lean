import DaggerWorkflows.Yaml.Source.OfNode
import Mathlib.Data.List.Forall2

/-!
# What reading a document gives

Reading goes through three layers: the document at hand, the number of aliases
followed so far, and complaints. `Decoding.Gives` takes them off at once. One
lemma for each way of putting readings together says what the whole gives from
what its parts give; then come the readings of a place. A reading that succeeds
has met nodes of the right shape, where an alias is as good as its target:
`Document.follow` is that target, and `entriesOf`, `itemsOf` and `textOf?` are
what a node holds once aliases are followed.
-/

namespace DaggerWorkflows.Yaml

namespace Document

/-- The node itself, or the one that it is an alias of. -/
def follow (d : Document) : Node → Node
  | .reference anchor _ => (d.target? anchor).getD .missing
  | n => n

/-- The entries of a mapping; anything else has none. -/
def entriesOf (d : Document) (n : Node) : List (Node × Node) :=
  match d.follow n with
  | .mapping entries _ _ _ => entries
  | _ => []

/-- The items of a sequence; anything else has none. -/
def itemsOf (d : Document) (n : Node) : List Node :=
  match d.follow n with
  | .sequence items _ _ _ => items
  | _ => []

/-- The text of a scalar. -/
def textOf? (d : Document) (n : Node) : Option String :=
  match d.follow n with
  | .scalar text _ _ _ => some text
  | _ => none

end Document

namespace Node

/-- Whether a node is an alias. -/
def IsReference : Node → Prop
  | .reference _ _ => True
  | _ => False

/-- Whether a node is a scalar or a collection. -/
def IsContent : Node → Prop
  | .scalar .. | .sequence .. | .mapping .. => True
  | _ => False

mutual

theorem isContent_of_mem_anchored :
    ∀ {n : Node} {e : Nat × Node}, e ∈ n.anchored → e.2.IsContent
  | .missing, _, h | .void _, _, h | .reference _ _, _, h => by
      simp [anchored] at h
  | .scalar .., _, h => by
      simp only [anchored, Option.mem_toList, Option.map_eq_some_iff] at h
      obtain ⟨_, _, rfl⟩ := h
      trivial
  | .sequence items closed p mark, e, h => by
      simp only [anchored, List.mem_append, Option.mem_toList,
        Option.map_eq_some_iff] at h
      rcases h with ⟨_, _, rfl⟩ | h
      · trivial
      · exact isContent_of_mem_anchoredItems h
  | .mapping entries closed p mark, e, h => by
      simp only [anchored, List.mem_append, Option.mem_toList,
        Option.map_eq_some_iff] at h
      rcases h with ⟨_, _, rfl⟩ | h
      · trivial
      · exact isContent_of_mem_anchoredEntries h

theorem isContent_of_mem_anchoredItems : ∀ {items : List Node} {e : Nat × Node},
    e ∈ anchoredItems items → e.2.IsContent
  | [], _, h => by simp [anchoredItems] at h
  | n :: items, e, h => by
      rw [anchoredItems, List.mem_append] at h
      rcases h with h | h
      · exact isContent_of_mem_anchored h
      · exact isContent_of_mem_anchoredItems h

theorem isContent_of_mem_anchoredEntries : ∀ {entries : List (Node × Node)}
    {e : Nat × Node}, e ∈ anchoredEntries entries → e.2.IsContent
  | [], _, h => by simp [anchoredEntries] at h
  | (key, value) :: entries, e, h => by
      rw [anchoredEntries, List.mem_append, List.mem_append] at h
      rcases h with (h | h) | h
      · exact isContent_of_mem_anchored h
      · exact isContent_of_mem_anchored h
      · exact isContent_of_mem_anchoredEntries h

end

end Node

namespace Document

theorem isContent_of_target? {d : Document} {anchor : Nat} {target : Node}
    (h : d.target? anchor = some target) : target.IsContent := by
  obtain ⟨e, he, rfl⟩ := Option.map_eq_some_iff.1 h
  exact Node.isContent_of_mem_anchored
    (List.mem_reverse.1 (List.mem_of_find?_eq_some he))

/-- An alias stands for a node that is none, so following twice is following
once. -/
theorem follow_follow (d : Document) (n : Node) :
    d.follow (d.follow n) = d.follow n := by
  cases n with
  | reference anchor mark =>
      cases htarget : d.target? anchor with
      | none => simp [follow, htarget]
      | some target =>
          have hcontent := isContent_of_target? htarget
          simp only [follow, htarget, Option.getD_some]
          cases target with
          | missing | void | reference => exact hcontent.elim
          | _ => rfl
  | _ => rfl

theorem textOf?_follow (d : Document) (n : Node) :
    d.textOf? (d.follow n) = d.textOf? n := by
  rw [textOf?, follow_follow, textOf?]

end Document

theorem exists_of_forall₂ {α β : Type} {R : α → β → Prop} {as : List α}
    {bs : List β} (h : List.Forall₂ R as bs) {a : α} (ha : a ∈ as) :
    ∃ b ∈ bs, R a b := by
  induction h with
  | nil => cases ha
  | cons hab _ ih =>
      rcases List.mem_cons.1 ha with rfl | ha
      · exact ⟨_, by simp, hab⟩
      · obtain ⟨b, hb, hab⟩ := ih ha
        exact ⟨b, by simp [hb], hab⟩

namespace Decoding

variable {β γ : Type} {d : Document} {n n' : Nat} {b : β}

/-- A reading of a document that goes well, from `n` aliases followed to
`n'`. -/
def Gives (d : Document) (n : Nat) (act : Decoding β) (b : β) (n' : Nat) :
    Prop :=
  (act.run d).run n = .ok (b, n')

theorem gives_pure {a : β} : Gives d n (pure a) b n' ↔ a = b ∧ n = n' := by
  rw [Gives, ReaderT.run_pure, StateT.run_pure]
  simp [pure, Except.pure]

theorem gives_bind {act : Decoding γ} {f : γ → Decoding β} :
    Gives d n (act >>= f) b n' ↔ ∃ a k, Gives d n act a k ∧
    Gives d k (f a) b n' := by
  simp only [Gives, ReaderT.run_bind, StateT.run_bind]
  cases h : (act.run d).run n with
  | error e => simp [bind, Except.bind]
  | ok r =>
      constructor
      · intro h'
        exact ⟨r.1, r.2, rfl, h'⟩
      · rintro ⟨a, k, hr, h'⟩
        cases hr
        exact h'

theorem gives_map {act : Decoding γ} {f : γ → β} :
    Gives d n (f <$> act) b n' ↔ ∃ a, Gives d n act a n' ∧ f a = b := by
  rw [← bind_pure_comp, gives_bind]
  simp only [gives_pure]
  constructor
  · rintro ⟨a, k, ha, rfl, rfl⟩
    exact ⟨a, ha, rfl⟩
  · rintro ⟨a, ha, rfl⟩
    exact ⟨a, n', ha, rfl, rfl⟩

theorem not_gives_throw {e : Complaint} : ¬ Gives d n (throw e) b n' := nofun

theorem gives_read {f : Document} : Gives d n read f n' ↔ d = f ∧ n = n' := by
  have hrun : ((read : Decoding Document).run d).run n = .ok (d, n) := rfl
  rw [Gives, hrun]
  simp

theorem gives_locate {p : Place} {m : Mark} {act : Decoding β} :
    Gives d n (p.locate m act) b n' ↔ Gives d n act b n' := by
  have hrun : ((p.locate m act).run d).run n =
      tryCatch ((act.run d).run n) fun c => throw (c.locate p.path m) := rfl
  rw [Gives, Gives, hrun]
  cases h : (act.run d).run n with
  | error e => exact iff_of_false nofun nofun
  | ok r => rfl

/-- Reading one thing after the other gives what reading each of them gives. -/
theorem forall₂_of_gives_mapM {α : Type} {f : α → Decoding β} {as : List α}
    {bs : List β} (h : Gives d n (as.mapM f) bs n') :
    List.Forall₂ (fun a b => ∃ k k', Gives d k (f a) b k') as bs := by
  induction as generalizing bs n with
  | nil =>
      rw [List.mapM_nil, gives_pure] at h
      exact h.1 ▸ .nil
  | cons a as ih =>
      rw [List.mapM_cons, gives_bind] at h
      obtain ⟨b, k, hb, h⟩ := h
      obtain ⟨bs', k', hbs, h⟩ := gives_bind.1 h
      obtain ⟨rfl, rfl⟩ := gives_pure.1 h
      exact .cons ⟨n, k, hb⟩ (ih hbs)

theorem gives_mapM_cons {α : Type} {f : α → Decoding β} {a : α} {as : List α}
    {bs : List β} {k : Nat} (h : Gives d n (f a) b k)
    (hs : Gives d k (as.mapM f) bs n') :
    Gives d n ((a :: as).mapM f) (b :: bs) n' := by
  rw [List.mapM_cons]
  exact gives_bind.2
    ⟨b, k, h, gives_bind.2 ⟨bs, n', hs, gives_pure.2 ⟨rfl, rfl⟩⟩⟩

end Decoding

namespace Place

open Decoding

variable {β : Type} {d : Document} {n n' : Nat} {p : Place}

theorem not_gives_unexpected {b : β} {wanted : Wanted} :
    ¬ Gives d n (p.unexpected wanted) b n' := by
  unfold unexpected
  split <;> exact not_gives_throw

theorem not_gives_cut {b : β} : ¬ Gives d n cut b n' := by
  unfold cut
  rw [gives_bind]
  rintro ⟨f, k, -, h⟩
  split at h <;> exact not_gives_throw h

/-- Once resolved, a place has the node that it is an alias of. If it was none,
it is what it was, and not missing. -/
theorem gives_resolve_cases {q : Place} (h : Gives d n p.resolve q n') :
    q.node = d.follow p.node ∧
    (q.node.IsContent ∨ ∃ mark, q.node = .void mark) := by
  unfold resolve at h
  split at h
  · exact absurd h not_gives_cut
  · next anchor mark hnode =>
      obtain ⟨f, k, hf, h⟩ := gives_bind.1 h
      obtain ⟨rfl, rfl⟩ := gives_read.1 hf
      obtain ⟨count, k, -, h⟩ := gives_bind.1 h
      obtain ⟨-, k, -, h⟩ := gives_bind.1 h
      dsimp only at h
      split at h
      · obtain ⟨_, _, hthrow, -⟩ := gives_bind.1 h
        exact absurd hthrow not_gives_throw
      · simp only [hnode, Document.follow]
        cases htarget : d.target? anchor with
        | none =>
            rw [htarget] at h
            exact absurd h not_gives_throw
        | some target =>
            rw [htarget] at h
            obtain ⟨rfl, -⟩ := gives_pure.1 h
            exact ⟨rfl, .inl (Document.isContent_of_target? htarget)⟩
  · next hmissing href =>
      obtain ⟨rfl, -⟩ := gives_pure.1 h
      cases hnode : p.node with
      | missing => exact absurd hnode hmissing
      | reference anchor mark => exact absurd hnode (href anchor mark)
      | void mark => exact ⟨rfl, .inr ⟨mark, rfl⟩⟩
      | _ => exact ⟨rfl, .inl trivial⟩

/-- A node that is no alias and not missing stands for itself. -/
theorem gives_resolve (hmissing : p.node ≠ .missing)
    (halias : ¬ p.node.IsReference) :
    Gives d n p.resolve p n := by
  obtain ⟨path, depth, node⟩ := p
  cases node with
  | missing => exact absurd rfl hmissing
  | reference anchor mark => exact absurd trivial halias
  | _ => exact gives_pure.2 ⟨rfl, rfl⟩

theorem node_of_gives_resolve {q : Place} (h : Gives d n p.resolve q n') :
    q.node = d.follow p.node :=
  (gives_resolve_cases h).1

theorem textOf?_of_gives_readScalar {wanted : Wanted} {s : String}
    (h : Gives d n (p.readScalar wanted) s n') : d.textOf? p.node = some s := by
  obtain ⟨q, k, hq, h⟩ := gives_bind.1 h
  have hfollow : d.follow p.node = q.node := (node_of_gives_resolve hq).symm
  cases hnode : q.node with
  | scalar text style properties mark =>
      simp only [hnode] at h
      obtain ⟨rfl, -⟩ := gives_pure.1 h
      simp only [Document.textOf?, hfollow, hnode]
  | _ =>
      simp only [hnode] at h
      exact absurd h not_gives_unexpected

/-- A mapping is read from all its entries; nothing at all is read like an empty
one. -/
theorem entriesOf_of_gives_readEntries {wanted : Wanted}
    {read : List (Place × Place) → Decoding β} {b : β}
    (h : Gives d n (p.readEntries wanted read) b n') :
    ∃ k places, Gives d k (read places) b n' ∧
      places.map (fun e => (e.1.node, e.2.node)) = d.entriesOf p.node := by
  obtain ⟨q, k, hq, h⟩ := gives_bind.1 h
  have hfollow : d.follow p.node = q.node := (node_of_gives_resolve hq).symm
  cases hnode : q.node with
  | mapping entries closed properties mark =>
      simp only [hnode] at h
      obtain ⟨depth, k, -, h⟩ := gives_bind.1 (gives_locate.1 h)
      exact ⟨k, _, h, by
        simp [Document.entriesOf, hfollow, hnode, Function.comp_def]⟩
  | _ =>
      simp only [hnode] at h
      split at h
      · exact ⟨k, [], gives_locate.1 h, by
          simp [Document.entriesOf, hfollow, hnode]⟩
      · exact absurd h not_gives_unexpected

/-- A sequence is read from all its items; nothing at all is read like an empty
one. -/
theorem itemsOf_of_gives_readItems {read : Place → Decoding β} {bs : List β}
    (h : Gives d n (p.readItems read) bs n') :
    ∃ places : List Place, places.map (·.node) = d.itemsOf p.node ∧
      List.Forall₂ (fun q b => ∃ k k', Gives d k (read q) b k') places bs := by
  obtain ⟨q, k, hq, h⟩ := gives_bind.1 h
  have hfollow : d.follow p.node = q.node := (node_of_gives_resolve hq).symm
  cases hnode : q.node with
  | sequence items closed properties mark =>
      simp only [hnode] at h
      obtain ⟨depth, k, -, h⟩ := gives_bind.1 (gives_locate.1 h)
      have hall := forall₂_of_gives_mapM h
      refine ⟨items.zipIdx.map fun e => ⟨.item q.path e.2, depth, e.1⟩, ?_, ?_⟩
      · simp only [Document.itemsOf, hfollow, hnode, List.map_map]
        exact List.zipIdx_map_fst 0 items
      · exact List.forall₂_map_left_iff.2 hall
  | _ =>
      simp only [hnode] at h
      split at h
      · obtain ⟨rfl, -⟩ := gives_pure.1 h
        exact ⟨[], by simp [Document.itemsOf, hfollow, hnode], .nil⟩
      · exact absurd h not_gives_unexpected

end Place

namespace Document

/-- A document is read from its root. -/
theorem gives_of_decode {β : Type} {d : Document} {read : Place → Decoding β}
    {b : β} (h : d.decode read = .ok b) :
    ∃ n, Decoding.Gives d 0 (read ⟨.root, Place.maxDepth, d.root⟩) b n := by
  unfold decode at h
  cases hrun : ((read ⟨.root, Place.maxDepth, d.root⟩).run d).run 0 with
  | error e =>
      rw [hrun] at h
      cases h
  | ok r =>
      rw [hrun] at h
      cases hfault : d.fault with
      | some f =>
          rw [hfault] at h
          cases h
      | none =>
          rw [hfault] at h
          cases hnext : d.hasNext with
          | true =>
              rw [hnext] at h
              cases h
          | false =>
              rw [hnext] at h
              cases h
              exact ⟨r.2, hrun⟩

theorem decode_of_gives {β : Type} {d : Document} {read : Place → Decoding β}
    {b : β} {n : Nat} (hfault : d.fault = none) (hnext : d.hasNext = false)
    (h : Decoding.Gives d 0 (read ⟨.root, Place.maxDepth, d.root⟩) b n) :
    d.decode read = .ok b := by
  have hrun : ((read ⟨.root, Place.maxDepth, d.root⟩).run d).run 0 =
    .ok (b, n) := h
  simp only [decode, hrun, bind, Except.bind, hfault, hnext, Bool.false_eq_true,
    if_false]
  rfl

end Document

end DaggerWorkflows.Yaml
