import DaggerWorkflows.Proofs.Correspondence
import DaggerWorkflows.Proofs.Decoding

/-!
# What a node means

The value of a node is what is left of it when aliases are followed and scalars
are understood. Reading a value counts the aliases and minds how deep
collections lie; `Means` knows nothing of that, so it says what a value has to
do with its node and not how it is come by.
-/

namespace DaggerWorkflows.Yaml

/-- A value is what a node of a document stands for. -/
inductive Means (d : Document) : Node → Value → Prop where
  | scalar {n : Node} {text : String} {style : ScalarStyle}
      {properties : Properties} {mark : Mark} {a : Atom}
      (h : d.follow n = .scalar text style properties mark)
      (ha : Atom.ofScalar text style properties.tag = .ok a) :
      Means d n (.atom a)
  | void {n : Node} {mark : Mark} (h : d.follow n = .void mark) :
      Means d n (.atom .null)
  | sequence {n : Node} {nodes : List Node} {closed : Bool}
      {properties : Properties} {mark : Mark} {items : List Value}
      (h : d.follow n = .sequence nodes closed properties mark)
      (hitems : List.Forall₂ (Means d) nodes items) :
      Means d n (.sequence items)
  | mapping {n : Node} {nodes : List (Node × Node)} {closed : Bool}
      {properties : Properties} {mark : Mark} {entries : List (Value × Value)}
      (h : d.follow n = .mapping nodes closed properties mark)
      (hkeys : List.Forall₂ (Means d) (nodes.map (·.1)) (entries.map (·.1)))
      (hvalues : List.Forall₂ (Means d) (nodes.map (·.2)) (entries.map (·.2))) :
      Means d n (.map entries)

namespace Place

open Decoding

variable {d : Document} {n n' : Nat} {p : Place} {v : Value}

section Collections

variable {read : Path → Node → Decoding Value}
  (hread : ∀ path node k w k', Gives d k (read path node) w k' → Means d node w)

include hread

theorem means_of_gives_items {path : Path} {nodes : List Node}
    {items : List Value}
    (h : Gives d n (nodes.zipIdx.mapM fun (node, i) => read (.item path i) node)
      items n') :
    List.Forall₂ (Means d) nodes items := by
  rw [← List.zipIdx_map_fst 0 nodes, List.forall₂_map_left_iff]
  exact (forall₂_of_gives_mapM h).imp fun _ _ ⟨_, _, hitem⟩ =>
    hread _ _ _ _ _ hitem

theorem means_of_gives_entries {path : Path} {nodes : List (Node × Node)}
    {entries : List (Value × Value)}
    (h : Gives d n (nodes.mapM fun (key, value) => do
      let k ← read path key
      return (k, ← read (valuePath path key) value)) entries n') :
    List.Forall₂ (fun m e => Means d m.1 e.1 ∧ Means d m.2 e.2) nodes
      entries := by
  refine (forall₂_of_gives_mapM h).imp fun _ _ ⟨_, _, hentry⟩ => ?_
  obtain ⟨key, _, hkey, hentry⟩ := gives_bind.1 hentry
  obtain ⟨value, _, hvalue, hentry⟩ := gives_bind.1 hentry
  obtain ⟨rfl, -⟩ := gives_pure.1 hentry
  exact ⟨hread _ _ _ _ _ hkey, hread _ _ _ _ _ hvalue⟩

end Collections

theorem means_of_gives_valueWith
    {inside : Option (Path → Node → Decoding Value)}
    (hinside : ∀ read ∈ inside,
      ∀ path node k w k', Gives d k (read path node) w k' →
      Means d node w) (h : Gives d n (valueWith inside p) v n') :
    Means d p.node v := by
  obtain ⟨q, k, hq, h⟩ := gives_bind.1 h
  obtain ⟨hfollow, hstands⟩ := gives_resolve_cases hq
  dsimp only at h
  split at h
  · obtain ⟨_, _, hthrow, -⟩ := gives_bind.1 h
    exact absurd hthrow not_gives_throw
  · cases hnode : q.node with
    | scalar text style properties mark =>
        simp only [hnode] at h
        split at h
        · exact absurd h not_gives_throw
        · exact absurd h not_gives_throw
        · next atom _ hatom =>
            obtain ⟨rfl, -⟩ := gives_pure.1 h
            exact .scalar (hfollow.symm.trans hnode) hatom
    | sequence nodes closed properties mark =>
        cases inside with
        | none =>
            simp only [hnode] at h
            exact absurd h not_gives_throw
        | some read =>
            simp only [hnode] at h
            obtain ⟨items, k', hitems, h⟩ := gives_bind.1 h
            obtain ⟨rfl, -⟩ := gives_pure.1 h
            exact .sequence (hfollow.symm.trans hnode)
              (means_of_gives_items (hinside read rfl) hitems)
    | mapping nodes closed properties mark =>
        cases inside with
        | none =>
            simp only [hnode] at h
            exact absurd h not_gives_throw
        | some read =>
            simp only [hnode] at h
            obtain ⟨entries, k', hentries, h⟩ := gives_bind.1 h
            obtain ⟨rfl, -⟩ := gives_pure.1 h
            obtain ⟨hkeys, hvalues⟩ :=
              forall₂_pairs.1
                (means_of_gives_entries (hinside read rfl) hentries)
            exact .mapping (hfollow.symm.trans hnode) hkeys hvalues
    | void mark =>
        simp only [hnode] at h
        obtain ⟨rfl, -⟩ := gives_pure.1 h
        exact .void (hfollow.symm.trans hnode)
    | missing | reference =>
        -- An alias that was followed leads to neither.
        rw [hnode] at hstands
        rcases hstands with hcontent | ⟨_, hvoid⟩
        · exact hcontent.elim
        · cases hvoid

/-- However deep collections may lie, what is read of a node is its value. -/
theorem means_of_gives_valueAt {depth : Nat} {path : Path} {node : Node}
    (h : Gives d n (valueAt depth path node) v n') : Means d node v := by
  induction depth generalizing path node v n n' with
  | zero => exact means_of_gives_valueWith (fun read hread => by cases hread) h
  | succ depth ih =>
      refine means_of_gives_valueWith (fun read hread path node k w k' h => ?_)
        h
      cases hread
      exact ih h

end Place

end DaggerWorkflows.Yaml
