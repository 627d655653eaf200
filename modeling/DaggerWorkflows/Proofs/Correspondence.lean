import Mathlib.Data.List.Forall2
import Mathlib.Data.List.Perm.Basic

/-!
# Lists that correspond

What is made of a list item by item corresponds to it position by position, or,
where the order does not count, in some order.
-/

namespace DaggerWorkflows

/-! ## Position by position -/

theorem forall₂_mapIdx {α β γ δ : Type} {R : α → β → Prop} {S : γ → δ → Prop}
    {f : Nat → α → γ} {g : Nat → β → δ} {as : List α} {bs : List β}
    (h : List.Forall₂ R as bs) (hfg : ∀ i a b, R a b → S (f i a) (g i b)) :
    List.Forall₂ S (as.mapIdx f) (bs.mapIdx g) := by
  induction h generalizing f g with
  | nil => exact .nil
  | cons hab _ ih =>
      rw [List.mapIdx_cons, List.mapIdx_cons]
      exact .cons (hfg 0 _ _ hab) (ih fun i a b => hfg (i + 1) a b)

theorem forall₂_comp {α β γ : Type} {R : α → β → Prop} {S : β → γ → Prop}
    {T : α → γ → Prop} {as : List α} {bs : List β} {cs : List γ}
    (h : List.Forall₂ R as bs) (h' : List.Forall₂ S bs cs)
    (hRS : ∀ a b c, R a b → S b c → T a c) :
    List.Forall₂ T as cs := by
  induction h generalizing cs with
  | nil =>
      cases h'
      exact .nil
  | cons hab _ ih =>
      cases h' with
      | cons hbc hrest => exact .cons (hRS _ _ _ hab hbc) (ih hrest)

theorem flatMap_eq_of_forall₂ {α β γ : Type} {R : α → β → Prop} {f : α → List γ}
    {g : β → List γ} {as : List α} {bs : List β} (h : List.Forall₂ R as bs)
    (hfg : ∀ a b, R a b → g b = f a) : bs.flatMap g = as.flatMap f := by
  induction h with
  | nil => rfl
  | cons hab _ ih => rw [List.flatMap_cons, List.flatMap_cons, hfg _ _ hab, ih]

/-- Pairs correspond if their halves do. -/
theorem forall₂_pairs {α β γ δ : Type} {R : α → γ → Prop} {S : β → δ → Prop}
    {as : List (α × β)} {bs : List (γ × δ)} :
    List.Forall₂ (fun a b => R a.1 b.1 ∧ S a.2 b.2) as bs ↔
      List.Forall₂ R (as.map (·.1)) (bs.map (·.1)) ∧
        List.Forall₂ S (as.map (·.2)) (bs.map (·.2)) := by
  simp only [List.forall₂_map_left_iff, List.forall₂_map_right_iff]
  constructor
  · intro h
    exact ⟨h.imp fun _ _ h => h.1, h.imp fun _ _ h => h.2⟩
  · rintro ⟨hfst, hsnd⟩
    induction hfst with
    | nil => exact .nil
    | cons hab _ ih =>
        cases hsnd with
        | cons hab' hsnd => exact .cons ⟨hab, hab'⟩ (ih hsnd)

/-! ## In another order -/

/-- The items of two lists correspond, in whatever order. -/
def Reorders {α β : Type} (R : α → β → Prop) (as : List α) (bs : List β) :
    Prop :=
  ∃ between, as.Perm between ∧ List.Forall₂ R between bs

namespace Reorders

variable {α β γ δ : Type} {R : α → β → Prop} {as : List α} {bs : List β}

theorem of_perm {between : List β} (h : List.Forall₂ R as between)
    (hperm : between.Perm bs) :
    Reorders R as bs := by
  have hcomp : Relation.Comp (List.Forall₂ R) List.Perm as bs :=
    ⟨between, h, hperm⟩
  rwa [List.forall₂_comp_perm_eq_perm_comp_forall₂] at hcomp

theorem imp {S : α → β → Prop} (h : Reorders R as bs)
    (hRS : ∀ a b, R a b → S a b) :
    Reorders S as bs := by
  obtain ⟨between, hperm, hall⟩ := h
  exact ⟨between, hperm, hall.imp hRS⟩

theorem map {S : γ → δ → Prop} {f : α → γ} {g : β → δ} (h : Reorders R as bs)
    (hfg : ∀ a b, R a b → S (f a) (g b)) :
    Reorders S (as.map f) (bs.map g) := by
  obtain ⟨between, hperm, hall⟩ := h
  refine ⟨between.map f, hperm.map f, ?_⟩
  rw [List.forall₂_map_left_iff, List.forall₂_map_right_iff]
  exact hall.imp hfg

theorem filter {p : α → Bool} {q : β → Bool} (h : Reorders R as bs)
    (hpq : ∀ a b, R a b → p a = q b) :
    Reorders R (as.filter p) (bs.filter q) := by
  obtain ⟨between, hperm, hall⟩ := h
  refine ⟨between.filter p, hperm.filter p,
    List.rel_filter (fun a b hab => ?_) hall⟩
  show p a = true ↔ q b = true
  rw [hpq a b hab]

theorem eq_nil (h : Reorders R [] bs) : bs = [] := by
  obtain ⟨between, hperm, hall⟩ := h
  obtain rfl := hperm.nil_eq
  exact List.forall₂_nil_left_iff.1 hall

end Reorders

theorem lookup_eq_some_iff_mem {α : Type} {entries : List (String × α)}
    (h : (entries.map (·.1)).Nodup) {key : String} {a : α} :
    entries.lookup key = some a ↔ (key, a) ∈ entries := by
  rw [List.lookup_eq_some_iff]
  constructor
  · rintro ⟨before, after, rfl, -⟩
    simp
  · intro hmem
    obtain ⟨before, after, rfl⟩ := List.append_of_mem hmem
    rw [List.map_append, List.map_cons, List.nodup_append] at h
    refine ⟨before, after, rfl, fun e he => bne_iff_ne.2 (Ne.symm ?_)⟩
    exact h.2.2 e.1 (List.mem_map_of_mem he) key List.mem_cons_self

/-- With different keys it does not matter where an entry stands. -/
theorem lookup_eq_of_perm {α : Type} {entries entries' : List (String × α)}
    (hperm : entries.Perm entries') (h : (entries.map (·.1)).Nodup)
    (key : String) :
    entries.lookup key = entries'.lookup key := by
  have h' : (entries'.map (·.1)).Nodup := (hperm.map _).nodup_iff.1 h
  refine Option.ext fun a => ?_
  rw [lookup_eq_some_iff_mem h, lookup_eq_some_iff_mem h', hperm.mem_iff]

end DaggerWorkflows
