import Mathlib.Data.List.Forall2

/-!
# Computations that came to an end

A computation that may fail and did not has gone well in each of its parts.
-/

namespace DaggerWorkflows

variable {ε α β : Type}

theorem of_bind_ok {x : Except ε α} {next : α → Except ε β} {b : β}
    (h : (x >>= next) = .ok b) : ∃ a, x = .ok a ∧ next a = .ok b := by
  cases x with
  | error e => cases h
  | ok a => exact ⟨a, rfl, h⟩

theorem of_map_ok {x : Except ε α} {f : α → β} {b : β} (h : f <$> x = .ok b) :
    ∃ a, x = .ok a ∧ f a = b := by
  cases x with
  | error e => cases h
  | ok a =>
      cases h
      exact ⟨a, rfl, rfl⟩

/-- A computation that goes on after a check has passed the check. -/
theorem of_guard_ok {c : Prop} [Decidable c] {e : ε} {next : Unit → Except ε α}
    {a : α} (h : (if c then throw e >>= next else next ()) = .ok a) :
    ¬ c ∧ next () = .ok a := by
  by_cases hc : c
  · rw [if_pos hc] at h
    cases h
  · rw [if_neg hc] at h
    exact ⟨hc, h⟩

theorem eq_some_of_elim_ok {x : Option α} {e : ε} {a : α}
    (h : x.elim (.error e) .ok = Except.ok a) : x = some a := by
  cases x with
  | none => cases h
  | some a' =>
      cases h
      rfl

theorem toOption_eq_of_ok_iff {x y : Except ε α}
    (h : ∀ a, x = .ok a ↔ y = .ok a) :
    x.toOption = y.toOption := by
  cases x with
  | ok a => rw [(h a).1 rfl]
  | error e =>
      cases y with
      | ok a => cases (h a).2 rfl
      | error e' => rfl

theorem forall₂_of_mapM_ok {f : α → Except ε β} {as : List α} {bs : List β}
    (h : as.mapM f = .ok bs) : List.Forall₂ (fun a b => f a = .ok b) as bs := by
  induction as generalizing bs with
  | nil =>
      cases h
      exact .nil
  | cons a as ih =>
      rw [List.mapM_cons] at h
      obtain ⟨b, hb, h⟩ := of_bind_ok h
      obtain ⟨bs', hbs, h⟩ := of_bind_ok h
      cases h
      exact .cons hb (ih hbs)

theorem mapM_ok_of_forall₂ {f : α → Except ε β} {as : List α} {bs : List β}
    (h : List.Forall₂ (fun a b => f a = .ok b) as bs) : as.mapM f = .ok bs := by
  induction h with
  | nil => rfl
  | cons hab _ ih =>
      rw [List.mapM_cons, hab, ih]
      rfl

theorem exists_mapM_ok {f : α → Except ε β} {as : List α}
    (h : ∀ a ∈ as, ∃ b, f a = .ok b) :
    ∃ bs, as.mapM f = .ok bs := by
  induction as with
  | nil => exact ⟨[], rfl⟩
  | cons a as ih =>
      obtain ⟨b, hb⟩ := h a List.mem_cons_self
      obtain ⟨bs, hbs⟩ := ih fun a' ha' => h a' (List.mem_cons_of_mem a ha')
      refine ⟨b :: bs, ?_⟩
      rw [List.mapM_cons, hb, hbs]
      rfl

/-- Computations in a row end with the first of them that fails. -/
theorem mapM_error {f : α → Except ε β} {before after : List α} {a : α} {e : ε}
    (hbefore : ∀ x ∈ before, ∃ b, f x = .ok b) (ha : f a = .error e) :
    (before ++ a :: after).mapM f = .error e := by
  obtain ⟨bs, hbs⟩ := exists_mapM_ok hbefore
  rw [List.mapM_append, hbs, List.mapM_cons, ha]
  rfl

end DaggerWorkflows
