import DaggerWorkflows.Schedule
import Mathlib.Algebra.GroupWithZero.Nat
import Mathlib.Data.Nat.Find

/-!
# When checks come into a window and leave it

The times of a schedule, without the schedule: a recurrence in the delays of the
checks and the size of the window. A check comes in at the start, or when the
one that many places before it leaves; it leaves when it has ended and the one
before it has left.

The recurrence is stated on positions. Proofs count instead: `leftBy m` is the
time by which `m` checks have left, which begins at zero with none of them and
has no case of its own for the first. `leftBy_antitone` is the law that makes a
larger window safe to ask for: it may only let checks end sooner.
-/

namespace DaggerWorkflows.Schedule

/-- When the check at a position leaves the window. -/
def leavesAt (size : Nat) (delay : Nat → Nat) (j : Nat) : Nat :=
  max (if j = 0 then 0 else leavesAt size delay (j - 1))
    ((if j < max 1 size then 0 else leavesAt size delay (j - max 1 size)) +
      delay j)
termination_by j
decreasing_by all_goals omega

/-- When the check at a position comes into the window. -/
def entersAt (size : Nat) (delay : Nat → Nat) (j : Nat) : Nat :=
  if j < max 1 size then 0 else leavesAt size delay (j - max 1 size)

/-- When the first `m` checks have left the window. -/
def leftBy (size : Nat) (delay : Nat → Nat) (m : Nat) : Nat :=
  if m = 0 then 0 else leavesAt size delay (m - 1)

variable {size : Nat} {delay : Nat → Nat}

@[simp] theorem leftBy_zero : leftBy size delay 0 = 0 := rfl

theorem leftBy_succ (m : Nat) :
    leftBy size delay (m + 1) = leavesAt size delay m := rfl

theorem entersAt_eq (j : Nat) :
    entersAt size delay j = leftBy size delay (j + 1 - max 1 size) := by
  unfold entersAt leftBy
  by_cases h : j < max 1 size
  · rw [if_pos h, if_pos (by omega)]
  · rw [if_neg h, if_neg (by omega)]
    congr 1
    omega

theorem leavesAt_eq (j : Nat) :
    leavesAt size delay j =
      max (leftBy size delay j) (entersAt size delay j + delay j) := by
  rw [leavesAt]
  rfl

theorem entersAt_add_delay_le (j : Nat) :
    entersAt size delay j + delay j ≤ leftBy size delay (j + 1) := by
  rw [leftBy_succ, leavesAt_eq]
  exact Nat.le_max_right _ _

theorem leftBy_le_succ (m : Nat) :
    leftBy size delay m ≤ leftBy size delay (m + 1) := by
  rw [leftBy_succ, leavesAt_eq]
  exact Nat.le_max_left _ _

theorem leftBy_mono {m m' : Nat} (h : m ≤ m') :
    leftBy size delay m ≤ leftBy size delay m' := by
  induction h with
  | refl => exact Nat.le_refl _
  | step _ ih => exact Nat.le_trans ih (leftBy_le_succ _)

theorem entersAt_mono {i j : Nat} (h : i ≤ j) :
    entersAt size delay i ≤ entersAt size delay j := by
  rw [entersAt_eq, entersAt_eq]
  exact leftBy_mono (by omega)

/-- Where no check takes any time any more, all have left. -/
theorem leftBy_succ_of_delay_eq_zero {m : Nat} (h : delay m = 0) :
    leftBy size delay (m + 1) = leftBy size delay m := by
  rw [leftBy_succ, leavesAt_eq, h, Nat.add_zero, entersAt_eq]
  exact Nat.max_eq_left (leftBy_mono (by omega))

/-- Checks leave at the start, or when one that has taken time ends: a check
that takes none leaves when an earlier one does. -/
theorem leftBy_eq_zero_or_ends (m : Nat) :
    leftBy size delay m = 0 ∨
      ∃ j < m, 0 < delay j ∧
      leftBy size delay m = entersAt size delay j + delay j := by
  induction m with
  | zero => exact .inl rfl
  | succ m ih =>
      -- The last check either leaves at its own end, or has waited for an
      -- earlier one.
      by_cases hlast : 0 < delay m ∧
        leftBy size delay m ≤ entersAt size delay m + delay m
      · refine .inr ⟨m, Nat.lt_succ_self m, hlast.1, ?_⟩
        rw [leftBy_succ, leavesAt_eq, Nat.max_eq_right hlast.2]
      · have hearlier : leftBy size delay (m + 1) = leftBy size delay m := by
          rcases Nat.eq_zero_or_pos (delay m) with hzero | hpos
          · exact leftBy_succ_of_delay_eq_zero hzero
          · rw [leftBy_succ, leavesAt_eq]
            exact Nat.max_eq_left (by omega)
        rw [hearlier]
        rcases ih with hstart | ⟨j, hj, hends⟩
        · exact .inl hstart
        · exact .inr ⟨j, Nat.lt_succ_of_lt hj, hends⟩

/-- In a larger window no check leaves later. A check comes in when fewer have
left, so the induction needs the smaller numbers all at once. -/
theorem leftBy_antitone {size' : Nat} (h : size ≤ size') (m : Nat) :
    leftBy size' delay m ≤ leftBy size delay m := by
  induction m using Nat.strongRecOn with
  | ind m ih =>
      cases m with
      | zero => exact Nat.le_refl _
      | succ m =>
          have henters : entersAt size' delay m ≤ entersAt size delay m := by
            rw [entersAt_eq, entersAt_eq]
            calc leftBy size' delay (m + 1 - max 1 size')
                ≤ leftBy size' delay (m + 1 - max 1 size) :=
                  leftBy_mono (by omega)
              _ ≤ leftBy size delay (m + 1 - max 1 size) := ih _ (by omega)
          have hbefore := ih m (by omega)
          rw [leftBy_succ, leftBy_succ, leavesAt_eq, leavesAt_eq]
          omega

theorem leftBy_of_size_le_one (h : size ≤ 1) (m : Nat) :
    leftBy size delay m = ((List.range m).map delay).sum := by
  induction m with
  | zero => rfl
  | succ m ih =>
      have henters : entersAt size delay m = leftBy size delay m := by
        rw [entersAt_eq]
        congr 1
        omega
      rw [leftBy_succ, leavesAt_eq, henters, ih, List.range_succ,
        List.map_append,
        List.sum_append, List.map_singleton, List.sum_singleton]
      omega

/-- Of two checks that are made at the same time, the later is less than a
window behind the earlier: further behind, it does not come in before the other
leaves. -/
theorem lt_add_of_unfinished {i j time : Nat}
    (hi : time < entersAt size delay i + delay i)
    (hj : entersAt size delay j ≤ time) : j < i + max 1 size := by
  refine Nat.lt_of_not_le fun hle => ?_
  have hleft : leftBy size delay (i + 1) ≤ entersAt size delay j := by
    rw [entersAt_eq]
    exact leftBy_mono (by omega)
  have hends : entersAt size delay i + delay i ≤ leftBy size delay (i + 1) :=
    entersAt_add_delay_le i
  omega

/-- At no time are more checks made than the window holds. -/
theorem countP_unfinished_le (time m : Nat) :
    (List.range m).countP (fun j => entersAt size delay j ≤ time ∧
      time < entersAt size delay j + delay j) ≤ max 1 size := by
  rw [List.countP_eq_length_filter]
  by_cases hnone : ∃ i, entersAt size delay i ≤ time ∧
    time < entersAt size delay i + delay i
  · -- The first of them bounds the places of all.
    let first := Nat.find hnone
    have hclose : ((List.range m).filter fun j => entersAt size delay j ≤ time ∧
        time < entersAt size delay j + delay j) ⊆
          List.range' first (max 1 size) := by
      intro j hj
      have hopen : entersAt size delay j ≤ time ∧
          time < entersAt size delay j + delay j := by
        simpa using (List.mem_filter.1 hj).2
      have hle : first ≤ j := Nat.find_min' hnone hopen
      have hlt := lt_add_of_unfinished (Nat.find_spec hnone).2 hopen.1
      exact List.mem_range'_1.2 ⟨hle, hlt⟩
    have hlength :=
      List.Nodup.length_le_of_subset (List.nodup_range.filter _) hclose
    rwa [List.length_range'] at hlength
  · rw [List.filter_eq_nil_iff.2]
    · exact Nat.zero_le _
    · intro j _ hj
      exact hnone ⟨j, by simpa using hj⟩

end DaggerWorkflows.Schedule
