import DaggerWorkflows.Proofs.ScheduleInvariant

/-!
# How many answers a poll has to take in

At the last moment of a budget of time there is one poll, and it is spent when
it has taken in as many answers as it may. The recurrence knows how many answers
there are at a time (`answersAt`), and no more are taken in: what has been taken
in at a time and what is still due at it are among them (`Counted`).

So a poll that is spent had as many answers to take in. What becomes of the
checks then hangs on the first of the window: if it cannot end in this poll, it
cannot end at all (`Stuck`).
-/

namespace DaggerWorkflows.Schedule

/-- How many answers the recurrence has at a time, all checks taken together. A
check without a delay waits for none. -/
def answersAt (size : Nat) (plans : List CheckPlan) (time : Nat) : Nat :=
  (List.range plans.length).countP fun j =>
    0 < delayOf plans j ∧
      entersAt size (delayOf plans) j + delayOf plans j = time

/-- How many checks of a window get their answer at a time. -/
def dueAt (time : Nat) (window : List Slot) : Nat :=
  window.countP fun s => s.stage.due? = some time

@[simp] theorem dueAt_append (time : Nat) (before after : List Slot) :
    dueAt time (before ++ after) = dueAt time before + dueAt time after :=
  List.countP_append

theorem dueAt_cons (time : Nat) (s : Slot) (window : List Slot) :
    dueAt time (s :: window) =
      dueAt time window + if s.stage.due? = some time then 1 else 0 := by
  simp [dueAt, List.countP_cons]

/-- What is counted in a list is counted among the positions that it takes
up. -/
theorem countP_le_countP_range' {α : Type} {P : α → Bool} {Q : Nat → Bool}
    {xs : List α} {start : Nat}
    (h : ∀ i x, xs[i]? = some x → P x = true → Q (start + i) = true) :
    xs.countP P ≤ (List.range' start xs.length).countP Q := by
  induction xs generalizing start with
  | nil => exact Nat.zero_le _
  | cons x xs ih =>
      have hmore : ∀ i y, xs[i]? = some y → P y = true →
          Q (start + 1 + i) = true := by
        intro i y hy hP
        rw [Nat.add_assoc, Nat.add_comm 1 i]
        exact h (i + 1) y hy hP
      have htail := ih hmore
      rw [List.length_cons, List.range'_succ, List.countP_cons,
        List.countP_cons]
      by_cases hx : P x = true
      · have hfirst : Q start = true := h 0 x rfl hx
        rw [if_pos hx, if_pos hfirst]
        omega
      · rw [if_neg hx]
        omega

namespace Progress

variable {size : Nat} {interruption : Option Interruption}
  {plans : List CheckPlan} {p q : Progress} {left : Nat}

theorem OnTime.dueAt_le (h : OnTime size plans p left) (time : Nat) :
    dueAt time p.window ≤ answersAt size plans time := by
  let answered (j : Nat) : Bool := 0 < delayOf plans j ∧
    entersAt size (delayOf plans) j + delayOf plans j = time
  have hslots : ∀ i s, p.window[i]? = some s →
      decide (s.stage.due? = some time) = true →
        answered (left + i) = true := by
    intro i s hs hdue
    have hfits := h.fits i s hs
    have hdelay := h.delay_at hs
    cases hstage : s.stage with
    | running due =>
        rw [hstage] at hfits hdue
        obtain rfl : due = time := by simpa [Stage.due?] using hdue
        obtain ⟨hdue', -, hpos⟩ := hfits
        simp only [answered, hdelay]
        exact decide_eq_true ⟨hpos, hdue'.symm⟩
    | fresh | asking | ended => simp [hstage, Stage.due?] at hdue
  have hlength := h.length_eq
  calc dueAt time p.window
      ≤ (List.range' left p.window.length).countP answered :=
        countP_le_countP_range' hslots
    _ ≤ (List.range' 0 (left + p.window.length)).countP answered := by
        rw [← List.range'_append_1, Nat.zero_add]
        exact (List.sublist_append_right _ _).countP_le
    _ ≤ (List.range' 0 plans.length).countP answered :=
        (List.range'_sublist_right.2 (by omega)).countP_le
    _ = answersAt size plans time := by rw [answersAt, List.range_eq_range']

/-- No more answers have been taken in at this time than there are. -/
def Counted (size : Nat) (plans : List CheckPlan) (p : Progress) : Prop :=
  p.taken + dueAt p.time p.window ≤ answersAt size plans p.time

theorem counted_start (size : Nat) (plans : List CheckPlan) :
    Counted size plans (start plans) := Nat.zero_le _

theorem due?_fresh (time : Nat) : Stage.fresh.due? ≠ some time := nofun

theorem due?_begunStage (time : Nat) (plan : CheckPlan) :
    (begunStage time plan).due? ≠ some time := by
  unfold begunStage
  split
  · simp [Stage.due?]
  · simp [Stage.due?]
    omega

/-- An answer is taken in when it is due, and then no longer awaited. -/
theorem Happens.counted (hhappens : Happens size interruption p q)
    (h : OnTime size plans p left) (hp : Counted size plans p) :
    Counted size plans q := by
  cases hhappens with
  | enters hwaiting hroom =>
      simpa [Counted, dueAt_cons, Stage.due?, dueAt] using hp
  | leaves hfilled hwindow =>
      simpa [Counted, hwindow, dueAt_cons, Stage.due?] using hp
  | begins hfilled hopen hwindow hbefore hfree =>
      simpa [Counted, hwindow, dueAt_cons, due?_begunStage, due?_fresh] using hp
  | held hfilled hopen hwindow hbefore hspent hasks =>
      simpa [Counted, hwindow, dueAt_cons, Stage.due?] using hp
  | @ends before after plan due hfilled hopen hwindow hfree hdue =>
      have hslot : p.window[before.length]? = some ⟨plan, .running due⟩ := by
        rw [hwindow]
        simp
      obtain ⟨-, hle, -⟩ := h.fits _ _ hslot
      obtain rfl : due = p.time := Nat.le_antisymm hdue hle
      simp only [Counted, hwindow, dueAt_append, dueAt_cons, Stage.due?] at hp ⊢
      simp only [if_pos, reduceCtorEq, if_false] at hp ⊢
      omega
  | passes hidle hfree hdue hlater hin =>
      simpa [Counted, passTo] using h.dueAt_le _

/-! ## A poll that is spent -/

theorem pollBudget_le_of_spent (hspent : p.isSpent interruption = true) :
    ∃ seconds, interruption = some (.timeout seconds) ∧
      p.time = seconds * 1000 ∧ pollBudget ≤ p.taken := by
  cases interruption with
  | none => cases hspent
  | some i =>
      cases i with
      | cancel time => cases hspent
      | timeout seconds => exact ⟨seconds, rfl, of_decide_eq_true hspent⟩

/-- A check that does not end in a poll that is spent. -/
def Waits (s : Slot) : Prop :=
  match s.stage with
  | .fresh => s.plan.request ≠ none
  | .asking | .running _ => True
  | .ended _ => False

/-- A state in a poll that is spent whose first check does not end in it. -/
structure Stuck (interruption : Option Interruption) (p : Progress) : Prop where
  spent : p.isSpent interruption = true
  head : ∃ s window, p.window = s :: window ∧ Waits s

/-- The first check stays where it is, and nothing more is asked. -/
theorem Happens.stuck (hhappens : Happens size interruption p q)
    (h : p.Stuck interruption) :
    q.Stuck interruption ∧ q.requests = p.requests := by
  obtain ⟨hspent, s, window, hhead, hwaits⟩ := h
  have hnever : p.isSpent interruption ≠ false := by
    rw [hspent]
    exact nofun
  -- A check of the window changes: it is not the first, or that stays waiting.
  have hreplaced : ∀ {before after : List Slot} {x y : Slot},
      p.window = before ++ x :: after → (Waits x → Waits y) →
      ∃ s' window', before ++ y :: after = s' :: window' ∧ Waits s' := by
    intro before after x y hwindow hxy
    cases before with
    | nil =>
        rw [hhead] at hwindow
        cases hwindow
        exact ⟨y, window, rfl, hxy hwaits⟩
    | cons s' before =>
        rw [hhead] at hwindow
        cases hwindow
        exact ⟨s, _, rfl, hwaits⟩
  cases hhappens with
  | enters hwaiting hroom =>
      exact ⟨⟨hspent, s, _, by rw [hhead]; rfl, hwaits⟩, rfl⟩
  | leaves hfilled hwindow =>
      rw [hhead] at hwindow
      cases hwindow
      exact absurd hwaits nofun
  | begins hfilled hopen hwindow hbefore hfree =>
      have hnone := hfree.resolve_left hnever
      refine ⟨⟨hspent, hreplaced hwindow fun hasks => absurd hnone hasks⟩, ?_⟩
      simp [beginRequests, hnone]
  | held hfilled hopen hwindow hbefore hspent' hasks =>
      exact ⟨⟨hspent, hreplaced hwindow fun _ => trivial⟩, rfl⟩
  | ends hfilled hopen hwindow hfree hdue => exact absurd hfree hnever
  | passes hidle hfree hdue hlater hin => exact absurd hfree hnever

theorem noCancel_timeout (seconds : Nat) :
    NoCancel (some (.timeout seconds)) := by
  rintro time ⟨⟩

/-- So the time is over before anything comes of the checks. -/
theorem run_of_stuck {seconds fuel : Nat} (hsize : 0 < size)
    (hlive : p.Live (some (.timeout seconds)))
    (h : p.Stuck (some (.timeout seconds))) (hfuel : p.work < fuel) :
    ∃ events, run size (some (.timeout seconds)) fuel p =
      ⟨.error (.timeout seconds), seconds * 1000, p.requests, events⟩ := by
  let P (q : Progress) : Prop :=
    q.Stuck (some (.timeout seconds)) ∧ q.requests = p.requests
  have hkept : Keeps size (some (.timeout seconds)) P := by
    rintro q q' ⟨hstuck, hrequests⟩ - hhappens
    obtain ⟨hstuck', hsame⟩ := hhappens.stuck hstuck
    exact ⟨hstuck', hsame.trans hrequests⟩
  obtain ⟨q, -, ⟨⟨-, s, window, hhead, hwaits⟩, hrequests⟩, hends⟩ :=
    run_invariant hsize (noCancel_timeout seconds) hkept hlive ⟨h, rfl⟩ hfuel
  generalize run size (some (.timeout seconds)) fuel p = outcome at hends
  cases hends with
  | done hwaiting hwindow =>
      rw [hhead] at hwindow
      cases hwindow
  | failed hfilled hwindow =>
      rw [hhead] at hwindow
      cases hwindow
      exact absurd hwaits nofun
  | timedOut hi hidle hlate =>
      cases hi
      exact ⟨q.events, by rw [finish, hrequests]⟩

end Progress

end DaggerWorkflows.Schedule
