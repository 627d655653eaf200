import DaggerWorkflows.Proofs.ScheduleSteps
import DaggerWorkflows.Proofs.WindowTimes

/-!
# A schedule keeps to its times

At every moment of a run some checks have left the window, and the others have
not. `OnTime` says of a state how many have and what follows: the checks in the
window are those that come next, and each is where the recurrence of
`WindowTimes.lean` has it at that time. `Asked` says what has been asked of the
runner: what the first so many checks ask, each at the time at which it came in.
`Happens.onTime` and `Happens.asked` are the steps, one case for each thing that
can happen.

The state knows neither number, so both are arguments: `left` checks have left
the window, and `asked` have asked, in the order of the checks in both cases.
The second says more than that so many requests were made, since a check with
nothing to ask is counted, and it stands still once a check is kept from asking.
-/

namespace DaggerWorkflows.Schedule

/-- How long the check at a position takes. There is none beyond the last, and
it takes no time. -/
def delayOf (plans : List CheckPlan) (j : Nat) : Nat :=
  (plans[j]?.map (·.delay)).getD 0

/-- What the first checks ask of the runner, each at the time at which it comes
into the window. -/
def requestsOf (size : Nat) (plans : List CheckPlan) (asked : Nat) :
    List (Nat × ExecRequest) :=
  (plans.take asked).zipIdx.flatMap fun (plan, j) =>
    beginRequests (entersAt size (delayOf plans) j) plan

theorem mem_beginRequests {time : Nat} {plan : CheckPlan}
    {q : Nat × ExecRequest} (h : q ∈ beginRequests time plan) : q.1 = time := by
  unfold beginRequests at h
  rw [Option.mem_toList, Option.map_eq_some_iff] at h
  obtain ⟨request, -, rfl⟩ := h
  rfl

theorem requestsOf_succ {size : Nat} {plans : List CheckPlan} {j : Nat}
    {plan : CheckPlan} (h : plans[j]? = some plan) :
    requestsOf size plans (j + 1) =
      requestsOf size plans j ++
        beginRequests (entersAt size (delayOf plans) j) plan := by
  have hlt := (List.getElem?_eq_some_iff.1 h).1
  simp [requestsOf, List.take_add_one, h, List.zipIdx_append,
    Nat.min_eq_left (Nat.le_of_lt hlt)]

/-- What the later checks ask comes behind what the first ask, when they come
in. -/
theorem requestsOf_append (size : Nat) (plans : List CheckPlan) {m m' : Nat}
    (h : m ≤ m') :
    ∃ later, requestsOf size plans m' = requestsOf size plans m ++ later ∧
      ∀ q ∈ later, ∃ j, m ≤ j ∧ j < m' ∧ j < plans.length ∧
        q.1 = entersAt size (delayOf plans) j := by
  induction h with
  | refl => exact ⟨[], (List.append_nil _).symm, nofun⟩
  | @step m' hle ih =>
      obtain ⟨later, hlater, htimes⟩ := ih
      have hsucc : ∀ q ∈ later, ∃ j, m ≤ j ∧ j < m' + 1 ∧ j < plans.length ∧
          q.1 = entersAt size (delayOf plans) j := by
        intro q hq
        obtain ⟨j, hj, hlt, hrest⟩ := htimes q hq
        exact ⟨j, hj, Nat.lt_succ_of_lt hlt, hrest⟩
      rcases Nat.lt_or_ge m' plans.length with hlt | hge
      · refine ⟨later ++ beginRequests (entersAt size (delayOf plans) m')
          plans[m'], ?_, fun q hq => ?_⟩
        · rw [requestsOf_succ (List.getElem?_eq_getElem hlt), hlater,
            List.append_assoc]
        · rcases List.mem_append.1 hq with hq | hq
          · exact hsucc q hq
          · exact ⟨m', hle, Nat.lt_succ_self _, hlt, mem_beginRequests hq⟩
      · refine ⟨later, ?_, hsucc⟩
        rw [← hlater, requestsOf, requestsOf, List.take_of_length_le hge,
          List.take_of_length_le (Nat.le_succ_of_le hge)]

theorem mem_requestsOf {size m : Nat} {plans : List CheckPlan}
    {q : Nat × ExecRequest} (h : q ∈ requestsOf size plans m) :
    ∃ j < m, q.1 = entersAt size (delayOf plans) j := by
  obtain ⟨later, hlater, htimes⟩ := requestsOf_append size plans (Nat.zero_le m)
  rw [hlater] at h
  obtain ⟨j, -, hj, -, htime⟩ := htimes q h
  exact ⟨j, hj, htime⟩

namespace Stage

/-- Where a check is that came in at a time. -/
def Fits (time enters : Nat) (plan : CheckPlan) : Stage → Prop
  | fresh | asking => enters = time
  | running due => due = enters + plan.delay ∧ time ≤ due ∧ 0 < plan.delay
  | ended result => result = plan.result ∧ enters + plan.delay ≤ time

theorem fits_begunStage {time enters : Nat} {plan : CheckPlan}
    (h : enters = time) : (begunStage time plan).Fits time enters plan := by
  subst h
  unfold begunStage
  split
  · next hzero => exact ⟨rfl, by omega⟩
  · next hpos => exact ⟨rfl, Nat.le_add_right _ _, Nat.pos_of_ne_zero hpos⟩

/-- Whether a check has begun and has not been kept from asking. -/
def HasAsked : Stage → Prop
  | fresh | asking => False
  | running _ | ended _ => True

theorem hasAsked_begunStage (time : Nat) (plan : CheckPlan) :
    (begunStage time plan).HasAsked := by
  unfold begunStage
  split <;> trivial

end Stage

namespace Progress

/-- A state in which everything is as the recurrence has it. -/
structure OnTime (size : Nat) (plans : List CheckPlan) (p : Progress)
    (left : Nat) : Prop where
  left_le : left ≤ plans.length
  rest : plans.drop left = p.window.map (·.plan) ++ p.waiting
  room : p.window.length ≤ size
  /-- Only a check that has passed leaves the window. -/
  passed : ∀ plan ∈ plans.take left, plan.result = .ok ()
  lower : leftBy size (delayOf plans) left ≤ p.time
  upper : p.time ≤ leftBy size (delayOf plans) (left + 1)
  /-- A check for which there is room comes in now. -/
  entering : ∀ j, left + p.window.length ≤ j → j < left + size →
    j < plans.length → entersAt size (delayOf plans) j = p.time
  fits : ∀ (i : Nat) (slot : Slot), p.window[i]? = some slot →
    slot.stage.Fits p.time (entersAt size (delayOf plans) (left + i)) slot.plan

/-- A state in which the first checks have asked. The others have not begun,
unless the first of them has and was kept from asking. -/
structure Asked (size : Nat) (interruption : Option Interruption)
    (plans : List CheckPlan) (p : Progress) (left asked : Nat) : Prop where
  left_le : left ≤ asked
  le : asked ≤ left + p.window.length
  requests_eq : p.requests = requestsOf size plans asked
  before : ∀ (i : Nat) (slot : Slot), p.window[i]? = some slot →
    left + i < asked → slot.stage.HasAsked
  after : (∀ (i : Nat) (slot : Slot), p.window[i]? = some slot →
      asked ≤ left + i → slot.stage = .fresh) ∨
    (p.isSpent interruption = true ∧ ∃ (i : Nat) (plan : CheckPlan),
      left + i = asked ∧ p.window[i]? = some ⟨plan, .asking⟩)

theorem getElem?_replaced {α : Type} {xs before after : List α} {x : α}
    (h : xs = before ++ x :: after) (y : α) (i : Nat) :
    (before ++ y :: after)[i]? = if i = before.length then some y
    else xs[i]? := by
  have hset : before ++ y :: after = xs.set before.length y := by
    rw [h]
    simp
  rw [hset, List.getElem?_set]
  by_cases hi : before.length = i
  · subst hi
    simp [h]
  · rw [if_neg hi, if_neg (Ne.symm hi)]

theorem getElem?_append_singleton {α : Type} {xs : List α} {y z : α} {i : Nat}
    (h : (xs ++ [y])[i]? = some z) :
    i = xs.length ∧ z = y ∨ xs[i]? = some z := by
  rcases Nat.lt_trichotomy i xs.length with hlt | heq | hgt
  · rw [List.getElem?_append_left hlt] at h
    exact .inr h
  · subst heq
    simp at h
    exact .inl ⟨rfl, h.symm⟩
  · rw [List.getElem?_eq_none (by simp; omega)] at h
    cases h

namespace OnTime

variable {size : Nat} {interruption : Option Interruption}
  {plans : List CheckPlan} {p : Progress} {left : Nat}

theorem plan_at (h : OnTime size plans p left) {i : Nat} {slot : Slot}
    (hslot : p.window[i]? = some slot) : plans[left + i]? = some slot.plan := by
  have hlt := (List.getElem?_eq_some_iff.1 hslot).1
  rw [← List.getElem?_drop, h.rest,
    List.getElem?_append_left (by simpa using hlt)]
  simp [hslot]

theorem delay_at (h : OnTime size plans p left) {i : Nat} {slot : Slot}
    (hslot : p.window[i]? = some slot) :
    delayOf plans (left + i) = slot.plan.delay := by
  rw [delayOf, h.plan_at hslot]
  rfl

theorem length_eq (h : OnTime size plans p left) :
    plans.length = left + p.window.length + p.waiting.length := by
  have := congrArg List.length h.rest
  have := h.left_le
  simp at *
  omega

theorem entersAt_le (h : OnTime size plans p left) {j : Nat}
    (hj : j < left + p.window.length) :
    entersAt size (delayOf plans) j ≤ p.time := by
  have hroom := h.room
  calc entersAt size (delayOf plans) j
      = leftBy size (delayOf plans) (j + 1 - max 1 size) := entersAt_eq j
    _ ≤ leftBy size (delayOf plans) left := leftBy_mono (by omega)
    _ ≤ p.time := h.lower

/-- Where the first check of the window waits for its answer, the recurrence has
it leave no sooner than the answer comes. -/
theorem due_le_leftBy (h : OnTime size plans p left) {plan : CheckPlan}
    {due : Nat} {window : List Slot}
    (hwindow : p.window = ⟨plan, .running due⟩ :: window) :
    due ≤ leftBy size (delayOf plans) (left + 1) := by
  have hhead : p.window[0]? = some ⟨plan, .running due⟩ := by rw [hwindow]; rfl
  have hdelay := h.delay_at hhead
  obtain ⟨hdue, -, -⟩ := h.fits 0 _ hhead
  rw [hdue, ← hdelay]
  exact entersAt_add_delay_le left

theorem time_eq (h : OnTime size plans p left) {plan : CheckPlan}
    {result : Except Error Unit} {window : List Slot}
    (hwindow : p.window = ⟨plan, .ended result⟩ :: window) :
    p.time = leftBy size (delayOf plans) (left + 1) := by
  have hhead : p.window[0]? = some ⟨plan, .ended result⟩ := by rw [hwindow]; rfl
  have hdelay := h.delay_at hhead
  obtain ⟨-, hended⟩ := h.fits 0 _ hhead
  apply Nat.le_antisymm h.upper
  rw [leftBy_succ, leavesAt_eq, ← Nat.add_zero left, hdelay]
  exact Nat.max_le.2 ⟨h.lower, hended⟩

theorem result_eq (h : OnTime size plans p left) {plan : CheckPlan}
    {result : Except Error Unit} {window : List Slot}
    (hwindow : p.window = ⟨plan, .ended result⟩ :: window) :
    plans[left]? = some plan ∧ plan.result = result := by
  have hhead : p.window[0]? = some ⟨plan, .ended result⟩ := by rw [hwindow]; rfl
  exact ⟨h.plan_at hhead, (h.fits 0 _ hhead).1.symm⟩

theorem size_le_of_filled (h : OnTime size plans p left)
    (hfilled : p.Filled size) {j : Nat} (hj : left + p.window.length ≤ j)
    (hlen : j < plans.length) : size ≤ p.window.length := by
  refine hfilled.resolve_left fun hnil => ?_
  have hlens := h.length_eq
  rw [hnil, List.length_nil] at hlens
  omega

/-- Nothing beyond a window that is filled comes in before its first check
leaves. -/
theorem leftBy_le_entersAt (hsize : 0 < size) (h : OnTime size plans p left)
    (hfilled : p.Filled size) {j : Nat} (hj : left + p.window.length ≤ j)
    (hlen : j < plans.length) :
    leftBy size (delayOf plans) (left + 1) ≤
      entersAt size (delayOf plans) j := by
  have hfull := h.size_le_of_filled hfilled hj hlen
  rw [entersAt_eq]
  exact leftBy_mono (by omega)

theorem start (size : Nat) (plans : List CheckPlan) :
    OnTime size plans (.start plans) 0 where
  left_le := Nat.zero_le _
  rest := rfl
  room := Nat.zero_le _
  passed := by simp
  lower := Nat.le_refl _
  upper := Nat.zero_le _
  entering := by
    intro j _ hj _
    rw [entersAt, if_pos (by omega)]
    rfl
  fits := by simp [Progress.start]

/-- A check comes into the window: it is where the recurrence has it because
there was room. -/
theorem enters (h : OnTime size plans p left) {plan : CheckPlan}
    {waiting : List CheckPlan} (hwaiting : p.waiting = plan :: waiting)
    (hroom : p.window.length < size) :
    OnTime size plans
      { p with window := p.window ++ [⟨plan, .fresh⟩], waiting } left where
  left_le := h.left_le
  rest := by simp [h.rest, hwaiting]
  room := by simpa using Nat.succ_le_of_lt hroom
  passed := h.passed
  lower := h.lower
  upper := h.upper
  entering := by
    intro j hj hlt hlen
    simp only [List.length_append, List.length_singleton] at hj
    exact h.entering j (by omega) hlt hlen
  fits := by
    intro i slot hslot
    rcases getElem?_append_singleton hslot with ⟨rfl, rfl⟩ | hslot
    · have hlen := h.length_eq
      rw [hwaiting, List.length_cons] at hlen
      exact h.entering _ (Nat.le_refl _) (by omega) (by omega)
    · exact h.fits i slot hslot

/-- The window moves past its first check, at the very time at which the
recurrence has that check leave. -/
theorem leaves (hsize : 0 < size) (h : OnTime size plans p left)
    {plan : CheckPlan} {window : List Slot} (hfilled : p.Filled size)
    (hwindow : p.window = ⟨plan, .ended (.ok ())⟩ :: window) :
    OnTime size plans { p with window } (left + 1) := by
  obtain ⟨hplan, hok⟩ := h.result_eq hwindow
  have htail : ∀ i, window[i]? = p.window[i + 1]? :=
    fun i => by rw [hwindow]; rfl
  have hlen := h.length_eq
  have hwindowLen : p.window.length = window.length + 1 := by rw [hwindow]; rfl
  have htime := h.time_eq hwindow
  constructor
  case left_le => omega
  case rest =>
    have hdrop := congrArg (List.drop 1) h.rest
    rw [List.drop_drop, hwindow] at hdrop
    exact hdrop
  case room =>
    have := h.room
    simp only
    omega
  case passed =>
    intro plan' hmem
    rw [List.take_add_one, List.mem_append] at hmem
    rcases hmem with hmem | hmem
    · exact h.passed plan' hmem
    · rw [hplan, Option.toList_some, List.mem_singleton] at hmem
      rw [hmem]
      exact hok
  case lower => exact Nat.le_of_eq htime.symm
  case upper => exact Nat.le_trans h.upper (leftBy_le_succ _)
  case entering =>
    -- Where the window was full, there is room for one check, and this is its
    -- time.
    intro j hj hlt hlenj
    simp only at hj ⊢
    have hfull := h.size_le_of_filled hfilled (by omega) hlenj
    have hroom := h.room
    rw [entersAt_eq, htime]
    congr 1
    omega
  case fits =>
    intro i slot hslot
    rw [htail] at hslot
    have := h.fits (i + 1) slot hslot
    rw [Nat.add_right_comm, Nat.add_assoc]
    exact this

/-- One check of the window goes on to a stage that fits its time as well. -/
theorem replaced (h : OnTime size plans p left) {before after : List Slot}
    {plan : CheckPlan} {stage stage' : Stage}
    (hwindow : p.window = before ++ ⟨plan, stage⟩ :: after)
    (hfits : ∀ enters, stage.Fits p.time enters plan →
      stage'.Fits p.time enters plan)
    (taken : Nat) (requests : List (Nat × ExecRequest)) (events : List Event) :
    OnTime size plans
      { p with
        taken
        window := before ++ ⟨plan, stage'⟩ :: after
        requests
        events } left := by
  have hlength : (before ++ ⟨plan, stage'⟩ :: after).length =
      p.window.length := by
    rw [hwindow]
    simp
  constructor
  case left_le => exact h.left_le
  case rest =>
    rw [h.rest, hwindow]
    simp
  case room => simpa only [hlength] using h.room
  case passed => exact h.passed
  case lower => exact h.lower
  case upper => exact h.upper
  case entering => simpa only [hlength] using h.entering
  case fits =>
    intro i slot hslot
    dsimp only at hslot
    rw [getElem?_replaced hwindow] at hslot
    split at hslot
    · next heq =>
        cases hslot
        refine hfits _ (h.fits i ⟨plan, stage⟩ ?_)
        rw [heq, hwindow]
        simp
    · exact h.fits i slot hslot

/-- Time passes to the next answer, which comes no later than that to the first
check. -/
theorem passes (h : OnTime size plans p left) {due : Nat}
    (hidle : p.Idle size interruption)
    (hfree : p.isSpent interruption = false)
    (hdue : nextDue? p.window = some due) (hlater : p.time < due) :
    OnTime size plans (p.passTo due) left where
  left_le := h.left_le
  rest := h.rest
  room := h.room
  passed := h.passed
  lower := Nat.le_trans h.lower (Nat.le_of_lt hlater)
  upper := by
    obtain ⟨plan, due', window, hwindow⟩ := hidle.head_running hfree
    have hmin := (nextDue?_eq_some hdue).2 ⟨plan, .running due'⟩
      (by rw [hwindow]; exact List.mem_cons_self) due' rfl
    exact Nat.le_trans hmin (h.due_le_leftBy hwindow)
  entering := by
    -- Nothing comes in: the window is full or nothing waits.
    intro j hj hlt hlen
    have hfull := h.size_le_of_filled hidle.filled hj hlen
    have hj' : left + p.window.length ≤ j := hj
    omega
  fits := by
    intro i slot hslot
    have hmem := List.mem_of_getElem? hslot
    have hfits := h.fits i slot hslot
    cases hstage : slot.stage with
    | fresh | asking =>
        obtain ⟨due', hrunning⟩ := hidle.running hfree hmem (by simp [hstage])
        rw [hstage] at hrunning
        cases hrunning
    | running due' =>
        rw [hstage] at hfits
        exact ⟨hfits.1, (nextDue?_eq_some hdue).2 slot hmem due' hstage,
          hfits.2.2⟩
    | ended result =>
        rw [hstage] at hfits
        exact ⟨hfits.1, Nat.le_trans hfits.2 (Nat.le_of_lt hlater)⟩

end OnTime

/-! ## What has been asked -/

namespace Asked

variable {size : Nat} {interruption : Option Interruption}
  {plans : List CheckPlan} {p : Progress} {left asked : Nat}

theorem start (size : Nat) (interruption : Option Interruption)
    (plans : List CheckPlan) :
    Asked size interruption plans (.start plans) 0 0 where
  left_le := Nat.le_refl _
  le := Nat.le_refl _
  requests_eq := rfl
  before := by simp [Progress.start]
  after := .inl (by simp [Progress.start])

theorem le_of_fresh (h : Asked size interruption plans p left asked) {i : Nat}
    {plan : CheckPlan} (hslot : p.window[i]? = some ⟨plan, .fresh⟩) :
    asked ≤ left + i :=
  Nat.le_of_not_lt fun hlt => h.before i _ hslot hlt

theorem left_lt (h : Asked size interruption plans p left asked)
    {plan : CheckPlan} {result : Except Error Unit} {window : List Slot}
    (hwindow : p.window = ⟨plan, .ended result⟩ :: window) : left < asked := by
  have hhead : p.window[0]? = some ⟨plan, .ended result⟩ := by rw [hwindow]; rfl
  refine Nat.lt_of_le_of_ne h.left_le fun heq => ?_
  rcases h.after with hfresh | ⟨-, i, plan', hi, hslot⟩
  · cases hfresh 0 _ hhead (by omega)
  · obtain rfl : i = 0 := by omega
    rw [hhead] at hslot
    cases hslot

theorem fresh_iff (h : Asked size interruption plans p left asked)
    (hfree : p.isSpent interruption = false) {i : Nat} {slot : Slot}
    (hslot : p.window[i]? = some slot) :
    slot.stage = .fresh ↔ asked ≤ left + i := by
  constructor
  · obtain ⟨plan, stage⟩ := slot
    rintro rfl
    exact h.le_of_fresh hslot
  · rcases h.after with hfresh | ⟨hspent, -⟩
    · exact hfresh i slot hslot
    · rw [hfree] at hspent
      cases hspent

/-- The check that begins is the first that has not, if none is kept from
asking: a check that has not begun is ready. -/
theorem eq_of_begins (h : Asked size interruption plans p left asked)
    {before after : List Slot} {plan : CheckPlan}
    (hwindow : p.window = before ++ ⟨plan, .fresh⟩ :: after)
    (hbefore : ∀ s ∈ before, s.stage.isReady (p.moment interruption) = false)
    (hfresh : ∀ (i : Nat) (slot : Slot), p.window[i]? = some slot →
      asked ≤ left + i → slot.stage = .fresh) :
    asked = left + before.length := by
  have hslot : p.window[before.length]? = some ⟨plan, .fresh⟩ := by
    rw [hwindow]
    simp
  refine Nat.le_antisymm (h.le_of_fresh hslot) (Nat.le_of_not_lt fun hlt => ?_)
  have hge := h.left_le
  obtain ⟨i, rfl⟩ : ∃ i, asked = left + i := ⟨asked - left, by omega⟩
  have hi : i < before.length := by omega
  have hslot' : p.window[i]? = some before[i] := by
    rw [hwindow, List.getElem?_append_left hi, List.getElem?_eq_getElem hi]
  have hready := hbefore before[i] (List.getElem_mem hi)
  rw [hfresh i _ hslot' (Nat.le_refl _)] at hready
  cases hready

theorem enters (h : Asked size interruption plans p left asked)
    (plan : CheckPlan) (waiting : List CheckPlan) :
    Asked size interruption plans
      { p with window := p.window ++ [⟨plan, .fresh⟩], waiting } left
      asked where
  left_le := h.left_le
  le := by
    have := h.le
    simp only [List.length_append, List.length_singleton]
    omega
  requests_eq := h.requests_eq
  before := by
    intro i slot hslot hlt
    rcases getElem?_append_singleton hslot with ⟨rfl, -⟩ | hslot
    · exact absurd hlt (Nat.not_lt.2 h.le)
    · exact h.before i slot hslot hlt
  after := by
    refine h.after.imp (fun hfresh i slot hslot hle => ?_) ?_
    · rcases getElem?_append_singleton hslot with ⟨-, rfl⟩ | hslot
      · rfl
      · exact hfresh i slot hslot hle
    · rintro ⟨hspent, i, plan', hi, hslot⟩
      refine ⟨hspent, i, plan', hi, ?_⟩
      have hlt := (List.getElem?_eq_some_iff.1 hslot).1
      simp only [List.getElem?_append_left hlt, hslot]

theorem leaves (h : Asked size interruption plans p left asked)
    {plan : CheckPlan} {result : Except Error Unit} {window : List Slot}
    (hwindow : p.window = ⟨plan, .ended result⟩ :: window) :
    Asked size interruption plans { p with window } (left + 1) asked := by
  have htail : ∀ i, window[i]? = p.window[i + 1]? :=
    fun i => by rw [hwindow]; rfl
  have hlength : p.window.length = window.length + 1 := by rw [hwindow]; rfl
  have hlt := h.left_lt hwindow
  constructor
  case left_le => exact hlt
  case le =>
    have := h.le
    simp only
    omega
  case requests_eq => exact h.requests_eq
  case before =>
    intro i slot hslot hlt
    rw [htail] at hslot
    exact h.before (i + 1) slot hslot (by omega)
  case after =>
    refine h.after.imp (fun hfresh i slot hslot hle => ?_) ?_
    · rw [htail] at hslot
      exact hfresh (i + 1) slot hslot (by omega)
    · rintro ⟨hspent, i, plan', hi, hslot⟩
      obtain ⟨i, rfl⟩ : ∃ i', i = i' + 1 := ⟨i - 1, by omega⟩
      exact ⟨hspent, i, plan', by omega, by rw [htail]; exact hslot⟩

theorem getElem?_of_fresh {before after : List Slot} {plan : CheckPlan}
    (hwindow : p.window = before ++ ⟨plan, .fresh⟩ :: after) :
    p.window[before.length]? = some ⟨plan, .fresh⟩ := by
  rw [hwindow]
  simp

/-- Once a check is kept from asking, the others that begin change nothing. -/
theorem replaced_of_held (h : Asked size interruption plans p left asked)
    {before after : List Slot} {plan : CheckPlan}
    (hwindow : p.window = before ++ ⟨plan, .fresh⟩ :: after)
    (hheld : p.isSpent interruption = true ∧ ∃ (i : Nat) (plan : CheckPlan),
      left + i = asked ∧ p.window[i]? = some ⟨plan, .asking⟩)
    (stage : Stage) (events : List Event) :
    Asked size interruption plans
      { p with window := before ++ ⟨plan, stage⟩ :: after, events }
      left asked where
  left_le := h.left_le
  le := by
    have := h.le
    simpa only [hwindow, List.length_append, List.length_cons] using this
  requests_eq := h.requests_eq
  before := by
    intro i slot hslot hlt
    rw [getElem?_replaced hwindow] at hslot
    split at hslot
    · next heq =>
        have := h.le_of_fresh (getElem?_of_fresh hwindow)
        omega
    · exact h.before i slot hslot hlt
  after := by
    obtain ⟨hspent, i, plan', hi, hslot⟩ := hheld
    refine .inr ⟨hspent, i, plan', hi, ?_⟩
    rw [getElem?_replaced hwindow, if_neg ?_]
    · exact hslot
    · rintro rfl
      rw [getElem?_of_fresh hwindow] at hslot
      cases hslot

/-- A check begins. If none is kept from asking, it is the next that asks, and
otherwise it is one that has nothing to ask. -/
theorem begins (h : Asked size interruption plans p left asked)
    (honTime : OnTime size plans p left) {before after : List Slot}
    {plan : CheckPlan} (hwindow : p.window = before ++ ⟨plan, .fresh⟩ :: after)
    (hbefore : ∀ s ∈ before, s.stage.isReady (p.moment interruption) = false)
    (hfree : p.isSpent interruption = false ∨ plan.request = none)
    (events : List Event) :
    ∃ asked', asked ≤ asked' ∧ Asked size interruption plans
      { p with
        window := before ++ ⟨plan, begunStage p.time plan⟩ :: after
        requests := p.requests ++ beginRequests p.time plan
        events } left asked' := by
  have hslot := getElem?_of_fresh hwindow
  rcases h.after with hfresh | hheld
  · have heq := h.eq_of_begins hwindow hbefore hfresh
    have henters : entersAt size (delayOf plans) (left + before.length) =
        p.time :=
      honTime.fits _ _ hslot
    refine ⟨asked + 1, Nat.le_succ _, ?_⟩
    constructor
    case left_le => exact Nat.le_succ_of_le h.left_le
    case le =>
      simp only [List.length_append, List.length_cons]
      omega
    case requests_eq =>
      rw [h.requests_eq, heq, requestsOf_succ (honTime.plan_at hslot), henters]
    case before =>
      intro i slot hget hlt
      rw [getElem?_replaced hwindow] at hget
      split at hget
      · cases hget
        exact Stage.hasAsked_begunStage _ _
      · exact h.before i slot hget (by omega)
    case after =>
      refine .inl fun i slot hget hle => ?_
      rw [getElem?_replaced hwindow, if_neg (by omega)] at hget
      exact hfresh i slot hget (by omega)
  · have hnone : plan.request = none := by
      refine hfree.resolve_left fun hfree => ?_
      rw [hheld.1] at hfree
      cases hfree
    have hnil : beginRequests p.time plan = [] := by
      rw [beginRequests, hnone]
      rfl
    rw [hnil, List.append_nil]
    exact ⟨asked, Nat.le_refl _, h.replaced_of_held hwindow hheld _ events⟩

/-- A check that is kept from asking is the first of those, or there is one
already. -/
theorem held (h : Asked size interruption plans p left asked)
    {before after : List Slot} {plan : CheckPlan}
    (hwindow : p.window = before ++ ⟨plan, .fresh⟩ :: after)
    (hbefore : ∀ s ∈ before, s.stage.isReady (p.moment interruption) = false)
    (hspent : p.isSpent interruption = true) (events : List Event) :
    Asked size interruption plans
      { p with window := before ++ ⟨plan, .asking⟩ :: after, events }
      left asked := by
  rcases h.after with hfresh | hheld
  · have heq := h.eq_of_begins hwindow hbefore hfresh
    constructor
    case left_le => exact h.left_le
    case le =>
      simp only [List.length_append, List.length_cons]
      omega
    case requests_eq => exact h.requests_eq
    case before =>
      intro i slot hget hlt
      rw [getElem?_replaced hwindow, if_neg (by omega)] at hget
      exact h.before i slot hget hlt
    case after =>
      refine .inr ⟨hspent, before.length, plan, heq.symm, ?_⟩
      rw [getElem?_replaced hwindow, if_pos rfl]
  · exact h.replaced_of_held hwindow hheld _ events

theorem ends (h : Asked size interruption plans p left asked)
    {before after : List Slot} {plan : CheckPlan} {due : Nat}
    (hwindow : p.window = before ++ ⟨plan, .running due⟩ :: after)
    (hfree : p.isSpent interruption = false) (taken : Nat)
    (events : List Event) :
    Asked size interruption plans
      { p with
        taken
        window := before ++ ⟨plan, .ended plan.result⟩ :: after
        events } left asked where
  left_le := h.left_le
  le := by
    have := h.le
    simpa only [hwindow, List.length_append, List.length_cons] using this
  requests_eq := h.requests_eq
  before := by
    intro i slot hget hlt
    rw [getElem?_replaced hwindow] at hget
    split at hget
    · cases hget
      trivial
    · exact h.before i slot hget hlt
  after := by
    refine .inl fun i slot hget hle => ?_
    rw [getElem?_replaced hwindow] at hget
    split at hget
    · next heq =>
        have hslot : p.window[before.length]? = some ⟨plan, .running due⟩ := by
          rw [hwindow]
          simp
        subst heq
        cases (h.fresh_iff hfree hslot).2 hle
    · exact (h.fresh_iff hfree hget).2 hle

theorem eq_of_idle (h : Asked size interruption plans p left asked)
    (hidle : p.Idle size interruption)
    (hfree : p.isSpent interruption = false) :
    asked = left + p.window.length := by
  refine Nat.le_antisymm h.le (Nat.le_of_not_lt fun hlt => ?_)
  have hge := h.left_le
  have hslot := List.getElem?_eq_getElem (l := p.window)
    (show asked - left < p.window.length by omega)
  have hfresh := (h.fresh_iff hfree hslot).2 (by omega)
  have hunready := hidle.unready _ (List.mem_of_getElem? hslot)
  rw [hfresh] at hunready
  cases hunready

theorem passes (h : Asked size interruption plans p left asked)
    (hidle : p.Idle size interruption) (hfree : p.isSpent interruption = false)
    (time : Nat) :
    Asked size interruption plans (p.passTo time) left asked where
  left_le := h.left_le
  le := h.le
  requests_eq := h.requests_eq
  before := h.before
  after := by
    refine .inl fun i slot hget hle => ?_
    have hlt : i < p.window.length := (List.getElem?_eq_some_iff.1 hget).1
    rw [h.eq_of_idle hidle hfree] at hle
    omega

/-- A check that has not asked by now does not come in before now. -/
theorem time_le_entersAt (hsize : 0 < size)
    (h : Asked size interruption plans p left asked)
    (honTime : OnTime size plans p left) (hfilled : p.Filled size) {j : Nat}
    (hj : asked ≤ j) (hlen : j < plans.length) :
    p.time ≤ entersAt size (delayOf plans) j := by
  refine Nat.le_trans ?_ (entersAt_mono hj)
  rcases Nat.lt_or_ge asked (left + p.window.length) with hlt | hge
  · -- The first of them is in the window and comes in at this time.
    have hleft := h.left_le
    obtain ⟨i, rfl⟩ : ∃ i, asked = left + i := ⟨asked - left, by omega⟩
    have hslot := List.getElem?_eq_getElem (l := p.window)
      (show i < p.window.length by omega)
    have hfits := honTime.fits i _ hslot
    refine Nat.le_of_eq (Eq.symm ?_)
    rcases h.after with hfresh | ⟨-, i', plan, hi, hasking⟩
    · rw [hfresh i _ hslot (Nat.le_refl _)] at hfits
      exact hfits
    · obtain rfl : i' = i := by omega
      rw [hslot, Option.some_inj] at hasking
      rw [hasking] at hfits
      exact hfits
  · exact Nat.le_trans honTime.upper
      (honTime.leftBy_le_entersAt hsize hfilled hge
        (Nat.lt_of_le_of_lt hj hlen))

end Asked

/-! ## Steps and runs -/

/-- A state in which everything is as the recurrence has it, and at least the
first `m` checks have asked. -/
def InTime (size : Nat) (interruption : Option Interruption)
    (plans : List CheckPlan) (m : Nat) (p : Progress) : Prop :=
  ∃ left asked, m ≤ asked ∧ OnTime size plans p left ∧
    Asked size interruption plans p left asked

theorem inTime_start (size : Nat) (interruption : Option Interruption)
    (plans : List CheckPlan) : InTime size interruption plans 0 (start plans) :=
  ⟨0, 0, Nat.le_refl _, .start size plans, .start size interruption plans⟩

theorem keeps_inTime {size : Nat} (hsize : 0 < size)
    (interruption : Option Interruption) (plans : List CheckPlan) (m : Nat) :
    Keeps size interruption (InTime size interruption plans m) := by
  rintro p q ⟨left, asked, hm, h, hasked⟩ - hhappens
  cases hhappens with
  | enters hwaiting hroom =>
      exact ⟨left, asked, hm, h.enters hwaiting hroom, hasked.enters _ _⟩
  | leaves hfilled hwindow =>
      exact ⟨left + 1, asked, hm, h.leaves hsize hfilled hwindow,
        hasked.leaves hwindow⟩
  | begins hfilled hopen hwindow hbefore hfree =>
      obtain ⟨asked', hle, hasked'⟩ := hasked.begins h hwindow hbefore hfree _
      refine ⟨left, asked', Nat.le_trans hm hle, ?_, hasked'⟩
      exact h.replaced hwindow (fun _ => Stage.fits_begunStage) _ _ _
  | held hfilled hopen hwindow hbefore hspent hasks =>
      refine ⟨left, asked, hm, ?_, hasked.held hwindow hbefore hspent _⟩
      refine h.replaced hwindow ?_ _ _ _
      exact fun _ henters => henters
  | ends hfilled hopen hwindow hfree hdue =>
      refine ⟨left, asked, hm, ?_, hasked.ends hwindow hfree _ _⟩
      refine h.replaced hwindow (fun enters hfits => ?_) _ _ _
      exact ⟨rfl, Nat.le_trans (Nat.le_of_eq hfits.1.symm) hdue⟩
  | passes hidle hfree hdue hlater hin =>
      exact ⟨left, asked, hm, h.passes hidle hfree hdue hlater,
        hasked.passes hidle hfree _⟩

end Progress

/-! ## How a run ends that nothing interrupts -/

/-- What a run without an interruption comes to. -/
structure Settles (size : Nat) (plans : List CheckPlan) (outcome : Outcome)
    (k asked : Nat) : Prop where
  k_le : k ≤ plans.length
  passed : ∀ plan ∈ plans.take k, plan.result = .ok ()
  result : outcome.result = (plans[k]?.map (·.result)).getD (.ok ())
  failed : ∀ plan ∈ plans[k]?, ∃ e, plan.result = .error e
  finishedAt : outcome.finishedAt = leftBy size (delayOf plans) (k + 1)
  requests : outcome.requests = requestsOf size plans asked
  asked_gt : ∀ j ≤ k, j < plans.length → j < asked
  /-- What comes in before the end has asked. -/
  asked_of_lt : ∀ j < plans.length,
    entersAt size (delayOf plans) j < outcome.finishedAt → j < asked
  asked_le : asked ≤ k + size
  asked_le_length : asked ≤ plans.length

namespace Progress

variable {size : Nat} {plans : List CheckPlan} {p : Progress} {left asked : Nat}

/-- The window is empty and nothing waits: all checks have passed. -/
theorem OnTime.settles_done (h : OnTime size plans p left)
    (hasked : Asked size none plans p left asked) (hwaiting : p.waiting = [])
    (hwindow : p.window = []) :
    Settles size plans (p.finish (.ok ()) p.time) left asked := by
  have hlen := h.length_eq
  have hle := hasked.left_le
  have hasked_le := hasked.le
  rw [hwaiting, hwindow] at hlen
  rw [hwindow] at hasked_le
  simp only [List.length_nil, Nat.add_zero] at hlen hasked_le
  have hnone : plans[left]? = none := List.getElem?_eq_none (Nat.le_of_eq hlen)
  have hdelay : delayOf plans left = 0 := by
    rw [delayOf, hnone]
    rfl
  have hleft : leftBy size (delayOf plans) (left + 1) =
      leftBy size (delayOf plans) left := leftBy_succ_of_delay_eq_zero hdelay
  constructor
  case k_le => exact h.left_le
  case passed => exact h.passed
  case result =>
    rw [hnone]
    rfl
  case failed =>
    rw [hnone]
    exact fun _ hmem => nomatch hmem
  case finishedAt => exact Nat.le_antisymm h.upper (hleft ▸ h.lower)
  case requests => exact hasked.requests_eq
  case asked_gt => intros; omega
  case asked_of_lt => intros; omega
  case asked_le => omega
  case asked_le_length => omega

/-- The first check of the window has failed, and those before it have
passed. -/
theorem OnTime.settles_failed (hsize : 0 < size) (h : OnTime size plans p left)
    (hasked : Asked size none plans p left asked) {plan : CheckPlan}
    {window : List Slot} {e : Error} (hfilled : p.Filled size)
    (hwindow : p.window = ⟨plan, .ended (.error e)⟩ :: window) :
    Settles size plans (p.finish (.error e) p.time) left asked := by
  obtain ⟨hplan, hresult⟩ := h.result_eq hwindow
  have hlen := h.length_eq
  have hasked_le := hasked.le
  have hroom := h.room
  constructor
  case k_le => exact h.left_le
  case passed => exact h.passed
  case result =>
    rw [hplan, Option.map_some, Option.getD_some, hresult]
    rfl
  case failed =>
    rw [hplan]
    rintro _ ⟨⟩
    exact ⟨e, hresult⟩
  case finishedAt => exact h.time_eq hwindow
  case requests => exact hasked.requests_eq
  case asked_gt =>
    intro j hj _
    exact Nat.lt_of_le_of_lt hj (hasked.left_lt hwindow)
  case asked_of_lt =>
    intro j hj hlt
    refine Nat.lt_of_not_le fun hle => ?_
    exact Nat.not_lt.2 (hasked.time_le_entersAt hsize h hfilled hle hj) hlt
  case asked_le => omega
  case asked_le_length => omega

end Progress

theorem noCancel_none : Progress.NoCancel none := nofun

/-- A run stops at the first failure, when the recurrence has that check leave,
and until then has asked for what the window let in. -/
theorem Progress.run_settles {size m : Nat} (hsize : 0 < size)
    {plans : List CheckPlan} {p : Progress} {fuel : Nat} (hlive : p.Live none)
    (hp : InTime size none plans m p) (hfuel : p.work < fuel) :
    ∃ k asked,
      m ≤ asked ∧ Settles size plans (run size none fuel p) k asked := by
  obtain ⟨q, -, ⟨left, asked, hm, h, hasked⟩, hends⟩ :=
    run_invariant hsize noCancel_none (keeps_inTime hsize none plans m) hlive
      hp hfuel
  refine ⟨left, asked, hm, ?_⟩
  generalize run size none fuel p = outcome at hends
  cases hends with
  | done hwaiting hwindow => exact h.settles_done hasked hwaiting hwindow
  | failed hfilled hwindow =>
      exact h.settles_failed hsize hasked hfilled hwindow
  | timedOut hi hidle hlate => cases hi

theorem run_settles (size : Nat) (plans : List CheckPlan) :
    ∃ k asked, Settles (max 1 size) plans (run size none plans) k asked := by
  have hsize : 0 < max 1 size := by omega
  obtain ⟨k, asked, -, h⟩ :=
    Progress.run_settles hsize (Progress.live_start none plans)
      (Progress.inTime_start _ none plans) (Progress.work_start plans)
  exact ⟨k, asked, h⟩

theorem Progress.reached_inTime {size : Nat} (hsize : 0 < size)
    {plans : List CheckPlan} {p : Progress} (h : Reached size none plans p) :
    ∃ left asked, OnTime size plans p left ∧
      Asked size none plans p left asked := by
  obtain ⟨-, left, asked, -, honTime, hasked⟩ :=
    h.invariant hsize noCancel_none (keeps_inTime hsize none plans 0)
      (inTime_start size none plans)
  exact ⟨left, asked, honTime, hasked⟩

end DaggerWorkflows.Schedule
