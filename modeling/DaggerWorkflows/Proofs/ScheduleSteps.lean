import DaggerWorkflows.Schedule
import Mathlib.Algebra.Order.Ring.Nat
import Mathlib.Algebra.Order.BigOperators.Group.List
import Mathlib.Data.List.TakeDrop
import Mathlib.Data.List.TakeWhile

/-!
# What can happen in a schedule

The step of a schedule looks at several things in a fixed order and computes
what comes of each. Here it is read once and for all: `Happens` lists the things
that can happen, each under the conditions it happens under, `Ends` the ways for
all of it to end, and `step_cases` says that a step is one or the other, or
cancels the checks. Everything about schedules is proved from these lists.

They are about the states before a cancellation, which are `Live`. What comes
after it is short, and told in `InterruptedRun.lean`.

`Progress.run_invariant` is what the lists are worth in the whole. The steps
that a run is given are a bound that it never reaches (`work` counts what is
left to be done), so a run ends as one of its states ends, and whatever all of
them keep holds there.
-/

namespace DaggerWorkflows.Schedule

namespace Stage

@[simp] theorem isReady_fresh (now : Moment) : fresh.isReady now = true := rfl

@[simp] theorem isReady_ended (now : Moment) (result : Except Error Unit) :
    (ended result).isReady now = false := rfl

theorem isReady_asking {now : Moment} :
    asking.isReady now = true ↔ now.spent = false := by
  simp [isReady]

theorem isReady_running {due time : Nat} {spent : Bool} :
    (running due).isReady ⟨time, false, spent⟩ = true ↔
      spent = false ∧ due ≤ time := by
  simp [isReady]

/-- The steps that a check in a stage may still take. -/
def work (time : Nat) : Stage → Nat
  | fresh => 4
  | asking => 1
  | running due => if due ≤ time then 2 else 3
  | ended _ => 1

theorem work_running_le {time time' due : Nat} (h : time ≤ time') :
    (running due).work time' ≤ (running due).work time := by
  simp only [work]
  split <;> split <;> omega

end Stage

theorem nextDue?_eq_some {window : List Slot} {due : Nat}
    (h : nextDue? window = some due) :
    (∃ s ∈ window, s.stage = .running due) ∧
      ∀ s ∈ window, ∀ due', s.stage = .running due' → due ≤ due' := by
  obtain ⟨hmem, hmin⟩ := List.min?_eq_some_iff.1 h
  constructor
  · obtain ⟨s, hs, hdue⟩ := List.mem_filterMap.1 hmem
    refine ⟨s, hs, ?_⟩
    cases hstage : s.stage <;> simp_all [Stage.due?]
  · intro s hs due' hstage
    exact hmin due' (List.mem_filterMap.2 ⟨s, hs, by rw [hstage]; rfl⟩)

theorem ne_running_of_nextDue?_eq_none {window : List Slot}
    (h : nextDue? window = none) :
    ∀ s ∈ window, ∀ due, s.stage ≠ .running due := by
  intro s hs due hstage
  have hnil := List.min?_eq_none_iff.1 h
  rw [List.filterMap_eq_nil_iff] at hnil
  have := hnil s hs
  rw [hstage] at this
  cases this

theorem all_nextDue? {window : List Slot} {time : Nat} :
    (nextDue? window).all (time < ·) = true ↔
      ∀ s ∈ window, ∀ due, s.stage = .running due → time < due := by
  cases hdue : nextDue? window with
  | none =>
      have hnone := ne_running_of_nextDue?_eq_none hdue
      refine iff_of_true rfl fun s hs due hstage => ?_
      exact absurd hstage (hnone s hs due)
  | some due =>
      obtain ⟨⟨s, hs, hstage⟩, hmin⟩ := nextDue?_eq_some hdue
      rw [Option.all_some, decide_eq_true_iff]
      constructor
      · intro hlt s' hs' due' hstage'
        exact Nat.lt_of_lt_of_le hlt (hmin s' hs' due' hstage')
      · intro hall
        exact hall s hs due hstage

/-! ## Looking at a check -/

/-- Where a check is that has begun and asked the runner. -/
def begunStage (time : Nat) (plan : CheckPlan) : Stage :=
  if plan.delay = 0 then .ended plan.result else .running (time + plan.delay)

/-- What a check asks of the runner when it begins. -/
def beginRequests (time : Nat) (plan : CheckPlan) : List (Nat × ExecRequest) :=
  (plan.request.map fun r => (time, r)).toList

def beginEvents (plan : CheckPlan) : List Event :=
  plan.before ++ if plan.delay = 0 then plan.after else []

/-- A check that begins in a poll that is not spent asks at once, and one that
has nothing to ask takes no notice. -/
theorem begin_eq {time : Nat} {spent : Bool} {plan : CheckPlan}
    (h : spent = false ∨ plan.request = none) :
    begin ⟨time, false, spent⟩ plan =
      ⟨begunStage time plan, beginRequests time plan, beginEvents plan, 0⟩ := by
  unfold begin begunStage beginRequests beginEvents
  cases hrequest : plan.request with
  | none => simp [plan.delay_eq_zero hrequest]
  | some request =>
      obtain rfl : spent = false := h.resolve_right (by simp [hrequest])
      by_cases hdelay : plan.delay = 0 <;> simp [select, hdelay, hrequest]

theorem begin_held {time : Nat} {plan : CheckPlan}
    (h : plan.request ≠ none) :
    begin ⟨time, false, true⟩ plan = ⟨.asking, [], plan.before, 0⟩ := by
  obtain ⟨request, hrequest⟩ := Option.ne_none_iff_exists'.1 h
  simp [begin, hrequest, select]

theorem begunStage_work_lt (time : Nat) (plan : CheckPlan) :
    (begunStage time plan).work time < Stage.fresh.work time := by
  unfold begunStage
  split
  · simp [Stage.work]
  · simp only [Stage.work]
    split <;> omega

namespace Progress

variable {size : Nat} {interruption : Option Interruption} {p q : Progress}

/-- Nothing else comes into the window: it is full, or nothing waits. -/
def Filled (size : Nat) (p : Progress) : Prop :=
  p.waiting = [] ∨ size ≤ p.window.length

/-- The first check of the window, if there is one, has not ended. -/
def HeadOpen (p : Progress) : Prop :=
  ∀ s ∈ p.window.head?, ∀ result, s.stage ≠ .ended result

/-- A state in which the checks have not been cancelled. Only a poll that is
spent keeps a check from asking the runner. -/
structure Live (interruption : Option Interruption) (p : Progress) : Prop where
  cancelled : p.cancelled = false
  asking : ∀ s ∈ p.window, s.stage = .asking → p.isSpent interruption = true

/-- A state in which nothing happens until time passes. -/
structure Idle (size : Nat) (interruption : Option Interruption)
    (p : Progress) : Prop where
  filled : p.Filled size
  headOpen : p.HeadOpen
  nonempty : p.window ≠ []
  unready : ∀ s ∈ p.window, s.stage.isReady (p.moment interruption) = false

theorem Live.moment_eq (h : p.Live interruption) :
    p.moment interruption = ⟨p.time, false, p.isSpent interruption⟩ := by
  rw [moment, h.cancelled]

/-- What a step may do. -/
inductive Happens (size : Nat) (interruption : Option Interruption)
    (p : Progress) : Progress → Prop where
  | enters {plan : CheckPlan} {waiting : List CheckPlan}
      (hwaiting : p.waiting = plan :: waiting)
      (hroom : p.window.length < size) :
      Happens size interruption p
        { p with window := p.window ++ [⟨plan, .fresh⟩], waiting }
  | leaves {plan : CheckPlan} {window : List Slot} (hfilled : p.Filled size)
      (hwindow : p.window = ⟨plan, .ended (.ok ())⟩ :: window) :
      Happens size interruption p { p with window }
  | begins {before after : List Slot} {plan : CheckPlan}
      (hfilled : p.Filled size) (hopen : p.HeadOpen)
      (hwindow : p.window = before ++ ⟨plan, .fresh⟩ :: after)
      (hbefore : ∀ s ∈ before,
        s.stage.isReady (p.moment interruption) = false)
      (hfree : p.isSpent interruption = false ∨ plan.request = none) :
      Happens size interruption p
        { p with
          window := before ++ ⟨plan, begunStage p.time plan⟩ :: after
          requests := p.requests ++ beginRequests p.time plan
          events := p.events ++ beginEvents plan }
  | held {before after : List Slot} {plan : CheckPlan}
      (hfilled : p.Filled size) (hopen : p.HeadOpen)
      (hwindow : p.window = before ++ ⟨plan, .fresh⟩ :: after)
      (hbefore : ∀ s ∈ before,
        s.stage.isReady (p.moment interruption) = false)
      (hspent : p.isSpent interruption = true) (hasks : plan.request ≠ none) :
      Happens size interruption p
        { p with
          window := before ++ ⟨plan, .asking⟩ :: after
          events := p.events ++ plan.before }
  | ends {before after : List Slot} {plan : CheckPlan} {due : Nat}
      (hfilled : p.Filled size) (hopen : p.HeadOpen)
      (hwindow : p.window = before ++ ⟨plan, .running due⟩ :: after)
      (hfree : p.isSpent interruption = false) (hdue : due ≤ p.time) :
      Happens size interruption p
        { p with
          taken := p.taken + 1
          window := before ++ ⟨plan, .ended plan.result⟩ :: after
          events := p.events ++ plan.after }
  | passes {due : Nat} (hidle : p.Idle size interruption)
      (hfree : p.isSpent interruption = false)
      (hdue : nextDue? p.window = some due) (hlater : p.time < due)
      (hin : ∀ i ∈ interruption, due ≤ i.time) :
      Happens size interruption p (p.passTo due)

/-- How a step may end everything. -/
inductive Ends (size : Nat) (interruption : Option Interruption)
    (p : Progress) : Outcome → Prop where
  | done (hwaiting : p.waiting = []) (hwindow : p.window = []) :
      Ends size interruption p (p.finish (.ok ()) p.time)
  | failed {plan : CheckPlan} {window : List Slot} {e : Error}
      (hfilled : p.Filled size)
      (hwindow : p.window = ⟨plan, .ended (.error e)⟩ :: window) :
      Ends size interruption p (p.finish (.error e) p.time)
  | timedOut {seconds : Nat} (hi : interruption = some (.timeout seconds))
      (hidle : p.Idle size interruption)
      (hlate : p.isSpent interruption = true ∨
        ∀ s ∈ p.window, ∀ due, s.stage = .running due → seconds * 1000 < due) :
      Ends size interruption p
        (p.finish (.error (.timeout seconds)) (seconds * 1000))

/-- How a step may cancel everything: before the next answer comes. -/
structure Cancels (size : Nat) (interruption : Option Interruption)
    (p : Progress) (time : Nat) : Prop where
  eq : interruption = some (.cancel time)
  idle : p.Idle size interruption
  before : ∀ s ∈ p.window, ∀ due, s.stage = .running due → time < due

/-! ## A step is one of these -/

theorem advance_split {now : Moment}
    (h : p.window.any (·.stage.isReady now) = true) :
    ∃ before slot after, p.window = before ++ slot :: after ∧
      (∀ s ∈ before, s.stage.isReady now = false) ∧
      slot.stage.isReady now = true ∧
      p.advance now =
        { p with
          taken := p.taken + (slot.look now).taken
          window := before ++ ⟨slot.plan, (slot.look now).stage⟩ :: after
          requests := p.requests ++ (slot.look now).requests
          events := p.events ++ (slot.look now).events } := by
  unfold advance
  rw [List.span_eq_takeWhile_dropWhile]
  have hwindow := List.takeWhile_append_dropWhile
    (p := fun slot : Slot => !slot.stage.isReady now) (l := p.window)
  cases hrest : p.window.dropWhile fun slot => !slot.stage.isReady now with
  | nil =>
      rw [List.dropWhile_eq_nil_iff] at hrest
      obtain ⟨s, hs, hready⟩ := List.any_eq_true.1 h
      simpa [hready] using hrest s hs
  | cons slot after =>
      rw [hrest] at hwindow
      refine ⟨_, slot, after, hwindow.symm, fun s hs => ?_, ?_, rfl⟩
      · simpa using List.mem_takeWhile_imp hs
      · have hne : p.window.dropWhile (fun s => !s.stage.isReady now) ≠ [] := by
          rw [hrest]
          exact List.cons_ne_nil _ _
        simpa [hrest] using List.head_dropWhile_not _ hne

theorem happens_advance (hp : p.Live interruption) (hfilled : p.Filled size)
    (hopen : p.HeadOpen)
    (hready : p.window.any (·.stage.isReady (p.moment interruption)) = true) :
    Happens size interruption p (p.advance (p.moment interruption)) := by
  obtain ⟨before, ⟨plan, stage⟩, after, hwindow, hbefore, hslot, hadvance⟩ :=
    advance_split hready
  rw [hadvance]
  cases stage with
  | ended => simp at hslot
  | asking =>
      have hspent := hp.asking ⟨plan, .asking⟩ (by rw [hwindow]; simp) rfl
      rw [Stage.isReady_asking, hp.moment_eq, hspent] at hslot
      cases hslot
  | fresh =>
      by_cases hfree : p.isSpent interruption = false ∨ plan.request = none
      · have hlook : (⟨plan, .fresh⟩ : Slot).look (p.moment interruption) = _ :=
          (congrArg (begin · plan) hp.moment_eq).trans (begin_eq hfree)
        rw [hlook]
        exact .begins hfilled hopen hwindow hbefore hfree
      · rw [not_or, Bool.not_eq_false] at hfree
        have hlook : (⟨plan, .fresh⟩ : Slot).look (p.moment interruption) =
            ⟨.asking, [], plan.before, 0⟩ := by
          rw [hp.moment_eq, hfree.1]
          exact begin_held hfree.2
        rw [hlook]
        have := Happens.held hfilled hopen hwindow hbefore hfree.1 hfree.2
        simpa using this
  | running due =>
      rw [hp.moment_eq, Stage.isReady_running] at hslot
      have hlook : (⟨plan, .running due⟩ : Slot).look (p.moment interruption) =
          ⟨.ended plan.result, [], plan.after, 1⟩ := by
        rw [hp.moment_eq, hslot.1]
        simp [Slot.look, select, hslot.2]
      rw [hlook]
      have := Happens.ends hfilled hopen hwindow hslot.1 hslot.2
      simpa using this

/-- Where nothing happens, a check that has not ended waits for an answer. -/
theorem Idle.running (h : p.Idle size interruption)
    (hfree : p.isSpent interruption = false) {s : Slot} (hs : s ∈ p.window)
    (hended : ∀ result, s.stage ≠ .ended result) :
    ∃ due, s.stage = .running due := by
  have hunready := h.unready s hs
  cases hstage : s.stage with
  | fresh => simp [hstage] at hunready
  | asking =>
      have hready : s.stage.isReady (p.moment interruption) = true := by
        rw [hstage, Stage.isReady_asking]
        exact hfree
      rw [hready] at hunready
      cases hunready
  | running due => exact ⟨due, rfl⟩
  | ended result => exact absurd hstage (hended result)

theorem Idle.head_running (h : p.Idle size interruption)
    (hfree : p.isSpent interruption = false) :
    ∃ plan due window, p.window = ⟨plan, .running due⟩ :: window := by
  cases hwindow : p.window with
  | nil => exact absurd hwindow h.nonempty
  | cons s window =>
      obtain ⟨plan, stage⟩ := s
      have hs : ⟨plan, stage⟩ ∈ p.window := by
        rw [hwindow]
        exact List.mem_cons_self
      obtain ⟨due, rfl⟩ := h.running hfree hs
        (h.headOpen ⟨plan, stage⟩ (by rw [hwindow]; rfl))
      exact ⟨plan, due, window, rfl⟩

theorem Idle.exists_nextDue (h : p.Idle size interruption)
    (hfree : p.isSpent interruption = false) :
    ∃ due, nextDue? p.window = some due := by
  obtain ⟨plan, due, window, hwindow⟩ := h.head_running hfree
  cases hdue : nextDue? p.window with
  | some due => exact ⟨due, rfl⟩
  | none =>
      have hnone := ne_running_of_nextDue?_eq_none hdue ⟨plan, .running due⟩
        (by rw [hwindow]; exact List.mem_cons_self) due
      exact absurd rfl hnone

theorem Idle.time_lt (h : p.Idle size interruption) (hp : p.Live interruption)
    (hfree : p.isSpent interruption = false) {s : Slot} (hs : s ∈ p.window)
    {due : Nat} (hstage : s.stage = .running due) : p.time < due := by
  have hunready := h.unready s hs
  rw [hstage, hp.moment_eq, ← Bool.not_eq_true, Stage.isReady_running]
    at hunready
  exact Nat.lt_of_not_le fun hle => hunready ⟨hfree, hle⟩

theorem filled_of_not_lt
    (h : ∀ plan waiting, p.waiting = plan :: waiting →
      ¬ p.window.length < size) : p.Filled size := by
  cases hwaiting : p.waiting with
  | nil => exact .inl hwaiting
  | cons plan waiting => exact .inr (Nat.not_lt.1 (h plan waiting hwaiting))

theorem waiting_eq_nil_of_filled (hsize : 0 < size) (hfilled : p.Filled size)
    (hwindow : p.window = []) : p.waiting = [] := by
  refine hfilled.resolve_right fun hle => ?_
  rw [hwindow, List.length_nil] at hle
  omega

theorem headOpen_of_ne
    (hok : ∀ plan window, p.window ≠ ⟨plan, .ended (.ok ())⟩ :: window)
    (herror : ∀ plan e window, p.window ≠ ⟨plan, .ended (.error e)⟩ :: window) :
    p.HeadOpen := by
  rintro ⟨plan, stage⟩ hs result rfl
  obtain ⟨window, hwindow⟩ := List.head?_eq_some_iff.1 hs
  cases result with
  | ok _ => exact hok plan window hwindow
  | error e => exact herror plan e window hwindow

/-- A step is one of the things that can happen, or one of the ends, or cancels
the checks. -/
def StepCases (size : Nat) (interruption : Option Interruption)
    (p : Progress) (next : Progress ⊕ Outcome) : Prop :=
  (∃ q, next = .inl q ∧ Happens size interruption p q) ∨
    (∃ outcome, next = .inr outcome ∧ Ends size interruption p outcome) ∨
    ∃ time, next = .inl (p.cancelAt time) ∧ Cancels size interruption p time

/-- Where nothing happens, the interruption comes or time passes. -/
theorem wait_cases (hp : p.Live interruption)
    (hidle : p.Idle size interruption) :
    StepCases size interruption p (p.wait interruption) := by
  by_cases hfree : p.isSpent interruption = false
  · obtain ⟨due, hdue⟩ := hidle.exists_nextDue hfree
    obtain ⟨⟨s, hs, hstage⟩, hmin⟩ := nextDue?_eq_some hdue
    have hlater := hidle.time_lt hp hfree hs hstage
    have hpasses (hin : ∀ i ∈ interruption, due ≤ i.time) :
        StepCases size interruption p (.inl (p.passTo due)) :=
      .inl ⟨_, rfl, .passes hidle hfree hdue hlater hin⟩
    unfold wait
    rw [hdue]
    cases interruption with
    | none => exact hpasses (by simp)
    | some i =>
        cases i with
        | cancel time =>
            by_cases hlt : time < due
            · refine .inr (.inr ⟨time, ?_, rfl, hidle, ?_⟩)
              · simp [hp.cancelled, hlt]
              · rw [← all_nextDue?, hdue]
                simpa using hlt
            · simpa [hlt] using hpasses (by simpa [Interruption.time] using hlt)
        | timeout seconds =>
            by_cases hlt : seconds * 1000 < due
            · refine .inr (.inl ⟨_, by simp [hlt], .timedOut rfl hidle ?_⟩)
              rw [← all_nextDue?, hdue]
              simpa using Or.inr hlt
            · simpa [hlt, hfree] using
                hpasses (by simpa [Interruption.time] using hlt)
  · rw [Bool.not_eq_false] at hfree
    -- Only a budget of time is ever spent.
    cases interruption with
    | none => cases hfree
    | some i =>
        cases i with
        | cancel time => cases hfree
        | timeout seconds =>
            refine .inr (.inl ⟨_, ?_, .timedOut rfl hidle (.inl hfree)⟩)
            simp [wait, hfree]

/-- The cases are those of the step, in its order. -/
theorem step_cases (hsize : 0 < size) (hp : p.Live interruption) :
    StepCases size interruption p (p.step size interruption) := by
  unfold step
  split
  · next plan waiting hwaiting hroom =>
      exact .inl ⟨_, rfl, .enters hwaiting (by simpa using hroom)⟩
  · next hfull =>
      have hfilled : p.Filled size :=
        filled_of_not_lt fun plan waiting hwaiting hlt =>
          hfull plan waiting hwaiting (by simpa using hlt)
      split
      · next hwindow =>
          have hwaiting := waiting_eq_nil_of_filled hsize hfilled hwindow
          exact .inr (.inl ⟨_, rfl, .done hwaiting hwindow⟩)
      · next plan window hwindow =>
          exact .inl ⟨_, rfl, .leaves hfilled hwindow⟩
      · next plan e window hwindow =>
          exact .inr (.inl ⟨_, rfl, .failed hfilled hwindow⟩)
      · next hnonempty hok herror =>
          have hopen : p.HeadOpen := headOpen_of_ne hok herror
          dsimp only
          split
          · next hready =>
              exact .inl ⟨_, rfl, happens_advance hp hfilled hopen hready⟩
          · next hnone =>
              exact wait_cases hp ⟨hfilled, hopen, hnonempty, by
                simpa using hnone⟩

/-! ## A run is steps to an end -/

theorem Happens.live (h : Happens size interruption p q)
    (hp : p.Live interruption) : q.Live interruption := by
  cases h with
  | enters hwaiting hroom =>
      refine ⟨hp.cancelled, fun s hs hstage => ?_⟩
      rcases List.mem_append.1 hs with hs | hs
      · exact hp.asking s hs hstage
      · rw [List.mem_singleton.1 hs] at hstage
        cases hstage
  | leaves hfilled hwindow =>
      refine ⟨hp.cancelled, fun s hs hstage => ?_⟩
      exact hp.asking s (by rw [hwindow]; exact List.mem_cons_of_mem _ hs)
        hstage
  | begins hfilled hopen hwindow hbefore hfree =>
      refine ⟨hp.cancelled, fun s hs hstage => ?_⟩
      rcases List.mem_append.1 hs with hs' | hs'
      · exact hp.asking s (by rw [hwindow]; simp [hs']) hstage
      · rcases List.mem_cons.1 hs' with rfl | hs'
        · unfold begunStage at hstage
          split at hstage <;> cases hstage
        · exact hp.asking s (by rw [hwindow]; simp [hs']) hstage
  | held hfilled hopen hwindow hbefore hspent hasks =>
      exact ⟨hp.cancelled, fun _ _ _ => hspent⟩
  | @ends before after plan due hfilled hopen hwindow hfree hdue =>
      refine ⟨hp.cancelled, fun s hs hstage => ?_⟩
      have hmem : s ∈ p.window := by
        rw [hwindow]
        rcases List.mem_append.1 hs with hs | hs
        · simp [hs]
        · rcases List.mem_cons.1 hs with rfl | hs
          · cases hstage
          · simp [hs]
      rw [hp.asking s hmem hstage] at hfree
      cases hfree
  | passes hidle hfree hdue hlater hin =>
      refine ⟨hp.cancelled, fun s hs hstage => ?_⟩
      rw [hp.asking s hs hstage] at hfree
      cases hfree

/-- The steps that may still be taken: each check comes in, begins, is waited
for, ends and leaves. -/
def work (p : Progress) : Nat :=
  5 * p.waiting.length + (p.window.map (·.stage.work p.time)).sum

theorem work_passTo_lt {due : Nat} (hp : p.Live interruption)
    (hidle : p.Idle size interruption) (hfree : p.isSpent interruption = false)
    (hdue : nextDue? p.window = some due) : (p.passTo due).work < p.work := by
  obtain ⟨⟨s, hs, hstage⟩, -⟩ := nextDue?_eq_some hdue
  have hlater := hidle.time_lt hp hfree hs hstage
  have hle : ∀ s ∈ p.window, s.stage.work due ≤ s.stage.work p.time := by
    intro s _
    cases hstage : s.stage with
    | running due' => exact Stage.work_running_le (Nat.le_of_lt hlater)
    | fresh | asking | ended => exact Nat.le_refl _
  have hlt : s.stage.work due < s.stage.work p.time := by
    rw [hstage, Stage.work, Stage.work, if_pos (Nat.le_refl _),
      if_neg (Nat.not_le.2 hlater)]
    omega
  exact Nat.add_lt_add_left (List.sum_lt_sum _ _ hle ⟨s, hs, hlt⟩) _

theorem Happens.work_lt (h : Happens size interruption p q)
    (hp : p.Live interruption) : q.work < p.work := by
  cases h with
  | enters hwaiting hroom =>
      simp only [work, hwaiting, List.length_cons, List.map_append,
        List.map_cons, List.map_nil, List.sum_append, List.sum_cons,
        List.sum_nil, Stage.work]
      omega
  | leaves hfilled hwindow =>
      simp only [work, hwindow, List.map_cons, List.sum_cons, Stage.work]
      omega
  | @begins before after plan hfilled hopen hwindow hbefore hfree =>
      have := begunStage_work_lt p.time plan
      simp only [work, hwindow, List.map_append, List.map_cons, List.sum_append,
        List.sum_cons]
      omega
  | held hfilled hopen hwindow hbefore hspent hasks =>
      simp only [work, hwindow, List.map_append, List.map_cons, List.sum_append,
        List.sum_cons, Stage.work]
      omega
  | ends hfilled hopen hwindow hfree hdue =>
      simp only [work, hwindow, List.map_append, List.map_cons, List.sum_append,
        List.sum_cons, Stage.work, if_pos hdue]
      omega
  | passes hidle hfree hdue hlater hin =>
      exact work_passTo_lt hp hidle hfree hdue

/-- The states that a run goes through. -/
inductive Reached (size : Nat) (interruption : Option Interruption)
    (plans : List CheckPlan) : Progress → Prop where
  | start : Reached size interruption plans (.start plans)
  | next {p q : Progress} (hp : Reached size interruption plans p)
      (hstep : p.step size interruption = .inl q) :
      Reached size interruption plans q

/-- An interruption that is no cancellation. -/
def NoCancel (interruption : Option Interruption) : Prop :=
  ∀ time, interruption ≠ some (.cancel time)

theorem live_start (interruption : Option Interruption)
    (plans : List CheckPlan) : (start plans).Live interruption :=
  ⟨rfl, nofun⟩

/-- A step that goes on is one of the things that can happen, or cancels the
checks. -/
theorem happens_or_cancelled (hsize : 0 < size) (hp : p.Live interruption)
    (h : p.step size interruption = .inl q) :
    Happens size interruption p q ∨
      q.cancelled = true ∧ ∃ time, interruption = some (.cancel time) := by
  rcases step_cases hsize hp with
    ⟨q', hstep, hhappens⟩ | ⟨_, hstep, -⟩ | ⟨time, hstep, hcancels⟩
  · rw [h] at hstep
    cases hstep
    exact .inl hhappens
  · rw [h] at hstep
    cases hstep
  · rw [h] at hstep
    cases hstep
    exact .inr ⟨rfl, time, hcancels.eq⟩

theorem happens_of_step (hsize : 0 < size) (hcancel : NoCancel interruption)
    (hp : p.Live interruption) (h : p.step size interruption = .inl q) :
    Happens size interruption p q :=
  (happens_or_cancelled hsize hp h).resolve_right
    fun ⟨_, time, heq⟩ => hcancel time heq

theorem ends_of_step (hsize : 0 < size) (hp : p.Live interruption)
    {outcome : Outcome} (h : p.step size interruption = .inr outcome) :
    Ends size interruption p outcome := by
  rcases step_cases hsize hp with
    ⟨_, hstep, -⟩ | ⟨outcome', hstep, hends⟩ | ⟨_, hstep, -⟩
  · rw [h] at hstep
    cases hstep
  · rw [h] at hstep
    cases hstep
    exact hends
  · rw [h] at hstep
    cases hstep

theorem run_of_next {fuel : Nat} (h : p.step size interruption = .inl q) :
    run size interruption (fuel + 1) p = run size interruption fuel q := by
  rw [run, h]

theorem run_of_end {fuel : Nat} {outcome : Outcome}
    (h : p.step size interruption = .inr outcome) :
    run size interruption (fuel + 1) p = outcome := by
  rw [run, h]

/-- What is kept by all that can happen. -/
def Keeps (size : Nat) (interruption : Option Interruption)
    (P : Progress → Prop) : Prop :=
  ∀ p q, P p → p.Live interruption → Happens size interruption p q → P q

theorem Reached.invariant (hsize : 0 < size) (hcancel : NoCancel interruption)
    {plans : List CheckPlan} {P : Progress → Prop}
    (hkept : Keeps size interruption P) (hstart : P (.start plans))
    (h : Reached size interruption plans p) : p.Live interruption ∧ P p := by
  induction h with
  | start => exact ⟨live_start interruption plans, hstart⟩
  | next hp hstep ih =>
      have hhappens := happens_of_step hsize hcancel ih.1 hstep
      exact ⟨hhappens.live ih.1, hkept _ _ ih.2 ih.1 hhappens⟩

/-- A run that nothing cancels comes to a state in which it ends, and what is
kept by all that can happen holds there. -/
theorem run_invariant (hsize : 0 < size) (hcancel : NoCancel interruption)
    {P : Progress → Prop} (hkept : Keeps size interruption P) {fuel : Nat}
    (hlive : p.Live interruption) (hp : P p) (hfuel : p.work < fuel) :
    ∃ q, q.Live interruption ∧ P q ∧
      Ends size interruption q (run size interruption fuel p) := by
  induction fuel generalizing p with
  | zero => exact absurd hfuel (Nat.not_lt_zero _)
  | succ fuel ih =>
      cases hstep : p.step size interruption with
      | inl q =>
          have hhappens := happens_of_step hsize hcancel hlive hstep
          have hlt := hhappens.work_lt hlive
          rw [run_of_next hstep]
          exact ih (hhappens.live hlive) (hkept p q hp hlive hhappens)
            (by omega)
      | inr outcome =>
          rw [run_of_end hstep]
          exact ⟨p, hlive, hp, ends_of_step hsize hlive hstep⟩

theorem work_start (plans : List CheckPlan) :
    (start plans).work < 5 * plans.length + 1 := by
  simp [work, start]

end Progress

end DaggerWorkflows.Schedule
