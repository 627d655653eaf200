import DaggerWorkflows.Proofs.PollBudget

/-!
# A run that is interrupted

Two runs from one state, one interrupted and the other not, go through the same
states until the interruption makes a difference (`run_eq_or_breaks`), and
`Breaks` says where it does. Nothing may be left to happen by the time of the
interruption, so that it comes before the next answer. Or the last poll of a
budget of time is spent, and the first check cannot end in it.

What comes of a difference is read off the steps. When the checks are cancelled,
the first of the window, which waits for its answer, finds its cancellation and
fails, and the first failure ends everything: a failure behind it is never
looked at, and no check begins (`run_cancelAt`). When a budget is over, all is
given up (`run_of_stuck` for a poll that is spent). In either case nothing has
been asked since the difference, and the whole run goes on from the same state,
which is what `CutOff` compares.
-/

namespace DaggerWorkflows.Schedule

/-- What an interruption makes the checks fail with. -/
def Interruption.error : Interruption → Error
  | cancel _ => .cancelled
  | timeout seconds => .timeout seconds

namespace Progress

variable {size : Nat} {interruption : Option Interruption} {i : Interruption}
  {p q : Progress}

/-! ## Steps of a window that is filled -/

theorem step_of_filled (hfilled : p.Filled size) :
    p.step size interruption =
      match p.window with
      | [] => .inr (p.finish (.ok ()) p.time)
      | ⟨_, .ended (.ok ())⟩ :: window => .inl { p with window }
      | ⟨_, .ended (.error e)⟩ :: _ => .inr (p.finish (.error e) p.time)
      | window =>
          if window.any (·.stage.isReady (p.moment interruption)) then
            .inl (p.advance (p.moment interruption))
          else p.wait interruption := by
  unfold step
  split
  · next plan waiting hwaiting hroom =>
      rcases hfilled with hnil | hfull
      · rw [hnil] at hwaiting
        cases hwaiting
      · exact absurd (of_decide_eq_true hroom) (Nat.not_lt.2 hfull)
  · rfl

theorem step_of_failed (hfilled : p.Filled size) {plan : CheckPlan} {e : Error}
    {window : List Slot}
    (hwindow : p.window = ⟨plan, .ended (.error e)⟩ :: window) :
    p.step size interruption = .inr (p.finish (.error e) p.time) := by
  rw [step_of_filled hfilled, hwindow]

theorem step_of_open (hfilled : p.Filled size) (hopen : p.HeadOpen)
    (hne : p.window ≠ []) :
    p.step size interruption =
      if p.window.any (·.stage.isReady (p.moment interruption)) then
        .inl (p.advance (p.moment interruption))
      else p.wait interruption := by
  rw [step_of_filled hfilled]
  split
  · next hwindow => exact absurd hwindow hne
  · next hwindow => exact absurd rfl (hopen _ (by rw [hwindow]; rfl) _)
  · next hwindow => exact absurd rfl (hopen _ (by rw [hwindow]; rfl) _)
  · rfl

theorem advance_head {now : Moment} {s : Slot} {window : List Slot}
    (hwindow : p.window = s :: window) (hready : s.stage.isReady now = true) :
    p.advance now =
      { p with
        taken := p.taken + (s.look now).taken
        window := ⟨s.plan, (s.look now).stage⟩ :: window
        requests := p.requests ++ (s.look now).requests
        events := p.events ++ (s.look now).events } := by
  unfold advance
  rw [hwindow, List.span_eq_takeWhile_dropWhile, List.takeWhile_cons,
    List.dropWhile_cons, if_neg (by simp [hready]), if_neg (by simp [hready])]
  rfl

/-! ## After a cancellation -/

/-- A check that waits when all are cancelled fails with that, whatever its
answer would have been. -/
theorem look_cancelled (time : Nat) (plan : CheckPlan) (due : Nat) :
    (⟨plan, .running due⟩ : Slot).look ⟨time, true, false⟩ =
      ⟨.ended (.error .cancelled), [], [], 0⟩ := rfl

theorem step_cancelled {time : Nat} (hfilled : p.Filled size)
    (hcancelled : p.cancelled = true) {plan : CheckPlan} {due : Nat}
    {window : List Slot} (hwindow : p.window = ⟨plan, .running due⟩ :: window) :
    p.step size (some (.cancel time)) =
      .inl
        { p with window := ⟨plan, .ended (.error .cancelled)⟩ :: window } := by
  have hmoment : p.moment (some (.cancel time)) = ⟨p.time, true, false⟩ := by
    rw [moment, hcancelled]
    rfl
  have hopen : p.HeadOpen := by
    intro s hs result
    rw [hwindow] at hs
    cases hs
    intro hended
    cases hended
  have hready : (Stage.running due).isReady ⟨p.time, true, false⟩ = true := rfl
  rw [step_of_open hfilled hopen (by rw [hwindow]; exact List.cons_ne_nil _ _),
    hmoment, if_pos (by rw [hwindow, List.any_cons, hready]; rfl),
    advance_head hwindow hready, look_cancelled]
  simp

/-- So the checks end when they are cancelled, with what has been asked by
then. -/
theorem run_cancelAt {time fuel : Nat} (hfilled : p.Filled size)
    {plan : CheckPlan} {due : Nat} {window : List Slot}
    (hwindow : p.window = ⟨plan, .running due⟩ :: window) :
    run size (some (.cancel time)) (fuel + 2) (p.cancelAt time) =
      ⟨.error .cancelled, time, p.requests, p.events⟩ := by
  have hcancel : (p.cancelAt time).Filled size := hfilled
  refine (run_of_next (step_cancelled hcancel rfl hwindow)).trans ?_
  -- The window is as full with the failure in it as it was before.
  refine run_of_end (step_of_failed ?_ rfl)
  rw [Filled, hwindow] at hfilled
  exact hfilled

/-! ## Where an interruption makes a difference -/

/-- A state in which the interrupted run and the whole part. -/
inductive Breaks (size : Nat) (i : Interruption) (p : Progress) : Prop where
  | waits (hidle : p.Idle size (some i)) (hfree : p.isSpent (some i) = false)
      (hlater : ∀ s ∈ p.window, ∀ due, s.stage = .running due → i.time < due)
  | stuck (hfilled : p.Filled size) (hstuck : p.Stuck (some i))

theorem Live.live_some (hp : p.Live none) (i : Interruption) :
    p.Live (some i) where
  cancelled := hp.cancelled
  asking := by
    intro s hs hstage
    cases hp.asking s hs hstage

/-- Where nothing happens, the interruption comes first or makes no
difference. -/
theorem wait_eq_or_breaks (hidle : p.Idle size (some i))
    (hfree : p.isSpent (some i) = false) :
    p.wait (some i) = p.wait none ∨ Breaks size i p := by
  by_cases hlater : (nextDue? p.window).all (i.time < ·) = true
  · exact .inr (.waits hidle hfree (all_nextDue?.1 hlater))
  · refine .inl ?_
    cases i with
    | cancel time =>
        have hnot : (nextDue? p.window).all (time < ·) = false :=
          Bool.eq_false_of_not_eq_true hlater
        simp [wait, hnot]
    | timeout seconds =>
        have hnot : (nextDue? p.window).all (seconds * 1000 < ·) = false :=
          Bool.eq_false_of_not_eq_true hlater
        simp [wait, hfree, hnot]

/-- In a poll that is spent a first check that can end does so in the whole run
too. -/
theorem advance_eq_or_breaks (hp : p.Live none) (hfilled : p.Filled size)
    (hopen : p.HeadOpen) (hne : p.window ≠ [])
    (hspent : p.isSpent (some i) = true) :
    (p.window.any (·.stage.isReady (p.moment (some i))) = true ∧
      p.window.any (·.stage.isReady (p.moment none)) = true ∧
      p.advance (p.moment (some i)) = p.advance (p.moment none)) ∨
    Breaks size i p := by
  cases hwindow : p.window with
  | nil => exact absurd hwindow hne
  | cons s window =>
      obtain ⟨plan, stage⟩ := s
      cases stage with
      | running | asking =>
          exact .inr (.stuck hfilled ⟨hspent, _, _, hwindow, trivial⟩)
      | ended result =>
          exact absurd rfl
            (hopen ⟨plan, .ended result⟩ (by rw [hwindow]; rfl) result)
      | fresh =>
          by_cases hnone : plan.request = none
          · have hlook : ∀ interruption : Option Interruption,
                (⟨plan, .fresh⟩ : Slot).look (p.moment interruption) =
                  ⟨begunStage p.time plan, beginRequests p.time plan,
                    beginEvents plan, 0⟩ := by
              intro interruption
              rw [moment, hp.cancelled]
              exact begin_eq (.inr hnone)
            refine .inl ⟨by simp, by simp, ?_⟩
            rw [advance_head hwindow rfl, advance_head hwindow rfl,
              hlook, hlook]
          · exact .inr (.stuck hfilled ⟨hspent, _, _, hwindow, hnone⟩)

/-- A step of the interrupted run is a step of the whole, unless they part. -/
theorem step_eq_or_breaks (i : Interruption) (hp : p.Live none) :
    p.step size (some i) = p.step size none ∨ Breaks size i p := by
  by_cases hroom : ∃ plan waiting, p.waiting = plan :: waiting ∧
      p.window.length < size
  · obtain ⟨plan, waiting, hwaiting, hlt⟩ := hroom
    refine .inl ?_
    unfold step
    rw [hwaiting, decide_eq_true hlt]
  · have hfilled : p.Filled size :=
      filled_of_not_lt fun plan waiting hwaiting hlt =>
      hroom ⟨plan, waiting, hwaiting, hlt⟩
    rw [step_of_filled hfilled, step_of_filled hfilled]
    split
    · exact .inl rfl
    · exact .inl rfl
    · exact .inl rfl
    · next hne hok herror =>
        have hopen : p.HeadOpen := headOpen_of_ne hok herror
        by_cases hspent : p.isSpent (some i) = true
        · refine (advance_eq_or_breaks hp hfilled hopen hne hspent).imp_left ?_
          rintro ⟨hready, hready', hsame⟩
          rw [if_pos hready, if_pos hready', hsame]
        · rw [Bool.not_eq_true] at hspent
          have hmoment : p.moment (some i) = p.moment none := by
            rw [moment, moment, hspent]
            rfl
          rw [hmoment]
          split
          · exact .inl rfl
          · next hnone =>
              refine wait_eq_or_breaks ⟨hfilled, hopen, hne, ?_⟩ hspent
              rw [hmoment]
              simpa using hnone

theorem Happens.time_le {interruption : Option Interruption}
    (h : Happens size interruption p q)
    (hp : ∀ i ∈ interruption, p.time ≤ i.time) :
    ∀ i ∈ interruption, q.time ≤ i.time := by
  cases h with
  | enters | leaves | begins | held | ends => exact hp
  | passes hidle hfree hdue hlater hin => exact hin

theorem finishedAt_of_ends {outcome : Outcome} (h : Ends size none p outcome) :
    outcome.finishedAt = p.time := by
  cases h with
  | done | failed => rfl
  | timedOut hi hidle hlate => cases hi

/-- The two runs are the same, or come to a state in which they part. -/
theorem run_eq_or_breaks (hsize : 0 < size) {P : Progress → Prop}
    (hkept : Keeps size (some i) P) {fuel : Nat} (hlive : p.Live none)
    (hp : P p) (hfuel : p.work < fuel) :
    (run size (some i) fuel p = run size none fuel p ∧
      ∃ q, P q ∧ (run size none fuel p).finishedAt = q.time) ∨
      ∃ q fuel', q.Live none ∧ P q ∧ q.work < fuel' ∧ Breaks size i q ∧
        run size (some i) fuel p = run size (some i) fuel' q ∧
        run size none fuel p = run size none fuel' q := by
  induction fuel generalizing p with
  | zero => exact absurd hfuel (Nat.not_lt_zero _)
  | succ fuel ih =>
      rcases step_eq_or_breaks i hlive with hsame | hbreaks
      · cases hstep : p.step size none with
        | inr outcome =>
            rw [run_of_end hstep, run_of_end (hsame.trans hstep)]
            exact .inl
              ⟨rfl, p, hp, finishedAt_of_ends (ends_of_step hsize hlive hstep)⟩
        | inl q =>
            have hwhole := happens_of_step hsize noCancel_none hlive hstep
            have hlt := hwhole.work_lt hlive
            have hlive' := hwhole.live hlive
            have hhappens : Happens size (some i) p q := by
              refine (happens_or_cancelled hsize (hlive.live_some i)
                (hsame.trans hstep)).resolve_right fun hq => ?_
              rw [hlive'.cancelled] at hq
              cases hq.1
            rw [run_of_next hstep, run_of_next (hsame.trans hstep)]
            exact ih hlive' (hkept p q hp (hlive.live_some i) hhappens)
              (by omega)
      · exact .inr ⟨p, fuel + 1, hlive, hp, hfuel, hbreaks, rfl, rfl⟩

/-! ## What comes of the difference -/

theorem step_of_idle (hidle : p.Idle size interruption) :
    p.step size interruption = p.wait interruption := by
  rw [step_of_open hidle.filled hidle.headOpen hidle.nonempty, if_neg]
  simpa using hidle.unready

theorem three_le_work {plan : CheckPlan} {due : Nat} {window : List Slot}
    (hwindow : p.window = ⟨plan, .running due⟩ :: window)
    (hlater : p.time < due) :
    3 ≤ p.work := by
  rw [work, hwindow, List.map_cons, List.sum_cons, Stage.work,
    if_neg (Nat.not_le.2 hlater)]
  omega

/-- Where the runs part, the interrupted one asks for nothing more. -/
theorem run_of_breaks (hsize : 0 < size) (hlive : p.Live none)
    (hbreaks : Breaks size i p) {fuel : Nat} (hfuel : p.work < fuel) :
    ∃ events, run size (some i) fuel p =
      ⟨.error i.error, i.time, p.requests, events⟩ := by
  cases hbreaks with
  | waits hidle hfree hlater =>
      have hall := all_nextDue?.2 hlater
      obtain ⟨plan, due, window, hwindow⟩ := hidle.head_running hfree
      have hhead : ⟨plan, .running due⟩ ∈ p.window := by
        rw [hwindow]
        exact List.mem_cons_self
      have hwork := three_le_work hwindow
        (hidle.time_lt (hlive.live_some i) hfree hhead rfl)
      have hstep := step_of_idle hidle
      refine ⟨p.events, ?_⟩
      cases i with
      | cancel time =>
          obtain ⟨fuel, rfl⟩ : ∃ fuel', fuel = fuel' + 2 + 1 :=
            ⟨fuel - 3, by omega⟩
          have hwait : p.wait (some (.cancel time)) =
              .inl (p.cancelAt time) := by
            have hall' : (nextDue? p.window).all (time < ·) = true := hall
            simp [wait, hlive.cancelled, hall']
          rw [run_of_next (hstep.trans hwait),
            run_cancelAt hidle.filled hwindow]
          rfl
      | timeout seconds =>
          obtain ⟨fuel, rfl⟩ : ∃ fuel', fuel = fuel' + 1 := ⟨fuel - 1, by omega⟩
          have hwait : p.wait (some (.timeout seconds)) =
              .inr (p.finish (.error (.timeout seconds)) (seconds * 1000)) := by
            have hall' : (nextDue? p.window).all (seconds * 1000 < ·) = true :=
              hall
            simp [wait, hall']
          rw [run_of_end (hstep.trans hwait)]
          rfl
  | stuck hfilled hstuck =>
      obtain ⟨seconds, hi, -, -⟩ := pollBudget_le_of_spent hstuck.spent
      cases hi
      exact run_of_stuck hsize (hlive.live_some _) hstuck hfuel

end Progress

/-- How a run ends that an interruption cuts off, beside the whole run. What is
asked before the interruption is the same, and of what is asked at its very time
some may be missing, but only if a poll is spent. -/
structure CutOff (size : Nat) (plans : List CheckPlan) (i : Interruption)
    (whole cut : Outcome) : Prop where
  result : cut.result = .error i.error
  finishedAt : cut.finishedAt = i.time
  time_le : i.time ≤ whole.finishedAt
  requests_prefix : cut.requests <+: whole.requests.filter fun q => q.1 ≤ i.time
  early : cut.requests.filter (fun q => q.1 < i.time) =
    whole.requests.filter fun q => q.1 < i.time
  exact : (i.time < whole.finishedAt ∧
      cut.requests = whole.requests.filter fun q => q.1 ≤ i.time) ∨
    (∃ seconds, i = .timeout seconds) ∧ pollBudget ≤ answersAt size plans i.time

theorem filter_of_append {cut later : List (Nat × ExecRequest)} {time : Nat}
    (hcut : ∀ q ∈ cut, q.1 ≤ time) (hlater : ∀ q ∈ later, time ≤ q.1) :
    cut <+: (cut ++ later).filter (fun q => q.1 ≤ time) ∧
      cut.filter (fun q => q.1 < time) =
        (cut ++ later).filter fun q => q.1 < time := by
  constructor
  · rw [List.filter_append, List.filter_eq_self.2 fun q hq =>
      decide_eq_true (hcut q hq)]
    exact List.prefix_append _ _
  · have hnone : later.filter (fun q => q.1 < time) = [] := by
      rw [List.filter_eq_nil_iff]
      intro q hq hlt
      exact Nat.not_lt.2 (hlater q hq) (of_decide_eq_true hlt)
    rw [List.filter_append, hnone, List.append_nil]

theorem filter_of_append_of_lt {cut later : List (Nat × ExecRequest)}
    {time : Nat} (hcut : ∀ q ∈ cut, q.1 ≤ time)
    (hlater : ∀ q ∈ later, time < q.1) :
    cut = (cut ++ later).filter fun q => q.1 ≤ time := by
  have hnone : later.filter (fun q => q.1 ≤ time) = [] := by
    rw [List.filter_eq_nil_iff]
    intro q hq hle
    exact Nat.not_le.2 (hlater q hq) (of_decide_eq_true hle)
  rw [List.filter_append, hnone, List.append_nil,
    List.filter_eq_self.2 fun q hq => decide_eq_true (hcut q hq)]

namespace Progress

variable {size : Nat} {plans : List CheckPlan} {p : Progress} {left asked : Nat}
  {i : Interruption}

theorem OnTime.leftBy_le_finishedAt (h : OnTime size plans p left)
    {outcome : Outcome} {k asked : Nat}
    (hs : Settles size plans outcome k asked) :
    leftBy size (delayOf plans) (left + 1) ≤ outcome.finishedAt := by
  rw [hs.finishedAt]
  refine leftBy_mono (Nat.succ_le_succ (Nat.le_of_not_lt fun hlt => ?_))
  have hk : k < plans.length := Nat.lt_of_lt_of_le hlt h.left_le
  obtain ⟨e, he⟩ := hs.failed _ (List.getElem?_eq_getElem hk)
  have hok := h.passed plans[k]
    (List.mem_take_iff_getElem.2 ⟨k, by omega, rfl⟩)
  rw [hok] at he
  cases he

theorem Asked.asked_none (h : Asked size (some i) plans p left asked)
    (hlive : p.Live none) : Asked size none plans p left asked where
  left_le := h.left_le
  le := h.le
  requests_eq := h.requests_eq
  before := h.before
  after := by
    refine .inl (h.after.resolve_right ?_)
    rintro ⟨-, j, plan, -, hslot⟩
    cases hlive.asking _ (List.mem_of_getElem? hslot) rfl

/-- What the interrupted run comes to where it parts from the whole. -/
theorem cutOff_of_breaks (hsize : 0 < size) (hlive : p.Live none)
    (hbreaks : Breaks size i p) (htime : p.time ≤ i.time)
    (h : OnTime size plans p left)
    (hasked : Asked size (some i) plans p left asked)
    (hcounted : Counted size plans p) {fuel : Nat} (hfuel : p.work < fuel) :
    CutOff size plans i (run size none fuel p) (run size (some i) fuel p) := by
  obtain ⟨events, hcut⟩ := run_of_breaks hsize hlive hbreaks hfuel
  obtain ⟨k, asked', hle, hs⟩ := run_settles hsize hlive
    ⟨left, asked, Nat.le_refl _, h, hasked.asked_none hlive⟩ hfuel
  have hend := h.leftBy_le_finishedAt hs
  obtain ⟨later, hrequests, htimes⟩ := requestsOf_append size plans hle
  have hwhole : (run size none fuel p).requests = p.requests ++ later := by
    rw [hs.requests, hrequests, hasked.requests_eq]
  have hearly : ∀ q ∈ p.requests, q.1 ≤ i.time := by
    intro q hq
    rw [hasked.requests_eq] at hq
    obtain ⟨j, hj, hentered⟩ := mem_requestsOf hq
    rw [hentered]
    exact Nat.le_trans (h.entersAt_le (Nat.lt_of_lt_of_le hj hasked.le)) htime
  generalize run size none fuel p = whole at hs hend hwhole
  rw [hcut]
  cases hbreaks with
  | waits hidle hfree hlater =>
      obtain ⟨plan, due, window, hwindow⟩ := hidle.head_running hfree
      have hdue : i.time < due := hlater ⟨plan, .running due⟩
        (by rw [hwindow]; exact List.mem_cons_self) due rfl
      have hleaves := h.due_le_leftBy hwindow
      have hlate : ∀ q ∈ later, i.time < q.1 := by
        intro q hq
        obtain ⟨j, hj, -, hlen, hentered⟩ := htimes q hq
        rw [hasked.eq_of_idle hidle hfree] at hj
        have := h.leftBy_le_entersAt hsize hidle.filled hj hlen
        omega
      have hfilter := filter_of_append hearly fun q hq =>
        Nat.le_of_lt (hlate q hq)
      rw [← hwhole] at hfilter
      have hexact := filter_of_append_of_lt hearly hlate
      rw [← hwhole] at hexact
      exact ⟨rfl, rfl, by omega, hfilter.1, hfilter.2, .inl ⟨by omega, hexact⟩⟩
  | stuck hfilled hstuck =>
      obtain ⟨seconds, hi, hnow, hbudget⟩ := pollBudget_le_of_spent hstuck.spent
      have hnow' : i.time = p.time := by
        cases hi
        exact hnow.symm
      have hlate : ∀ q ∈ later, i.time ≤ q.1 := by
        intro q hq
        obtain ⟨j, hj, -, hlen, hentered⟩ := htimes q hq
        rw [hnow', hentered]
        exact hasked.time_le_entersAt hsize h hfilled hj hlen
      have hfilter := filter_of_append hearly hlate
      rw [← hwhole] at hfilter
      have hupper := h.upper
      refine ⟨rfl, rfl, by omega, hfilter.1, hfilter.2,
        .inr ⟨⟨seconds, Option.some_inj.1 hi⟩, ?_⟩⟩
      unfold Counted at hcounted
      rw [hnow']
      omega

end Progress

/-- An interruption leaves a run as it is, which ends by then, or cuts it
off. -/
theorem run_cases (size : Nat) (i : Interruption) (plans : List CheckPlan) :
    (run size (some i) plans = run size none plans ∧
      (run size none plans).finishedAt ≤ i.time) ∨
      CutOff (max 1 size) plans i (run size none plans)
        (run size (some i) plans) := by
  have hsize : 0 < max 1 size := by omega
  let P (p : Progress) : Prop :=
    Progress.InTime (max 1 size) (some i) plans 0 p ∧
      Progress.Counted (max 1 size) plans p ∧ ∀ i' ∈ some i, p.time ≤ i'.time
  have hkept : Progress.Keeps (max 1 size) (some i) P := by
    rintro p q ⟨hinTime, hcounted, htime⟩ hlive hhappens
    have hinTime' :=
      Progress.keeps_inTime hsize (some i) plans 0 p q hinTime hlive hhappens
    obtain ⟨left, -, -, honTime, -⟩ := hinTime
    exact ⟨hinTime', hhappens.counted honTime hcounted, hhappens.time_le htime⟩
  have hstart : P (.start plans) :=
    ⟨Progress.inTime_start _ _ plans, Progress.counted_start _ plans,
      fun _ _ => Nat.zero_le _⟩
  rcases Progress.run_eq_or_breaks hsize hkept (Progress.live_start none plans)
      hstart (Progress.work_start plans) with
    ⟨hsame, p, ⟨-, -, htime⟩, hend⟩ |
      ⟨p, fuel, hlive, hp, hfuel, hbreaks, hcut, hwhole⟩
  · exact .inl ⟨hsame, Nat.le_trans (Nat.le_of_eq hend) (htime i rfl)⟩
  · obtain ⟨⟨left, asked, -, honTime, hasked⟩, hcounted, htime⟩ := hp
    have h :=
      Progress.cutOff_of_breaks hsize hlive hbreaks (htime i rfl) honTime
      hasked hcounted hfuel
    rw [← hcut, ← hwhole] at h
    exact .inr h

theorem run_of_lt {size : Nat} {i : Interruption} {plans : List CheckPlan}
    (h : (run size none plans).finishedAt < i.time) :
    run size (some i) plans = run size none plans := by
  rcases run_cases size i plans with ⟨hsame, -⟩ | hcut
  · exact hsame
  · exact absurd hcut.time_le (Nat.not_le.2 h)

theorem cutOff_of_lt {size : Nat} {i : Interruption} {plans : List CheckPlan}
    (h : i.time < (run size none plans).finishedAt) :
    CutOff (max 1 size) plans i (run size none plans)
      (run size (some i) plans) :=
  (run_cases size i plans).resolve_left fun hsame => Nat.not_le.2 h hsame.2

end DaggerWorkflows.Schedule
