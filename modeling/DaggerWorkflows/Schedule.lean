import DaggerWorkflows.Pipeline.Check

/-!
# Schedules of checks

Checks run side by side in a window of a fixed size, in their order. The window
moves on only when its first check has ended, so a check that has ended earlier
waits there for those before it; and the first failure, in order, ends
everything. Time is counted in milliseconds and passes only when nothing else
can happen.

A check that has begun waits for two things, the answer of the runner and its
own cancellation, and ends with the first that it finds. All checks are
cancelled together, so what comes of the whole is decided, as always, by the
first of the window.

The runtime looks at the checks in turn, in one go that is called a poll. So
that other work is not kept waiting, a poll takes in a limited number of
answers, and whoever still waits is looked at again in the next poll, which
comes at once. This makes a difference only where there is no next poll, at the
last moment of a budget of time.
-/

namespace DaggerWorkflows

namespace Schedule

/-- How far a check in the window has come. -/
inductive Stage where
  | fresh
  /-- About to ask the runner. -/
  | asking
  /-- Waiting for the answer, which comes at that time. -/
  | running (due : Nat)
  | ended (result : Except Error Unit)

/-- A check in the window. -/
structure Slot where
  plan : CheckPlan
  stage : Stage

/-- What a check finds when it is looked at. -/
structure Moment where
  time : Nat
  /-- Whether the checks have been cancelled. -/
  cancelled : Bool
  /-- Whether the poll has taken in all the answers that it may. -/
  spent : Bool

/-- What comes of looking at a check. -/
structure Look where
  stage : Stage
  requests : List (Nat × ExecRequest)
  events : List Event
  /-- How many answers were taken in. -/
  taken : Nat

/-- What has happened up to a time. -/
structure Progress where
  time : Nat
  cancelled : Bool
  /-- How many answers have been taken in at this time. -/
  taken : Nat
  /-- The checks in the window, in their order. -/
  window : List Slot
  /-- The checks that have not come into the window. -/
  waiting : List CheckPlan
  /-- The requests so far, each with its time. -/
  requests : List (Nat × ExecRequest)
  events : List Event

/-- What may keep the checks from running to their end. -/
inductive Interruption where
  /-- The caller cancels the checks at a time, once what is due at that time
  has happened. -/
  | cancel (time : Nat)
  /-- The checks are given up after so many seconds. -/
  | timeout (seconds : Nat)
deriving DecidableEq, Repr

/-- How the checks went. -/
structure Outcome where
  result : Except Error Unit
  finishedAt : Nat
  requests : List (Nat × ExecRequest)
  events : List Event

/-- When an interruption comes, in milliseconds. -/
def Interruption.time : Interruption → Nat
  | cancel time => time
  | timeout seconds => seconds * 1000

namespace Stage

/-- Whether something happens to a check that is looked at. -/
def isReady (now : Moment) : Stage → Bool
  | fresh => true
  | asking => !now.spent
  | running due => !now.spent && (now.cancelled || decide (due ≤ now.time))
  | ended _ => false

/-- When the answer comes, if the check waits for it. -/
def due? : Stage → Option Nat
  | running due => some due
  | _ => none

end Stage

/-- Let a check wait for the runner's answer and for its cancellation. The
answer is due at a time, or else the runner is yet to be asked. In a poll that
is spent nothing comes of it. -/
def select (now : Moment) (plan : CheckPlan) (due? : Option Nat) : Look :=
  if now.spent then ⟨due?.elim .asking .running, [], [], 0⟩
  else if now.cancelled then ⟨.ended (.error .cancelled), [], [], 0⟩
  else
    match due? with
    | none =>
        let requests := (plan.request.map fun r => (now.time, r)).toList
        if plan.delay = 0 then ⟨.ended plan.result, requests, plan.after, 0⟩
        else ⟨.running (now.time + plan.delay), requests, [], 0⟩
    | some due =>
        if due ≤ now.time then ⟨.ended plan.result, [], plan.after, 1⟩
        else ⟨.running due, [], [], 0⟩

/-- Let a check begin. One that has nothing to ask is over. -/
def begin (now : Moment) (plan : CheckPlan) : Look :=
  let look : Look := match plan.request with
    | none => ⟨.ended plan.result, [], plan.after, 0⟩
    | some _ => select now plan none
  { look with events := plan.before ++ look.events }

/-- Look at a check. -/
def Slot.look (now : Moment) (slot : Slot) : Look :=
  match slot.stage with
  | .fresh => begin now slot.plan
  | .asking => select now slot.plan none
  | .running due => select now slot.plan (some due)
  | .ended result => ⟨.ended result, [], [], 0⟩

/-- The time of the next answer to a check in the window. -/
def nextDue? (window : List Slot) : Option Nat :=
  (window.filterMap (·.stage.due?)).min?

/-- How many answers a poll takes in. -/
def pollBudget : Nat := 128

namespace Progress

/-- Before anything has happened. -/
def start (plans : List CheckPlan) : Progress :=
  ⟨0, false, 0, [], plans, [], []⟩

/-- The end of all checks. -/
def finish (p : Progress) (result : Except Error Unit) (time : Nat) : Outcome :=
  ⟨result, time, p.requests, p.events⟩

/-- Whether no more answers are taken in: this is the last moment of a budget
of time, and its only poll is spent. -/
def isSpent (interruption : Option Interruption) (p : Progress) : Bool :=
  match interruption with
  | some (.timeout seconds) =>
      decide (p.time = seconds * 1000 ∧ pollBudget ≤ p.taken)
  | _ => false

/-- What a check finds now. -/
def moment (interruption : Option Interruption) (p : Progress) : Moment :=
  ⟨p.time, p.cancelled, p.isSpent interruption⟩

/-- Look at the first check to which something happens. -/
def advance (now : Moment) (p : Progress) : Progress :=
  match p.window.span fun slot => !slot.stage.isReady now with
  | (_, []) => p
  | (before, slot :: after) =>
      let look := slot.look now
      { p with
        taken := p.taken + look.taken
        window := before ++ ⟨slot.plan, look.stage⟩ :: after
        requests := p.requests ++ look.requests
        events := p.events ++ look.events }

/-- Let time pass. -/
def passTo (p : Progress) (time : Nat) : Progress := { p with time, taken := 0 }

/-- Cancel the checks at a time. -/
def cancelAt (p : Progress) (time : Nat) : Progress :=
  { p.passTo time with cancelled := true }

/-- What comes when nothing happens at this time any more: the interruption, or
the next answer. -/
def wait (interruption : Option Interruption) (p : Progress) :
    Progress ⊕ Outcome :=
  let due? := nextDue? p.window
  let next : Progress ⊕ Outcome := match due? with
    | none => .inr (p.finish (.ok ()) p.time)
    | some due => .inl (p.passTo due)
  match interruption with
  | none => next
  | some (.cancel time) =>
      if !p.cancelled && due?.all (time < ·) then .inl (p.cancelAt time)
        else next
  | some (.timeout seconds) =>
      if p.isSpent interruption || due?.all (seconds * 1000 < ·) then
        .inr (p.finish (.error (.timeout seconds)) (seconds * 1000))
      else next

/-- The next thing that happens, or the end. In this order: a check comes into a
window that is not full; the window moves past its first check, or all ends with
its failure; a check is looked at to which something happens; time passes. -/
def step (size : Nat) (interruption : Option Interruption) (p : Progress) :
    Progress ⊕ Outcome :=
  match p.waiting, decide (p.window.length < size) with
  | plan :: waiting, true =>
      .inl { p with window := p.window ++ [⟨plan, .fresh⟩], waiting }
  | _, _ =>
    match p.window with
    | [] => .inr (p.finish (.ok ()) p.time)
    | ⟨_, .ended (.ok ())⟩ :: window => .inl { p with window }
    | ⟨_, .ended (.error e)⟩ :: _ => .inr (p.finish (.error e) p.time)
    | window =>
        let now := p.moment interruption
        if window.any (·.stage.isReady now) then .inl (p.advance now)
        else p.wait interruption

/-- Let things happen until the end, in that many steps. -/
def run (size : Nat) (interruption : Option Interruption) :
    Nat → Progress → Outcome
  | 0, p => p.finish (.ok ()) p.time
  | fuel + 1, p =>
      match p.step size interruption with
      | .inl p => run size interruption fuel p
      | .inr outcome => outcome

end Progress

/-- Run checks in a window of a size, at least one. Each check comes into the
window, begins, is waited for, ends and leaves, which bounds the steps. -/
def run (size : Nat) (interruption : Option Interruption)
    (plans : List CheckPlan) : Outcome :=
  Progress.run (max 1 size) interruption (5 * plans.length + 1) (.start plans)

end Schedule

end DaggerWorkflows
