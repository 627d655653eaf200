import DaggerWorkflows.Proofs.CheckVerdict

/-!
# What is asked of the runner, and when it may be

The runner is asked for one trigger after the other, in their order, and the
triggers with a secret that is no name are passed over. `Registry.asking` is
that list up to a point; everything a run asks is such a list, at the times of
`WindowTimes.lean` (`requestsOf_checkPlans`).

A trigger is asked for when it comes into the window, so those a window before
it have left, and they leave only when they have passed. `Dispatched` says this
of a state, and every state of a run is one.
-/

namespace DaggerWorkflows

/-- Whether a request that was made at one time is still unfinished at
another. -/
def Unfinished (reply : String → RunnerReply) (time : Nat)
    (q : Nat × ExecRequest) : Prop :=
  q.1 ≤ time ∧ ∃ script ∈ q.2.script?, time < q.1 + (reply script).delay

instance (reply : String → RunnerReply) (time : Nat) (q : Nat × ExecRequest) :
    Decidable (Unfinished reply time q) :=
  inferInstanceAs (Decidable
    (q.1 ≤ time ∧ ∃ script ∈ q.2.script?, time < q.1 + (reply script).delay))

namespace Pipeline

/-- What is asked of the runner is the script of the check. -/
theorem checkRequest_script? (p : Pipeline) (repo : String) :
    (p.checkRequest repo).script? = some p.checkScript := rfl

/-- A runner that looks at nothing but the script looks at that of the check. -/
theorem reply_ofScripts (p : Pipeline) (repo : String)
    (reply : String → RunnerReply) (j : Nat) :
    (Runner.ofScripts reply).reply j (p.checkRequest repo) =
      reply p.checkScript := rfl

end Pipeline

namespace Trial

/-- How long the check of a trigger takes. A secret that is no name fails it at
once. -/
def delay (t : Trial) : Nat := if t.pipeline.HasNames then t.reply.delay else 0

theorem plan_request (t : Trial) (repo : String) :
    (t.plan repo).request =
      if t.pipeline.HasNames then some (t.pipeline.checkRequest repo)
        else none := by
  split
  · next hnames => exact (Pipeline.checkPlan_of_names hnames repo _).1
  · next hnames =>
      obtain ⟨name, hname⟩ := Pipeline.exists_badSecret hnames
      exact (Pipeline.checkPlan_of_badSecret hname repo _).1

theorem plan_delay (t : Trial) (repo : String) :
    (t.plan repo).delay = t.delay := by
  unfold delay
  split
  · next hnames => exact (Pipeline.checkPlan_of_names hnames repo _).2.1
  · next hnames =>
      obtain ⟨name, hname⟩ := Pipeline.exists_badSecret hnames
      exact (Pipeline.checkPlan_of_badSecret hname repo _).2.1

end Trial

namespace Registry

open Schedule

variable {r : Registry} {repo : String} {runner : Runner}

/-- How long the check of the trigger at a position takes. -/
def delayAt (r : Registry) (repo : String) (runner : Runner) (j : Nat) : Nat :=
  ((r.trials repo runner)[j]?.map (·.delay)).getD 0

theorem delayOf_checkPlans (r : Registry) (repo : String) (runner : Runner) :
    delayOf (r.checkPlans repo runner) = r.delayAt repo runner := by
  funext j
  rw [delayOf, delayAt, getElem?_checkPlans, Option.map_map]
  congr 2
  funext t
  exact t.plan_delay repo

/-- The triggers for which the runner is asked among the first so many, with
their positions. -/
def asking (r : Registry) (m : Nat) : List (Registered × Nat) :=
  (r.triggers.take m).zipIdx.filter fun q => q.1.trigger.pipeline.HasNames

theorem mem_asking {m : Nat} {q : Registered × Nat} :
    q ∈ r.asking m ↔
      q.2 < m ∧ r.triggers[q.2]? = some q.1 ∧
      q.1.trigger.pipeline.HasNames := by
  rw [asking, List.mem_filter, List.mem_zipIdx_iff_getElem?, List.getElem?_take,
    decide_eq_true_iff]
  by_cases hlt : q.2 < m
  · rw [if_pos hlt]
    exact (and_iff_right hlt).symm
  · rw [if_neg hlt]
    exact iff_of_false (fun h => nomatch h.1) fun h => hlt h.1

theorem delayAt_of_mem_asking {m : Nat} {q : Registered × Nat}
    (h : q ∈ r.asking m) :
    r.delayAt repo runner q.2 =
      (runner.reply q.2 (q.1.trigger.pipeline.checkRequest repo)).delay := by
  obtain ⟨-, hget, hnames⟩ := mem_asking.1 h
  rw [delayAt, getElem?_trials, hget]
  exact if_pos hnames

theorem flatMap_eq_map_filter {α β : Type} {P : α → Prop} [DecidablePred P]
    {f : α → β} {g : α → List β} (h : ∀ x, g x = if P x then [f x] else [])
    (xs : List α) : xs.flatMap g = (xs.filter fun x => P x).map f := by
  induction xs with
  | nil => rfl
  | cons x xs ih =>
      rw [List.flatMap_cons, h, ih, List.filter_cons]
      by_cases hx : P x <;> simp [hx]

/-- What the first checks of a registry ask of the runner. -/
theorem requestsOf_checkPlans (size m : Nat) :
    requestsOf size (r.checkPlans repo runner) m =
      (r.asking m).map fun (t, j) =>
        (entersAt size (r.delayAt repo runner) j,
          t.trigger.pipeline.checkRequest repo) := by
  have htriggers : (r.triggers.take m).zipIdx =
      ((r.trials repo runner).take m).zipIdx.map
        (Prod.map (·.registered) id) := by
    rw [← r.map_registered_trials repo runner, ← List.map_take,
      List.zipIdx_map]
  rw [requestsOf, delayOf_checkPlans, checkPlans_eq, ← List.map_take,
    List.zipIdx_map, List.flatMap_map, asking, htriggers, List.filter_map,
    List.map_map]
  refine flatMap_eq_map_filter (P := fun q : Trial × Nat =>
    q.1.pipeline.HasNames) (fun q => ?_) _
  simp only [Prod.map, beginRequests, Trial.plan_request]
  split <;> rfl

/-- What is asked of the runner for the first so many triggers. -/
def checkRequests (r : Registry) (repo : String) (m : Nat) : List ExecRequest :=
  (r.asking m).map fun q => q.1.trigger.pipeline.checkRequest repo

/-- Each of it has the script of its trigger. -/
theorem map_script?_checkRequests (r : Registry) (repo : String) (m : Nat) :
    (r.checkRequests repo m).map (·.script?) =
      (r.asking m).map fun q => some q.1.trigger.pipeline.checkScript := by
  rw [checkRequests, List.map_map]
  rfl

theorem map_snd_requestsOf (size m : Nat) :
    (requestsOf size (r.checkPlans repo runner) m).map (·.2) =
      r.checkRequests repo m := by
  rw [requestsOf_checkPlans, List.map_map]
  rfl

theorem checkRequests_isPrefix (r : Registry) (repo : String) (m : Nat) :
    r.checkRequests repo m <+: r.checkRequests repo r.triggers.length := by
  have hall : r.triggers.take r.triggers.length =
      r.triggers.take m ++ r.triggers.drop m := by simp
  unfold checkRequests asking
  rw [hall, List.zipIdx_append, List.filter_append, List.map_append]
  exact List.prefix_append _ _

theorem checkRequests_of_names
    (h : ∀ t ∈ r.triggers, t.trigger.pipeline.HasNames) :
    r.checkRequests repo r.triggers.length =
      r.triggers.map fun t => t.trigger.pipeline.checkRequest repo := by
  have hasking : r.asking r.triggers.length = r.triggers.zipIdx := by
    rw [asking, List.take_length, List.filter_eq_self]
    intro q hq
    have hmem := List.mem_of_getElem? (List.mem_zipIdx_iff_getElem?.1 hq)
    exact decide_eq_true (h q.1 hmem)
  rw [checkRequests, hasking]
  conv_rhs => rw [← List.zipIdx_map_fst 0 r.triggers, List.map_map]
  rfl

/-- A registry whose trials all pass has names for secrets. -/
theorem hasNames_of_passes
    (h : ∀ t ∈ r.trials repo runner, t.ChecksTo (.ok ())) :
    ∀ t ∈ r.triggers, t.trigger.pipeline.HasNames := by
  intro t ht
  rw [← r.map_registered_trials repo runner] at ht
  obtain ⟨trial, htrial, rfl⟩ := List.mem_map.1 ht
  exact Pipeline.ChecksTo.hasNames (h trial htrial)

/-- At no time are more requests unfinished than the window holds. -/
theorem countP_unfinished_requests_le (reply : String → RunnerReply)
    (size m time : Nat) :
    (requestsOf size (r.checkPlans repo reply) m).countP
      (fun q => Unfinished reply time q) ≤ max 1 size := by
  let delay := r.delayAt repo reply
  let unfinishedAt (j : Nat) : Bool :=
    entersAt size delay j ≤ time ∧ time < entersAt size delay j + delay j
  calc (requestsOf size (r.checkPlans repo reply) m).countP
          (fun q => Unfinished reply time q)
      ≤ (r.asking m).countP (unfinishedAt ∘ Prod.snd) := by
        rw [requestsOf_checkPlans, List.countP_map]
        refine List.countP_mono_left fun q hq hunfinished => ?_
        obtain ⟨hle, script, hscript, hlt⟩ := of_decide_eq_true hunfinished
        rw [Pipeline.checkRequest_script?, Option.mem_some_iff] at hscript
        subst hscript
        rw [← Pipeline.reply_ofScripts _ repo reply q.2,
          ← delayAt_of_mem_asking hq] at hlt
        exact decide_eq_true ⟨hle, hlt⟩
    _ ≤ (r.triggers.take m).zipIdx.countP (unfinishedAt ∘ Prod.snd) :=
        List.filter_sublist.countP_le
    _ = (List.range (r.triggers.take m).length).countP unfinishedAt := by
        rw [← List.countP_map, List.zipIdx_map_snd, List.range_eq_range']
    _ ≤ max 1 size := countP_unfinished_le time _

/-! ## In order, and no more than a window ahead -/

/-- A state in which the first `started` triggers have been asked for, and the
first `left` have passed and left a window of `n`. -/
structure Dispatched (r : Registry) (repo : String) (runner : Runner) (n : Nat)
    (p : Progress) (left started : Nat) : Prop where
  asked : p.requests.map (·.2) = r.checkRequests repo started
  /-- The check in a place of the window has begun if it is one of those. -/
  begun_iff : ∀ (i : Nat) (slot : Slot), p.window[i]? = some slot →
    (slot.stage ≠ .fresh ↔ left + i < started)
  rest : p.window.map (·.plan) ++ p.waiting =
    (r.checkPlans repo runner).drop left
  passed : ∀ t ∈ (r.trials repo runner).take left, t.ChecksTo (.ok ())
  room : p.window.length ≤ n
  ordered : ∀ i j, i + n ≤ j → j < started → i < left

theorem dispatched_of_inTime {n : Nat} {p : Progress} {left asked : Nat}
    (h : Progress.OnTime n (r.checkPlans repo runner) p left)
    (hasked : Progress.Asked n none (r.checkPlans repo runner) p left asked) :
    r.Dispatched repo runner n p left asked where
  asked := by rw [hasked.requests_eq, map_snd_requestsOf]
  begun_iff := by
    intro i slot hslot
    rw [ne_eq, hasked.fresh_iff rfl hslot, Nat.not_le]
  rest := h.rest.symm
  passed := passed_of_checkPlans h.passed
  room := h.room
  ordered := by
    intro i j hij hj
    have := hasked.le
    have := h.room
    omega

end Registry

end DaggerWorkflows
