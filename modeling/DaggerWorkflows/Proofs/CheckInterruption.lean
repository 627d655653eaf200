import DaggerWorkflows.Proofs.CheckTimes
import DaggerWorkflows.Proofs.InterruptedRun

/-!
# Checks that are cancelled or run out of time

The checks of a registry may be cancelled from outside, or given up when their
time is over. Either is an interruption of the same run, so
`InterruptedRun.lean` says what comes of it, and it depends on when the run
would have ended: before, nothing changes, and after, the checks are cut off,
whatever is already known of checks that wait for an earlier one.

The two differ at the very time of the interruption. A cancellation is never at
the time of an answer, and then it is not at the time of anything: by
`Registry.requests_answered` a request is made at the start or when an answer
comes, and by `Registry.finishedAt_answered` so is the end. A budget of time
leaves the run what is due at its last moment, as far as one poll takes in: the
answers that come then, to requests that were made before, are `answersTo`, and
`answersAt_le` finds among them all that the poll has to take in.
-/

namespace DaggerWorkflows

/-- Whether the runner's answer to a request comes at a time. -/
def AnsweredAt (reply : String → RunnerReply) (time : Nat)
    (q : Nat × ExecRequest) : Prop :=
  ∃ script ∈ q.2.script?, time = q.1 + (reply script).delay

instance (reply : String → RunnerReply) (time : Nat) (q : Nat × ExecRequest) :
    Decidable (AnsweredAt reply time q) :=
  inferInstanceAs (Decidable
    (∃ script ∈ q.2.script?, time = q.1 + (reply script).delay))

/-- How many answers come at a time to requests that were made before it. -/
def answersTo (reply : String → RunnerReply) (time : Nat)
    (requests : List (Nat × ExecRequest)) : Nat :=
  requests.countP fun q => q.1 < time ∧ AnsweredAt reply time q

namespace Registry

open Schedule

variable {r : Registry} {repo : String} {reply : String → RunnerReply}

/-! ## Something happens at the start or when an answer comes -/

/-- A check that takes time is asked for, and is answered after that time. -/
theorem mem_asking_of_delayAt_pos {j m : Nat}
    (hpos : 0 < r.delayAt repo reply j) (hm : j < r.triggers.length → j < m) :
    ∃ t, (t, j) ∈ r.asking m ∧
      r.delayAt repo reply j =
        (reply t.trigger.pipeline.checkScript).delay := by
  have hlt : j < r.triggers.length := by
    refine Nat.lt_of_not_le fun hle => ?_
    rw [delayAt_of_le hle] at hpos
    exact absurd hpos (Nat.lt_irrefl _)
  have hget := List.getElem?_eq_getElem hlt
  have hnames : r.triggers[j].trigger.pipeline.HasNames := by
    refine Decidable.byContradiction fun hbad => ?_
    have hzero : r.delayAt repo reply j = 0 := by
      rw [delayAt, getElem?_trials, hget]
      exact if_neg hbad
    omega
  have hasking : (r.triggers[j], j) ∈ r.asking m :=
    mem_asking.2 ⟨hm hlt, hget, hnames⟩
  exact ⟨r.triggers[j], hasking, delayAt_of_mem_asking hasking⟩

/-- The first so many checks have left the window at the start or at an answer,
if all of them have been asked for. -/
theorem leftBy_answered {n m asked : Nat}
    (hasked : ∀ j < m, j < r.triggers.length → j < asked) :
    leftBy n (r.delayAt repo reply) m = 0 ∨
      ∃ q ∈ requestsOf n (r.checkPlans repo reply) asked,
        AnsweredAt reply (leftBy n (r.delayAt repo reply) m) q := by
  have hcases : leftBy n (r.delayAt repo reply) m = 0 ∨ _ :=
    leftBy_eq_zero_or_ends m
  rcases hcases with hstart | ⟨j, hj, hpos, hends⟩
  · exact .inl hstart
  · obtain ⟨t, hasking, hdelay⟩ := mem_asking_of_delayAt_pos hpos (hasked j hj)
    refine .inr ⟨(entersAt n (r.delayAt repo reply) j,
      t.trigger.pipeline.checkRequest repo), ?_, _,
      Pipeline.checkRequest_script? _ repo, ?_⟩
    · rw [requestsOf_checkPlans]
      exact List.mem_map_of_mem hasking
    · rw [hends, hdelay]

theorem finishedAt_answered (r : Registry) (repo : String)
    (reply : String → RunnerReply) (c : Nat) :
    (r.check repo c reply none).finishedAt = 0 ∨
      ∃ q ∈ (r.check repo c reply none).requests,
        AnsweredAt reply (r.check repo c reply none).finishedAt q := by
  obtain ⟨k, asked, hk, h⟩ := r.check_settles repo reply c
  rw [finishedAt_eq hk, h.requests]
  refine leftBy_answered fun j hj hlt => h.asked_gt j (by omega) ?_
  rw [length_checkPlans]
  exact hlt

theorem requests_answered {c : Nat} {q : Nat × ExecRequest}
    (hq : q ∈ (r.check repo c reply none).requests) :
    q.1 = 0 ∨
      ∃ q' ∈ (r.check repo c reply none).requests, AnsweredAt reply q.1 q' := by
  obtain ⟨k, asked, -, h⟩ := r.check_settles repo reply c
  rw [h.requests] at hq ⊢
  rw [requestsOf_checkPlans] at hq
  obtain ⟨⟨t, j⟩, hmem, rfl⟩ := List.mem_map.1 hq
  have hlt : j < asked := (mem_asking.1 hmem).1
  simp only [entersAt_eq]
  exact leftBy_answered fun i hi _ => by omega

/-! ## Cancellation -/

/-- Checks that are cancelled at a time at which no answer comes end as they
would without that, if they would have ended before. Otherwise they end at that
time, cancelled, and have asked for what the whole run asks for before it. -/
theorem check_cancelled (r : Registry) (repo : String) (c : Nat)
    (reply : String → RunnerReply) {time : Nat} (hpos : 0 < time)
    (hanswers : time ≤ (r.check repo c reply none).finishedAt →
      ∀ q ∈ (r.check repo c reply none).requests, ¬ AnsweredAt reply time q) :
    (r.check repo c reply none).finishedAt ≠ time ∧
    ((r.check repo c reply none).finishedAt < time →
      r.check repo c reply (some time) = r.check repo c reply none) ∧
    (time < (r.check repo c reply none).finishedAt →
      (r.check repo c reply (some time)).result = .error .cancelled ∧
      (r.check repo c reply (some time)).finishedAt = time ∧
      (r.check repo c reply (some time)).requests =
        (r.check repo c reply none).requests.filter fun q => q.1 < time) := by
  refine ⟨?_, ?_, ?_⟩
  · rintro rfl
    rcases r.finishedAt_answered repo reply c with hzero | ⟨q, hq, hanswer⟩
    · exact absurd hzero (Nat.ne_of_gt hpos)
    · exact hanswers (Nat.le_refl _) q hq hanswer
  · intro hlt
    exact run_of_lt (i := .cancel time) hlt
  · intro hlt
    have hcut : CutOff (max 1 c) (r.checkPlans repo reply) (.cancel time)
        (r.check repo c reply none) (r.check repo c reply (some time)) :=
      cutOff_of_lt hlt
    refine ⟨hcut.result, hcut.finishedAt, ?_⟩
    rcases hcut.exact with ⟨-, hrequests⟩ | ⟨⟨seconds, htimeout⟩, -⟩
    · -- No request is made at that very time.
      refine hrequests.trans (List.filter_congr fun q hq => ?_)
      have hne : q.1 ≠ time := by
        rintro rfl
        rcases requests_answered hq with hzero | ⟨q', hq', hanswer⟩
        · exact absurd hzero (Nat.ne_of_gt hpos)
        · exact hanswers (Nat.le_of_lt hlt) q' hq' hanswer
      have hiff : q.1 ≤ time ↔ q.1 < time := by omega
      exact decide_eq_decide.2 hiff
    · cases htimeout

/-- A failure that is known but waits for an earlier check when the checks are
cancelled. -/
theorem check_cancelled_waiting :
    ∃ (r : Registry) (reply : String → RunnerReply),
      (r.check "." 2 reply none).result =
        .error (.pipelineInvalid "broken" "exit code 1") ∧
      (r.check "." 2 reply none).finishedAt = 10 ∧
      (∀ q ∈ (r.check "." 2 reply none).requests, ¬ AnsweredAt reply 5 q) ∧
      (r.check "." 2 reply (some 5)).result = .error .cancelled ∧
      (r.check "." 2 reply (some 5)).finishedAt = 5 ∧
      (r.check "." 2 reply (some 5)).requests =
        (r.check "." 2 reply none).requests.filter fun q => q.1 < 5 := by
  let slow : Pipeline := ⟨"slow", none, [], none, .default, by decide +kernel⟩
  let broken : Pipeline :=
    ⟨"broken", none, [], none, .default, by decide +kernel⟩
  let r : Registry :=
    { Registry.empty .default with
      push := [⟨slow, default⟩, ⟨broken, default⟩] }
  let reply (script : String) : RunnerReply :=
    if script = slow.checkScript then ⟨10, .ok ⟨0, "", ""⟩⟩
    else ⟨2, .ok ⟨1, "", ""⟩⟩
  have hfailure : (r.check "." 2 reply none).result =
    .error (.pipelineInvalid "broken" "exit code 1") := by decide +kernel
  have hend : (r.check "." 2 reply none).finishedAt = 10 := by decide +kernel
  have hanswers : ∀ q ∈ (r.check "." 2 reply none).requests,
    ¬ AnsweredAt reply 5 q := by decide +kernel
  have hcancelled :=
    (r.check_cancelled "." 2 reply (by decide) fun _ => hanswers).2.2
  exact ⟨r, reply, hfailure, hend, hanswers, hcancelled (by rw [hend]; decide)⟩

/-! ## A budget of time -/

variable {c seconds : Nat}

/-- The answers of the recurrence at a time that the run reaches are answers to
requests of the run. -/
theorem answersAt_le {time : Nat}
    (h : time ≤ (r.check repo c reply none).finishedAt) :
    answersAt (max 1 c) (r.checkPlans repo reply) time ≤
      answersTo reply time (r.check repo c reply none).requests := by
  obtain ⟨k, asked, -, hs⟩ := r.check_settles repo reply c
  let answered (j : Nat) : Bool := 0 < r.delayAt repo reply j ∧
    entersAt (max 1 c) (r.delayAt repo reply) j + r.delayAt repo reply j = time
  -- A check that is answered by the end came in before it, so it has asked.
  have hasked : ∀ j, answered j = true → ∃ t, (t, j) ∈ r.asking asked := by
    intro j hj
    obtain ⟨hpos, hends⟩ := of_decide_eq_true hj
    obtain ⟨t, ht, -⟩ :=
      mem_asking_of_delayAt_pos (m := asked) hpos fun hlt => by
      refine hs.asked_of_lt j (by rw [length_checkPlans]; exact hlt) ?_
      rw [delayOf_checkPlans]
      omega
    exact ⟨t, ht⟩
  calc answersAt (max 1 c) (r.checkPlans repo reply) time
      = (List.range (r.checkPlans repo reply).length).countP answered := by
        rw [answersAt, delayOf_checkPlans]
    _ ≤ (r.asking asked).countP (answered ∘ Prod.snd) := by
        rw [List.countP_eq_length_filter, List.countP_eq_length_filter,
          ← List.length_map Prod.snd]
        refine List.Nodup.length_le_of_subset (List.nodup_range.filter _) ?_
        intro j hj
        obtain ⟨-, hj⟩ := List.mem_filter.1 hj
        obtain ⟨t, ht⟩ := hasked j hj
        exact List.mem_map.2 ⟨(t, j), List.mem_filter.2 ⟨ht, hj⟩, rfl⟩
    _ ≤ answersTo reply time (r.check repo c reply none).requests := by
        rw [hs.requests, requestsOf_checkPlans, answersTo, List.countP_map]
        refine List.countP_mono_left fun q hq hanswered => decide_eq_true ?_
        obtain ⟨hpos, hends⟩ := of_decide_eq_true hanswered
        refine ⟨by
          simp only; omega, _, Pipeline.checkRequest_script? _ repo, ?_⟩
        rw [← hends, delayAt_of_mem_asking hq]
        rfl

/-- What comes of checks that are given up when their time is over: what they
ask before that is asked, and what they ask at that time too, if the poll takes
in all the answers that come then. -/
structure GivenUp (reply : String → RunnerReply) (seconds : Nat)
    (whole timed : Outcome) : Prop where
  result : timed.result = .error (.timeout seconds)
  finishedAt : timed.finishedAt = 1000 * seconds
  requests_prefix :
    timed.requests <+: whole.requests.filter fun q => q.1 ≤ 1000 * seconds
  early : timed.requests.filter (fun q => q.1 < 1000 * seconds) =
    whole.requests.filter fun q => q.1 < 1000 * seconds
  exact : answersTo reply (1000 * seconds) whole.requests < pollBudget →
    timed.requests = whole.requests.filter fun q => q.1 ≤ 1000 * seconds

theorem checkWithin_eq {runner : Runner} {timeout : Option Nat}
    {outcome : Outcome} (name : String)
    (h : Schedule.run c (timeout.map .timeout) (r.checkPlans repo runner) =
      outcome) :
    (r.checkWithin repo c runner timeout name).result = outcome.result ∧
      (r.checkWithin repo c runner timeout name).finishedAt =
        outcome.finishedAt ∧
      (r.checkWithin repo c runner timeout name).requests =
        outcome.requests := by
  unfold checkWithin
  rw [h]
  obtain ⟨result, finishedAt, requests, events⟩ := outcome
  cases result <;> exact ⟨rfl, rfl, rfl⟩

/-- A budget changes nothing, or the checks are given up: if they would end
later, or if more answers come at its last moment than a poll takes in. -/
theorem checkWithin_cases (r : Registry) (repo : String) (c : Nat)
    (reply : String → RunnerReply) (seconds : Nat) (name : String) :
    let whole := r.checkWithin repo c reply none name
    let timed := r.checkWithin repo c reply (some seconds) name
    timed = whole ∧ whole.finishedAt ≤ 1000 * seconds ∨
      GivenUp reply seconds whole timed ∧
        (1000 * seconds < whole.finishedAt ∨
          1000 * seconds = whole.finishedAt ∧
            pollBudget ≤ answersTo reply (1000 * seconds) whole.requests) := by
  have htime : (Interruption.timeout seconds).time = 1000 * seconds :=
    Nat.mul_comm _ _
  have hwhole : Schedule.run c ((none : Option Nat).map .timeout)
      (r.checkPlans repo reply) = r.check repo c reply none := rfl
  obtain ⟨-, hfinished, hrequests⟩ := checkWithin_eq name hwhole
  dsimp only
  rcases run_cases c (.timeout seconds) (r.checkPlans repo reply) with
    ⟨hsame, hle⟩ | hcut
  · refine .inl ⟨?_, by rw [hfinished, ← htime]; exact hle⟩
    unfold checkWithin
    rw [Option.map_some, Option.map_none, hsame]
  · have hrun : Schedule.run c ((some seconds).map .timeout)
        (r.checkPlans repo reply) = _ := rfl
    obtain ⟨hresult', hfinished', hrequests'⟩ := checkWithin_eq name hrun
    have hle : 1000 * seconds ≤ (r.check repo c reply none).finishedAt := by
      rw [← htime]
      exact hcut.time_le
    have hanswers := answersAt_le hle
    obtain ⟨hresult, hend, -, hprefix, hearly, hexact⟩ := hcut
    rw [htime] at hend hprefix hearly hexact
    rw [hfinished, hrequests]
    refine .inr ⟨⟨hresult'.trans hresult, hfinished'.trans hend, ?_, ?_, ?_⟩,
      ?_⟩
    · rw [hrequests', hrequests]
      exact hprefix
    · rw [hrequests', hrequests]
      exact hearly
    · intro hfew
      rw [hrequests', hrequests]
      rw [hrequests] at hfew
      rcases hexact with ⟨-, hexact⟩ | ⟨-, hmany⟩
      · exact hexact
      · omega
    · rcases hexact with ⟨hlt, -⟩ | ⟨-, hmany⟩
      · exact .inl hlt
      · omega

theorem check_result_of_firstFailure {k : Nat} {t : Trial} {e : Error}
    (hk : r.FirstFailure repo reply k) (ht : (r.trials repo reply)[k]? = some t)
    (hfail : t.ChecksTo (.error e)) :
    (r.check repo c reply none).result = .error e := by
  obtain ⟨k', asked, hk', h⟩ := r.check_settles repo reply c
  rw [h.result, ← hk.unique hk', getElem?_checkPlans, ht, Option.map_some,
    Option.map_some, Option.getD_some]
  exact (t.checksTo_plan repo).unique hfail

end Registry

end DaggerWorkflows
