import DaggerWorkflows.Proofs.ConditionsRoundTrip

/-!
# What readers ask of the data of a workflow

The data of a workflow suits every reader: its collections lie at most six deep
inside one another, and no map has a key twice, since keys that are fixed are
different and keys that users choose come from a map.
-/

namespace DaggerWorkflows

namespace Datum

theorem itemDepth_le {n : Nat} {items : List Datum}
    (h : ∀ d ∈ items, d.depth ≤ n) :
    itemDepth items ≤ n := by
  induction items with
  | nil => exact Nat.zero_le n
  | cons d items ih =>
      exact Nat.max_le.2 ⟨h d (by simp), ih fun d' hd => h d' (by simp [hd])⟩

theorem entryDepth_le {n : Nat} {entries : List (String × Datum)}
    (h : ∀ e ∈ entries, e.2.depth ≤ n) : entryDepth entries ≤ n := by
  induction entries with
  | nil => exact Nat.zero_le n
  | cons e entries ih =>
      exact Nat.max_le.2 ⟨h e (by simp), ih fun e' he => h e' (by simp [he])⟩

theorem itemKeysDistinct_of_forall {items : List Datum}
    (h : ∀ d ∈ items, d.KeysDistinct) :
    ItemKeysDistinct items := by
  induction items with
  | nil => trivial
  | cons d items ih =>
      exact ⟨h d (by simp), ih fun d' hd => h d' (by simp [hd])⟩

theorem entryKeysDistinct_of_forall {entries : List (String × Datum)}
    (h : ∀ e ∈ entries, e.2.KeysDistinct) : EntryKeysDistinct entries := by
  induction entries with
  | nil => trivial
  | cons e entries ih =>
      exact ⟨h e (by simp), ih fun e' he => h e' (by simp [he])⟩

/-- Data whose collections lie at most so deep, without a key that occurs twice
in a map. -/
structure Fits (n : Nat) (d : Datum) : Prop where
  depth : d.depth ≤ n
  keys : d.KeysDistinct

variable {n k : Nat}

theorem Fits.mono {d : Datum} (h : d.Fits n) (hle : n ≤ k) : d.Fits k :=
  ⟨Nat.le_trans h.depth hle, h.keys⟩

theorem fits_text (s : String) : (text s).Fits n := ⟨Nat.zero_le n, trivial⟩

theorem fits_flag (b : Bool) : (flag b).Fits n := ⟨Nat.zero_le n, trivial⟩

theorem fits_list {items : List Datum} (h : ∀ d ∈ items, d.Fits n) :
    (list items).Fits (n + 1) :=
  ⟨Nat.succ_le_succ (itemDepth_le fun d hd => (h d hd).depth),
    itemKeysDistinct_of_forall fun d hd => (h d hd).keys⟩

theorem fits_map {entries : List (String × Datum)}
    (hkeys : (entries.map (·.1)).Nodup) (h : ∀ e ∈ entries, e.2.Fits n) :
    (map entries).Fits (n + 1) :=
  ⟨Nat.succ_le_succ (entryDepth_le fun e he => (h e he).depth), hkeys,
    entryKeysDistinct_of_forall fun e he => (h e he).keys⟩

theorem fits_texts (items : List String) : (texts items).Fits 1 :=
  fits_list fun d hd => by
    obtain ⟨s, -, rfl⟩ := List.mem_map.1 hd
    exact fits_text s

/-- A map of things of one kind, under keys that are different. -/
theorem fits_fields {α : Type} {entries : List (String × α)} {f : α → Datum}
    (hkeys : (entries.map (·.1)).Nodup) (h : ∀ a, (f a).Fits n) :
    (map (entries.map fun e => (e.1, f e.2))).Fits (n + 1) := by
  refine fits_map (by simpa [Function.comp_def] using hkeys) fun e he => ?_
  obtain ⟨a, -, rfl⟩ := List.mem_map.1 he
  exact h a.2

end Datum

open Datum (fits_text fits_flag fits_list fits_map fits_texts fits_fields)

theorem fits_textsMember {key : String} {items : List String} :
    ∀ e ∈ textsMember key items, e.2.Fits 1 := by
  unfold textsMember
  split
  · simp
  · simpa using fits_texts items

theorem fits_textMapMember {key : String} {map : SortedMap String} :
    ∀ e ∈ textMapMember key map, e.2.Fits 1 := by
  unfold textMapMember
  split
  · simp
  · simpa [Datum.textMap] using fits_fields map.nodup_keys fits_text

theorem fits_optionMember {n : Nat} {α : Type} {key : String} {f : α → Datum}
    {x : Option α} (h : ∀ a, (f a).Fits n) :
    ∀ e ∈ optionMember key f x, e.2.Fits n := by
  cases x with
  | none => simp [optionMember]
  | some a => simpa [optionMember] using h a

theorem PushConditions.fits_datum (c : PushConditions) : c.datum.Fits 2 := by
  refine fits_map ((keys_datum c.branches c.tags c.paths).nodup (by decide)) ?_
  simp only [List.forall_mem_append]
  exact ⟨⟨fits_textsMember, fits_textsMember⟩, fits_textsMember⟩

theorem PullRequestConditions.fits_datum (c : PullRequestConditions) :
    c.datum.Fits 2 := by
  refine fits_map ((keys_datum c.branches c.types c.paths).nodup (by decide)) ?_
  simp only [List.forall_mem_append]
  exact ⟨⟨fits_textsMember, fits_textsMember⟩, fits_textsMember⟩

theorem CommentConditions.fits_datum (c : CommentConditions) : c.datum.Fits 2 :=
  fits_map ((keys_textsMember "types" c.types).nodup (by simp)) fits_textsMember

theorem DispatchInput.fits_datum (i : DispatchInput) : i.datum.Fits 1 := by
  refine fits_map (i.keys_datum.nodup (by decide)) ?_
  simp only [List.forall_mem_append, List.forall_mem_cons]
  exact ⟨⟨⟨fits_text _, fits_optionMember fits_flag⟩,
    fits_optionMember fits_text⟩, fits_optionMember fits_text⟩

theorem DispatchConditions.fits_datum (c : DispatchConditions) :
    c.datum.Fits 3 := by
  unfold datum
  split
  · exact fits_map .nil (by simp)
  · refine fits_map (by simp) ?_
    simpa using fits_fields c.inputs.nodup_keys DispatchInput.fits_datum

theorem WorkflowEvents.fits_datum (events : WorkflowEvents) :
    events.datum.Fits 4 := by
  refine fits_map ?_ ?_
  · have hkeys : ((optionMember "push" PushConditions.datum events.push
        ++ optionMember "pull_request" PullRequestConditions.datum
          events.pullRequest
        ++ optionMember "workflow_dispatch" DispatchConditions.datum
          events.dispatch
        ++ optionMember "issue_comment" CommentConditions.datum
          events.issueComment).map
          (·.1)).Sublist ["push", "pull_request", "workflow_dispatch",
            "issue_comment"] := by
      simp only [List.map_append]
      exact (((keys_optionMember _ _ _).append (keys_optionMember _ _ _)).append
        (keys_optionMember _ _ _)).append (keys_optionMember _ _ _)
    exact hkeys.nodup (by decide)
  · simp only [List.forall_mem_append]
    exact ⟨⟨⟨fits_optionMember fun c => c.fits_datum.mono (by decide),
      fits_optionMember fun c => c.fits_datum.mono (by decide)⟩,
      fits_optionMember DispatchConditions.fits_datum⟩,
      fits_optionMember fun c => c.fits_datum.mono (by decide)⟩

theorem Step.fits_datum (s : Step) : s.datum.Fits 2 := by
  refine fits_map ?_ ?_
  · have haction : (s.action.members.map (·.1)).Sublist
        ["uses", "with", "shell", "run"] := by
      cases s.action with
      | uses action inputs =>
          exact .trans ((keys_textMapMember "with" inputs).cons_cons "uses")
            (by simp)
      | run shell script => simp [Action.members]
    have hkeys :
      ((("name", Datum.text s.name) :: optionMember "id" .text s.id ++
        s.action.members ++ textMapMember "env" s.env).map (·.1)).Sublist
          ["name", "id", "uses", "with", "shell", "run", "env"] := by
      simp only [List.map_append, List.map_cons]
      exact ((((keys_optionMember _ _ _).cons_cons "name").append
        haction).append (keys_textMapMember _ _))
    exact hkeys.nodup (by decide)
  · have haction : ∀ e ∈ s.action.members, e.2.Fits 1 := by
      cases s.action with
      | uses action inputs =>
          simpa [Action.members]
            using ⟨fits_text action, fun a b => fits_textMapMember (a, b)⟩
      | run shell script => simp [Action.members, fits_text]
    simp only [List.forall_mem_append, List.forall_mem_cons]
    exact ⟨⟨⟨fits_text _, fits_optionMember fits_text⟩, haction⟩,
      fits_textMapMember⟩

theorem Job.fits_datum (j : Job) : j.datum.Fits 4 := by
  have hsteps : (Datum.list (j.steps.map Step.datum)).Fits 3 :=
    fits_list fun d hd => by
    obtain ⟨s, -, rfl⟩ := List.mem_map.1 hd
    exact s.fits_datum
  have hkeys :
    ((([("runs-on", Datum.text j.runsOn),
      ("steps", .list (j.steps.map Step.datum))]
      ++ textMapMember "outputs" j.outputs)).map (·.1)).Sublist
        ["runs-on", "steps", "outputs"] := by
    simpa using keys_textMapMember "outputs" j.outputs
  refine fits_map (hkeys.nodup (by decide)) ?_
  simp only [List.forall_mem_append, List.forall_mem_cons]
  exact ⟨⟨fits_text _, hsteps, by simp⟩, fun e he =>
    (fits_textMapMember e he).mono (by decide)⟩

/-- The collections of a workflow lie at most six deep, and no map of it has a
key twice. -/
theorem Workflow.fits_datum (w : Workflow) : w.datum.Fits 6 := by
  have hjobs := fits_fields w.jobs.distinct Job.fits_datum
  refine fits_map (by simp) ?_
  simp only [List.forall_mem_cons]
  exact ⟨fits_text _, w.on.fits_datum.mono (by decide), hjobs, by simp⟩

end DaggerWorkflows
