import DaggerWorkflows.Proofs.ConditionsRoundTrip

/-!
# A workflow is told by its data

What a workflow says can be taken back from its data, whatever the data was
written as: `ofDatum?` looks for the members of each record by their keys, puts
the default where a member has been left out, and takes a step for the one thing
or the other that it does, but not for both. So members that are left out do not
get in the way of telling workflows apart (`Workflow.datum_injective`).
-/

namespace DaggerWorkflows

namespace Datum

/-! ## Taking data apart -/

def text? : Datum → Option String
  | text s => some s
  | _ => none

def flag? : Datum → Option Bool
  | flag b => some b
  | _ => none

def items? {α : Type} (read : Datum → Option α) : Datum → Option (List α)
  | list items => items.mapM read
  | _ => none

def entries? : Datum → Option (List (String × Datum))
  | map entries => some entries
  | _ => none

def fields? {α : Type} (read : Datum → Option α) :
    Datum → Option (List (String × α))
  | map entries => entries.mapM fun e => (read e.2).map (e.1, ·)
  | _ => none

end Datum

section Members

variable {α : Type}

/-- The member under a key, or what stands for it if there is none. -/
def member? (absent : Option α) (read : Datum → Option α)
    (entries : List (String × Datum)) (key : String) : Option α :=
  (entries.lookup key).elim absent read

def requiredOf? (read : Datum → Option α) :
    List (String × Datum) → String → Option α :=
  member? none read

def optionOf? (read : Datum → Option α) :
    List (String × Datum) → String → Option (Option α) :=
  member? (some none) fun d => (read d).map some

def textsOf? : List (String × Datum) → String → Option (List String) :=
  member? (some []) (·.items? Datum.text?)

def mapOf? (read : Datum → Option α) :
    List (String × Datum) → String → Option (SortedMap α) :=
  member? (some .empty) fun d => (d.fields? read).map .ofList

def textMapOf? : List (String × Datum) → String → Option (SortedMap String) :=
  mapOf? Datum.text?

end Members

def PushConditions.ofDatum? (d : Datum) : Option PushConditions := do
  let m ← d.entries?
  return ⟨← textsOf? m "branches", ← textsOf? m "tags", ← textsOf? m "paths"⟩

def PullRequestConditions.ofDatum? (d : Datum) :
    Option PullRequestConditions := do
  let m ← d.entries?
  return ⟨← textsOf? m "branches", ← textsOf? m "types", ← textsOf? m "paths"⟩

def CommentConditions.ofDatum? (d : Datum) : Option CommentConditions := do
  let m ← d.entries?
  return ⟨← textsOf? m "types"⟩

def DispatchInput.ofDatum? (d : Datum) : Option DispatchInput := do
  let m ← d.entries?
  return ⟨← requiredOf? Datum.text? m "description",
    ← optionOf? Datum.flag? m "required",
    ← optionOf? Datum.text? m "default", ← optionOf? Datum.text? m "type"⟩

def DispatchConditions.ofDatum? (d : Datum) : Option DispatchConditions := do
  let m ← d.entries?
  return ⟨← mapOf? DispatchInput.ofDatum? m "inputs"⟩

def WorkflowEvents.ofDatum? (d : Datum) : Option WorkflowEvents := do
  let m ← d.entries?
  return ⟨← optionOf? PushConditions.ofDatum? m "push",
    ← optionOf? PullRequestConditions.ofDatum? m "pull_request",
    ← optionOf? DispatchConditions.ofDatum? m "workflow_dispatch",
    ← optionOf? CommentConditions.ofDatum? m "issue_comment"⟩

/-- What a step does: exactly one of two things. -/
def Action.ofEntries? (m : List (String × Datum)) : Option Action :=
  match m.lookup "uses", m.lookup "with", m.lookup "shell", m.lookup "run" with
  | some action, _, none, none => do
      return .uses (← action.text?) (← textMapOf? m "with")
  | none, none, some shell, some script => do
      return .run (← shell.text?) (← script.text?)
  | _, _, _, _ => none

def Step.ofDatum? (d : Datum) : Option Step := do
  let m ← d.entries?
  return ⟨← requiredOf? Datum.text? m "name", ← optionOf? Datum.text? m "id",
    ← Action.ofEntries? m, ← textMapOf? m "env"⟩

def Job.ofDatum? (d : Datum) : Option Job := do
  let m ← d.entries?
  return ⟨← requiredOf? Datum.text? m "runs-on",
    ← requiredOf? (·.items? Step.ofDatum?) m "steps", ← textMapOf? m "outputs"⟩

def Workflow.ofDatum? (d : Datum) : Option Workflow := do
  let m ← d.entries?
  return ⟨← requiredOf? Datum.text? m "name",
    ← requiredOf? WorkflowEvents.ofDatum? m "on",
    .ofList (← requiredOf? (·.fields? Job.ofDatum?) m "jobs")⟩

/-! ## Maps in the order of insertion -/

namespace OrderedMap

variable {β : Type}

theorem entries_injective :
    Function.Injective (OrderedMap.entries : OrderedMap β →
      List (String × β)) := by
  rintro ⟨entries, _⟩ ⟨entries', _⟩ rfl
  rfl

theorem insertInto_of_notMem {key : String} {value : β}
    {entries : List (String × β)} (h : key ∉ entries.map (·.1)) :
    insertInto key value entries = entries ++ [(key, value)] := by
  induction entries with
  | nil => rfl
  | cons e entries ih =>
      rw [List.map_cons, List.mem_cons, not_or] at h
      rw [insertInto, if_neg (Ne.symm h.1), ih h.2, List.cons_append]

/-- A map is the map of its entries, in their order. -/
theorem ofList_entries (map : OrderedMap β) : ofList map.entries = map := by
  have hfold : ∀ (rest : List (String × β)) (m : OrderedMap β),
      ((m.entries ++ rest).map (·.1)).Nodup →
      (rest.foldl (fun m e => m.insert e.1 e.2) m).entries = m.entries ++
        rest := by
    intro rest
    induction rest with
    | nil =>
        intro m _
        rw [List.append_nil]
        rfl
    | cons e rest ih =>
        intro m h
        have hkey : e.1 ∉ m.entries.map (·.1) := by
          rw [List.map_append, List.map_cons] at h
          intro hmem
          exact (List.nodup_append.1 h).2.2 e.1 hmem e.1 (by simp) rfl
        have hentries : (m.insert e.1 e.2).entries = m.entries ++ [e] :=
          insertInto_of_notMem hkey
        rw [List.foldl_cons, ih _ (by rwa [hentries, List.append_assoc]),
          hentries, List.append_assoc]
        rfl
  apply entries_injective
  rw [ofList, hfold map.entries empty map.distinct]
  rfl

end OrderedMap

/-! ## Members -/

section Members

variable {α : Type} {key k : String} {m : List (String × Datum)}

/-- Entries under one key have nothing for another. -/
theorem lookup_of_keys {entries : List (String × Datum)}
    (hkeys : (entries.map (·.1)).Sublist [key]) (h : k ≠ key) :
    entries.lookup k = none := by
  rw [List.lookup_eq_none_iff]
  intro e he
  have : e.1 = key := by simpa using hkeys.subset (List.mem_map.2 ⟨e, he, rfl⟩)
  simpa [this] using h

theorem lookup_textsMember_of_ne (h : k ≠ key) (items : List String) :
    (textsMember key items).lookup k = none :=
  lookup_of_keys (keys_textsMember key items) h

theorem lookup_textMapMember_of_ne (h : k ≠ key) (map : SortedMap String) :
    (textMapMember key map).lookup k = none :=
  lookup_of_keys (keys_textMapMember key map) h

theorem lookup_optionMember_of_ne (h : k ≠ key) (f : α → Datum) (x : Option α) :
    (optionMember key f x).lookup k = none :=
  lookup_of_keys (keys_optionMember key f x) h

theorem mapM_map_of_read {β γ : Type} {read : β → Option γ} {f : γ → β}
    (h : ∀ a, read (f a) = some a) (as : List γ) :
    (as.map f).mapM read = some as := by
  induction as with
  | nil => rfl
  | cons a as ih =>
      rw [List.map_cons, List.mapM_cons, h, ih]
      rfl

theorem Datum.items?_list {read : Datum → Option α} {f : α → Datum}
    (h : ∀ a, read (f a) = some a) (as : List α) :
    (Datum.list (as.map f)).items? read = some as :=
  mapM_map_of_read h as

theorem Datum.fields?_map {read : Datum → Option α} {f : α → Datum}
    (h : ∀ a, read (f a) = some a) (as : List (String × α)) :
    (Datum.map (as.map fun e => (e.1, f e.2))).fields? read = some as :=
  mapM_map_of_read (fun e => by rw [h]; rfl) as

theorem requiredOf?_of_lookup {read : Datum → Option α} {f : α → Datum} {a : α}
    (h : m.lookup key = some (f a)) (hread : ∀ a, read (f a) = some a) :
    requiredOf? read m key = some a := by
  rw [requiredOf?, member?, h]
  exact hread a

theorem optionOf?_of_lookup {read : Datum → Option α} {f : α → Datum}
    {x : Option α} (h : m.lookup key = (optionMember key f x).lookup key)
    (hread : ∀ a, read (f a) = some a) :
    optionOf? read m key = some x := by
  rw [optionOf?, member?, h]
  cases x with
  | none => rfl
  | some a => simp [optionMember, hread]

theorem textsOf?_of_lookup {items : List String}
    (h : m.lookup key = (textsMember key items).lookup key) :
    textsOf? m key = some items := by
  rw [textsOf?, member?, h]
  cases items with
  | nil => rfl
  | cons s items =>
      rw [textsMember, if_neg (by simp), List.lookup_cons_self]
      exact Datum.items?_list (f := Datum.text) (fun _ => rfl) _

theorem mapOf?_of_lookup {read : Datum → Option α} {f : α → Datum}
    {map : SortedMap α}
    (h : m.lookup key = (if map.isEmpty then []
      else [(key, Datum.map (map.entries.map fun e => (e.1, f e.2)))]).lookup
        key) (hread : ∀ a, read (f a) = some a) :
    mapOf? read m key = some map := by
  rw [mapOf?, member?, h]
  split
  · next hempty =>
      have hentries : map.entries = [] := List.isEmpty_iff.1 hempty
      exact congrArg some (SortedMap.entries_injective hentries.symm)
  · rw [List.lookup_cons_self, Option.elim_some, Datum.fields?_map hread,
      Option.map_some, SortedMap.ofList_entries]

theorem textMapOf?_of_lookup {map : SortedMap String}
    (h : m.lookup key = (textMapMember key map).lookup key) :
    textMapOf? m key = some map :=
  mapOf?_of_lookup (f := Datum.text) h fun _ => rfl

end Members

/-! ## Records -/

section Records

open Option (bind_eq_some_iff)

theorem PushConditions.ofDatum?_datum (c : PushConditions) :
    ofDatum? c.datum = some c := by
  simp only [ofDatum?, datum, Datum.entries?, Option.bind_eq_bind,
    Option.bind_some, bind_eq_some_iff]
  refine ⟨c.branches, textsOf?_of_lookup ?_, c.tags, textsOf?_of_lookup ?_,
    c.paths, textsOf?_of_lookup ?_, rfl⟩
  all_goals simp [List.lookup_append, lookup_textsMember_of_ne]

theorem PullRequestConditions.ofDatum?_datum (c : PullRequestConditions) :
    ofDatum? c.datum = some c := by
  simp only [ofDatum?, datum, Datum.entries?, Option.bind_eq_bind,
    Option.bind_some, bind_eq_some_iff]
  refine ⟨c.branches, textsOf?_of_lookup ?_, c.types, textsOf?_of_lookup ?_,
    c.paths, textsOf?_of_lookup ?_, rfl⟩
  all_goals simp [List.lookup_append, lookup_textsMember_of_ne]

theorem CommentConditions.ofDatum?_datum (c : CommentConditions) :
    ofDatum? c.datum = some c := by
  simp only [ofDatum?, datum, Datum.entries?, Option.bind_eq_bind,
    Option.bind_some, bind_eq_some_iff]
  exact ⟨c.types, textsOf?_of_lookup rfl, rfl⟩

theorem DispatchInput.ofDatum?_datum (i : DispatchInput) :
    ofDatum? i.datum = some i := by
  simp only [ofDatum?, datum, Datum.entries?, Option.bind_eq_bind,
    Option.bind_some, bind_eq_some_iff]
  refine ⟨i.description, requiredOf?_of_lookup (f := .text) ?_ fun _ => rfl,
    i.required, optionOf?_of_lookup (f := .flag) ?_ fun _ => rfl,
    i.default, optionOf?_of_lookup (f := .text) ?_ fun _ => rfl,
    i.type, optionOf?_of_lookup (f := .text) ?_ fun _ => rfl, rfl⟩
  all_goals simp [List.lookup_append, List.lookup_cons,
    lookup_optionMember_of_ne]

theorem DispatchConditions.ofDatum?_datum (c : DispatchConditions) :
    ofDatum? c.datum = some c := by
  simp only [ofDatum?, datum, Datum.entries?, Option.bind_eq_bind,
    Option.bind_some, bind_eq_some_iff]
  exact ⟨c.inputs, mapOf?_of_lookup rfl DispatchInput.ofDatum?_datum, rfl⟩

theorem WorkflowEvents.ofDatum?_datum (events : WorkflowEvents) :
    ofDatum? events.datum = some events := by
  simp only [ofDatum?, datum, Datum.entries?, Option.bind_eq_bind,
    Option.bind_some, bind_eq_some_iff]
  refine ⟨events.push, optionOf?_of_lookup ?_ PushConditions.ofDatum?_datum,
    events.pullRequest,
      optionOf?_of_lookup ?_ PullRequestConditions.ofDatum?_datum,
    events.dispatch, optionOf?_of_lookup ?_ DispatchConditions.ofDatum?_datum,
    events.issueComment,
      optionOf?_of_lookup ?_ CommentConditions.ofDatum?_datum, rfl⟩
  all_goals simp [List.lookup_append, lookup_optionMember_of_ne]

/-- The members of an action have nothing under the other keys of a step. -/
theorem Action.lookup_members {a : Action} {k : String}
    (h : k ∉ ["uses", "with", "shell", "run"]) :
    a.members.lookup k = none := by
  simp only [List.mem_cons, List.not_mem_nil, or_false, not_or] at h
  cases a with
  | uses action inputs =>
      simp [members, List.lookup_cons, beq_false_of_ne h.1,
        lookup_textMapMember_of_ne h.2.1]
  | run shell script =>
      simp [members, List.lookup_cons, beq_false_of_ne h.2.2.1,
        beq_false_of_ne h.2.2.2]

/-- What a step does is told by the entries under the keys of actions. -/
theorem Action.ofEntries?_of_lookup {a : Action} {m : List (String × Datum)}
    (h : ∀ k ∈ ["uses", "with", "shell", "run"],
      m.lookup k = a.members.lookup k) :
    ofEntries? m = some a := by
  have huses := h "uses" (by simp)
  have hwith := h "with" (by simp)
  have hshell := h "shell" (by simp)
  have hrun := h "run" (by simp)
  cases a with
  | uses action inputs =>
      have hinputs : textMapOf? m "with" = some inputs :=
        textMapOf?_of_lookup (by simpa [members, List.lookup_cons] using hwith)
      have hnoshell : m.lookup "shell" = none :=
        hshell.trans
          (by simp [members, List.lookup_cons, lookup_textMapMember_of_ne])
      have hnoscript : m.lookup "run" = none :=
        hrun.trans
          (by simp [members, List.lookup_cons, lookup_textMapMember_of_ne])
      rw [ofEntries?, hnoshell, hnoscript, huses, members,
        List.lookup_cons_self, hinputs]
      rfl
  | run shell script =>
      have hnoaction : m.lookup "uses" = none :=
        huses.trans (by simp [members, List.lookup_cons])
      have hnoinputs : m.lookup "with" = none :=
        hwith.trans (by simp [members, List.lookup_cons])
      have hscript : m.lookup "run" = some (.text script) :=
        hrun.trans (by simp [members, List.lookup_cons])
      rw [ofEntries?, hnoaction, hnoinputs, hshell, members,
        List.lookup_cons_self, hscript]
      rfl

theorem Step.ofDatum?_datum (s : Step) : ofDatum? s.datum = some s := by
  simp only [ofDatum?, datum, Datum.entries?, Option.bind_eq_bind,
    Option.bind_some, bind_eq_some_iff]
  refine ⟨s.name, requiredOf?_of_lookup (f := .text) ?_ fun _ => rfl,
    s.id, optionOf?_of_lookup (f := .text) ?_ fun _ => rfl, s.action,
    Action.ofEntries?_of_lookup fun k hk => ?_, s.env, textMapOf?_of_lookup ?_,
      rfl⟩
  · simp
  · simp [List.lookup_append, List.lookup_cons, Action.lookup_members,
      lookup_textMapMember_of_ne]
  · simp only [List.mem_cons, List.not_mem_nil, or_false] at hk
    rcases hk with rfl | rfl | rfl | rfl <;>
      simp [List.lookup_append, List.lookup_cons, lookup_optionMember_of_ne,
        lookup_textMapMember_of_ne]
  · simp [List.lookup_append, List.lookup_cons, Action.lookup_members,
      lookup_optionMember_of_ne]

theorem Job.ofDatum?_datum (j : Job) : ofDatum? j.datum = some j := by
  simp only [ofDatum?, datum, Datum.entries?, Option.bind_eq_bind,
    Option.bind_some, bind_eq_some_iff]
  refine ⟨j.runsOn, requiredOf?_of_lookup (f := .text) ?_ fun _ => rfl,
    j.steps,
      requiredOf?_of_lookup (f := fun steps => .list (steps.map Step.datum)) ?_
      (Datum.items?_list Step.ofDatum?_datum),
    j.outputs, textMapOf?_of_lookup ?_, rfl⟩
  all_goals simp [List.lookup_cons]

theorem Workflow.ofDatum?_datum (w : Workflow) : ofDatum? w.datum = some w := by
  simp only [ofDatum?, datum, Datum.entries?, Option.bind_eq_bind,
    Option.bind_some, bind_eq_some_iff]
  refine ⟨w.name, requiredOf?_of_lookup (f := .text) ?_ fun _ => rfl,
    w.on, requiredOf?_of_lookup ?_ WorkflowEvents.ofDatum?_datum,
    w.jobs.entries, requiredOf?_of_lookup
      (f := fun entries => .map (entries.map fun e => (e.1, e.2.datum))) ?_
      (Datum.fields?_map Job.ofDatum?_datum), ?_⟩
  · simp
  · simp [List.lookup_cons]
  · simp [List.lookup_cons]
  · rw [OrderedMap.ofList_entries]
    rfl

end Records

/-- The data of a workflow say all of it. -/
theorem Workflow.datum_injective : Function.Injective datum := by
  intro w w' h
  have hread := congrArg ofDatum? h
  rw [ofDatum?_datum, ofDatum?_datum] at hread
  exact Option.some.inj hread

end DaggerWorkflows
