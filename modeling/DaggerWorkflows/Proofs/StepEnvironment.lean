import DaggerWorkflows.Proofs.CompiledWorkflow
import DaggerWorkflows.Proofs.SortedMaps
import Mathlib.Data.List.Induction

/-!
# Which variable wins

The environment of a command is put together from a list of variables, and names
may meet in it: a secret can have any name, that of the command included. What
comes first stays, and what comes later under the same name is dropped, aloud if
it would have said something else.

So the environment is what the list has first for each name (`get?_addAll`), and
what happened on the way are the conflicts of the list (`events_addAll`). Both
are run lemmas over one step each; the environment so far is, to every later
step, no more than the lookups into the part of the list that is done.
-/

namespace DaggerWorkflows

namespace StepEnvironment

/-- What there is to tell of a variable whose name stood for something before:
that this is kept, if it is something else. -/
def conflict (before : Option String) (e : String × String) : Option Event :=
  (before.filter (· ≠ e.2)).map (Event.variableKept e.1 · e.2)

/-- The variables of a list that are set to something else than their name stood
for before. -/
def conflicts (entries : List (String × String)) : List Event :=
  entries.zipIdx.filterMap fun x =>
    conflict ((entries.take x.2).lookup x.1.1) x.1

theorem severity_of_mem_conflicts {entries : List (String × String)} :
    ∀ e ∈ conflicts entries, decide (e.severity = .warning) = true := by
  intro e he
  obtain ⟨x, -, hx⟩ := List.mem_filterMap.1 he
  obtain ⟨kept, -, rfl⟩ := Option.map_eq_some_iff.1 hx
  rfl

theorem get?_add (env : StepEnvironment) (key value other : String) :
    (env.add key value).values.get? other =
      (env.values.get? other).or ([(key, value)].lookup other) := by
  unfold add
  by_cases hother : other = key
  · subst hother
    cases hkept : env.values.get? other with
    | none => simp
    | some kept =>
        by_cases heq : kept = value <;> simp [heq, hkept]
  · have hlookup : [(key, value)].lookup other = none := by
      rw [List.lookup_cons, beq_eq_false_iff_ne.2 hother]
      rfl
    rw [hlookup, Option.or_none]
    cases hkept : env.values.get? key with
    | none => exact SortedMap.get?_insert_of_ne _ (Ne.symm hother) _
    | some kept => by_cases heq : kept = value <;> simp [heq]

/-- Each name has what it stood for before, or else what the list has first for
it. -/
theorem get?_addAll (env : StepEnvironment) (entries : List (String × String))
    (key : String) :
    (env.addAll entries).values.get? key =
      (env.values.get? key).or (entries.lookup key) := by
  induction entries generalizing env with
  | nil => exact (Option.or_none).symm
  | cons e entries ih =>
      have hstep : env.addAll (e :: entries) =
        (env.add e.1 e.2).addAll entries := rfl
      rw [hstep, ih, get?_add, Option.or_assoc, ← List.lookup_append,
        List.singleton_append]

theorem events_add (env : StepEnvironment) (e : String × String) :
    (env.add e.1 e.2).events = env.events ++
    (conflict (env.values.get? e.1) e).toList := by
  unfold add conflict
  cases hkept : env.values.get? e.1 with
  | none => simp
  | some kept => by_cases heq : kept = e.2 <;> simp [heq, Option.filter]

theorem conflicts_concat (entries : List (String × String))
    (e : String × String) :
    conflicts (entries ++ [e]) = conflicts entries ++
      (conflict (entries.lookup e.1) e).toList := by
  unfold conflicts
  rw [List.zipIdx_append, List.filterMap_append]
  congr 1
  · refine List.filterMap_congr fun x hx => ?_
    have hlt : x.2 < 0 + entries.length := List.snd_lt_add_of_mem_zipIdx hx
    rw [List.take_append_of_le_length (by omega)]
  · cases hconflict : conflict (entries.lookup e.1) e <;> simp [hconflict]

/-- Setting variables one after the other tells of the conflicts among them. -/
theorem events_addAll (entries : List (String × String)) :
    (empty.addAll entries).events = conflicts entries := by
  induction entries using List.reverseRecOn with
  | nil => rfl
  | append_singleton entries e ih =>
      have hstep : empty.addAll (entries ++ [e]) =
          (empty.addAll entries).add e.1 e.2 := by
        simp [addAll]
      have hbefore : (empty.addAll entries).values.get? e.1 =
          entries.lookup e.1 := by
        rw [get?_addAll]
        rfl
      rw [hstep, events_add, ih, hbefore, conflicts_concat]

end StepEnvironment

theorem SecretName.events_of_check_ok {names : List String}
    (h : (check names).result = .ok ()) :
    (check names).events = [] := by
  rw [check_result] at h
  unfold check
  cases hinvalid : firstInvalid? names with
  | none => rfl
  | some name =>
      rw [hinvalid] at h
      cases h

namespace Pipeline

variable {p : Pipeline} {scripts : ScriptSource}

/-- Of the steps only that of the command has anything to tell. -/
theorem events_steps {steps : List Step}
    (h : (p.steps scripts).result = .ok steps) :
    (p.steps scripts).events = p.execEnvironment.events := by
  obtain ⟨install, warm, exec, stop, hinstall, hwarm, hexec, hstop, -⟩ :=
    steps_ok h
  unfold Pipeline.steps
  simp only [hinstall, hwarm, hexec]
  rw [Traced.events_bind_ok rfl, Traced.events_bind_ok rfl,
    Traced.events_bind_ok rfl, Traced.events_bind_ok rfl]
  by_cases hengine : p.settings.stopEngine = true
  · rw [if_pos hengine] at hstop
    obtain ⟨step, hstep, -⟩ := hstop
    simp only [hengine, if_true, hstep]
    show [] ++ ([] ++ (p.execEnvironment.events ++ ([] ++ []))) = _
    simp
  · simp only [hengine]
    show [] ++ ([] ++ (p.execEnvironment.events ++ ([] ++ []))) = _
    simp

theorem events_workflowWith {w : Workflow}
    (h : (p.workflowWith scripts).result = .ok w) :
    ∃ count, (p.workflowWith scripts).events =
      p.execEnvironment.events ++ [.pipelineCompiled p.name count] := by
  obtain ⟨⟨⟩, hcheck, h⟩ := Traced.exists_of_bind_ok h
  obtain ⟨steps, hsteps, -⟩ := Traced.exists_of_bind_ok h
  refine ⟨steps.length, ?_⟩
  unfold workflowWith
  rw [Traced.events_bind_ok hcheck, Traced.events_bind_ok hsteps,
    SecretName.events_of_check_ok hcheck, events_steps hsteps]
  rfl

end Pipeline

end DaggerWorkflows
