import DaggerWorkflows.Registry
import Mathlib.Data.List.Forall2

/-!
# How a registry grows

A declaration is a pipeline and an event as a user writes them. Adding one puts
a trigger at the end of those of its kind and leaves the other kinds alone; it
fails only where the command says nothing. `addAll_ok` and `addAll_blank` carry
this along any list of declarations, however its kinds are mixed: each kind has
grown by the declarations of that kind, in their order.
-/

namespace DaggerWorkflows

/-- Whether a command says something: it has a character that is not white
space. -/
def SaysSomething (command : String) :
    Prop := ∃ c ∈ command.toList, Text.isBlank c = false

theorem saysSomething_iff {command : String} :
    SaysSomething command ↔ Text.isBlankText command = false := by
  simp [SaysSomething, Text.isBlankText]

theorem not_saysSomething_iff {command : String} :
    ¬ SaysSomething command ↔ Text.isBlankText command = true := by
  rw [saysSomething_iff, Bool.not_eq_false]

namespace Pipeline

theorem ofSpec_blank {spec : PipelineSpec} (h : ¬ SaysSomething spec.command)
    (settings : Settings) : ofSpec spec settings = .error .emptyCommand := by
  rw [ofSpec, dif_pos (not_saysSomething_iff.1 h)]

theorem ofSpec_ok {spec : PipelineSpec} (h : SaysSomething spec.command)
    (settings : Settings) :
    ∃ p, ofSpec spec settings = .ok p := by
  have hblank : ¬ Text.isBlankText spec.command = true := by
    simp [saysSomething_iff.1 h]
  exact ⟨_, dif_neg hblank⟩

/-- What a pipeline has from its description and what from the settings. -/
theorem ofSpec_fields {spec : PipelineSpec} {settings : Settings} {p : Pipeline}
    (h : ofSpec spec settings = .ok p) :
    p.command = spec.command ∧ p.secrets = spec.secrets ∧
      p.settings = settings.forRunner spec.runner := by
  unfold ofSpec at h
  split at h
  · cases h
  · cases h
    exact ⟨rfl, rfl, rfl⟩

theorem ofSpec_module {spec : PipelineSpec} {settings : Settings} {p : Pipeline}
    (h : ofSpec spec settings = .ok p) :
    p.module = spec.module.filter (!·.isEmpty) := by
  unfold ofSpec at h
  split at h
  · cases h
  · cases h
    rfl

end Pipeline

/-- What the trigger of a declaration is, under settings. -/
def Trigger.Declares (settings : Settings) (d : PipelineSpec × Conditions)
    (t : Trigger) : Prop :=
  Pipeline.ofSpec d.1 settings = .ok t.pipeline ∧ t.conditions = d.2

namespace Registry

theorem add_ok (r : Registry) {spec : PipelineSpec} (conditions : Conditions)
    {p : Pipeline} (h : Pipeline.ofSpec spec r.settings = .ok p) :
    ∃ r', r.add spec conditions = .ok r' ∧ r'.settings = r.settings ∧
      ∀ kind, r'.triggersOf kind =
        r.triggersOf kind ++ if conditions.kind = kind then [⟨p, conditions⟩]
          else [] := by
  unfold add
  rw [h]
  cases conditions <;> refine ⟨_, rfl, rfl, fun kind => ?_⟩ <;> cases kind <;>
    simp [triggersOf, Conditions.kind]

theorem add_blank (r : Registry) {spec : PipelineSpec} (conditions : Conditions)
    (h : ¬ SaysSomething spec.command) :
    r.add spec conditions = .error .emptyCommand := by
  unfold add
  rw [Pipeline.ofSpec_blank h]
  rfl

/-- Add declarations one after the other. -/
def addAll (r : Registry) (declarations : List (PipelineSpec × Conditions)) :
    Except Error Registry :=
  declarations.foldlM (fun r d => r.add d.1 d.2) r

theorem addAll_cons (r : Registry) (d : PipelineSpec × Conditions)
    (ds : List (PipelineSpec × Conditions)) :
    r.addAll (d :: ds) = (r.add d.1 d.2).bind fun r' => r'.addAll ds := rfl

/-- Each kind grows by the declarations of that kind. -/
theorem addAll_ok {ds : List (PipelineSpec × Conditions)}
    (h : ∀ d ∈ ds, SaysSomething d.1.command) (r : Registry) :
    ∃ r', r.addAll ds = .ok r' ∧ r'.settings = r.settings ∧
      ∀ kind, ∃ added, r'.triggersOf kind = r.triggersOf kind ++ added ∧
        List.Forall₂ (Trigger.Declares r.settings) (ds.filter (·.2.kind = kind))
          added := by
  induction ds generalizing r with
  | nil => exact ⟨r, rfl, rfl, fun kind => ⟨[], by simp, .nil⟩⟩
  | cons d ds ih =>
      obtain ⟨hd, hds⟩ := List.forall_mem_cons.1 h
      obtain ⟨p, hp⟩ := Pipeline.ofSpec_ok hd r.settings
      obtain ⟨r₁, hadd, hsettings₁, htriggers₁⟩ := r.add_ok d.2 hp
      obtain ⟨r₂, hall, hsettings₂, htriggers₂⟩ := ih hds r₁
      refine ⟨r₂, ?_, hsettings₂.trans hsettings₁, fun kind => ?_⟩
      · rw [addAll_cons, hadd]
        exact hall
      · obtain ⟨added, hadded, hforall⟩ := htriggers₂ kind
        rw [hsettings₁] at hforall
        rw [hadded, htriggers₁ kind, List.filter_cons, List.append_assoc]
        refine ⟨_, rfl, ?_⟩
        by_cases hkind : d.2.kind = kind
        · rw [if_pos (by simpa using hkind), if_pos hkind]
          exact .cons ⟨hp, rfl⟩ hforall
        · rw [if_neg (by simpa using hkind), if_neg hkind]
          exact hforall

theorem addAll_blank {ds : List (PipelineSpec × Conditions)}
    (h : ∃ d ∈ ds, ¬ SaysSomething d.1.command) (r : Registry) :
    r.addAll ds = .error .emptyCommand := by
  induction ds generalizing r with
  | nil => simp at h
  | cons d ds ih =>
      rw [addAll_cons]
      by_cases hd : SaysSomething d.1.command
      · obtain ⟨p, hp⟩ := Pipeline.ofSpec_ok hd r.settings
        obtain ⟨r₁, hadd, -, -⟩ := r.add_ok d.2 hp
        rw [hadd]
        obtain ⟨d', hmem, hblank⟩ := h
        rcases List.mem_cons.1 hmem with rfl | hmem
        · exact absurd hd hblank
        · exact ih ⟨d', hmem, hblank⟩ r₁
      · rw [r.add_blank d.2 hd]
        rfl

end Registry

end DaggerWorkflows
