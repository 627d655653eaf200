import DaggerWorkflows.Proofs.RegistryFiles
import DaggerWorkflows.Proofs.RegistryGrowth

/-!
# Histories of a registry

A registry only grows. Adding a trigger puts it after the others of its kind
and moves none of them, so that the files it had are still there, in the same
order, and one is new.

Two facts carry this. The triggers are the blocks of the kinds, one after the
other, and an addition changes a single block, at its end (`add_growsBy`). And
what a file says depends on its own trigger alone, so the list of files is read
off the list of triggers, place by place (`files_ok`).

Since each kind sees only the additions of that kind, a history is known by what
it does to each of them: `triggersOf_addEach` makes no mention of how the kinds
were mixed.
-/

namespace DaggerWorkflows

instance (command : String) : Decidable (SaysSomething command) :=
  decidable_of_iff _ saysSomething_iff.symm

namespace FileTree

theorem files_of_insert {tree tree' : FileTree} {file : TreeFile}
    (h : tree.insert file = .ok tree') :
    tree'.files = tree.files ++ [file] := by
  unfold insert at h
  split at h
  · cases h
  · cases h
    rfl

/-- A file among others has a path of its own. -/
theorem path_ne {tree : FileTree} {front back : List TreeFile} {file : TreeFile}
    (h : tree.files = front ++ file :: back) :
    ∀ f ∈ front ++ back, f.path ≠ file.path := by
  have hdistinct := tree.distinct
  rw [h, List.pairwise_append, List.pairwise_cons] at hdistinct
  obtain ⟨-, ⟨hback, -⟩, hfront⟩ := hdistinct
  intro f hf heq
  rcases List.mem_append.1 hf with hf | hf
  · exact hfront f hf file List.mem_cons_self (congrArg FilePath.components heq)
  · exact hback f hf (congrArg FilePath.components heq.symm)

end FileTree

namespace Registered

/-- The file of a trigger. -/
def file (t : Registered) (stem : String) (format : OutputFormat) :
    Traced TreeFile :=
  t.trigger.file (t.trigger.kind.filename stem t.index format) format

theorem hasFile_of_file {t : Registered} {stem : String} {format : OutputFormat}
    {file : TreeFile} (h : (t.file stem format).result = .ok file) :
    t.HasFile stem format file := by
  have hfile := t.file_result stem format
  unfold Registered.file at h
  cases hinvalid : SecretName.firstInvalid? t.trigger.pipeline.secrets with
  | none =>
      rw [hinvalid] at hfile
      obtain ⟨file', hhas, hresult⟩ := hfile
      rw [h] at hresult
      cases hresult
      exact hhas
  | some name =>
      rw [hinvalid] at hfile
      rw [h] at hfile
      cases hfile

end Registered

namespace Registry

/-! ## Files, trigger by trigger -/

/-- The files that are added are those of the triggers. -/
theorem filesInto_ok {stem : String} {format : OutputFormat}
    {triggers : List Registered} {tree tree' : FileTree}
    (h : (filesInto stem format triggers tree).result = .ok tree') :
    ∃ files, tree'.files = tree.files ++ files ∧
      triggers.map (fun t => (t.file stem format).result) = files.map .ok := by
  induction triggers generalizing tree with
  | nil =>
      cases h
      exact ⟨[], (List.append_nil _).symm, rfl⟩
  | cons t triggers ih =>
      obtain ⟨file, hfile, h⟩ := Traced.exists_of_bind_ok h
      obtain ⟨tree₁, hinsert, h⟩ := Traced.exists_of_bind_ok h
      obtain ⟨files, hfiles, hmap⟩ := ih h
      refine ⟨file :: files, ?_, congrArg₂ List.cons hfile hmap⟩
      rw [hfiles, FileTree.files_of_insert hinsert, List.append_assoc,
        List.singleton_append]

theorem files_ok {r : Registry} {stem : String} {tree : FileTree}
    (h : (r.files stem).result = .ok tree) :
    r.triggers.map (fun t => (t.file stem r.format).result) =
      tree.files.map .ok := by
  obtain ⟨tree', hinto, h⟩ := Traced.exists_of_bind_ok h
  cases h
  obtain ⟨files, hfiles, hmap⟩ := filesInto_ok hinto
  rw [hfiles]
  exact hmap

/-! ## One addition -/

/-- The triggers of one kind, with their positions. -/
def block (r : Registry) (kind : TriggerKind) : List Registered :=
  (r.triggersOf kind).mapIdx fun i trigger => ⟨i + 1, trigger⟩

theorem triggers_eq (r : Registry) :
    r.triggers = TriggerKind.all.flatMap r.block := rfl

/-- One trigger more: it comes after the others of its kind, with the next
number, and the others are where they were. Whenever there are files, there were
files before, the same ones in the same order but for that of the trigger, whose
path is a new one. -/
structure GrowsBy (r : Registry) (t : Trigger) (r' : Registry) : Prop where
  triggers : ∃ earlier later, TriggerKind.all = earlier ++ t.kind :: later ∧
    r.triggers = (earlier.flatMap r.block ++ r.block t.kind) ++
      later.flatMap r.block ∧
    r'.triggers = (earlier.flatMap r.block ++ r.block t.kind) ++
      ⟨(r.triggersOf t.kind).length + 1, t⟩ :: later.flatMap r.block
  files : ∀ stem tree', (r'.files stem).result = .ok tree' →
    ∃ tree, (r.files stem).result = .ok tree ∧ ∃ front file back,
      tree.files = front ++ back ∧ tree'.files = front ++ file :: back ∧
      Registered.HasFile ⟨(r.triggersOf t.kind).length + 1, t⟩ stem
        r.format file ∧
      ∀ f ∈ tree.files, f.path ≠ file.path

variable {r r' : Registry} {t : Trigger}

theorem block_of_triggersOf {kind : TriggerKind}
    (h : r'.triggersOf kind = r.triggersOf kind ++ [t]) :
    r'.block kind = r.block kind ++ [⟨(r.triggersOf kind).length + 1, t⟩] := by
  rw [block, h, List.mapIdx_append, block]
  simp

theorem flatMap_block_congr {kinds : List TriggerKind}
    (h : ∀ kind ∈ kinds, r'.triggersOf kind = r.triggersOf kind) :
    kinds.flatMap r'.block = kinds.flatMap r.block := by
  refine List.flatMap_congr fun kind hkind => ?_
  rw [block, h kind hkind, block]

/-- The files of a registry and of one with one trigger more. -/
theorem files_of_triggers {before after : List Registered} {t : Registered}
    {stem : String} {tree' : FileTree} (hformat : r'.format = r.format)
    (hold : r.triggers = before ++ after)
    (hnew : r'.triggers = before ++ t :: after)
    (h : (r'.files stem).result = .ok tree') :
    ∃ tree, (r.files stem).result = .ok tree ∧ ∃ front file back,
      tree.files = front ++ back ∧ tree'.files = front ++ file :: back ∧
      t.HasFile stem r.format file ∧ ∀ f ∈ tree.files, f.path ≠ file.path := by
  have hnames := exists_files_iff.1 ⟨tree', h⟩
  obtain ⟨tree, htree⟩ : ∃ tree, (r.files stem).result = .ok tree := by
    refine exists_files_iff.2 fun u hu => hnames u ?_
    rw [hold] at hu
    rw [hnew]
    exact (List.Sublist.append_left (List.sublist_cons_self t after)
      before).subset hu
  have hmap := files_ok htree
  have hmap' := files_ok h
  rw [hold, List.map_append] at hmap
  rw [hnew, List.map_append, List.map_cons, hformat] at hmap'
  -- the files split where the triggers do
  obtain ⟨front, rest, hfiles', hfront, hrest⟩ := List.append_eq_map_iff.1 hmap'
  obtain ⟨file, back, rfl, hfile, hback⟩ := List.map_eq_cons_iff.1 hrest
  have hfiles : tree.files = front ++ back := by
    have hok : (tree.files.map Except.ok : List (Except Error TreeFile)) =
        (front ++ back).map Except.ok := by
      rw [← hmap, List.map_append, hfront, hback]
    exact List.map_injective_iff.2 (fun a b hab => Except.ok.inj hab) hok
  refine ⟨tree, htree, front, file, back, hfiles, hfiles', ?_, ?_⟩
  · exact Registered.hasFile_of_file hfile.symm
  · rw [hfiles]
    exact FileTree.path_ne hfiles'

/-- What an addition does to the kinds is what it does to triggers and files. -/
theorem growsBy_of_triggersOf (hsettings : r'.settings = r.settings)
    (h : ∀ kind, r'.triggersOf kind = r.triggersOf kind ++ if t.kind =
      kind then [t] else []) :
    r.GrowsBy t r' := by
  have hself : r'.triggersOf t.kind = r.triggersOf t.kind ++ [t] := by
    rw [h, if_pos rfl]
  have hother : ∀ kinds : List TriggerKind, t.kind ∉ kinds →
      kinds.flatMap r'.block = kinds.flatMap r.block := by
    intro kinds hkinds
    refine flatMap_block_congr fun kind hkind => ?_
    have hne : t.kind ≠ kind := fun heq => hkinds (heq ▸ hkind)
    rw [h, if_neg hne, List.append_nil]
  have hmem : t.kind ∈ TriggerKind.all := by cases t.kind <;> decide
  obtain ⟨earlier, later, hall⟩ := List.append_of_mem hmem
  -- no kind is listed twice, so the other blocks are those of other kinds
  have hnodup : (earlier ++ t.kind :: later).Nodup := by
    rw [← hall]
    decide
  obtain ⟨-, hlater, hearlier⟩ := List.nodup_append.1 hnodup
  have hold : r.triggers =
      (earlier.flatMap r.block ++ r.block t.kind) ++ later.flatMap r.block := by
    rw [triggers_eq, hall, List.flatMap_append, List.flatMap_cons,
      List.append_assoc]
  have hnew : r'.triggers = (earlier.flatMap r.block ++ r.block t.kind) ++
      ⟨(r.triggersOf t.kind).length + 1, t⟩ :: later.flatMap r.block := by
    rw [triggers_eq, hall, List.flatMap_append, List.flatMap_cons,
      block_of_triggersOf hself, hother later (List.nodup_cons.1 hlater).1,
      hother earlier fun hmem => hearlier _ hmem _ List.mem_cons_self rfl]
    simp only [List.append_assoc, List.singleton_append]
  have hformat : r'.format = r.format := by rw [format, hsettings, format]
  exact ⟨⟨earlier, later, hall, hold, hnew⟩,
    fun stem tree' hfiles => files_of_triggers hformat hold hnew hfiles⟩

/-! ## Histories -/

/-- Add a declaration, unless that fails. -/
def attempt (r : Registry) (d : PipelineSpec × Conditions) : Registry :=
  match r.add d.1 d.2 with
  | .ok r' => r'
  | .error _ => r

/-- The registry after a history of additions; those that fail leave it as it
was. -/
def addEach (r : Registry) (ds : List (PipelineSpec × Conditions)) :
    Registry := ds.foldl attempt r

/-- The additions of a history that do not fail. -/
def additions (ds : List (PipelineSpec × Conditions)) :
    List (PipelineSpec × Conditions) :=
  ds.filter fun d => SaysSomething d.1.command

theorem addEach_concat (r : Registry) (ds : List (PipelineSpec × Conditions))
    (d : PipelineSpec × Conditions) :
    r.addEach (ds ++ [d]) = (r.addEach ds).attempt d := by
  rw [addEach, List.foldl_concat, addEach]

theorem attempt_blank (r : Registry) {d : PipelineSpec × Conditions}
    (h : ¬ SaysSomething d.1.command) : r.attempt d = r := by
  rw [attempt, r.add_blank d.2 h]

theorem add_eq_attempt (r : Registry) {d : PipelineSpec × Conditions}
    (h : SaysSomething d.1.command) : r.add d.1 d.2 = .ok (r.attempt d) := by
  obtain ⟨p, hp⟩ := Pipeline.ofSpec_ok h r.settings
  obtain ⟨r', hadd, -⟩ := r.add_ok d.2 hp
  rw [attempt, hadd]

theorem addAll_additions (r : Registry)
    (ds : List (PipelineSpec × Conditions)) :
    r.addAll (additions ds) = .ok (r.addEach ds) := by
  induction ds generalizing r with
  | nil => rfl
  | cons d ds ih =>
      have hstep : r.addEach (d :: ds) = (r.attempt d).addEach ds := rfl
      rw [hstep, additions, List.filter_cons]
      by_cases hd : SaysSomething d.1.command
      · rw [if_pos (decide_eq_true hd), addAll_cons, r.add_eq_attempt hd]
        exact ih (r.attempt d)
      · rw [if_neg (by simpa using hd), r.attempt_blank hd]
        exact ih r

/-- Each kind has grown by the additions of that kind. -/
theorem addEach_spec (r : Registry) (ds : List (PipelineSpec × Conditions)) :
    (r.addEach ds).settings = r.settings ∧
      ∀ kind, ∃ added, (r.addEach ds).triggersOf kind = r.triggersOf kind ++
        added ∧ List.Forall₂ (Trigger.Declares r.settings)
          ((additions ds).filter (·.2.kind = kind)) added := by
  have hsay : ∀ d ∈ additions ds, SaysSomething d.1.command := by
    intro d hd
    exact of_decide_eq_true (List.mem_filter.1 hd).2
  obtain ⟨r', hadd, hspec⟩ := addAll_ok hsay r
  rw [r.addAll_additions ds] at hadd
  cases hadd
  exact hspec

theorem declares_unique (settings : Settings) :
    Relator.RightUnique (Trigger.Declares settings) := by
  rintro d ⟨p, c⟩ ⟨p', c'⟩ ⟨hp, hc⟩ ⟨hp', hc'⟩
  cases hp.symm.trans hp'
  cases hc.trans hc'.symm
  rfl

/-- How the kinds are mixed in a history leaves no trace. -/
theorem addEach_congr {ds ds' : List (PipelineSpec × Conditions)}
    (h : ∀ kind : TriggerKind,
      (additions ds').filter (·.2.kind = kind) =
        (additions ds).filter (·.2.kind = kind)) (r : Registry)
    (kind : TriggerKind) :
    (r.addEach ds').triggersOf kind = (r.addEach ds).triggersOf kind := by
  obtain ⟨-, hspec⟩ := r.addEach_spec ds
  obtain ⟨-, hspec'⟩ := r.addEach_spec ds'
  obtain ⟨added, hadded, hall⟩ := hspec kind
  obtain ⟨added', hadded', hall'⟩ := hspec' kind
  rw [h kind] at hall'
  rw [hadded, hadded', List.right_unique_forall₂' (declares_unique r.settings)
    hall' hall]

/-- Take a registry after any history. An addition whose command is blank fails
and changes nothing. Any other puts one trigger at the end of its kind, the
settings it is made under being those at the start, and disturbs neither
triggers nor files. And the history matters only kind by kind: with the same
additions of each kind, in whatever order the kinds took turns, the triggers are
the same and so is what becomes of the files. -/
theorem history_append_only (settings : Settings)
    (ds : List (PipelineSpec × Conditions)) :
    (∀ d : PipelineSpec × Conditions, ¬ SaysSomething d.1.command →
      ((empty settings).addEach ds).add d.1 d.2 = .error .emptyCommand ∧
        (empty settings).addEach (ds ++ [d]) = (empty settings).addEach ds) ∧
    (∀ d : PipelineSpec × Conditions, SaysSomething d.1.command →
      ∃ p, Pipeline.ofSpec d.1 settings.normalized = .ok p ∧
        ((empty settings).addEach ds).add d.1 d.2 =
          .ok ((empty settings).addEach (ds ++ [d])) ∧
        ((empty settings).addEach ds).GrowsBy ⟨p, d.2⟩
          ((empty settings).addEach (ds ++ [d]))) ∧
    ∀ ds' : List (PipelineSpec × Conditions),
      (∀ kind : TriggerKind,
        (additions ds').filter (·.2.kind = kind) =
          (additions ds).filter (·.2.kind = kind)) →
      ((empty settings).addEach ds').triggers =
        ((empty settings).addEach ds).triggers ∧
        ∀ stem, ((empty settings).addEach ds').files stem =
          ((empty settings).addEach ds).files stem := by
  have hsettings := fun ds => ((empty settings).addEach_spec ds).1
  refine ⟨fun d hd => ?_, fun d hd => ?_, fun ds' h => ?_⟩
  · rw [addEach_concat]
    exact ⟨add_blank _ d.2 hd, attempt_blank _ hd⟩
  · rw [addEach_concat]
    have hadd := ((empty settings).addEach ds).add_eq_attempt hd
    obtain ⟨p, hp⟩ :=
      Pipeline.ofSpec_ok hd ((empty settings).addEach ds).settings
    obtain ⟨r', hadd', hkept, htriggers⟩ := add_ok _ d.2 hp
    rw [hadd] at hadd'
    cases hadd'
    rw [hsettings] at hp
    exact ⟨p, hp, hadd, growsBy_of_triggersOf hkept htriggers⟩
  · have hkinds := addEach_congr h (empty settings)
    have htriggers :
        ((empty settings).addEach ds').triggers =
          ((empty settings).addEach ds).triggers := by
      simp only [triggers, hkinds]
    refine ⟨htriggers, fun stem => ?_⟩
    simp only [files, format, htriggers, hsettings]

end Registry

end DaggerWorkflows
