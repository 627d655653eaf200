import DaggerWorkflows.Program
import DaggerWorkflows.Proofs.RegistryHistory
import DaggerWorkflows.Proofs.TreeWriting

/-!
# What a run does to the world

A run reads its command line, then the manifest, compiles all workflows, and
writes or prints only then. Each of these steps can be the last one, and
`Program.Ending` lists them with all that a run leaves behind: its exit code,
what it has printed, and the files. `Program.run_ending` says that there are no
others.

Behind it stands what each step can complain of. A manifest that is not
understood or declares nothing to call, and a secret that is no name, are
faults of the user; the only other complaints come from writing and printing,
when all workflows are there. So whoever is told of a fault of theirs finds all
files as they were, and nothing printed.
-/

namespace DaggerWorkflows

/-! ## What can go wrong -/

namespace Manifest

variable {fs : FileSystem} {path text : String} {settings : Settings}
  {e : Error}

theorem ofText_error (h : ofText path text = .error e) :
    ∃ message, e = .manifest path message := by
  unfold ofText at h
  split at h
  · cases h
    exact ⟨_, rfl⟩
  · split at h
    · cases h
      exact ⟨_, rfl⟩
    · cases h

theorem load_error (h : (load fs path).result = .error e) :
    ∃ message, e = .manifest path message := by
  unfold load at h
  split at h
  · cases h
    exact ⟨_, rfl⟩
  · rcases Traced.error_of_bind h with htext | ⟨m, -, h⟩
    · exact ofText_error htext
    · cases h

theorem registry_error {m : Manifest} (h : m.registry settings = .error e) :
    e = .emptyCommand := by
  by_cases hsay : ∀ d ∈ m.declarations, SaysSomething d.1.command
  · obtain ⟨r, hall, -⟩ := Registry.addAll_ok hsay (.empty settings)
    rw [show m.registry settings = .ok r from hall] at h
    cases h
  · have hblank : ∃ d ∈ m.declarations, ¬ SaysSomething d.1.command := by
      simpa using hsay
    rw [show m.registry settings = _ from Registry.addAll_blank hblank
      (.empty settings)] at h
    cases h
    rfl

theorem loadRegistry_error
    (h : (loadRegistry fs path settings).result = .error e) :
    (∃ message, e = .manifest path message) ∨ e = .emptyCommand := by
  rcases Traced.error_of_bind h with hload | ⟨m, -, h⟩
  · exact .inl (load_error hload)
  · rcases Traced.error_of_bind h with hregistry | ⟨r, -, h⟩
    · exact .inr (registry_error hregistry)
    · split at h <;> cases h

end Manifest

theorem Registry.files_error {r : Registry} {stem : String} {e : Error}
    (h : (r.files stem).result = .error e) :
    ∃ name, e = .invalidSecretName name := by
  have hfiles := r.files_result stem
  cases hinvalid : SecretName.firstInvalid? (secretsOf r.triggers) with
  | none =>
      rw [hinvalid] at hfiles
      obtain ⟨tree, hresult, -⟩ := hfiles
      rw [hresult] at h
      cases h
  | some name =>
      rw [hinvalid] at hfiles
      rw [hfiles] at h
      cases h
      exact ⟨name, rfl⟩

theorem FileTree.writeFiles_error {root : String} {files : List TreeFile}
    {fs : FileSystem} {e : Error}
    (h : (writeFiles root files fs).2.result = .error e) :
    ∃ text, e = .storage text := by
  induction files generalizing fs with
  | nil => cases h
  | cons file files ih =>
      rcases hwrite : writeFile fs (FilePath.join root file.path) file.contents
        with ⟨fs₁, fault | ⟨⟨⟩⟩⟩
      · rw [writeFiles_cons_error files hwrite] at h
        cases h
        exact ⟨_, rfl⟩
      · rw [writeFiles_cons_ok files hwrite] at h
        rcases Traced.error_of_bind h with h | ⟨-, -, h⟩
        · cases h
        · rcases Traced.error_of_bind h with hrest | ⟨paths, -, h⟩
          · exact ih hrest
          · cases h

namespace Sink

variable {out : Sink} {text : String}

/-- What is printed without failing is the whole text. -/
theorem write_ok (h : (out.write text).2 = .ok ()) :
    (out.write text).1 = text := by
  unfold write at h ⊢
  split
  · rfl
  · next room fault hlimit =>
      rw [hlimit] at h
      dsimp only at h ⊢
      split at h
      · next hroom => rw [if_pos hroom]
      · cases h

/-- A sink that fails has taken the beginning of the text. -/
theorem write_error {e : Error} (h : (out.write text).2 = .error e) :
    (∃ fault, e = .storage fault) ∧
      (out.write text).1.toList <+: text.toList := by
  unfold write at h ⊢
  split
  · next hlimit =>
      rw [hlimit] at h
      cases h
  · next room fault hlimit =>
      rw [hlimit] at h
      dsimp only at h ⊢
      split at h
      · cases h
      · next hroom =>
          cases h
          rw [if_neg hroom, String.toList_ofList]
          exact ⟨⟨fault, rfl⟩, List.take_prefix _ _⟩

end Sink

namespace Registry

variable {r : Registry} {stem : String}

theorem generateText_of_error {e : Error}
    (h : (r.files stem).result = .error e) :
    r.generateText stem = ⟨.error e, (r.files stem).events⟩ := by
  rw [generateText, Traced.bind_eq, Traced.bind, h]

theorem generateText_of_ok {tree : FileTree}
    (h : (r.files stem).result = .ok tree) :
    r.generateText stem = ⟨.ok tree.text, (r.files stem).events⟩ := by
  rw [generateText, Traced.bind_eq, Traced.bind, h]
  simp only [Traced.pure_eq, List.append_nil]

theorem generateTo_of_error {e : Error} (h : (r.files stem).result = .error e)
    (out : Sink) :
    r.generateTo stem out = ("", ⟨.error e, (r.files stem).events⟩) := by
  rw [generateTo, generateText_of_error h]

theorem generateTo_of_ok {tree : FileTree}
    (h : (r.files stem).result = .ok tree) (out : Sink) :
    r.generateTo stem out =
      ((out.write tree.text).1,
        ⟨(out.write tree.text).2, (r.files stem).events⟩) := by
  rw [generateTo, generateText_of_ok h]

end Registry

theorem Registry.generate_result {r : Registry} {stem : String}
    {tree : FileTree} (h : (r.files stem).result = .ok tree) (output : String)
    (fs : FileSystem) :
    (r.generate stem output fs).2.result = (tree.write output fs).2.result := by
  rw [generate_of_ok h]
  cases hwrite : (tree.write output fs).2.result with
  | error e => exact Traced.result_bind_error hwrite _
  | ok paths => exact Traced.result_bind_ok hwrite _

/-! ## How runs end -/

namespace Program

open CommandLine

/-- An invocation whose log filter, if it has one, is well formed. -/
def FilterIsGood (i : Invocation) : Prop :=
  ∀ filter ∈ i.logFilter, LogFilter.isWellFormed filter = true

/-- The registry that an invocation loads. -/
def registryOf (world : World) (i : Invocation) : Traced Registry :=
  Manifest.loadRegistry world.files i.manifest i.settings.settings

/-- How a run ends: with an exit code, what it has printed, and the files it
leaves. -/
inductive Ending (world : World) (words : List String) :
    Nat → String → FileSystem → Prop where
  /-- Help or the version is asked for. -/
  | shown {stop : Stop}
      (hwords : Invocation.ofWords world.environment words = .error stop)
      (hstop : stop.exitCode = 0) :
      Ending world words 0 (stopped world stop).stdout world.files
  | refused {reason : Refusal}
      (hwords : Invocation.ofWords world.environment words =
        .error (.refused reason)) :
      Ending world words 2 "" world.files
  | badFilter {i : Invocation}
      (hwords : Invocation.ofWords world.environment words = .ok i)
      (hfilter : ¬ FilterIsGood i) : Ending world words 3 "" world.files
  | notLoaded {i : Invocation} {e : Error}
      (hwords : Invocation.ofWords world.environment words = .ok i)
      (hload : (registryOf world i).result = .error e) :
      Ending world words 2 "" world.files
  | notCompiled {i : Invocation} {stem output : String} {toStdout : Bool}
      {r : Registry} {e : Error}
      (hwords : Invocation.ofWords world.environment words = .ok i)
      (hcommand : i.command = .generate stem output toStdout)
      (hload : (registryOf world i).result = .ok r)
      (hfiles : (r.files stem).result = .error e) :
      Ending world words 2 "" world.files
  | printed {i : Invocation} {stem output : String} {r : Registry}
      {tree : FileTree}
      (hwords : Invocation.ofWords world.environment words = .ok i)
      (hcommand : i.command = .generate stem output true)
      (hload : (registryOf world i).result = .ok r)
      (hfiles : (r.files stem).result = .ok tree)
      (hprint : (world.host.stdout.write tree.text).2 = .ok ()) :
      Ending world words 0 tree.text world.files
  | notPrinted {i : Invocation} {stem output : String} {r : Registry}
      {tree : FileTree} {text : String}
      (hwords : Invocation.ofWords world.environment words = .ok i)
      (hcommand : i.command = .generate stem output true)
      (hload : (registryOf world i).result = .ok r)
      (hfiles : (r.files stem).result = .ok tree)
      (hprint : (world.host.stdout.write tree.text).2 =
        .error (.storage text)) :
      Ending world words 3 (world.host.stdout.write tree.text).1 world.files
  | written {i : Invocation} {stem output : String} {r : Registry}
      {tree : FileTree} {paths : List String}
      (hwords : Invocation.ofWords world.environment words = .ok i)
      (hcommand : i.command = .generate stem output false)
      (hload : (registryOf world i).result = .ok r)
      (hfiles : (r.files stem).result = .ok tree)
      (hwrite : (tree.write output world.files).2.result = .ok paths) :
      Ending world words 0 "" (tree.write output world.files).1
  | notWritten {i : Invocation} {stem output : String} {r : Registry}
      {tree : FileTree} {text : String}
      (hwords : Invocation.ofWords world.environment words = .ok i)
      (hcommand : i.command = .generate stem output false)
      (hload : (registryOf world i).result = .ok r)
      (hfiles : (r.files stem).result = .ok tree)
      (hwrite : (tree.write output world.files).2.result =
        .error (.storage text)) :
      Ending world words 3 "" (tree.write output world.files).1
  | checked {i : Invocation} {repo baseImage : String} {concurrency code : Nat}
      {timeout : Option Nat}
      (hwords : Invocation.ofWords world.environment words = .ok i)
      (hcommand : i.command = .check repo concurrency timeout baseImage) :
      Ending world words code "" world.files

variable {world : World} {words : List String} {i : Invocation}

theorem filterIsGood_iff :
    (i.logFilter.map LogFilter.isWellFormed).getD true = true ↔
    FilterIsGood i := by
  unfold FilterIsGood
  cases i.logFilter <;> simp

theorem report_of_ok {α : Type} {r : Traced α} {a : α} (h : r.result = .ok a)
    (fs : FileSystem) (stdout : String) :
    report fs stdout r = ⟨0, stdout, none, r.events, fs⟩ := by
  rw [report, h]

theorem report_of_error {α : Type} {r : Traced α} {e : Error}
    (h : r.result = .error e) (fs : FileSystem) (stdout : String) :
    report fs stdout r =
      ⟨exitCode e, stdout, some e.message, r.events, fs⟩ := by
  rw [report, h]

theorem report_eq {α : Type} (r : Traced α) (fs : FileSystem)
    (stdout : String) :
    (report fs stdout r).stdout = stdout ∧ (report fs stdout r).files = fs := by
  unfold report
  cases r.result <;> exact ⟨rfl, rfl⟩

/-- An ending that a report gives. -/
abbrev EndsAs (world : World) (words : List String) (r : Report) : Prop :=
  Ending world words r.exitCode r.stdout r.files

theorem endsAs_generateTo {r : Registry} {stem output : String}
    (hwords : Invocation.ofWords world.environment words = .ok i)
    (hcommand : i.command = .generate stem output true)
    (hload : (registryOf world i).result = .ok r) :
    EndsAs world words (runCommand world r (.generate stem output true)) := by
  show EndsAs world words (report world.files
    (r.generateTo stem world.host.stdout).1
      (r.generateTo stem world.host.stdout).2)
  cases hfiles : (r.files stem).result with
  | error e =>
      obtain ⟨name, rfl⟩ := Registry.files_error hfiles
      rw [Registry.generateTo_of_error hfiles, report_of_error rfl]
      exact .notCompiled hwords hcommand hload hfiles
  | ok tree =>
      rw [Registry.generateTo_of_ok hfiles]
      cases hprint : (world.host.stdout.write tree.text).2 with
      | ok _ =>
          rw [Sink.write_ok hprint, report_of_ok rfl]
          exact .printed hwords hcommand hload hfiles hprint
      | error e =>
          obtain ⟨⟨fault, rfl⟩, -⟩ := Sink.write_error hprint
          rw [report_of_error rfl]
          exact .notPrinted hwords hcommand hload hfiles hprint

theorem endsAs_generate {r : Registry} {stem output : String}
    (hwords : Invocation.ofWords world.environment words = .ok i)
    (hcommand : i.command = .generate stem output false)
    (hload : (registryOf world i).result = .ok r) :
    EndsAs world words (runCommand world r (.generate stem output false)) := by
  show EndsAs world words (report (r.generate stem output world.files).1
    "" (r.generate stem output world.files).2)
  cases hfiles : (r.files stem).result with
  | error e =>
      obtain ⟨name, rfl⟩ := Registry.files_error hfiles
      rw [Registry.generate_of_error hfiles, report_of_error rfl]
      exact .notCompiled hwords hcommand hload hfiles
  | ok tree =>
      have hresult := Registry.generate_result hfiles output world.files
      rw [show (r.generate stem output world.files).1 =
        (tree.write output world.files).1 by
        rw [Registry.generate_of_ok hfiles]]
      cases hwrite : (tree.write output world.files).2.result with
      | error e =>
          obtain ⟨text, rfl⟩ := FileTree.writeFiles_error hwrite
          rw [hwrite] at hresult
          rw [report_of_error hresult]
          exact .notWritten hwords hcommand hload hfiles hwrite
      | ok paths =>
          rw [hwrite] at hresult
          rw [report_of_ok hresult]
          exact .written hwords hcommand hload hfiles hwrite

theorem endsAs_check {r : Registry} {repo baseImage : String}
    {concurrency : Nat} {timeout : Option Nat}
    (hwords : Invocation.ofWords world.environment words = .ok i)
    (hcommand : i.command = .check repo concurrency timeout baseImage) :
    EndsAs world words
      (runCommand world r (.check repo concurrency timeout baseImage)) := by
  let outcome := r.checkWithin repo concurrency (world.host.runner baseImage)
    timeout ContainerRunner.name
  obtain ⟨hstdout, hfiles⟩ :=
    report_eq (⟨outcome.result, outcome.events⟩ : Traced Unit) world.files ""
  show Ending world words _ _ _
  rw [show (runCommand world r
    (.check repo concurrency timeout baseImage)).stdout = "" from hstdout,
    show (runCommand world r
      (.check repo concurrency timeout baseImage)).files =
      world.files from hfiles]
  exact .checked hwords hcommand

theorem endsAs_runLoaded
    (hwords : Invocation.ofWords world.environment words = .ok i) :
    EndsAs world words (runLoaded world i) := by
  unfold runLoaded
  cases hload : (registryOf world i).result with
  | error e =>
      have hloaded :
        (Manifest.loadRegistry world.files i.manifest
          i.settings.settings).result = .error e := hload
      simp only [hloaded]
      rw [report_of_error hloaded]
      rcases Manifest.loadRegistry_error hloaded with ⟨message, rfl⟩ | rfl
      · exact .notLoaded hwords hload
      · exact .notLoaded hwords hload
  | ok r =>
      have hloaded :
        (Manifest.loadRegistry world.files i.manifest
          i.settings.settings).result = .ok r := hload
      simp only [hloaded]
      cases hcommand : i.command with
      | generate stem output toStdout =>
          cases toStdout with
          | true => exact endsAs_generateTo hwords hcommand hload
          | false => exact endsAs_generate hwords hcommand hload
      | check repo concurrency timeout baseImage =>
          exact endsAs_check hwords hcommand

/-- Every run ends in one of the ways listed. -/
theorem run_ending (world : World) (words : List String) :
    EndsAs world words (run world words) := by
  unfold run
  cases hwords : Invocation.ofWords world.environment words with
  | error stop =>
      cases stop with
      | help => exact .shown hwords rfl
      | version => exact .shown hwords rfl
      | refused reason => exact .refused hwords
  | ok i =>
      show EndsAs world words (runInvocation world i)
      unfold runInvocation
      by_cases hfilter : FilterIsGood i
      · rw [if_pos (filterIsGood_iff.2 hfilter)]
        exact endsAs_runLoaded hwords
      · rw [if_neg (mt filterIsGood_iff.1 hfilter)]
        exact .badFilter hwords hfilter

/-! ## What follows from how it ends -/

section

variable {code : Nat} {stdout : String} {files : FileSystem}

theorem Ending.rejected (h : Ending world words code stdout files)
    (hcode : code = 2) :
    files = world.files ∧ stdout = "" := by
  cases h with
  | shown => cases hcode
  | refused => exact ⟨rfl, rfl⟩
  | badFilter => cases hcode
  | notLoaded => exact ⟨rfl, rfl⟩
  | notCompiled => exact ⟨rfl, rfl⟩
  | printed => cases hcode
  | notPrinted => cases hcode
  | written => cases hcode
  | notWritten => cases hcode
  | checked => exact ⟨rfl, rfl⟩

/-- A run of `generate` that has compiled all workflows and can neither write
nor print all of them. -/
def FailsWhileWriting (world : World) (i : Invocation) : Prop :=
  ∃ stem output r tree text, (registryOf world i).result = .ok r ∧
    (r.files stem).result = .ok tree ∧
    (i.command = .generate stem output false ∧
        (tree.write output world.files).2.result = .error (.storage text) ∨
      i.command = .generate stem output true ∧
        (world.host.stdout.write tree.text).2 = .error (.storage text))

def IsCheck (i : Invocation) : Prop :=
  ∃ repo concurrency timeout baseImage,
    i.command = .check repo concurrency timeout baseImage

theorem Ending.failed (h : Ending world words code stdout files)
    (hcode : code = 3) :
    ∃ i, Invocation.ofWords world.environment words = .ok i ∧
      (¬ FilterIsGood i ∨ FailsWhileWriting world i ∨ IsCheck i) := by
  cases h with
  | shown => cases hcode
  | refused => cases hcode
  | badFilter hwords hfilter => exact ⟨_, hwords, .inl hfilter⟩
  | notLoaded => cases hcode
  | notCompiled => cases hcode
  | printed => cases hcode
  | notPrinted hwords hcommand hload hfiles hprint =>
      exact ⟨_, hwords, .inr (.inl
        ⟨_, _, _, _, _, hload, hfiles, .inr ⟨hcommand, hprint⟩⟩)⟩
  | written => cases hcode
  | notWritten hwords hcommand hload hfiles hwrite =>
      exact ⟨_, hwords, .inr (.inl
        ⟨_, _, _, _, _, hload, hfiles, .inl ⟨hcommand, hwrite⟩⟩)⟩
  | checked hwords hcommand =>
      exact ⟨_, hwords, .inr (.inr ⟨_, _, _, _, hcommand⟩)⟩

theorem Ending.files_eq (h : Ending world words code stdout files) :
    files = world.files ∨ ∃ i stem output,
      Invocation.ofWords world.environment words = .ok i ∧
      i.command = .generate stem output false := by
  cases h with
  | shown => exact .inl rfl
  | refused => exact .inl rfl
  | badFilter => exact .inl rfl
  | notLoaded => exact .inl rfl
  | notCompiled => exact .inl rfl
  | printed => exact .inl rfl
  | notPrinted => exact .inl rfl
  | written hwords hcommand => exact .inr ⟨_, _, _, hwords, hcommand⟩
  | notWritten hwords hcommand => exact .inr ⟨_, _, _, hwords, hcommand⟩
  | checked => exact .inl rfl

theorem Ending.stdout_eq (h : Ending world words code stdout files)
    (hwords : Invocation.ofWords world.environment words = .ok i) :
    stdout = "" ∨ ∃ stem output r tree, i.command = .generate stem output true ∧
      (registryOf world i).result = .ok r ∧ (r.files stem).result = .ok tree ∧
      stdout.toList <+: tree.text.toList ∧ (code = 0 → stdout = tree.text) := by
  cases h with
  | shown hwords' =>
      rw [hwords] at hwords'
      cases hwords'
  | refused => exact .inl rfl
  | badFilter => exact .inl rfl
  | notLoaded => exact .inl rfl
  | notCompiled => exact .inl rfl
  | printed hwords' hcommand hload hfiles hprint =>
      rw [hwords] at hwords'
      cases hwords'
      exact .inr ⟨_, _, _, _, hcommand, hload, hfiles, List.prefix_refl _,
        fun _ => rfl⟩
  | notPrinted hwords' hcommand hload hfiles hprint =>
      rw [hwords] at hwords'
      cases hwords'
      exact .inr ⟨_, _, _, _, hcommand, hload, hfiles,
        (Sink.write_error hprint).2, nofun⟩
  | written => exact .inl rfl
  | notWritten => exact .inl rfl
  | checked => exact .inl rfl

end

/-- What may be relied on after a run. A run that tells of a fault of the user
has changed nothing and printed nothing. A run that tells of any other had a bad
log filter, or had compiled all workflows and could not write or print all of
them, or was one of `check`. A run that is to print workflows leaves the files
alone, and nothing is printed unless all workflows are compiled. -/
theorem run_effects (world : World) (words : List String) :
    ((run world words).exitCode = 2 →
      (run world words).files = world.files ∧ (run world words).stdout = "") ∧
    ((run world words).exitCode = 3 →
      ∃ i, Invocation.ofWords world.environment words = .ok i ∧
        (¬ FilterIsGood i ∨ FailsWhileWriting world i ∨ IsCheck i)) ∧
    ∀ i, Invocation.ofWords world.environment words = .ok i →
      (∀ stem output, i.command = .generate stem output true →
        (run world words).files = world.files) ∧
      ((run world words).stdout = "" ∨ ∃ stem output r tree,
        i.command = .generate stem output true ∧
        (registryOf world i).result = .ok r ∧
        (r.files stem).result = .ok tree ∧
        (run world words).stdout.toList <+: tree.text.toList ∧
        ((run world words).exitCode = 0 →
          (run world words).stdout = tree.text)) := by
  have hending := run_ending world words
  refine ⟨hending.rejected, hending.failed,
    fun i hwords => ⟨?_, hending.stdout_eq hwords⟩⟩
  intro stem output hcommand
  rcases hending.files_eq with hfiles | ⟨i', stem', output', hwords', hcommand'⟩
  · exact hfiles
  · rw [hwords] at hwords'
    cases hwords'
    rw [hcommand] at hcommand'
    cases hcommand'

end Program

end DaggerWorkflows
