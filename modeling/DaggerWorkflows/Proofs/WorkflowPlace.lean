import DaggerWorkflows.Proofs.RegistryFiles
import DaggerWorkflows.Proofs.TreeWriting

/-!
# Where workflows are put

Workflows are to lie in one directory, `.github/workflows`, under names of
their own. Their paths are made from a stem that is not looked at, so whether
they do is up to the stem: it must not start at the root, and all before its
last slash must be nothing, dots apart (`StaysInPlace`). For any other stem no
workflow has such a path: the paths lead into directories of their own, or out
of this one, or even out of the one that is to be written below.

For a stem that stays, `Extends` turns what the paths say into what happens to
the files: the last two directories on the way to a file are the ones that are
wanted.
-/

namespace DaggerWorkflows

open FilePath

/-- A name for a workflow's file. -/
def IsWorkflowName (name : String) : Prop :=
  '/' ∉ name.toList ∧
    (".yml".toList <:+ name.toList ∨ ".json".toList <:+ name.toList)

/-- The path of a file that lies directly in the directory of workflows. -/
def IsWorkflowPath (path : String) : Prop :=
  ∃ name, IsWorkflowName name ∧
    components path = ⟨false, false, [".github", "workflows", name]⟩

/-- A stem that leaves workflows in their directory. -/
def StaysInPlace (stem : String) :
    Prop := isAbsolute stem = false ∧ closedNames stem = []

instance (stem : String) :
    Decidable (StaysInPlace stem) := inferInstanceAs (Decidable (_ ∧ _))

theorem isWorkflowName_append (stem : String) (kind : TriggerKind) (index : Nat)
    (format : OutputFormat) :
    IsWorkflowName (openName stem ++ kind.numberedName index format) := by
  have hopen : '/' ∉ (openName stem).toList := by
    rw [openName, String.toList_ofList]
    cases hlast : (Text.split '/' stem.toList).getLast? with
    | none => exact List.not_mem_nil
    | some part => exact Text.not_mem_of_mem_split (List.mem_of_getLast? hlast)
  have hlist := kind.toList_numberedName index format
  constructor
  · rw [String.toList_append, List.mem_append, not_or]
    exact ⟨hopen, (kind.numberedName_isTail index format).slash⟩
  · have hname : (openName stem ++ kind.numberedName index format).toList =
        ((openName stem).toList ++ kind.discriminator.toList ++
          '-' :: Nat.toDigits 10 index) ++ '.' :: format.extension.toList := by
      rw [String.toList_append, hlist]
      simp
    rw [hname]
    cases format with
    | yaml => exact .inl (List.suffix_append _ _)
    | json => exact .inr (List.suffix_append _ _)

theorem parts_workflowsDirectory :
    parts workflowsDirectory = [".github", "workflows"] := by
  decide +kernel

theorem components_workflowPath (kind : TriggerKind) {stem : String}
    (index : Nat) (format : OutputFormat) (h : isAbsolute stem = false) :
    components (workflowPath kind stem index format) =
      ⟨false, false, [".github", "workflows"] ++
      (closedNames stem ++
        [openName stem ++ kind.numberedName index format])⟩ := by
  have htail := kind.numberedName_isTail index format
  have habsolute : isAbsolute (stem ++ kind.numberedName index format) =
      false := by
    rw [isAbsolute_append stem htail.isAbsolute_eq_false, h]
  have hnames : (parts (stem ++ kind.numberedName index format)).filter
    (· != ".") =
      closedNames stem ++ [openName stem ++ kind.numberedName index format] :=
    names_append stem htail
  have hdirectory : isAbsolute workflowsDirectory = false := by decide +kernel
  rw [workflowPath, TriggerKind.filename_eq]
  unfold components
  simp only [isAbsolute_join _ habsolute, parts_join _ habsolute,
    parts_workflowsDirectory, hdirectory, List.filter_append, hnames]
  rfl

/-- Where workflows lie is up to the stem, and the same for all of them. -/
theorem isWorkflowPath_workflowPath_iff (kind : TriggerKind) (stem : String)
    (index : Nat) (format : OutputFormat) :
    IsWorkflowPath (workflowPath kind stem index format) ↔
    StaysInPlace stem := by
  unfold IsWorkflowPath StaysInPlace
  cases hstem : isAbsolute stem with
  | true =>
      have htail := kind.numberedName_isTail index format
      have habsolute : isAbsolute (workflowPath kind stem index format) =
          true := by
        have hname : isAbsolute (stem ++ kind.numberedName index format) =
            true := by
          rw [isAbsolute_append stem htail.isAbsolute_eq_false, hstem]
        rw [workflowPath, TriggerKind.filename_eq, join, if_pos hname, hname]
      constructor
      · rintro ⟨name, -, hcomponents⟩
        have hfield : isAbsolute (workflowPath kind stem index format) =
            false :=
          congrArg Components.absolute hcomponents
        rw [habsolute] at hfield
        cases hfield
      · rintro ⟨hrelative, -⟩
        cases hrelative
  | false =>
      rw [components_workflowPath kind index format hstem]
      constructor
      · rintro ⟨name, -, hcomponents⟩
        have hnames : closedNames stem ++
          [openName stem ++ kind.numberedName index format] =
            [name] :=
              List.append_cancel_left (congrArg Components.names hcomponents)
        have hlength := congrArg List.length hnames
        rw [List.length_append, List.length_singleton, List.length_singleton]
          at hlength
        exact ⟨rfl, List.eq_nil_of_length_eq_zero (by omega)⟩
      · rintro ⟨-, hclosed⟩
        refine ⟨_, isWorkflowName_append stem kind index format, ?_⟩
        rw [hclosed]
        rfl

example :
    StaysInPlace ".//ci-" ∧ ¬ StaysInPlace "../" ∧ ¬ StaysInPlace "ci/" := by
  decide +kernel

/-! ## Files -/

/-- A place directly in the directory of workflows below a directory. -/
def IsWorkflowPlace (fs : FileSystem) (output : String) (place : List String) :
    Prop :=
  ∃ dir name, fs.walk (fs.origin (isAbsolute output))
      (parts output ++ [".github", "workflows"]) = .ok dir ∧
    IsWorkflowName name ∧ place = dir ++ [name]

theorem FileSystem.parts_of_splitLast {path name : String}
    {parents : List String} (h : splitLast path = some (parents, name)) :
    parts path = parents ++ [name] := by
  unfold splitLast at h
  cases hreverse : (parts path).reverse with
  | nil =>
      rw [hreverse] at h
      cases h
  | cons last before =>
      rw [hreverse] at h
      cases h
      rw [← List.reverse_reverse (parts path), hreverse, List.reverse_cons]

/-- Whatever the directory is that is written below, the path of a workflow
leads from there to its place. What the path has besides its names are dots, and
those lead nowhere. -/
theorem isWorkflowPlace_of_leadsTo {fs : FileSystem} {output path : String}
    {place : List String} (hpath : IsWorkflowPath path)
    (h : fs.LeadsTo (join output path) place) :
    IsWorkflowPlace fs output place := by
  obtain ⟨name, hname, hcomponents⟩ := hpath
  obtain ⟨parents, last, dir, hsplit, hdot, -, hwalk, hplace⟩ := h
  have habsolute : isAbsolute path = false :=
    congrArg Components.absolute hcomponents
  have hnames : (parts path).filter (· != ".") = [".github", "workflows"] ++
      [name] :=
    congrArg Components.names hcomponents
  have hparts := FileSystem.parts_of_splitLast hsplit
  rw [parts_join output habsolute] at hparts
  rw [isAbsolute_join output habsolute] at hwalk
  rcases List.eq_nil_or_concat (parts path) with hnil | ⟨before, last', hlast⟩
  · rw [hnil] at hnames
    cases hnames
  · rw [List.concat_eq_append] at hlast
    rw [hlast, ← List.append_assoc] at hparts
    obtain ⟨rfl, hsame⟩ := List.append_inj' hparts rfl
    obtain rfl : last' = last := by simpa using hsame
    have hkept : [last'].filter (· != ".") = [last'] :=
      List.filter_cons_of_pos (by simpa using hdot)
    rw [hlast, List.filter_append, hkept] at hnames
    obtain ⟨hbefore, hsame⟩ := List.append_inj' hnames rfl
    obtain rfl : last' = name := by simpa using hsame
    obtain ⟨between, hout, hin⟩ := FileSystem.walk_append.1 hwalk
    rw [← FileSystem.walk_filter_dots, hbefore] at hin
    exact ⟨dir, last', FileSystem.walk_append.2 ⟨between, hout, hin⟩,
      hname, hplace⟩

namespace Registry

theorem isWorkflowPath_iff {r : Registry} {stem : String} {tree : FileTree}
    (h : (r.files stem).result = .ok tree) {file : TreeFile}
    (hmem : file ∈ tree.files) :
    IsWorkflowPath file.path ↔ StaysInPlace stem := by
  obtain ⟨t, -, hfile⟩ := exists_trigger_of_mem_files h hmem
  rw [hfile.path]
  exact isWorkflowPath_workflowPath_iff _ stem _ r.format

/-- The files of a registry are for the directory of workflows if the stem stays
in place, and only then. And if it does, that is where all changes are. -/
theorem generate_in_place (r : Registry) (stem : String) :
    (∀ tree, (r.files stem).result = .ok tree → ∀ file ∈ tree.files,
      (IsWorkflowPath file.path ↔ StaysInPlace stem)) ∧
    (StaysInPlace stem → ∀ output fs,
      FileSystem.Extends (IsWorkflowPlace (r.generate stem output fs).1 output)
        fs (r.generate stem output fs).1) := by
  refine ⟨fun tree htree file hmem => isWorkflowPath_iff htree hmem,
    fun hstem output fs => ?_⟩
  refine (r.extends_generate stem output fs).mono ?_
  rintro place ⟨tree, htree, file, hmem, hleads⟩
  exact isWorkflowPlace_of_leadsTo ((isWorkflowPath_iff htree hmem).2 hstem)
    hleads

open FileSystem in
/-- A stem that starts at the root takes its files there, whatever they were to
be written below. -/
theorem generate_outside :
    ∃ (r : Registry) (fs : FileSystem) (tree : FileTree),
      (r.files "/ci-").result = .ok tree ∧
      (∃ file ∈ tree.files, ¬ IsWorkflowPath file.path) ∧
      ∃ place contents, fs.get? place = none ∧
        (r.generate "/ci-" "." fs).1.get? place = some (.file contents) ∧
        ¬ IsWorkflowPlace (r.generate "/ci-" "." fs).1 "." place := by
  let build : Pipeline := ⟨"build", none, [], none, .default, by decide +kernel⟩
  let r : Registry :=
    { Registry.empty .default with push := [⟨build, default⟩] }
  let fs : FileSystem := ⟨[(["repo"], .directory)], ["repo"]⟩
  obtain ⟨tree, htree, file, hfiles, hfile⟩ :
    ∃ tree, (r.files "/ci-").result = .ok tree ∧
      ∃ file, tree.files = [file] ∧ file.path = "/ci-push-1.yml" := by
    have hpaths : (r.files "/ci-").result.map (·.paths) =
        .ok ["/ci-push-1.yml"] := by
      decide +kernel
    cases hresult : (r.files "/ci-").result with
    | error e =>
        rw [hresult] at hpaths
        cases hpaths
    | ok tree =>
        rw [hresult] at hpaths
        have hmap : tree.files.map (·.path) = ["/ci-push-1.yml"] :=
          Except.ok.inj hpaths
        exact ⟨tree, rfl, List.map_eq_singleton_iff.1 hmap⟩
  have hrefusal : refusal? "/ci-push-1.yml" = none := by
    rw [refusal?, String.contains_char_eq]
    decide +kernel
  have hjoin : join "." file.path = "/ci-push-1.yml" := by
    rw [hfile]
    decide +kernel
  have hwrite : FileTree.writeFile fs (join "." file.path) file.contents =
      (fs.put ["ci-push-1.yml"] (.file file.contents.toUTF8), .ok ()) := by
    rw [hjoin, FileTree.writeFile, makeParents, refusal?_parent hrefusal]
    simp only [write, hrefusal]
    rfl
  have hgenerate : (r.generate "/ci-" "." fs).1 =
      fs.put ["ci-push-1.yml"] (.file file.contents.toUTF8) := by
    rw [generate_of_ok htree, FileTree.write, hfiles,
      FileTree.writeFiles_cons_ok [] hwrite]
    rfl
  have hstem : ¬ StaysInPlace "/ci-" := by decide +kernel
  have hmem : file ∈ tree.files := by simp [hfiles]
  refine ⟨r, fs, tree, htree, ⟨file, hmem, ?_⟩, ["ci-push-1.yml"],
    file.contents.toUTF8, rfl, ?_⟩
  · rwa [isWorkflowPath_iff htree hmem]
  · rw [hgenerate]
    refine ⟨rfl, ?_⟩
    rintro ⟨dir, name, hwalk, -⟩
    cases hwalk

end Registry

end DaggerWorkflows
