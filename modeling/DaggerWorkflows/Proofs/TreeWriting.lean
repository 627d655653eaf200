import DaggerWorkflows.Generate
import DaggerWorkflows.Proofs.Outcomes

/-!
# What writing a tree touches

Writing makes directories where there is nothing and puts files where its paths
lead, and that is all it does to a file system. `Extends P` says so of any two
file systems: a place has kept its entry, or a directory has appeared there, or
`P` holds of it and it is a file now. What is a directory stays one
(`Extends.isDirectory`), so a path that could be followed leads to the same
place ever after (`Extends.walk`). This is what lets the places of all files be
told by the file system at the end, and so makes one induction over the files
enough, whether the writing comes to its end or not.
-/

namespace DaggerWorkflows

namespace FilePath

theorem dropBlanks_suffix (cs : List Char) : dropBlanks cs <:+ cs := by
  fun_induction dropBlanks cs with
  | case1 cs ih => exact ih.trans (List.suffix_cons _ _)
  | case2 cs ih =>
      exact (ih.trans (List.suffix_cons _ _)).trans (List.suffix_cons _ _)
  | case3 cs => exact List.suffix_refl _

/-- A path begins with what it says before its last part. -/
theorem parent_prefix (path : String) :
    (parent path).toList <+: path.toList := by
  rw [parent, String.toList_ofList, ← List.reverse_suffix, List.reverse_reverse]
  exact ((dropBlanks_suffix _).trans (List.dropWhile_suffix _)).trans
    (dropBlanks_suffix _)

end FilePath

namespace FileSystem

/-! ## Entries and paths -/

theorem find?_putInto (place other : List String) (entry : StorageEntry)
    (entries : List (List String × StorageEntry)) :
    ((putInto place entry entries).find? (·.1 == other)).map (·.2) =
      if other = place then some entry else (entries.find? (·.1 == other)).map
        (·.2) := by
  induction entries with
  | nil =>
      by_cases h : other = place
      · subst h
        simp [putInto]
      · simp [putInto, h, Ne.symm h]
  | cons e entries ih =>
      unfold putInto
      by_cases he : e.1 = place
      · rw [if_pos he]
        by_cases h : other = place
        · subst h
          simp
        · rw [if_neg h, List.find?_cons_of_neg (by simpa using Ne.symm h),
            List.find?_cons_of_neg (by simpa [he] using Ne.symm h)]
      · rw [if_neg he]
        by_cases hother : e.1 = other
        · have h : other ≠ place := fun heq => he (hother.trans heq)
          rw [if_neg h, List.find?_cons_of_pos (by simpa using hother),
            List.find?_cons_of_pos (by simpa using hother)]
        · rw [List.find?_cons_of_neg (by simpa using hother),
            List.find?_cons_of_neg (by simpa using hother), ih]

theorem get?_put {place : List String} (h : place ≠ []) (fs : FileSystem)
    (entry : StorageEntry) (other : List String) :
    (fs.put place entry).get? other = if other = place then some entry
      else fs.get? other := by
  unfold get?
  cases other with
  | nil => simp [Ne.symm h]
  | cons name names =>
      exact find?_putInto place (name :: names) entry fs.entries

/-- How a path is followed whose first name is no dot and no pair of dots. -/
def StepsInto (fs : FileSystem) (place : List String) (name : String) : Prop :=
  name ≠ "." ∧ name ≠ ".." ∧ name.utf8ByteSize ≤ maxName ∧
    fs.get? (place ++ [name]) = some .directory

theorem walk_cons_ok_iff {fs : FileSystem} {place dir names : List String}
    {name : String} :
    fs.walk place (name :: names) = .ok dir ↔
      (name = "." ∧ fs.walk place names = .ok dir) ∨
      (name = ".." ∧ fs.walk place.dropLast names = .ok dir) ∨
      (fs.StepsInto place name ∧
        fs.walk (place ++ [name]) names = .ok dir) := by
  unfold StepsInto
  rw [walk]
  by_cases hdot : name = "."
  · simp [hdot]
  · by_cases hdots : name = ".."
    · simp [hdots]
    · by_cases hlong : maxName < name.utf8ByteSize
      · simp [hdot, hdots, hlong, Nat.not_le_of_lt hlong]
      · cases hentry : fs.get? (place ++ [name]) with
        | none => simp [hdot, hdots, hlong]
        | some entry =>
            cases entry <;> simp [hdot, hdots, Nat.le_of_not_lt hlong, hlong]

/-- A path is followed up to any of its names first. -/
theorem walk_append {fs : FileSystem} {place dir names rest : List String} :
    fs.walk place (names ++ rest) = .ok dir ↔
      ∃ between, fs.walk place names = .ok between ∧
      fs.walk between rest = .ok dir := by
  induction names generalizing place with
  | nil => simp [walk]
  | cons name names ih =>
      simp only [List.cons_append, walk_cons_ok_iff, ih]
      constructor
      · rintro (⟨h, between, hnames, hrest⟩ | ⟨h, between, hnames, hrest⟩ |
          ⟨h, between, hnames, hrest⟩)
        · exact ⟨between, .inl ⟨h, hnames⟩, hrest⟩
        · exact ⟨between, .inr (.inl ⟨h, hnames⟩), hrest⟩
        · exact ⟨between, .inr (.inr ⟨h, hnames⟩), hrest⟩
      · rintro ⟨between, (⟨h, hnames⟩ | ⟨h, hnames⟩ | ⟨h, hnames⟩), hrest⟩
        · exact .inl ⟨h, between, hnames, hrest⟩
        · exact .inr (.inl ⟨h, between, hnames, hrest⟩)
        · exact .inr (.inr ⟨h, between, hnames, hrest⟩)

/-- Dots lead nowhere. -/
theorem walk_filter_dots (fs : FileSystem) (place names : List String) :
    fs.walk place (names.filter (· != ".")) = fs.walk place names := by
  induction names generalizing place with
  | nil => rfl
  | cons name names ih =>
      by_cases hdot : name = "."
      · rw [List.filter_cons_of_neg (by simpa using hdot), ih, walk,
          if_pos hdot]
      · rw [List.filter_cons_of_pos (by simpa using hdot), walk, walk]
        simp only [ih]

/-! ## File systems that others extend -/

/-- What happens to a file system when directories are made and files are put at
places that have a property: nothing else changes. -/
structure Extends (P : List String → Prop) (fs fs' : FileSystem) : Prop where
  workingDirectory : fs'.workingDirectory = fs.workingDirectory
  entry : ∀ place, fs'.get? place = fs.get? place ∨
    (fs.get? place = none ∧ fs'.get? place = some .directory) ∨
    (P place ∧ fs.get? place ≠ some .directory ∧ ∃ contents,
      fs'.get? place = some (.file contents))

namespace Extends

variable {P Q : List String → Prop} {fs fs₁ fs₂ : FileSystem}

theorem refl (P : List String → Prop) (fs : FileSystem) : Extends P fs fs :=
  ⟨rfl, fun _ => .inl rfl⟩

theorem mono (h : Extends P fs fs₁) (hPQ : ∀ place, P place → Q place) :
    Extends Q fs fs₁ where
  workingDirectory := h.workingDirectory
  entry := by
    intro place
    rcases h.entry place with hsame | hnew | ⟨hP, hfile⟩
    · exact .inl hsame
    · exact .inr (.inl hnew)
    · exact .inr (.inr ⟨hPQ place hP, hfile⟩)

theorem trans (h : Extends P fs fs₁) (h' : Extends P fs₁ fs₂) :
    Extends P fs fs₂ where
  workingDirectory := h'.workingDirectory.trans h.workingDirectory
  entry := by
    intro place
    rcases h'.entry place
      with hsame | ⟨hnone, hdir⟩ | ⟨hP, hdir, contents, hfile⟩
    · rw [hsame]
      exact h.entry place
    · rcases h.entry place with hsame | ⟨-, hsome⟩ | ⟨-, -, contents, hsome⟩
      · exact .inr (.inl ⟨hsame ▸ hnone, hdir⟩)
      · rw [hsome] at hnone
        cases hnone
      · rw [hsome] at hnone
        cases hnone
    · rcases h.entry place with hsame | ⟨-, hsome⟩ | ⟨-, hdir', -⟩
      · exact .inr (.inr ⟨hP, hsame ▸ hdir, contents, hfile⟩)
      · exact absurd hsome hdir
      · exact .inr (.inr ⟨hP, hdir', contents, hfile⟩)

theorem isDirectory (h : Extends P fs fs₁) {place : List String}
    (hdir : fs.get? place = some .directory) :
    fs₁.get? place = some .directory := by
  rcases h.entry place with hsame | ⟨hnone, -⟩ | ⟨-, hne, -⟩
  · rw [hsame, hdir]
  · rw [hdir] at hnone
    cases hnone
  · exact absurd hdir hne

theorem stepsInto (h : Extends P fs fs₁) {place : List String} {name : String}
    (hsteps : fs.StepsInto place name) : fs₁.StepsInto place name := by
  obtain ⟨hdot, hdots, hlong, hdir⟩ := hsteps
  exact ⟨hdot, hdots, hlong, h.isDirectory hdir⟩

/-- A path that can be followed leads to the same place when there is more. -/
theorem walk (h : Extends P fs fs₁) {names place dir : List String}
    (hwalk : fs.walk place names = .ok dir) :
    fs₁.walk place names = .ok dir := by
  induction names generalizing place with
  | nil => exact hwalk
  | cons name names ih =>
      rw [walk_cons_ok_iff] at hwalk ⊢
      rcases hwalk with ⟨hdot, hwalk⟩ | ⟨hdots, hwalk⟩ | ⟨hsteps, hwalk⟩
      · exact .inl ⟨hdot, ih hwalk⟩
      · exact .inr (.inl ⟨hdots, ih hwalk⟩)
      · exact .inr (.inr ⟨h.stepsInto hsteps, ih hwalk⟩)

end Extends

/-! ## Paths that are refused -/

theorem refusal?_eq_none {path : String} :
    refusal? path = none ↔
      '\x00' ∉ path.toList ∧ path.utf8ByteSize < maxPath := by
  unfold refusal?
  rw [String.contains_char_eq]
  by_cases hnull : '\x00' ∈ path.toList
  · simp [hnull]
  · rw [if_neg (by simpa using hnull)]
    by_cases hlong : maxPath ≤ path.utf8ByteSize
    · rw [if_pos hlong]
      exact iff_of_false (by simp) fun h => Nat.not_lt.2 hlong h.2
    · rw [if_neg hlong]
      exact iff_of_true rfl ⟨hnull, Nat.lt_of_not_le hlong⟩

/-- A path that is accepted has a directory that is. -/
theorem refusal?_parent {path : String} (h : refusal? path = none) :
    refusal? (FilePath.parent path) = none := by
  obtain ⟨hnull, hsize⟩ := refusal?_eq_none.1 h
  obtain ⟨rest, hrest⟩ := FilePath.parent_prefix path
  have hpath : path = FilePath.parent path ++ String.ofList rest := by
    rw [← String.toList_inj, String.toList_append, String.toList_ofList, hrest]
  refine refusal?_eq_none.2 ⟨fun hmem => hnull ?_, ?_⟩
  · rw [← hrest]
    exact List.mem_append_left _ hmem
  · rw [hpath, String.utf8ByteSize_append] at hsize
    omega

/-! ## What each operation does -/

/-- The place that a path leads to: all but its last name can be followed. -/
def LeadsTo (fs : FileSystem) (path : String) (place : List String) : Prop :=
  ∃ parents name dir, splitLast path = some (parents, name) ∧ name ≠ "." ∧
    name ≠ ".." ∧
    fs.walk (fs.origin (FilePath.isAbsolute path)) parents = .ok dir ∧
      place = dir ++ [name]

/-- A path names a place for a file: it leads there, and its form is one that a
file can have. -/
structure Names (fs : FileSystem) (path : String) (place : List String) :
    Prop where
  leads : fs.LeadsTo path place
  accepted : refusal? path = none
  slash : FilePath.endsWithSlash path = false
  fits : ∀ name ∈ place.getLast?, name.utf8ByteSize ≤ maxName

variable {P : List String → Prop} {fs fs' : FileSystem}

theorem LeadsTo.ne_nil {path : String} {place : List String}
    (h : fs.LeadsTo path place) :
    place ≠ [] := by
  obtain ⟨_, _, _, -, -, -, -, rfl⟩ := h
  exact List.append_ne_nil_of_right_ne_nil _ (List.cons_ne_nil _ _)

theorem Extends.leadsTo (h : Extends P fs fs') {path : String}
    {place : List String} (hleads : fs.LeadsTo path place) :
    fs'.LeadsTo path place := by
  obtain ⟨parents, name, dir, hsplit, hdot, hdots, hwalk, hplace⟩ := hleads
  refine ⟨parents, name, dir, hsplit, hdot, hdots, ?_, hplace⟩
  have horigin : fs'.origin (FilePath.isAbsolute path) =
      fs.origin (FilePath.isAbsolute path) := by
    simp only [origin, h.workingDirectory]
  rw [horigin]
  exact h.walk hwalk

theorem extends_put_directory {place : List String} (hplace : place ≠ [])
    (hnone : fs.get? place = none) :
    Extends P fs (fs.put place .directory) where
  workingDirectory := rfl
  entry := by
    intro other
    rw [get?_put hplace]
    by_cases h : other = place
    · rw [if_pos h, h]
      exact .inr (.inl ⟨hnone, rfl⟩)
    · rw [if_neg h]
      exact .inl rfl

theorem extends_put_file {place : List String} {contents : ByteArray}
    (hplace : place ≠ []) (hP : P place)
    (hdir : fs.get? place ≠ some .directory) :
    Extends P fs (fs.put place (.file contents)) where
  workingDirectory := rfl
  entry := by
    intro other
    rw [get?_put hplace]
    by_cases h : other = place
    · rw [if_pos h, h]
      exact .inr (.inr ⟨hP, hdir, contents, rfl⟩)
    · rw [if_neg h]
      exact .inl rfl

theorem extends_makeDirectory {absolute : Bool} {parents : List String}
    {name : String} (h : fs.makeDirectory absolute parents name = .ok fs') :
    Extends P fs fs' := by
  obtain ⟨place, -, h⟩ := of_bind_ok h
  obtain ⟨-, h⟩ := of_guard_ok h
  obtain ⟨-, h⟩ := of_guard_ok h
  cases hentry : fs.get? (place ++ [name]) with
  | some entry =>
      rw [hentry] at h
      cases h
  | none =>
      rw [hentry] at h
      cases h
      exact extends_put_directory (by simp) hentry

theorem extends_makeDirectories (absolute : Bool) (names : List String)
    (fs : FileSystem) :
    Extends P fs (fs.makeDirectories absolute names).1 := by
  induction names generalizing fs with
  | nil => exact .refl P fs
  | cons name parents ih =>
      -- The directory itself may be tried twice: before those around it and
      -- after them.
      unfold makeDirectories
      split
      · have hparents := ih fs
        split
        · next fs₁ heq =>
            rw [heq] at hparents
            dsimp only
            split
            · next fs₂ hmake =>
                exact hparents.trans (extends_makeDirectory hmake)
            · exact hparents
        · next fs₁ e heq =>
            rw [heq] at hparents
            exact hparents
      · dsimp only
        split
        · next fs₂ hmake => exact extends_makeDirectory hmake
        · exact .refl P fs

theorem extends_makeParents (fs : FileSystem) (path : String) :
    Extends P fs (fs.makeParents path).1 := by
  unfold makeParents
  split
  · exact .refl P fs
  · exact extends_makeDirectories _ _ fs

/-- A file is put at the place that its path names, where no directory may
be. -/
theorem write_cases {path : String} {contents : ByteArray}
    (h : fs.write path contents = .ok fs') :
    ∃ place, fs.Names path place ∧ fs.get? place ≠ some .directory ∧
      fs' = fs.put place (.file contents) := by
  unfold write at h
  cases hrefusal : refusal? path with
  | some e =>
      rw [hrefusal] at h
      cases h
  | none =>
      cases hsplit : splitLast path with
      | none =>
          rw [hrefusal, hsplit] at h
          cases h
      | some last =>
          obtain ⟨parents, name⟩ := last
          simp only [hrefusal, hsplit] at h
          obtain ⟨dir, hwalk, h⟩ := of_bind_ok h
          obtain ⟨hname, h⟩ := of_guard_ok h
          obtain ⟨hshort, h⟩ := of_guard_ok h
          simp only [Bool.or_eq_true, decide_eq_true_eq, not_or,
            Bool.not_eq_true] at hname
          have hleads : fs.LeadsTo path (dir ++ [name]) :=
            ⟨parents, name, dir, hsplit, hname.1.2, hname.2, hwalk, rfl⟩
          have hfits : ∀ last ∈ (dir ++ [name]).getLast?,
              last.utf8ByteSize ≤ maxName := by
            simpa using hshort
          split at h
          · cases h
          · next hdir =>
              cases h
              exact ⟨_, ⟨hleads, hrefusal, hname.1.1, hfits⟩, hdir, rfl⟩

theorem extends_write {path : String} {contents : ByteArray}
    (h : fs.write path contents = .ok fs') :
    Extends (fs.LeadsTo path) fs fs' := by
  obtain ⟨place, hnames, hdir, rfl⟩ := write_cases h
  exact extends_put_file hnames.leads.ne_nil hnames.leads hdir

end FileSystem

namespace FileTree

open FileSystem

theorem extends_writeFile (fs : FileSystem) (path contents : String) :
    Extends ((writeFile fs path contents).1.LeadsTo path) fs
      (writeFile fs path contents).1 := by
  have hparents (P : List String → Prop) :
      Extends P fs (fs.makeParents path).1 :=
    extends_makeParents fs path
  unfold writeFile
  split
  · next fs₁ e heq =>
      rw [heq] at hparents
      exact hparents _
  · next fs₁ heq =>
      rw [heq] at hparents
      split
      · next fs₂ hwrite =>
          have hfile := extends_write hwrite
          exact (hparents _).trans (hfile.mono fun place hleads =>
            hfile.leadsTo hleads)
      · exact hparents _

theorem writeFiles_cons_error {root : String} {file : TreeFile}
    {fs fs₁ : FileSystem} {fault : StorageFault} (files : List TreeFile)
    (h : writeFile fs (FilePath.join root file.path) file.contents =
      (fs₁, .error fault)) :
    writeFiles root (file :: files) fs =
      (fs₁, .error (.storage fault.message)) := by
  rw [writeFiles, h]

theorem writeFiles_cons_ok {root : String} {file : TreeFile}
    {fs fs₁ : FileSystem} (files : List TreeFile)
    (h : writeFile fs (FilePath.join root file.path) file.contents =
      (fs₁, .ok ())) :
    writeFiles root (file :: files) fs = ((writeFiles root files fs₁).1, do
      Traced.tell (.workflowWritten (FilePath.join root file.path))
      return FilePath.join root file.path ::
        (← (writeFiles root files fs₁).2)) := by
  rw [writeFiles, h]

/-- Files are put where the paths of a tree lead and nowhere else, whether all
of them are written or not. -/
theorem extends_writeFiles (root : String) (files : List TreeFile)
    (fs : FileSystem) :
    Extends (fun place => ∃ file ∈ files,
        (writeFiles root files fs).1.LeadsTo (FilePath.join root file.path)
          place)
      fs (writeFiles root files fs).1 := by
  induction files generalizing fs with
  | nil => exact .refl _ fs
  | cons file files ih =>
      have hfirst :=
        extends_writeFile fs (FilePath.join root file.path) file.contents
      rcases hwrite : writeFile fs (FilePath.join root file.path) file.contents
        with ⟨fs₁, fault | ⟨⟨⟩⟩⟩
      · rw [writeFiles_cons_error files hwrite]
        rw [hwrite] at hfirst
        exact hfirst.mono fun place hleads => ⟨file, List.mem_cons_self, hleads⟩
      · rw [writeFiles_cons_ok files hwrite]
        rw [hwrite] at hfirst
        have hrest := ih fs₁
        refine .trans (hfirst.mono ?_) (hrest.mono ?_)
        · exact fun place hleads =>
            ⟨file, List.mem_cons_self, hrest.leadsTo hleads⟩
        · rintro place ⟨file', hmem, hleads⟩
          exact ⟨file', List.mem_cons_of_mem _ hmem, hleads⟩

end FileTree

/-! ## Generating -/

namespace Registry

variable {r : Registry} {stem : String}

theorem generate_of_error {e : Error} (h : (r.files stem).result = .error e)
    (output : String) (fs : FileSystem) :
    r.generate stem output fs = (fs, ⟨.error e, (r.files stem).events⟩) := by
  simp only [generate, h]

theorem generate_of_ok {tree : FileTree} (h : (r.files stem).result = .ok tree)
    (output : String) (fs : FileSystem) :
    r.generate stem output fs = ((tree.write output fs).1, do
      Traced.tellAll (r.files stem).events
      let paths ← (tree.write output fs).2
      Traced.tell (.workflowsWritten paths.length)
      return paths) := by
  simp only [generate, h]

/-- Nothing changes but what the files of a registry need. -/
theorem extends_generate (r : Registry) (stem output : String)
    (fs : FileSystem) :
    FileSystem.Extends
      (fun place =>
        ∃ tree, (r.files stem).result = .ok tree ∧ ∃ file ∈ tree.files,
        (r.generate stem output fs).1.LeadsTo (FilePath.join output file.path)
          place)
      fs (r.generate stem output fs).1 := by
  cases hfiles : (r.files stem).result with
  | error e =>
      rw [generate_of_error hfiles]
      exact .refl _ fs
  | ok tree =>
      rw [generate_of_ok hfiles]
      have hwrite := FileTree.extends_writeFiles output tree.files fs
      exact hwrite.mono fun place hplace => ⟨tree, rfl, hplace⟩

end Registry

end DaggerWorkflows
