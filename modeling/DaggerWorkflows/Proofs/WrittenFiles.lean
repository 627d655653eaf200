import DaggerWorkflows.Proofs.TreeWriting
import DaggerWorkflows.Proofs.WorkflowPlace

/-!
# What writing a tree leaves behind

Files are written one after the other, each after the directories that it needs,
until one of them cannot be written. `Written` says what is there then of the
files that have been: each of their paths names a place, and a place holds the
contents of the last file whose path names it. Nothing else has changed but that
there may be more directories.

A path names a place for a file (`FileSystem.Names`) if it can be followed up to
its last name and could be opened, so two paths may name one place. That they
name it still when more has been written lets all of them be looked at in the
file system at the end, as in `Extends`. The induction is on the files, and one
lemma is for the step of it, `Written.cons`, whether the writing comes to its
end or not.

The paths of a registry differ in their last names. So none of its files
replaces another one, and writing them once more finds all as it should be.
-/

namespace DaggerWorkflows

namespace FileSystem

open FilePath (components endsWithSlash isAbsolute)

variable {fs fs' : FileSystem} {path : String} {place : List String}

/-! ## The place that a path names -/

theorem LeadsTo.unique {place' : List String} (h : fs.LeadsTo path place)
    (h' : fs.LeadsTo path place') : place = place' := by
  obtain ⟨parents, name, dir, hsplit, -, -, hwalk, rfl⟩ := h
  obtain ⟨parents', name', dir', hsplit', -, -, hwalk', rfl⟩ := h'
  rw [hsplit] at hsplit'
  cases hsplit'
  rw [hwalk] at hwalk'
  cases hwalk'
  rfl

theorem Extends.names {P : List String → Prop} (h : Extends P fs fs')
    (hnames : fs.Names path place) :
    fs'.Names path place :=
  { hnames with leads := h.leadsTo hnames.leads }

/-- The names that the directory of a path is made by. -/
def parentNames (path : String) : List String :=
  ((if (components path).leadingDot then ["."] else []) ++
    (components path).names).dropLast

theorem makeParents_eq (fs : FileSystem) (path : String) :
    fs.makeParents path =
      match refusal? (FilePath.parent path) with
      | some e => (fs, .error e)
      | none =>
        fs.makeDirectories (isAbsolute path) (parentNames path).reverse := rfl

/-- The directory that is made for a path is the one that the path is followed
to. -/
theorem walk_parentNames {parents : List String} {name : String}
    (hsplit : splitLast path = some (parents, name)) (hdot : name ≠ ".")
    (start : List String) :
    fs.walk start (parentNames path) = fs.walk start parents := by
  have hnames : (components path).names = parents.filter (· != ".") ++
      [name] := by
    show (FilePath.parts path).filter (· != ".") = _
    rw [parts_of_splitLast hsplit, List.filter_append,
      List.filter_cons_of_pos (by simpa using hdot), List.filter_nil]
  rw [parentNames, hnames, ← List.append_assoc, List.dropLast_concat]
  split
  · rw [List.singleton_append, walk, if_pos rfl, walk_filter_dots]
  · rw [List.nil_append, walk_filter_dots]

/-! ## Directories that are there already -/

theorem makeDirectory_of_isDirectory {absolute : Bool} {parents : List String}
    {name : String} (h : fs.isDirectory absolute (parents ++ [name]) = true) :
    fs.makeDirectory absolute parents name = .error .occupied := by
  unfold isDirectory at h
  cases hwalk : fs.walk (fs.origin absolute) (parents ++ [name]) with
  | error e =>
      rw [hwalk] at h
      cases h
  | ok dir =>
      obtain ⟨between, hparents, hlast⟩ := walk_append.1 hwalk
      rw [walk_cons_ok_iff] at hlast
      rw [makeDirectory, hparents]
      rcases hlast with ⟨hdot, -⟩ | ⟨hdots, -⟩ | ⟨⟨hdot, hdots, hshort, hentry⟩,
        -⟩
      · simp [bind, Except.bind, throw, throwThe, MonadExceptOf.throw, hdot]
      · simp [bind, Except.bind, throw, throwThe, MonadExceptOf.throw, hdots]
      · simp [bind, Except.bind, throw, throwThe, MonadExceptOf.throw,
          hdot, hdots, Nat.not_lt_of_le hshort, hentry]

theorem makeDirectories_of_isDirectory {absolute : Bool} {names : List String}
    (h : fs.isDirectory absolute names.reverse = true) :
    fs.makeDirectories absolute names = (fs, .ok ()) := by
  cases names with
  | nil => rfl
  | cons name parents =>
      have hmake : fs.makeDirectory absolute parents.reverse name =
          .error .occupied := by
        rw [List.reverse_cons] at h
        exact makeDirectory_of_isDirectory h
      unfold makeDirectories
      dsimp only
      rw [hmake]
      dsimp only
      rw [if_pos h]

/-- A directory that cannot be made is not there, or one around it could not be
made. -/
theorem makeDirectories_cons_error {absolute : Bool} {name : String}
    {parents : List String} {fault : StorageFault}
    (h : fs.makeDirectories absolute (name :: parents) = (fs', .error fault)) :
    fs'.isDirectory absolute (name :: parents).reverse = false ∨
      ∃ fault', fs.makeDirectories absolute parents = (fs', .error fault') := by
  -- An attempt that fails is excused if the directory is there, so here it is
  -- not.
  have hattempt {fs₁ : FileSystem} {e : StorageFault}
      (hmade :
        (fs₁, if fs₁.isDirectory absolute (name :: parents).reverse = true then
        Except.ok () else Except.error e) = (fs', Except.error fault)) :
      fs'.isDirectory absolute (name :: parents).reverse = false := by
    by_cases hdir : fs₁.isDirectory absolute (name :: parents).reverse = true
    · rw [if_pos hdir] at hmade
      cases hmade
    · obtain ⟨rfl, -⟩ := Prod.mk.inj hmade
      exact Bool.not_eq_true _ ▸ hdir
  unfold makeDirectories at h
  split at h
  · split at h
    · dsimp only at h
      split at h
      · cases h
      · exact .inl (hattempt h)
    · next fs₁ fault' hparents =>
        cases h
        exact .inr ⟨_, hparents⟩
  · dsimp only at h
    split at h
    · cases h
    · exact .inl (hattempt h)

/-- A directory that could not be made is not there. -/
theorem isDirectory_of_makeDirectories_error {absolute : Bool}
    {names : List String} {fault : StorageFault}
    (h : fs.makeDirectories absolute names = (fs', .error fault)) :
    fs'.isDirectory absolute names.reverse = false := by
  induction names generalizing fault with
  | nil => cases h
  | cons name parents ih =>
      rcases makeDirectories_cons_error h with hnot | ⟨fault', hparents⟩
      · exact hnot
      · have hparent := ih hparents
        unfold isDirectory at hparent ⊢
        cases hwalk : fs'.walk (fs'.origin absolute) (name :: parents).reverse
          with
        | error e => rfl
        | ok dir =>
            rw [List.reverse_cons] at hwalk
            obtain ⟨between, hbetween, -⟩ := walk_append.1 hwalk
            rw [hbetween] at hparent
            cases hparent

/-- The directory of a path that leads somewhere need not be made. -/
theorem makeParents_of_names (h : fs.Names path place) :
    fs.makeParents path = (fs, .ok ()) := by
  obtain ⟨parents, name, dir, hsplit, hdot, -, hwalk, -⟩ := h.leads
  rw [makeParents_eq, refusal?_parent h.accepted]
  refine makeDirectories_of_isDirectory ?_
  rw [List.reverse_reverse, isDirectory, walk_parentNames hsplit hdot, hwalk]
  rfl

/-- A path whose directory could not be made leads nowhere. -/
theorem not_names_of_makeParents_error {fault : StorageFault}
    (h : fs.makeParents path = (fs', .error fault)) :
    ¬ fs'.Names path place := by
  intro hnames
  obtain ⟨parents, name, dir, hsplit, hdot, -, hwalk, -⟩ := hnames.leads
  rw [makeParents_eq, refusal?_parent hnames.accepted] at h
  have hnot := isDirectory_of_makeDirectories_error h
  rw [List.reverse_reverse, isDirectory, walk_parentNames hsplit hdot, hwalk]
    at hnot
  cases hnot

/-! ## Writing a file -/

theorem write_of_names (h : fs.Names path place)
    (hentry : fs.get? place ≠ some .directory) (contents : ByteArray) :
    fs.write path contents = .ok (fs.put place (.file contents)) := by
  obtain ⟨parents, name, dir, hsplit, hdot, hdots, hwalk, rfl⟩ := h.leads
  have hshort : ¬ maxName < name.utf8ByteSize :=
    Nat.not_lt_of_le (h.fits name (by simp))
  have hname : ¬ (endsWithSlash path || name = "." || name = "..") = true := by
    simp [h.slash, hdot, hdots]
  unfold write
  simp only [h.accepted, hsplit, hwalk, bind, Except.bind, if_neg hname,
    if_neg hshort]
  rfl

/-- What stands at the place that a path names is read by that path. -/
theorem read_of_names (h : fs.Names path place) {contents : ByteArray}
    (hentry : fs.get? place = some (.file contents)) :
    fs.read path = .ok contents := by
  obtain ⟨parents, name, dir, hsplit, hdot, hdots, hwalk, rfl⟩ := h.leads
  have hshort : ¬ maxName < name.utf8ByteSize :=
    Nat.not_lt_of_le (h.fits name (by simp))
  have hname : ¬ (name = "." || name = "..") = true := by simp [hdot, hdots]
  unfold read
  simp only [h.accepted, hsplit, hwalk, bind, Except.bind, if_neg hname,
    if_neg hshort]
  rw [hentry]
  simp only [h.slash]
  rfl

theorem putInto_self {entry : StorageEntry}
    {entries : List (List String × StorageEntry)}
    (h : (entries.find? (·.1 == place)).map (·.2) = some entry) :
    putInto place entry entries = entries := by
  induction entries with
  | nil => cases h
  | cons e entries ih =>
      by_cases he : e.1 = place
      · rw [List.find?_cons_of_pos (by simpa using he)] at h
        cases h
        rw [putInto, if_pos he, ← he]
      · rw [List.find?_cons_of_neg (by simpa using he)] at h
        rw [putInto, if_neg he, ih h]

theorem put_self {entry : StorageEntry} (hplace : place ≠ [])
    (h : fs.get? place = some entry) : fs.put place entry = fs := by
  rw [get?, if_neg (by simpa using hplace)] at h
  rw [put, putInto_self h]

end FileSystem

namespace FileTree

open FileSystem

variable {fs fs₁ fs' : FileSystem} {path contents root : String}
  {place : List String}

/-! ## One file -/

theorem writeFile_ok (h : writeFile fs path contents = (fs', .ok ())) :
    ∃ place, fs'.Names path place ∧
    fs'.get? place = some (.file contents.toUTF8) ∧
      Extends (· = place) fs fs' := by
  unfold writeFile at h
  split at h
  · cases h
  · next fs₁ hparents =>
      split at h
      · next fs₂ hwrite =>
          cases h
          obtain ⟨place, hnames, hentry, rfl⟩ := write_cases hwrite
          have hmade : Extends (· = place) fs fs₁ := by
            have hextends : Extends (· = place) fs (fs.makeParents path).1 :=
              extends_makeParents fs path
            rwa [hparents] at hextends
          have hput :
              Extends (· = place) fs₁ (fs₁.put place (.file contents.toUTF8)) :=
            extends_put_file hnames.leads.ne_nil rfl hentry
          refine ⟨place, hput.names hnames, ?_, hmade.trans hput⟩
          rw [get?_put hnames.leads.ne_nil, if_pos rfl]
      · cases h

/-- A file that cannot be written leaves directories at most, and its path names
no file. -/
theorem writeFile_error {fault : StorageFault}
    (h : writeFile fs path contents = (fs', .error fault)) :
    Extends (fun _ => False) fs fs' ∧
      ∀ place, fs'.Names path place → fs'.get? place = some .directory := by
  have hmade : Extends (fun _ => False) fs (fs.makeParents path).1 :=
    extends_makeParents fs path
  unfold writeFile at h
  split at h
  · next fs₁ e hparents =>
      cases h
      rw [hparents] at hmade
      exact ⟨hmade, fun place hnames =>
        absurd hnames (not_names_of_makeParents_error hparents)⟩
  · next fs₁ hparents =>
      split at h
      · cases h
      · next e hwrite =>
          cases h
          rw [hparents] at hmade
          refine ⟨hmade, fun place hnames => ?_⟩
          by_contra hentry
          rw [write_of_names hnames hentry] at hwrite
          cases hwrite

theorem writeFile_again (hnames : fs.Names path place)
    (hentry : fs.get? place = some (.file contents.toUTF8)) :
    writeFile fs path contents = (fs, .ok ()) := by
  have hfile : fs.get? place ≠ some .directory := by
    rw [hentry]
    exact nofun
  rw [writeFile, makeParents_of_names hnames]
  simp only [write_of_names hnames hfile, put_self hnames.leads.ne_nil hentry]

/-! ## Many files -/

/-- What files that have been written below a directory have done to a file
system. -/
structure Written (root : String) (files : List TreeFile)
    (fs fs' : FileSystem) : Prop where
  /-- There are more directories, and files where the paths lead; all else is as
  it was. -/
  change :
    Extends (fun place =>
      ∃ file ∈ files, fs'.Names (FilePath.join root file.path) place) fs fs'
  names : ∀ file ∈ files,
    ∃ place, fs'.Names (FilePath.join root file.path) place
  /-- A place holds what the last file has that is written there. -/
  last : ∀ front file back place, files = front ++ file :: back →
    fs'.Names (FilePath.join root file.path) place →
    (∀ other ∈ back, ¬ fs'.Names (FilePath.join root other.path) place) →
    fs'.get? place = some (.file file.contents.toUTF8)

theorem Written.nil (h : Extends (fun _ => False) fs fs') :
    Written root [] fs fs' where
  change := h.mono fun _ => False.elim
  names := nofun
  last := by
    intro front file back place hfiles
    simp at hfiles

/-- A file and those after it. -/
theorem Written.cons {file : TreeFile} {files : List TreeFile}
    (h : writeFile fs (FilePath.join root file.path) file.contents =
      (fs₁, .ok ())) (hrest : Written root files fs₁ fs') :
    Written root (file :: files) fs fs' := by
  obtain ⟨place, hnames, hentry, hfirst⟩ := writeFile_ok h
  have hnames' : fs'.Names (FilePath.join root file.path) place :=
    hrest.change.names hnames
  constructor
  · refine (hfirst.mono ?_).trans (hrest.change.mono ?_)
    · rintro _ rfl
      exact ⟨file, List.mem_cons_self, hnames'⟩
    · rintro other ⟨file', hmem, hother⟩
      exact ⟨file', List.mem_cons_of_mem _ hmem, hother⟩
  · intro file' hmem
    rcases List.mem_cons.1 hmem with rfl | hmem
    · exact ⟨place, hnames'⟩
    · exact hrest.names file' hmem
  · intro front file' back place' hfiles hplace hback
    cases front with
    | cons first front =>
        obtain ⟨-, hfiles⟩ := List.cons_eq_cons.1 hfiles
        exact hrest.last front file' back place' hfiles hplace hback
    | nil =>
        obtain ⟨rfl, rfl⟩ := List.cons_eq_cons.1 hfiles
        obtain rfl := hplace.leads.unique hnames'.leads
        -- No file after the first one is written to its place, so it keeps what
        -- it has.
        rcases hrest.change.entry place'
          with hsame | ⟨hnone, -⟩ | ⟨⟨other, hmem, hother⟩, -⟩
        · rw [hsame, hentry]
        · rw [hentry] at hnone
          cases hnone
        · exact absurd hother (hback other hmem)

/-- More directories do not matter. -/
theorem Written.extend {files : List TreeFile} (h : Written root files fs fs₁)
    (hmore : Extends (fun _ => False) fs₁ fs') : Written root files fs fs' := by
  have hplace (file : TreeFile) (hmem : file ∈ files) (place : List String)
      (hnames : fs'.Names (FilePath.join root file.path) place) :
      fs₁.Names (FilePath.join root file.path) place := by
    obtain ⟨place', hnames'⟩ := h.names file hmem
    rwa [hnames.leads.unique (hmore.names hnames').leads]
  constructor
  · refine (h.change.mono ?_).trans (hmore.mono fun _ => False.elim)
    rintro place ⟨file, hmem, hnames⟩
    exact ⟨file, hmem, hmore.names hnames⟩
  · intro file hmem
    obtain ⟨place, hnames⟩ := h.names file hmem
    exact ⟨place, hmore.names hnames⟩
  · intro front file back place hfiles hnames hback
    have hmem : file ∈ files := by simp [hfiles]
    have hentry :=
      h.last front file back place hfiles (hplace file hmem place hnames)
      fun other hother hnames' => hback other hother (hmore.names hnames')
    rcases hmore.entry place with hsame | ⟨hnone, -⟩ | ⟨hfalse, -⟩
    · rw [hsame, hentry]
    · rw [hentry] at hnone
      cases hnone
    · exact hfalse.elim

theorem writeFiles_ok {files : List TreeFile} {paths : List String}
    (h : (writeFiles root files fs).2.result = .ok paths) :
    paths = files.map (fun file => FilePath.join root file.path) ∧
      Written root files fs (writeFiles root files fs).1 := by
  induction files generalizing fs paths with
  | nil =>
      cases h
      exact ⟨rfl, .nil (.refl _ fs)⟩
  | cons file files ih =>
      rcases hwrite : writeFile fs (FilePath.join root file.path) file.contents
        with ⟨fs₁, fault | ⟨⟨⟩⟩⟩
      · rw [writeFiles_cons_error files hwrite] at h
        cases h
      · rw [writeFiles_cons_ok files hwrite] at h ⊢
        obtain ⟨-, -, h⟩ := Traced.exists_of_bind_ok h
        obtain ⟨rest, hrest, h⟩ := Traced.exists_of_bind_ok h
        obtain ⟨rfl, hwritten⟩ := ih hrest
        cases h
        exact ⟨rfl, .cons hwrite hwritten⟩

/-- Files are written up to the first that cannot be. -/
theorem exists_of_writeFiles_error {files : List TreeFile} {e : Error}
    (h : (writeFiles root files fs).2.result = .error e) :
    ∃ front file back paths fault, files = front ++ file :: back ∧
      (writeFiles root front fs).2.result = .ok paths ∧
      writeFile (writeFiles root front fs).1 (FilePath.join root file.path)
        file.contents = ((writeFiles root files fs).1, .error fault) ∧
      e = .storage fault.message := by
  induction files generalizing fs with
  | nil => cases h
  | cons file files ih =>
      rcases hwrite : writeFile fs (FilePath.join root file.path) file.contents
        with ⟨fs₁, fault | ⟨⟨⟩⟩⟩
      · rw [writeFiles_cons_error files hwrite] at h ⊢
        cases h
        exact ⟨[], file, files, [], fault, rfl, rfl, hwrite, rfl⟩
      · rw [writeFiles_cons_ok files hwrite] at h ⊢
        have hrest : (writeFiles root files fs₁).2.result = .error e := by
          rcases Traced.error_of_bind h with htell | ⟨-, -, h⟩
          · cases htell
          · rcases Traced.error_of_bind h with hrest | ⟨paths, -, hpure⟩
            · exact hrest
            · cases hpure
        obtain ⟨front, file', back, paths, fault, rfl, hfront, hfail, rfl⟩ :=
          ih hrest
        refine ⟨file :: front, file', back,
          FilePath.join root file.path :: paths, fault, rfl, ?_⟩
        rw [writeFiles_cons_ok front hwrite]
        refine ⟨?_, hfail, rfl⟩
        rw [Traced.result_bind_ok rfl, Traced.result_bind_ok hfront]
        rfl

/-- What is written already can be written once more. -/
theorem writeFiles_again {files : List TreeFile} {fs₀ : FileSystem}
    (hfirst : (writeFiles root files fs₀).2.result.isOk = true)
    (h :
      ∀ file ∈ files, ∃ place, fs.Names (FilePath.join root file.path) place ∧
      fs.get? place = some (.file file.contents.toUTF8)) :
    writeFiles root files fs = (fs, (writeFiles root files fs₀).2) := by
  induction files generalizing fs₀ with
  | nil => rfl
  | cons file files ih =>
      obtain ⟨place, hnames, hentry⟩ := h file List.mem_cons_self
      rcases hwrite : writeFile fs₀ (FilePath.join root file.path) file.contents
        with ⟨fs₁, fault | ⟨⟨⟩⟩⟩
      · rw [writeFiles_cons_error files hwrite] at hfirst
        cases hfirst
      · rw [writeFiles_cons_ok files hwrite] at hfirst ⊢
        rw [writeFiles_cons_ok files (writeFile_again hnames hentry)]
        have hrest : (writeFiles root files fs₁).2.result.isOk = true := by
          cases hresult : (writeFiles root files fs₁).2.result with
          | ok paths => rfl
          | error e =>
              rw [Traced.result_bind_ok rfl, Traced.result_bind_error hresult]
                at hfirst
              cases hfirst
        rw [ih hrest fun file' hmem => h file' (List.mem_cons_of_mem _ hmem)]

/-- What is left when a file cannot be written and those before it have been. -/
structure Failed (root : String) (front : List TreeFile) (file : TreeFile)
    (e : Error) (fs fs' : FileSystem) : Prop where
  written : Written root front fs fs'
  /-- Since those were written no place has changed, its own and those of the
  files after it included, but there may be more directories. -/
  unchanged : Extends (fun _ => False) (writeFiles root front fs).1 fs'
  fault : ∃ paths fault, (writeFiles root front fs).2.result = .ok paths ∧
    writeFile (writeFiles root front fs).1 (FilePath.join root file.path)
      file.contents = (fs', .error fault) ∧ e = .storage fault.message
  /-- No file stands where it was to be written. -/
  missing : ∀ place, fs'.Names (FilePath.join root file.path) place →
    fs'.get? place = some .directory

theorem failed_of_writeFiles_error {files : List TreeFile} {e : Error}
    (h : (writeFiles root files fs).2.result = .error e) :
    ∃ front file back, files = front ++ file :: back ∧
      Failed root front file e fs (writeFiles root files fs).1 := by
  obtain ⟨front, file, back, paths, fault, hfiles, hfront, hfail, he⟩ :=
    exists_of_writeFiles_error h
  obtain ⟨-, hwritten⟩ := writeFiles_ok hfront
  obtain ⟨hunchanged, hmissing⟩ := writeFile_error hfail
  exact ⟨front, file, back, hfiles, hwritten.extend hunchanged, hunchanged,
    ⟨paths, fault, hfront, hfail, he⟩, hmissing⟩

/-! ## The files of a registry -/

/-- A path that ends in a tail leads to a place whose name does. -/
theorem LeadsTo.getLast? {start tail : String} (htail : FilePath.IsTail tail)
    (h : fs.LeadsTo (start ++ tail) place) :
    place.getLast? = some (FilePath.openName start ++ tail) := by
  obtain ⟨parents, name, dir, hsplit, hdot, -, -, rfl⟩ := h
  have hnames : (FilePath.parts (start ++ tail)).filter (· != ".") =
      FilePath.closedNames start ++ [FilePath.openName start ++ tail] :=
    FilePath.names_append start htail
  rw [parts_of_splitLast hsplit, List.filter_append,
    List.filter_cons_of_pos (by simpa using hdot), List.filter_nil] at hnames
  obtain ⟨-, hname⟩ := List.append_inj' hnames rfl
  rw [List.getLast?_concat, List.singleton_inj.1 hname]

/-- Workflows of different kinds or numbers have different places, below any
directory. -/
theorem label_eq_of_leadsTo {kind kind' : TriggerKind} {stem : String}
    {index index' : Nat} {format : OutputFormat}
    (h : fs.LeadsTo (FilePath.join root (workflowPath kind stem index format))
      place)
    (h' :
      fs.LeadsTo (FilePath.join root (workflowPath kind' stem index' format))
        place) :
    kind = kind' ∧ index = index' := by
  have htail := kind.numberedName_isTail index format
  have htail' := kind'.numberedName_isTail index' format
  obtain ⟨inner, hinner⟩ := FilePath.join_append workflowsDirectory stem
  obtain ⟨start, hstart⟩ := FilePath.join_append root inner
  rw [workflowPath, TriggerKind.filename_eq, hinner _ htail, hstart _ htail]
    at h
  rw [workflowPath, TriggerKind.filename_eq, hinner _ htail', hstart _ htail']
    at h'
  have hlast := LeadsTo.getLast? htail h
  rw [LeadsTo.getLast? htail' h', Option.some.injEq] at hlast
  have htails := congrArg String.toList hlast
  rw [String.toList_append, String.toList_append, List.append_right_inj]
    at htails
  exact TriggerKind.numberedName_inj (String.toList_inj.1 htails.symm)

/-- No two files have one place, whatever file system they are written to. -/
def PlacedApart (root : String) (files : List TreeFile) : Prop :=
  files.Pairwise fun a b => ∀ (fs : FileSystem) (place : List String),
    fs.Names (FilePath.join root a.path) place →
      ¬ fs.Names (FilePath.join root b.path) place

theorem placedApart_of_files {r : Registry} {stem : String} {tree : FileTree}
    (h : (r.files stem).result = .ok tree) (root : String) :
    PlacedApart root tree.files := by
  refine tree.distinct.imp_of_mem ?_
  intro a b ha hb hne fs place hnames hnames'
  obtain ⟨t, -, hfile⟩ := Registry.exists_trigger_of_mem_files h ha
  obtain ⟨t', -, hfile'⟩ := Registry.exists_trigger_of_mem_files h hb
  have hpath : a.path = workflowPath t.trigger.kind stem t.index r.format :=
    hfile.path
  have hpath' : b.path = workflowPath t'.trigger.kind stem t'.index r.format :=
    hfile'.path
  rw [hpath] at hnames hne
  rw [hpath'] at hnames' hne
  obtain ⟨hkind, hindex⟩ := label_eq_of_leadsTo hnames.leads hnames'.leads
  rw [hkind, hindex] at hne
  exact hne rfl

/-- Files with places of their own are all there when they have been written. -/
theorem Written.each {files : List TreeFile} (h : Written root files fs fs')
    (hdistinct : PlacedApart root files) :
    ∀ file ∈ files, ∃ place, fs'.Names (FilePath.join root file.path) place ∧
      fs'.get? place = some (.file file.contents.toUTF8) := by
  intro file hmem
  obtain ⟨place, hnames⟩ := h.names file hmem
  obtain ⟨front, back, rfl⟩ := List.append_of_mem hmem
  rw [PlacedApart, List.pairwise_append, List.pairwise_cons] at hdistinct
  exact ⟨place, hnames, h.last front file back place rfl hnames
    fun other hother => hdistinct.2.1.1 other hother fs' place hnames⟩

/-- What a tree leaves when it is written. If all goes well, every path names a
place, a place holds the contents of the last file that is for it, and all else
is as it was. If not, that is how it is with the files before the one that
fails; from there on nothing has changed, but there may be more directories. The
files of a registry have places of their own, so each of them is there, and to
write them again changes nothing. -/
theorem write_outcome (tree : FileTree) (root : String) (fs : FileSystem) :
    (match (tree.write root fs).2.result with
      | .ok paths =>
        paths = tree.files.map (fun file => FilePath.join root file.path) ∧
          Written root tree.files fs (tree.write root fs).1
      | .error e => ∃ front file back, tree.files = front ++ file :: back ∧
          Failed root front file e fs (tree.write root fs).1) ∧
    ∀ (r : Registry) (stem : String), (r.files stem).result = .ok tree →
      PlacedApart root tree.files ∧ ∀ paths,
        (tree.write root fs).2.result = .ok paths →
        (∀ file ∈ tree.files, ∃ place,
          (tree.write root fs).1.Names (FilePath.join root file.path) place ∧
          (tree.write root fs).1.get? place =
          some (.file file.contents.toUTF8)) ∧
        tree.write root (tree.write root fs).1 = tree.write root fs := by
  refine ⟨?_, fun r stem hfiles => ⟨placedApart_of_files hfiles root, ?_⟩⟩
  · cases hresult : (tree.write root fs).2.result with
    | ok paths => exact writeFiles_ok hresult
    | error e => exact failed_of_writeFiles_error hresult
  · intro paths hpaths
    have heach :=
      (writeFiles_ok hpaths).2.each (placedApart_of_files hfiles root)
    refine ⟨heach, ?_⟩
    have hfirst : (writeFiles root tree.files fs).2.result.isOk = true := by
      rw [show (writeFiles root tree.files fs).2.result = .ok paths from hpaths]
      rfl
    exact writeFiles_again hfirst heach

end FileTree

end DaggerWorkflows
