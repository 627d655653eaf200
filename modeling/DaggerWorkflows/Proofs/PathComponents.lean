import DaggerWorkflows.FilePath

/-!
# What the end of a path decides

Which file a path names depends on its components alone. Generated paths all
begin alike and differ only in a tail without slashes, so what has to be known
is how such a tail enters the components: it goes into the last of them, after
whatever the beginning leaves open there, and nothing before is touched.

`names_append` says this for any beginning, `components_append_inj` reads off
that two tails with the same components are one tail, and `join_append` puts
the paths that `join` makes into the form that these are about. What `join`
does to the parts of a path is said by `parts_join`.
-/

namespace DaggerWorkflows

namespace Text

theorem split_of_not_mem {separator : Char} {cs : List Char}
    (h : separator ∉ cs) :
    split separator cs = [cs] := by
  induction cs with
  | nil => rfl
  | cons c cs ih =>
      rw [List.mem_cons, not_or] at h
      rw [split, if_neg (Ne.symm h.1), ih h.2]

/-- The parts before the last separator are closed: what follows a list goes
into its last part, as long as it has no separators of its own. -/
theorem split_append (separator : Char) (cs : List Char) :
    ∃ closed last, ∀ tail, separator ∉ tail →
      split separator (cs ++ tail) = closed ++ [last ++ tail] := by
  induction cs with
  | nil => exact ⟨[], [], fun tail h => split_of_not_mem h⟩
  | cons c cs ih =>
      obtain ⟨closed, last, ih⟩ := ih
      by_cases hc : c = separator
      · refine ⟨[] :: closed, last, fun tail h => ?_⟩
        rw [List.cons_append, split, if_pos hc, ih tail h, List.cons_append]
      · cases closed with
        | nil =>
            refine ⟨[], c :: last, fun tail h => ?_⟩
            rw [List.cons_append, split, if_neg hc, ih tail h]
            rfl
        | cons part parts =>
            refine ⟨(c :: part) :: parts, last, fun tail h => ?_⟩
            rw [List.cons_append, split, if_neg hc, ih tail h]
            rfl

theorem not_mem_of_mem_split {separator : Char} {cs part : List Char}
    (h : part ∈ split separator cs) : separator ∉ part := by
  induction cs generalizing part with
  | nil =>
      rw [split, List.mem_singleton] at h
      simp [h]
  | cons c cs ih =>
      by_cases hc : c = separator
      · rw [split, if_pos hc, List.mem_cons] at h
        rcases h with rfl | h
        · exact List.not_mem_nil
        · exact ih h
      · rw [split, if_neg hc] at h
        cases hsplit : split separator cs with
        | nil =>
            rw [hsplit, List.mem_singleton] at h
            simp [h, Ne.symm hc]
        | cons first parts =>
            rw [hsplit, List.mem_cons] at h
            rcases h with rfl | h
            · have hfirst : separator ∉ first := ih (by simp [hsplit])
              simp [hfirst, Ne.symm hc]
            · exact ih (by simp [hsplit, h])

theorem split_ne_nil (separator : Char) (cs : List Char) :
    split separator cs ≠ [] := by
  obtain ⟨closed, last, hsplit⟩ := split_append separator cs
  have h : split separator cs = closed ++ [last] := by
    simpa using hsplit [] List.not_mem_nil
  simp [h]

theorem split_append_cons (separator : Char) (cs ds : List Char) :
    split separator (cs ++ separator :: ds) = split separator cs ++
      split separator ds := by
  induction cs with
  | nil => simp [split]
  | cons c cs ih =>
      rw [List.cons_append, split, split, ih]
      by_cases hc : c = separator
      · rw [if_pos hc, if_pos hc, List.cons_append]
      · rw [if_neg hc, if_neg hc]
        cases hsplit : split separator cs with
        | nil => exact absurd hsplit (split_ne_nil separator cs)
        | cons part parts => rfl

end Text

namespace FilePath

/-- A text that makes the last name of a path, or the end of it: it has no
slash, and with whatever precedes it in that name it is more than a dot. -/
structure IsTail (tail : String) : Prop where
  slash : '/' ∉ tail.toList
  long : 2 ≤ tail.toList.length

/-- The names before the last slash of a path, which nothing put at its end can
touch. -/
def closedNames (path : String) : List String :=
  (((Text.split '/' path.toList).dropLast.filter (!·.isEmpty)).map
    String.ofList).filter (· != ".")

/-- What follows the last slash of a path. -/
def openName (path : String) : String :=
  String.ofList ((Text.split '/' path.toList).getLast?.getD [])

/-- A tail goes into the last name of a path and leaves the others as they
are. -/
theorem names_append (start : String) {tail : String} (h : IsTail tail) :
    (components (start ++ tail)).names = closedNames start ++
    [openName start ++ tail] := by
  obtain ⟨closed, last, hsplit⟩ := Text.split_append '/' start.toList
  have hstart : Text.split '/' start.toList = closed ++ [last] := by
    simpa using hsplit [] List.not_mem_nil
  have hnonempty : (last ++ tail.toList).isEmpty = false := by
    have := h.long
    cases hl : last ++ tail.toList with
    | nil => simp_all
    | cons => rfl
  have hdot : String.ofList last ++ tail ≠ "." := by
    intro heq
    have hlen := congrArg (·.toList.length) heq
    have hlong := h.long
    simp only [String.toList_append, String.toList_ofList, List.length_append]
      at hlen
    have : ".".toList.length = 1 := rfl
    omega
  simp [components, parts, closedNames, openName, hstart, hsplit _ h.slash,
    hnonempty, hdot, String.ofList_append]

/-- Two tails of one path that name the same file are one tail. -/
theorem components_append_inj {start a b : String} (ha : IsTail a)
    (hb : IsTail b) (h : components (start ++ a) = components (start ++ b)) :
    a = b := by
  have heq : closedNames start ++ [openName start ++ a] =
      closedNames start ++ [openName start ++ b] := by
    rw [← names_append start ha, ← names_append start hb, h]
  have hlast : openName start ++ a = openName start ++ b := by simpa using heq
  have hlist := congrArg String.toList hlast
  rw [String.toList_append, String.toList_append, List.append_right_inj]
    at hlist
  exact String.toList_inj.1 hlist

theorem IsTail.isAbsolute_eq_false {tail : String} (h : IsTail tail) :
    isAbsolute tail = false := by
  have hslash := h.slash
  cases ht : tail.toList with
  | nil => simp [isAbsolute, ht]
  | cons c cs =>
      have hne : c ≠ '/' := fun heq => hslash (by simp [ht, heq])
      simp [isAbsolute, ht, hne]

theorem isAbsolute_append (start : String) {rest : String}
    (h : isAbsolute rest = false) :
    isAbsolute (start ++ rest) = isAbsolute start := by
  cases hs : start.toList with
  | nil => simpa [isAbsolute, hs] using h
  | cons c cs => simp [isAbsolute, hs]

/-- A tail stays at the end when a path is put below a directory. What comes
before it is the same for all tails, since none of them starts with a slash. -/
theorem join_append (directory stem : String) :
    ∃ start,
      ∀ tail, IsTail tail → join directory (stem ++ tail) = start ++ tail := by
  have habs (tail : String) (h : IsTail tail) : isAbsolute (stem ++ tail) =
      isAbsolute stem :=
    isAbsolute_append stem h.isAbsolute_eq_false
  by_cases hstem : isAbsolute stem = true
  · exact ⟨stem, fun tail h => by rw [join, habs tail h, if_pos hstem]⟩
  · by_cases hdir : (directory.isEmpty || endsWithSlash directory) = true
    · refine ⟨directory ++ stem, fun tail h => ?_⟩
      rw [join, habs tail h, if_neg hstem, if_pos hdir, String.append_assoc]
    · refine ⟨directory ++ "/" ++ stem, fun tail h => ?_⟩
      rw [join, habs tail h, if_neg hstem, if_neg hdir]
      simp only [String.append_assoc]

/-! ## Paths below a directory -/

theorem parts_append_slash (directory path : String) :
    parts (directory ++ "/" ++ path) = parts directory ++ parts path := by
  have hlist : (directory ++ "/" ++ path).toList = directory.toList ++
      '/' :: path.toList := by
    simp
  simp only [parts, hlist, Text.split_append_cons, List.filter_append,
    List.map_append]

theorem exists_of_endsWithSlash {path : String}
    (h : endsWithSlash path = true) :
    ∃ start, path = start ++ "/" := by
  have hlast : path.toList.getLast? = some '/' := by
    simpa [endsWithSlash] using h
  obtain ⟨cs, hcs⟩ := List.getLast?_eq_some_iff.1 hlast
  refine ⟨String.ofList cs, String.toList_inj.1 ?_⟩
  rw [hcs, String.toList_append, String.toList_ofList]
  rfl

/-- A path below a directory goes on where the directory ends. -/
theorem parts_join (directory : String) {path : String}
    (h : isAbsolute path = false) :
    parts (join directory path) = parts directory ++ parts path := by
  have habs : ¬ isAbsolute path = true := by simp [h]
  rw [join, if_neg habs]
  by_cases hempty : directory = ""
  · subst hempty
    simp [parts, Text.split]
  · by_cases hslash : endsWithSlash directory = true
    · obtain ⟨start, rfl⟩ := exists_of_endsWithSlash hslash
      have hstart : parts (start ++ "/") = parts start := by
        have hparts := parts_append_slash start ""
        rw [String.append_empty] at hparts
        rw [hparts]
        simp [parts, Text.split]
      rw [if_pos (by simp [hslash]), parts_append_slash, hstart]
    · rw [if_neg (by simp [hslash, hempty]), parts_append_slash]

theorem isAbsolute_join (directory : String) {path : String}
    (h : isAbsolute path = false) :
    isAbsolute (join directory path) = isAbsolute directory := by
  have habs : ¬ isAbsolute path = true := by simp [h]
  rw [join, if_neg habs]
  by_cases hcond : (directory.isEmpty || endsWithSlash directory) = true
  · rw [if_pos hcond, isAbsolute_append directory h]
  · have hempty : directory.toList ≠ [] := by
      intro heq
      simp [String.toList_eq_nil_iff.1 heq] at hcond
    rw [if_neg hcond, String.append_assoc]
    cases hlist : directory.toList with
    | nil => exact absurd hlist hempty
    | cons c cs => simp [isAbsolute, hlist]

end FilePath

end DaggerWorkflows
