import DaggerWorkflows.Proofs.PathComponents
import Mathlib.Logic.Relation

/-!
# Spellings of a path

One file has many paths. `Respells` lists what may be left out of a path: a
slash after another one, a dot between slashes, and a slash at the end. Paths
are `Alike` if such steps, there and back, lead from one to the other.

The main statement is that paths are alike exactly if they have the same
components (`components_eq_iff_alike`). A step changes no component, which is
one direction. For the other one every path is led to a path that is made of
its components alone, `Components.path`: names are kept or left out one by one,
from the start of the path to its end.
-/

namespace DaggerWorkflows.FilePath

/-- What may be left out of a path. Neither the slash that a path starts with
nor a dot before all slashes may. -/
inductive Respells : String → String → Prop
  | slash (start rest : String) :
      Respells (start ++ "//" ++ rest) (start ++ "/" ++ rest)
  | dot (start rest : String) :
      Respells (start ++ "/./" ++ rest) (start ++ "/" ++ rest)
  | last (start : String) (h : start ≠ "") : Respells (start ++ "/") start

/-- Paths that are spellings of each other. -/
def Alike : String → String → Prop := Relation.EqvGen Respells

theorem alike_equivalence :
    Equivalence Alike := Relation.EqvGen.is_equivalence Respells

/-! ## Steps keep the components -/

theorem isAbsolute_append_of_ne {start : String} (h : start ≠ "")
    (rest : String) :
    isAbsolute (start ++ rest) = isAbsolute start := by
  have hlist : start.toList ≠ [] :=
    fun hnil => h (String.toList_eq_nil_iff.1 hnil)
  cases hs : start.toList with
  | nil => exact absurd hs hlist
  | cons c cs => simp [isAbsolute, hs]

/-- A path that has no parts but more after it is a row of slashes. -/
theorem isAbsolute_of_parts_eq_nil {start : String} (h : parts start = [])
    (rest : String) :
    isAbsolute (start ++ "/" ++ rest) = true := by
  cases hs : start.toList with
  | nil => simp [isAbsolute, hs]
  | cons c cs =>
      by_cases hc : c = '/'
      · simp [isAbsolute, hs, hc]
      · exfalso
        have hmem : String.ofList (c :: ((Text.split '/' cs).headD [])) ∈
            parts start := by
          rw [parts, hs, Text.split, if_neg hc]
          cases hsplit : Text.split '/' cs with
          | nil => simp
          | cons part parts => simp
        rw [h] at hmem
        exact List.not_mem_nil hmem

theorem components_eq_of_respells {a b : String} (h : Respells a b) :
    components a = components b := by
  cases h with
  | slash start rest =>
      have hdouble : start ++ "//" ++ rest = start ++ "/" ++ "" ++ "/" ++
          rest := by
        simp [String.append_assoc]
      have hparts : parts (start ++ "//" ++ rest) =
          parts (start ++ "/" ++ rest) := by
        rw [hdouble, parts_append_slash, parts_append_slash, parts_append_slash]
        simp [parts, Text.split]
      have habsolute : isAbsolute (start ++ "//" ++ rest) =
          isAbsolute (start ++ "/" ++ rest) := by
        cases hs : start.toList <;> simp [isAbsolute, hs]
      rw [components, components, hparts, habsolute]
  | dot start rest =>
      have hdot : start ++ "/./" ++ rest = start ++ "/" ++ "." ++ "/" ++
          rest := by
        simp [String.append_assoc]
      have hmiddle : parts "." = ["."] := by decide
      have hparts : parts (start ++ "/./" ++ rest) = parts start ++
          "." :: parts rest := by
        rw [hdot, parts_append_slash, parts_append_slash, hmiddle,
          List.append_assoc]
        rfl
      have habsolute : isAbsolute (start ++ "/./" ++ rest) =
          isAbsolute (start ++ "/" ++ rest) := by
        cases hs : start.toList <;> simp [isAbsolute, hs]
      simp only [components, hparts, habsolute, parts_append_slash,
        Components.mk.injEq, true_and]
      constructor
      · cases hstart : parts start with
        | nil =>
            rw [isAbsolute_of_parts_eq_nil hstart, Bool.not_true,
              Bool.false_and, Bool.false_and]
        | cons part parts => rfl
      · simp [List.filter_append]
  | last _ h =>
      have hparts : parts (b ++ "/") = parts b := by
        have hslash := parts_append_slash b ""
        rw [String.append_empty] at hslash
        rw [hslash]
        simp [parts, Text.split]
      rw [components, components, hparts, isAbsolute_append_of_ne h]

theorem components_eq_of_alike {a b : String} (h : Alike a b) :
    components a = components b := by
  induction h with
  | rel a b hstep => exact components_eq_of_respells hstep
  | refl a => rfl
  | symm a b _ ih => exact ih.symm
  | trans a b c _ _ ih ih' => exact ih.trans ih'

/-! ## Every path leads to the one made of its components -/

/-- A path with names at its end. -/
def extend (start : String) : List String → String
  | [] => start
  | name :: names => extend (start ++ "/" ++ name) names

/-- The path that is made of components and nothing else. -/
def Components.path (c : Components) : String :=
  if c.absolute then
    if c.names = [] then "/" else extend "" c.names
  else if c.leadingDot then extend "." c.names
  else
    match c.names with
    | [] => ""
    | name :: names => extend name names

theorem extend_append (before start : String) (names : List String) :
    extend (before ++ start) names = before ++ extend start names := by
  induction names generalizing start with
  | nil => rfl
  | cons name names ih =>
      rw [extend, extend, String.append_assoc, String.append_assoc, ih,
        String.append_assoc]

theorem extend_eq (start : String) (name : String) (names : List String) :
    extend start (name :: names) = start ++ "/" ++ extend name names := by
  rw [extend, extend_append]

/-- A path is its first part, extended by the others. -/
theorem exists_split (cs : List Char) :
    ∃ part parts, Text.split '/' cs = part :: parts ∧
      String.ofList cs = extend (String.ofList part)
        (parts.map String.ofList) := by
  induction cs with
  | nil => exact ⟨[], [], rfl, rfl⟩
  | cons c cs ih =>
      obtain ⟨part, parts, hsplit, hpath⟩ := ih
      by_cases hc : c = '/'
      · refine ⟨[], part :: parts, by rw [Text.split, if_pos hc, hsplit], ?_⟩
        rw [List.map_cons, extend_eq, ← hpath, hc, String.ofList_cons]
        rfl
      · refine ⟨c :: part, parts, by rw [Text.split, if_neg hc, hsplit], ?_⟩
        rw [String.ofList_cons, String.ofList_cons, hpath, extend_append]

/-- Whether a part of a path is a name. -/
def isName (part : String) : Bool := part != "" && part != "."

theorem eq_of_not_isName {part : String} (h : isName part = false) :
    part = "" ∨ part = "." := by
  by_cases hempty : part = ""
  · exact .inl hempty
  · exact .inr (by simpa [isName, hempty] using h)

theorem alike_slash (start : String) (parts : List String)
    (h : parts ≠ [] ∨ start ≠ "") :
    Alike (extend (start ++ "/") parts) (extend start parts) := by
  cases parts with
  | nil =>
      refine .rel _ _ (.last start ?_)
      rcases h with h | h
      · exact absurd rfl h
      · exact h
  | cons part parts =>
      have hstep := Respells.slash start (extend part parts)
      rw [extend_eq, extend_eq]
      have hdouble : start ++ "/" ++ "/" = start ++ "//" := by
        rw [String.append_assoc]
        rfl
      rw [hdouble]
      exact .rel _ _ hstep

theorem alike_dot (start : String) (parts : List String)
    (h : parts ≠ [] ∨ start ≠ "") :
    Alike (extend (start ++ "/.") parts) (extend start parts) := by
  cases parts with
  | nil =>
      have hne : start ++ "/." ≠ "" := by
        intro heq
        simpa using congrArg String.toList heq
      have hlast : Alike (start ++ "/.") (start ++ "/./" ++ "") := by
        refine .symm _ _ (.rel _ _ ?_)
        have hstep := Respells.last (start ++ "/.") hne
        rw [String.append_assoc] at hstep
        rw [String.append_empty]
        exact hstep
      have hdot : Alike (start ++ "/./" ++ "") (start ++ "/") := by
        have hstep := Respells.dot start ""
        rw [String.append_empty (s := start ++ "/")] at hstep
        exact .rel _ _ hstep
      exact .trans _ _ _ (.trans _ _ _ hlast hdot) (alike_slash start [] h)
  | cons part parts =>
      have hstep := Respells.dot start (extend part parts)
      rw [extend_eq, extend_eq]
      have hdouble : start ++ "/." ++ "/" = start ++ "/./" := by
        rw [String.append_assoc]
        rfl
      rw [hdouble]
      exact .rel _ _ hstep

/-- A part that is no name can be left out. -/
theorem alike_of_not_isName {part : String} (hpart : isName part = false)
    {start : String} {parts : List String} (h : parts ≠ [] ∨ start ≠ "") :
    Alike (extend start (part :: parts)) (extend start parts) := by
  have hcases := eq_of_not_isName hpart
  rw [extend]
  rcases hcases with rfl | rfl
  · rw [String.append_empty]
    exact alike_slash start parts h
  · rw [String.append_assoc]
    exact alike_dot start parts h

/-- Parts that are no names can be left out after something else. -/
theorem alike_filter {start : String} (h : start ≠ "") (parts : List String) :
    Alike (extend start parts) (extend start (parts.filter isName)) := by
  induction parts generalizing start with
  | nil => exact .refl _
  | cons part parts ih =>
      cases hpart : isName part with
      | true =>
          rw [List.filter_cons_of_pos hpart]
          have hne : start ++ "/" ++ part ≠ "" := by
            intro heq
            simpa using congrArg String.toList heq
          exact ih hne
      | false =>
          rw [List.filter_cons_of_neg (by simp [hpart])]
          exact .trans _ _ _ (alike_of_not_isName hpart (.inr h)) (ih h)

/-- In a path that starts at the root all parts but names can be left out, with
a slash for what is left of a path without names. -/
theorem alike_filter_root (part : String) (parts : List String) :
    Alike (extend "" (part :: parts)) (if (part :: parts).filter isName =
      [] then "/" else extend "" ((part :: parts).filter isName)) := by
  -- Parts that name nothing are dropped from the front until one names
  -- something, and if none does the root is left.
  induction parts generalizing part with
  | nil =>
      cases hpart : isName part with
      | true =>
          rw [List.filter_cons_of_pos hpart, if_neg (List.cons_ne_nil _ _)]
          exact .refl _
      | false =>
          have hcases := eq_of_not_isName hpart
          rw [List.filter_cons_of_neg (by simp [hpart]), if_pos List.filter_nil]
          rcases hcases with rfl | rfl
          · exact .refl _
          · have hlast : Alike "/." "/./" :=
              .symm _ _ (.rel _ _ (.last "/." (by decide)))
            exact .trans _ _ _ hlast (.rel _ _ (.dot "" ""))
  | cons next parts ih =>
      cases hpart : isName part with
      | true =>
          rw [List.filter_cons_of_pos hpart, if_neg (List.cons_ne_nil _ _)]
          have hne : "" ++ "/" ++ part ≠ "" := by
            intro heq
            simpa using congrArg String.toList heq
          exact alike_filter hne (next :: parts)
      | false =>
          rw [List.filter_cons_of_neg (by simp [hpart])]
          exact .trans _ _ _
            (alike_of_not_isName hpart (.inl (List.cons_ne_nil _ _))) (ih next)

theorem names_eq (path : String) :
    (components path).names =
    ((Text.split '/' path.toList).map String.ofList).filter isName := by
  show (parts path).filter (· != ".") = _
  rw [parts, List.filter_map, List.filter_map, List.filter_filter]
  refine congrArg (List.map String.ofList) (List.filter_congr fun part _ => ?_)
  cases part <;> simp [isName, Bool.and_comm]

/-- A path is a spelling of the one that is made of its components. -/
theorem alike_path (path : String) : Alike path (components path).path := by
  obtain ⟨part, parts, hsplit, hpath⟩ := exists_split path.toList
  have hnames := names_eq path
  rw [String.ofList_toList] at hpath
  rw [hsplit, List.map_cons] at hnames
  unfold Components.path
  cases hlist : path.toList with
  | nil =>
      rw [String.toList_eq_nil_iff.1 hlist]
      exact .refl _
  | cons c cs =>
      by_cases hc : c = '/'
      · have habsolute : (components path).absolute = true := by
          simp [components, isAbsolute, hlist, hc]
        obtain ⟨next, rest, hrest, -⟩ := exists_split cs
        rw [hlist, Text.split, if_pos hc, hrest] at hsplit
        obtain ⟨rfl, rfl⟩ := List.cons_eq_cons.1 hsplit
        rw [List.filter_cons_of_neg (by simp [isName]), List.map_cons] at hnames
        rw [if_pos habsolute, hnames]
        rw [List.map_cons] at hpath
        conv => arg 1; rw [hpath]
        exact alike_filter_root _ _
      · have habsolute : ¬ (components path).absolute = true := by
          simp [components, isAbsolute, hlist, hc]
        have hpart : part ≠ [] := by
          obtain ⟨next, rest, hrest, -⟩ := exists_split cs
          rw [hlist, Text.split, if_neg hc, hrest] at hsplit
          rintro rfl
          cases hsplit
        have hhead : (FilePath.parts path).head? =
            some (String.ofList part) := by
          rw [FilePath.parts, hsplit,
            List.filter_cons_of_pos (by simpa using hpart)]
          rfl
        have hdot : (components path).leadingDot = true ↔
            String.ofList part = "." := by
          have hrelative : isAbsolute path = false := by
            simpa [components] using habsolute
          simp [components, hhead, hrelative]
        have hne : String.ofList part ≠ "" :=
          fun heq => hpart (String.ofList_eq_empty_iff.1 heq)
        rw [if_neg habsolute]
        conv => arg 1; rw [hpath]
        refine .trans _ _ _ (alike_filter hne _) ?_
        -- The first part stays in front, be it the dot or the first of the
        -- names.
        by_cases hfirst : String.ofList part = "."
        · rw [List.filter_cons_of_neg (by simp [isName, hfirst])] at hnames
          rw [if_pos (hdot.2 hfirst), hnames, hfirst]
          exact .refl _
        · rw [List.filter_cons_of_pos (by simp [isName, hfirst, hpart])]
            at hnames
          rw [if_neg (fun h => hfirst (hdot.1 h)), hnames]
          exact .refl _

/-- Paths are spellings of each other if they have the same components, and only
then. -/
theorem components_eq_iff_alike {a b : String} :
    components a = components b ↔ Alike a b := by
  constructor
  · intro h
    have hsecond := alike_path b
    rw [← h] at hsecond
    exact alike_equivalence.trans (alike_path a)
      (alike_equivalence.symm hsecond)
  · exact components_eq_of_alike

end DaggerWorkflows.FilePath
