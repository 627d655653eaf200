import DaggerWorkflows.Yaml.Horizon
import Mathlib.Data.List.Basic

/-!
# Glyphs of a text

Where the characters of a text stand follows from the characters alone. A text
without the characters that are made uniform is read glyph by glyph as it is
written (`listOf_eq_glyphs`), and one that holds only what a text may hold is
read to its end (`ofText?_eq_none`).
-/

namespace DaggerWorkflows.Yaml

/-- Whether a character is one that separates tokens. -/
def isSeparator (c : Char) : Bool := c == ' ' || c == '\n'

/-- A token starts with the text, or nothing is left. -/
def StartsToken : List Char → Prop
  | [] => True
  | c :: _ => isBlank c = false ∧ isBreak c = false ∧ c ≠ '#' ∧ c ≠ '\ufeff'

namespace Mark

/-- The place after a character. -/
def after (m : Mark) (c : Char) :
    Mark := if isBreak c then m.nextLine 1 else m.next

/-- The place after a text. -/
def afterAll (m : Mark) (cs : List Char) : Mark := cs.foldl after m

@[simp] theorem afterAll_nil (m : Mark) : m.afterAll [] = m := rfl

@[simp] theorem afterAll_cons (m : Mark) (c : Char) (cs : List Char) :
    m.afterAll (c :: cs) = (m.after c).afterAll cs := rfl

@[simp] theorem afterAll_append (m : Mark) (as bs : List Char) :
    m.afterAll (as ++ bs) = (m.afterAll as).afterAll bs := by
  simp [afterAll]

theorem index_after (m : Mark) (c : Char) :
    (m.after c).index = m.index + 1 := by
  unfold after
  split <;> rfl

theorem index_afterAll (m : Mark) (cs : List Char) :
    (m.afterAll cs).index = m.index + cs.length := by
  induction cs generalizing m with
  | nil => rfl
  | cons c cs ih => simp [ih, index_after, Nat.add_assoc, Nat.add_comm 1]

theorem after_of_not_isBreak {c : Char} (h : isBreak c = false) (m : Mark) :
    m.after c = m.next := by
  simp [after, h]

/-- Without a line break the line stays the same, and every character takes a
column. -/
theorem afterAll_of_line {cs : List Char} (h : ∀ c ∈ cs, isBreak c = false)
    (m : Mark) :
    (m.afterAll cs).line = m.line ∧
    (m.afterAll cs).column = m.column + cs.length := by
  induction cs generalizing m with
  | nil => exact ⟨rfl, rfl⟩
  | cons c cs ih =>
      obtain ⟨hline, hcolumn⟩ := ih (fun d hd => h d (by simp [hd])) (m.after c)
      rw [afterAll_cons, hline, hcolumn, after_of_not_isBreak (h c (by simp))]
      exact ⟨rfl, by simp [next]; omega⟩

theorem line_le_after (m : Mark) (c : Char) : m.line ≤ (m.after c).line := by
  unfold after
  split
  · exact Nat.le_succ _
  · exact Nat.le_refl _

theorem line_le_afterAll (m : Mark) (cs : List Char) :
    m.line ≤ (m.afterAll cs).line := by
  induction cs generalizing m with
  | nil => exact Nat.le_refl _
  | cons c cs ih => exact Nat.le_trans (line_le_after m c) (ih _)

/-- A line break starts a new line. -/
theorem line_lt_afterAll {cs : List Char} {c : Char} (hmem : c ∈ cs)
    (hc : isBreak c = true) (m : Mark) : m.line < (m.afterAll cs).line := by
  induction cs generalizing m with
  | nil => simp at hmem
  | cons d cs ih =>
      rcases List.mem_cons.1 hmem with rfl | hmem
      · refine Nat.lt_of_lt_of_le ?_ (line_le_afterAll _ cs)
        simp [after, hc, nextLine]
      · exact Nat.lt_of_le_of_lt (line_le_after m d) (ih hmem _)

end Mark

namespace Glyph

/-- The glyphs of a text, none of whose characters are made uniform. -/
def glyphs : List Char → Mark → List Glyph
  | [], _ => []
  | c :: cs, m => ⟨c, m⟩ :: glyphs cs (m.after c)

@[simp] theorem glyphs_nil (m : Mark) : glyphs [] m = [] := rfl

@[simp] theorem glyphs_cons (c : Char) (cs : List Char) (m : Mark) :
    glyphs (c :: cs) m = ⟨c, m⟩ :: glyphs cs (m.after c) := rfl

@[simp] theorem length_glyphs (cs : List Char) (m : Mark) :
    (glyphs cs m).length = cs.length := by
  induction cs generalizing m with
  | nil => rfl
  | cons c cs ih => simp [ih]

@[simp] theorem place_glyphs (cs : List Char) (m : Mark) :
    place (glyphs cs m) (m.afterAll cs) = m := by
  cases cs <;> rfl

/-- Whether a character is a line break of the kinds that are made uniform. -/
def isMadeUniform (c : Char) : Bool := c == '\r' || c == '\u0085'

theorem listOf_eq_glyphs {cs : List Char}
    (h : ∀ c ∈ cs, isMadeUniform c = false) (m : Mark) :
    listOf cs m = (glyphs cs m, m.afterAll cs) := by
  induction cs generalizing m with
  | nil => rfl
  | cons c cs ih =>
      have hc : isMadeUniform c = false := h c (by simp)
      have hreturn : c ≠ '\r' := by rintro rfl; exact absurd hc (by decide)
      rw [listOf.eq_def]
      split
      · next heq => cases heq
      · next heq => cases heq; exact absurd rfl hreturn
      · next heq =>
          cases heq
          have hrest :=
            fun m : Mark => ih (fun d hd => h d (by simp [hd])) (m.after c)
          simp only [isMadeUniform, Mark.after] at hc hrest
          simp [hc, hrest, Mark.after]

/-! ## Document boundaries -/

theorem isBoundary_of_column {m : Mark} (h : m.column ≠ 0) (c d : Char)
    (gs : List Glyph) :
    isBoundary c (⟨d, m⟩ :: gs) = false := by
  unfold isBoundary
  split
  · next heq =>
      obtain ⟨rfl, rfl⟩ := List.cons.inj heq
      simp [h]
  · rfl

theorem isBoundary_of_ne {c d : Char} (h : d ≠ c) (m : Mark) (gs : List Glyph) :
    isBoundary c (⟨d, m⟩ :: gs) = false := by
  unfold isBoundary
  split
  · next heq =>
      obtain ⟨rfl, rfl⟩ := List.cons.inj heq
      simp [h]
  · rfl

theorem isBoundary_of_second_ne {c d : Char} (h : d ≠ c) (g : Glyph) (m : Mark)
    (gs : List Glyph) :
    isBoundary c (g :: ⟨d, m⟩ :: gs) = false := by
  unfold isBoundary
  split
  · next heq =>
      obtain ⟨-, heq⟩ := List.cons.inj heq
      obtain ⟨rfl, -⟩ := List.cons.inj heq
      simp [h]
  · rfl

/-- Only at the start of a line does a document end. -/
theorem isDocumentBoundary_of_column {m : Mark} (h : m.column ≠ 0) (c : Char)
    (gs : List Glyph) :
    isDocumentBoundary (⟨c, m⟩ :: gs) = false := by
  simp [isDocumentBoundary, isBoundary_of_column h]

end Glyph

namespace Horizon

theorem scan_eq_none {cs : List Char} (h : ∀ c ∈ cs, isAllowed c = true)
    (octets index start reach : Nat) :
    scan cs octets index start reach = none := by
  induction cs generalizing octets index start reach with
  | nil => rfl
  | cons c cs ih =>
      simp only [scan, h c (by simp), if_true]
      exact ih (fun d hd => h d (by simp [hd])) _ _ _ _

theorem ofText?_eq_none {text : String}
    (h : ∀ c ∈ text.toList, isAllowed c = true) :
    ofText? text = none :=
  scan_eq_none h _ _ _ _

end Horizon

/-- Every character may stand in a text and is read as it is. -/
def IsReadable (cs : List Char) : Prop :=
  ∀ c ∈ cs, isAllowed c = true ∧ Glyph.isMadeUniform c = false

instance (cs : List Char) : Decidable (IsReadable cs) :=
  decidable_of_iff ((cs.all fun c => isAllowed c && !Glyph.isMadeUniform c) =
    true) (by simp [IsReadable])

@[simp] theorem isReadable_cons (c : Char) (cs : List Char) :
    IsReadable (c :: cs) ↔
    (isAllowed c = true ∧ Glyph.isMadeUniform c = false) ∧ IsReadable cs :=
  List.forall_mem_cons

@[simp] theorem isReadable_append (as bs : List Char) :
    IsReadable (as ++ bs) ↔ IsReadable as ∧ IsReadable bs :=
  List.forall_mem_append

end DaggerWorkflows.Yaml
