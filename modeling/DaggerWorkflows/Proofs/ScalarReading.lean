import DaggerWorkflows.Datum.Scalar
import DaggerWorkflows.Proofs.GlyphText
import DaggerWorkflows.Yaml.Scalar.Block
import DaggerWorkflows.Yaml.Scalar.Plain
import DaggerWorkflows.Yaml.Scalar.Quoted
import Mathlib.Tactic.Ring

/-!
# Scalars are read as the texts they are written for

For every style there is one theorem: what the writer makes of a text that the
style is for is read as this text, whatever comes after it. The proofs go along
the characters of the text. What a reader holds back between two of them, blanks
and line breaks that may turn out to be part of the text, is always the end of
what has been written, so the invariant of each is that the characters read so
far and those held back are together the text so far.
-/

namespace DaggerWorkflows

open Yaml.Glyph (glyphs)

namespace Datum.Scalar

/-! ## Characters that need no escape -/

theorem isAllowed_of_isPrintable {c : Char} (h : isPrintable c = true) :
    Yaml.isAllowed c = true := by
  simp only [isPrintable, Bool.or_eq_true, Bool.and_eq_true, bne_iff_ne] at h
  rcases h with (h | h) | ⟨⟨⟨h, -⟩, h'⟩, h''⟩ <;> simp_all [Yaml.isAllowed]

theorem ne_of_isPrintable {c d : Char} (h : isPrintable c = true)
    (hd : isPrintable d = false) :
    c ≠ d := by
  rintro rfl
  simp [h] at hd

/-- Writer and reader know the same line breaks among the characters that need
no escape. -/
theorem isBreak_of_isPrintable {c : Char} (h : isPrintable c = true) :
    Yaml.isBreak c = isBreak c := by
  have hreturn : (c == '\r') = false :=
    beq_false_of_ne (ne_of_isPrintable h (by decide))
  have hnext : (c == '\u0085') = false :=
    beq_false_of_ne (ne_of_isPrintable h (by decide))
  simp [Yaml.isBreak, isBreak, hreturn, hnext]

theorem isBlank_of_isPrintable {c : Char} (h : isPrintable c = true) :
    Yaml.isBlank c = (c == ' ') := by
  have htab : c ≠ '\t' := ne_of_isPrintable h (by decide)
  simp [Yaml.isBlank, htab]

/-- Where no word ends for the writer, none ends for the reader. -/
theorem endsWord_glyphs {cs : List Char} (h : endsWord cs = false)
    (tl : List Char) (m : Yaml.Mark) :
    Yaml.Glyph.endsWord (glyphs (cs ++ tl) m) = false := by
  cases cs with
  | nil => simp [endsWord] at h
  | cons c cs =>
      simp only [endsWord, isBreak, Bool.or_eq_false_iff] at h
      simp [Yaml.Glyph.endsWord, Yaml.Glyph.isBlank, Yaml.Glyph.isBreak,
        Yaml.isBlank, Yaml.isBreak, h]

end Datum.Scalar

namespace Yaml

@[simp] theorem Mark.column_afterAll_pad (m : Mark) (n : Nat) :
    (m.afterAll (Datum.Scalar.pad n)).column = m.column + n := by
  have hline : ∀ c ∈ Datum.Scalar.pad n, isBreak c = false := by
    simp [Datum.Scalar.pad, isBreak]
  simpa [Datum.Scalar.pad] using (Mark.afterAll_of_line hline m).2

/-- Blanks between two words of a line. -/
def Gap.ofBlanks (blanks : List Char) : Gap := ⟨blanks, false, [], []⟩

@[simp] theorem Gap.ofBlanks_nil : Gap.ofBlanks [] = Gap.empty := rfl

@[simp] theorem Gap.text_ofBlanks (blanks : List Char) :
    (Gap.ofBlanks blanks).text = blanks := rfl

@[simp] theorem Gap.addBlank_ofBlanks (blanks : List Char) (c : Char) :
    (Gap.ofBlanks blanks).addBlank c = Gap.ofBlanks (blanks ++ [c]) := rfl

/-! ## Plain scalars -/

namespace PlainScalar

open Datum.Scalar
  (isPrintable hasIndicator startsIndicator endsWord endsWord_glyphs
  isBreak_of_isPrintable isBlank_of_isPrintable)

variable (indent : Nat) (start : Mark) {m : Mark} {c : Char} {cs : List Char}

/-- A character of a word. -/
theorem readFrom_word (gs : List Glyph) (text blanks : List Char)
    (hblank : Yaml.isBlank c = false) (hbreak : Yaml.isBreak c = false)
    (hcolon : c = ':' → Glyph.endsWord gs = false)
    (hgap : blanks ≠ [] → indent ≤ m.column ∧ m.column ≠ 0 ∧ c ≠ '#') :
    readFrom false indent start (⟨c, m⟩ :: gs) text (.ofBlanks blanks) =
      readFrom false indent start gs (c :: (blanks.reverse ++ text))
        .empty := by
  have hends : endsBefore false c gs = false := by
    by_cases h : c = ':' <;> simp [endsBefore, h, hcolon]
  have hstays :
    (!(Gap.ofBlanks blanks).isEmpty && endsAfterGap false indent (⟨c, m⟩ :: gs))
      = false := by
    by_cases h : blanks = []
    · simp [h, Gap.isEmpty, Gap.empty]
    · obtain ⟨hindent, hcolumn, hsharp⟩ := hgap h
      have hboundary : Glyph.isDocumentBoundary (⟨c, m⟩ :: gs) = false :=
        Glyph.isDocumentBoundary_of_column hcolumn c gs
      simp [endsAfterGap, hboundary, hsharp, Nat.not_lt.2 hindent]
  simp [readFrom, Glyph.isBlank, Glyph.isBreak, hblank, hbreak, hstays, hends]

/-- The text after the first character, while the blanks read last may still be
followed by a word. -/
theorem readFrom_words {before : Char} (text blanks tl : List Char)
    (hchars : ∀ c ∈ cs, isPrintable c = true ∧ Datum.Scalar.isBreak c = false)
    (hindicator : hasIndicator before cs = false)
    (hlast : cs.getLast? ≠ some ' ')
    (hblanks : blanks ≠ [] → cs ≠ [] ∧ before = ' ' ∧ indent ≤ m.column)
    (hcolumn : indent ≤ m.column + 1 ∧ m.column ≠ 0) :
    readFrom false indent start (glyphs (cs ++ tl) m) text (.ofBlanks blanks) =
      readFrom false indent start (glyphs tl (m.afterAll cs))
        (cs.reverse ++ (blanks.reverse ++ text)) .empty := by
  induction cs generalizing before text blanks m with
  | nil =>
      obtain rfl : blanks = [] := by
        by_contra h
        exact (hblanks h).1 rfl
      rfl
  | cons c cs ih =>
      obtain ⟨hprint, hbreak⟩ := hchars c (by simp)
      have hbreak' : Yaml.isBreak c = false := by
        rw [isBreak_of_isPrintable hprint, hbreak]
      simp only [hasIndicator, Bool.or_eq_false_iff] at hindicator
      obtain ⟨⟨hcolon, hsharp⟩, hindicator⟩ := hindicator
      have hrest :
          ∀ d ∈ cs, isPrintable d = true ∧ Datum.Scalar.isBreak d = false :=
        fun d hd => hchars d (by simp [hd])
      have hnext : m.after c = m.next := Mark.after_of_not_isBreak hbreak' m
      -- A blank is held back, since a word follows, and any other character
      -- ends what is held.
      by_cases hspace : c = ' '
      · subst hspace
        have hcs : cs ≠ [] := by rintro rfl; simp at hlast
        have hlast' : cs.getLast? ≠ some ' ' := by
          cases cs with
          | nil => exact absurd rfl hcs
          | cons d cs => simpa [List.getLast?_cons] using hlast
        have := ih text (blanks ++ [' ']) (m := m.next) hrest
          hindicator hlast' (fun _ => ⟨hcs, rfl, hcolumn.1⟩)
          ⟨by simp [Mark.next]; omega, by simp [Mark.next]⟩
        simpa [readFrom, Glyph.isBlank, Yaml.isBlank, Gap.ofBlanks,
          Gap.addBlank, hnext] using this
      · have hblank : Yaml.isBlank c = false := by
          simp [isBlank_of_isPrintable hprint, hspace]
        have hword :=
          readFrom_word indent start (glyphs (cs ++ tl) (m.after c)) text blanks
          hblank hbreak'
          (fun h => endsWord_glyphs (by simpa [h] using hcolon) tl _)
          (fun h => ⟨(hblanks h).2.2, hcolumn.2, fun h' => by
            simp [h', (hblanks h).2.1, endsWord] at hsharp⟩)
        have hlast' : cs.getLast? ≠ some ' ' := by
          cases cs with
          | nil => simp
          | cons d cs => simpa [List.getLast?_cons] using hlast
        have := ih (c :: (blanks.reverse ++ text)) [] (m := m.next) hrest
          hindicator hlast'
          (by simp) ⟨by simp [Mark.next]; omega, by simp [Mark.next]⟩
        rw [List.cons_append, Glyph.glyphs_cons, hword, hnext]
        simpa [hnext] using this

theorem read_of_allowsPlain (h : Datum.Scalar.allowsPlain cs = true)
    (tl : List Char) (hcolumn : indent ≤ m.column + 2) :
    read false indent start (glyphs (cs ++ tl) m) =
      readFrom false indent start (glyphs tl (m.afterAll cs)) cs.reverse
        .empty := by
  simp only [Datum.Scalar.allowsPlain, Datum.Scalar.needsEscapes,
    Bool.not_eq_true', Bool.or_eq_false_iff] at h
  obtain ⟨⟨⟨⟨hescape, -⟩, hbreaks⟩, hends⟩, hindicators⟩ := h
  cases cs with
  | nil => rfl
  | cons c cs =>
      have hchars : ∀ d ∈ c :: cs, isPrintable d = true ∧
          Datum.Scalar.isBreak d = false := by
        simp only [List.any_eq_false] at hescape hbreaks
        exact fun d hd =>
          ⟨by simpa using hescape d hd, by simpa using hbreaks d hd⟩
      obtain ⟨hprint, hbreak⟩ := hchars c (by simp)
      have hbreak' : Yaml.isBreak c = false := by
        rw [isBreak_of_isPrintable hprint, hbreak]
      simp only [Datum.Scalar.atEnd, Bool.or_eq_false_iff] at hends
      have hblank : Yaml.isBlank c = false := by
        simpa [isBlank_of_isPrintable hprint] using hends.1
      simp only [Datum.Scalar.hasIndicators, Bool.or_eq_false_iff]
        at hindicators
      obtain ⟨-, hstarts, hindicator⟩ := hindicators
      have hcolon : c = ':' → endsWord cs = false := by
        rintro rfl
        simpa [startsIndicator] using (Bool.or_eq_false_iff.1 hstarts).2
      have hfirst := readFrom_word indent start (glyphs (cs ++ tl) (m.after c))
        [] [] (m := m) hblank hbreak'
        (fun h => endsWord_glyphs (hcolon h) tl _) (by simp)
      have hlast : cs.getLast? ≠ some ' ' := by
        cases cs with
        | nil => simp
        | cons d cs => simpa [List.getLast?_cons] using hends.2
      have hnext : m.after c = m.next := Mark.after_of_not_isBreak hbreak' m
      have hrest := readFrom_words indent start [c] [] tl (m := m.next)
        (fun d hd => hchars d (by simp [hd])) hindicator hlast (by simp)
        ⟨by simpa [Mark.next] using hcolumn, by simp [Mark.next]⟩
      rw [read, List.cons_append, Glyph.glyphs_cons, ← Gap.ofBlanks_nil,
        hfirst, hnext]
      simpa [hnext] using hrest

/-- A plain scalar ends before the colon of a key. -/
theorem readFrom_colon (text : List Char) {y : List Char}
    (hy : Glyph.endsWord (glyphs y (m.after ':')) = true) :
    readFrom false indent start (glyphs (':' :: y) m) text .empty =
      .ok ⟨text.reverse, false, glyphs (':' :: y) m⟩ := by
  simp [readFrom, Glyph.isBlank, Glyph.isBreak, Yaml.isBlank, Yaml.isBreak,
    Gap.isEmpty, Gap.empty, endsBefore, hy]

/-- Blanks and empty lines after a line of the scalar end it where a token
starts further left. -/
theorem readFrom_separators {ws x : List Char} (text : List Char) (gap : Gap)
    (hws : ∀ c ∈ ws, isSeparator c = true) (hx : StartsToken x)
    (hbroken : gap.broken = true) (hcolumn : (m.afterAll ws).column < indent) :
    readFrom false indent start (glyphs (ws ++ x) m) text gap =
      .ok ⟨text.reverse, true, glyphs x (m.afterAll ws)⟩ := by
  induction ws generalizing m gap with
  | nil =>
      cases x with
      | nil => simp [readFrom, hbroken]
      | cons c cs =>
          obtain ⟨hblank, hbreak, -, -⟩ := hx
          have hgap : gap.isEmpty = false := by simp [Gap.isEmpty, hbroken]
          have hends : endsAfterGap false indent (glyphs (c :: cs) m) =
              true := by
            simp_all [endsAfterGap]
          rw [Glyph.glyphs_cons] at hends
          simp [readFrom, Glyph.isBlank, Glyph.isBreak, hblank, hbreak, hgap,
            hends, hbroken]
  | cons c ws ih =>
      have hrest := fun gap => ih gap (m := m.after c) fun d hd =>
        hws d (by simp [hd])
      have hc : c = ' ' ∨ c = '\n' := by
        simpa [isSeparator] using hws c (by simp)
      rcases hc with rfl | rfl
      · simpa [readFrom, Glyph.isBlank, Yaml.isBlank, Gap.addBlank, hbroken]
          using hrest gap hbroken hcolumn
      · simpa [readFrom, Glyph.isBlank, Yaml.isBlank, Glyph.isBreak,
          Yaml.isBreak, Gap.addBreak,
          hbroken] using hrest (gap.addBreak '\n')
            (by simp [Gap.addBreak, hbroken]) hcolumn

/-- A plain scalar ends with its line, where a token starts further left on one
of the next. -/
theorem readFrom_line (text : List Char) {ws x : List Char}
    (hws : ∀ c ∈ ws, isSeparator c = true) (hx : StartsToken x)
    (hcolumn : (m.afterAll ('\n' :: ws)).column < indent) :
    readFrom false indent start (glyphs ('\n' :: ws ++ x) m) text .empty =
      .ok ⟨text.reverse, true, glyphs x (m.afterAll ('\n' :: ws))⟩ := by
  have hrest := readFrom_separators indent start text (Gap.empty.addBreak '\n')
    (m := m.after '\n') hws hx rfl hcolumn
  simpa [readFrom, Glyph.isBlank, Yaml.isBlank, Glyph.isBreak, Yaml.isBreak]
    using hrest

/-- Between brackets a plain scalar ends before an indicator, whatever separates
them. -/
theorem readFrom_brackets (text : List Char) (gap : Gap) {ws x : List Char}
    (hws : ∀ c ∈ ws, isSeparator c = true)
    (hx : x.head?.any isFlowIndicator = true) :
    ∃ broken, readFrom true indent start (glyphs (ws ++ x) m) text gap =
      .ok ⟨text.reverse, broken, glyphs x (m.afterAll ws)⟩ := by
  induction ws generalizing m gap with
  | nil =>
      cases x with
      | nil => simp at hx
      | cons c cs =>
          have hc : c = ',' ∨ c = '[' ∨ c = ']' ∨ c = '\x7b' ∨ c = '\x7d' := by
            simpa [isFlowIndicator, or_assoc] using hx
          refine ⟨gap.broken, ?_⟩
          rcases hc with rfl | rfl | rfl | rfl | rfl <;>
            simp [readFrom, Glyph.isBlank, Glyph.isBreak, Yaml.isBlank,
              Yaml.isBreak, endsBefore, isFlowIndicator]
  | cons c ws ih =>
      have hrest := fun gap => ih gap (m := m.after c) fun d hd =>
        hws d (by simp [hd])
      have hc : c = ' ' ∨ c = '\n' := by
        simpa [isSeparator] using hws c (by simp)
      rcases hc with rfl | rfl
      · simpa [readFrom, Glyph.isBlank, Yaml.isBlank]
          using hrest (gap.addBlank ' ')
      · simpa [readFrom, Glyph.isBlank, Yaml.isBlank, Glyph.isBreak,
          Yaml.isBreak] using hrest (gap.addBreak '\n')

end PlainScalar

/-! ## Texts between single quotes -/

namespace QuotedScalar

open Datum.Scalar (isPrintable hasPair pad singleQuoted isBreak_of_isPrintable
  isBlank_of_isPrintable)

variable (start stop : Mark) (text : List Char) {m : Mark} {cs tl : List Char}

/-- What a reader between single quotes holds back of the text after the
character `before`: blanks, or breaks and the blanks that the next line starts
with. -/
inductive Holds (before : Char) (m : Mark) : (atStart : Bool) → Gap → Prop where
  | blanks {blanks : List Char} (hbefore : blanks ≠ [] → before = ' ')
      (hcolumn : m.column ≠ 0) :
      Holds before m false (.ofBlanks blanks)
  | breaks {first : Char} {others : List Char}
      (hbefore : Datum.Scalar.isBreak before = true) (hfirst : first ≠ '\n') :
      Holds before m true ⟨[], true, [first], others⟩

theorem readFrom_pad (single : Bool) {gap : Gap} (hbroken : gap.broken = true)
    (n : Nat) (y : List Char) :
    readFrom single start stop (glyphs (pad n ++ y) m) text (.text gap) =
      readFrom single start stop (glyphs y (m.afterAll (pad n))) text
        (.text gap) := by
  induction n generalizing m with
  | zero => rfl
  | succ n ih =>
      have := ih (m := m.after ' ')
      simpa [pad, List.replicate_succ, readFrom, Glyph.isBlank, Yaml.isBlank,
        Gap.addBlank, hbroken] using this

/-- The closing quote ends the scalar; what is held back belongs to it. -/
theorem readFrom_quote {gap : Gap} (htl : tl.head? ≠ some '\'')
    (hcolumn : m.column ≠ 0) :
    readFrom true start stop (glyphs ('\'' :: tl) m) text (.text gap) =
      .ok ⟨text.reverse ++ gap.text, glyphs tl (m.after '\'')⟩ := by
  cases tl with
  | nil =>
      simp [readFrom, Glyph.isBlank, Yaml.isBlank, Glyph.isBreak, Yaml.isBreak,
        Glyph.isDocumentBoundary_of_column hcolumn]
  | cons c tl =>
      have hc : c ≠ '\'' := by simpa using htl
      simp [readFrom, Glyph.isBlank, Yaml.isBlank, Glyph.isBreak, Yaml.isBreak,
        hc, Glyph.isDocumentBoundary_of_column hcolumn]

/-- A character that is no blank and no break ends the gap before it; a quote is
written twice. -/
theorem readFrom_singleChar {c : Char} (gap : Gap)
    (hblank : Yaml.isBlank c = false) (hbreak : Yaml.isBreak c = false)
    (hcolumn : m.column ≠ 0) (y : List Char) :
    let w := if c == '\'' then ['\'', '\''] else [c]
    readFrom true start stop (glyphs (w ++ y) m) text (.text gap) =
      readFrom true start stop (glyphs y (m.afterAll w))
        (c :: (gap.text.reverse ++ text)) (.text .empty) := by
  by_cases hquote : c = '\''
  · simp [hquote, readFrom, Glyph.isBlank, Yaml.isBlank, Glyph.isBreak,
      Yaml.isBreak, Glyph.isDocumentBoundary_of_column hcolumn]
  · simp [readFrom, Glyph.isBlank, Glyph.isBreak, hblank, hbreak, hquote,
      Glyph.isDocumentBoundary_of_column hcolumn]

/-- The blanks that a line of the scalar starts with are no part of it. -/
theorem readFrom_indent {before : Char} {atStart : Bool} {gap : Gap}
    (hholds : Holds before m atStart gap) {column : Nat} (hcolumn : column ≠ 0)
    (y : List Char) :
    let ws := if atStart then pad column else []
    (m.afterAll ws).column ≠ 0 ∧
      readFrom true start stop (glyphs (ws ++ y) m) text (.text gap) =
        readFrom true start stop (glyphs y (m.afterAll ws)) text
          (.text gap) := by
  cases hholds with
  | blanks _ hm => exact ⟨hm, rfl⟩
  | breaks _ _ =>
      refine ⟨?_, readFrom_pad start stop text true rfl column y⟩
      simp only [if_true, Mark.column_afterAll_pad]
      omega

/-- A break is held back too. There are no blanks before it, which would be
dropped. -/
theorem Holds.addBreak {before c : Char} {atStart : Bool} {gap : Gap}
    (h : Holds before m atStart gap) (hbefore : before ≠ ' ')
    (hc : Datum.Scalar.isBreak c = true) (hfeed : c ≠ '\n') :
    Holds c (m.after c) true (gap.addBreak c) ∧
    (gap.addBreak c).text = gap.text ++ [c] := by
  cases h with
  | @blanks blanks hblanks _ =>
      obtain rfl : blanks = [] := by
        by_contra hne
        exact hbefore (hblanks hne)
      exact ⟨.breaks hc hfeed, by
        simp [Gap.empty, Gap.addBreak, Gap.text, hfeed]⟩
  | breaks _ hfirst =>
      exact ⟨.breaks hc hfirst, by simp [Gap.addBreak, Gap.text, hfirst]⟩

/-- Any other character but a blank ends what is held back, on whichever line it
is written. -/
theorem Holds.readFrom_char {before c : Char} {atStart : Bool} {gap : Gap}
    (h : Holds before m atStart gap) (hblank : Yaml.isBlank c = false)
    (hbreak : Yaml.isBreak c = false) {column : Nat} (hcolumn : column ≠ 0)
    (y : List Char) :
    let w := (if atStart then pad column else []) ++
      (if c == '\'' then ['\'', '\''] else [c])
    Holds c (m.afterAll w) false .empty ∧
      readFrom true start stop (glyphs (w ++ y) m) text (.text gap) =
        readFrom true start stop (glyphs y (m.afterAll w))
          (c :: (gap.text.reverse ++ text)) (.text .empty) := by
  intro w
  obtain ⟨hm, hindent⟩ := readFrom_indent start stop text h hcolumn
    ((if c == '\'' then ['\'', '\''] else [c]) ++ y)
  have hchar := readFrom_singleChar start stop text gap hblank hbreak hm y
  have hline : ∀ d ∈ if c == '\'' then ['\'', '\''] else [c],
      Yaml.isBreak d = false := by
    have : Yaml.isBreak '\'' = false := rfl
    by_cases hquote : c = '\'' <;> simp [hquote, hbreak, this]
  have hm' :=
    (Mark.afterAll_of_line hline
      (m.afterAll (if atStart then pad column else []))).2
  rw [show w = _ from rfl, List.append_assoc, Mark.afterAll_append]
  exact ⟨.blanks (by simp) (by rw [hm']; omega), hindent.trans hchar⟩

/-- A text between single quotes is read as the text. -/
theorem readFrom_singleQuoted {before : Char} {atStart : Bool} {gap : Gap}
    {column : Nat} (hprint : ∀ c ∈ cs, isPrintable c = true) (hline : '\n' ∉ cs)
    (hblank : hasPair (· == ' ') Datum.Scalar.isBreak (before :: cs) = false)
    (hbreak : hasPair Datum.Scalar.isBreak (· == ' ') (before :: cs) = false)
    (hholds : Holds before m atStart gap) (hcolumn : column ≠ 0)
    (htl : tl.head? ≠ some '\'') :
    readFrom true start stop (glyphs (singleQuoted column atStart cs ++ tl) m)
      text (.text gap) = .ok ⟨text.reverse ++ gap.text ++ cs,
        glyphs tl (m.afterAll (singleQuoted column atStart cs))⟩ := by
  induction cs generalizing before atStart gap text m with
  | nil =>
      obtain ⟨hm, hindent⟩ :=
        readFrom_indent start stop text hholds hcolumn ('\'' :: tl)
      rw [singleQuoted, List.append_assoc, Mark.afterAll_append]
      exact hindent.trans (by simpa using readFrom_quote start stop text htl hm)
  | cons c cs ih =>
      have hc : isPrintable c = true := hprint c (by simp)
      have hprint' : ∀ d ∈ cs, isPrintable d = true :=
        fun d hd => hprint d (by simp [hd])
      obtain ⟨hfeed, hline'⟩ : c ≠ '\n' ∧ '\n' ∉ cs := by
        simpa [eq_comm] using hline
      simp only [hasPair, Bool.or_eq_false_iff] at hblank hbreak
      obtain ⟨hblank, hblank'⟩ := hblank
      obtain ⟨hbreak, hbreak'⟩ := hbreak
      by_cases hends : Datum.Scalar.isBreak c = true
      · have hyaml : Yaml.isBreak c = true := by
          rw [isBreak_of_isPrintable hc, hends]
        have hyaml' : Yaml.isBlank c = false := by
          have : c ≠ ' ' := by rintro rfl; exact absurd hends (by decide)
          simp [isBlank_of_isPrintable hc, this]
        have hbefore : before ≠ ' ' := by simpa [hends] using hblank
        obtain ⟨hholds', htext⟩ := hholds.addBreak hbefore hends hfeed
        have := ih text hprint' hline' hblank' hbreak' hholds'
        rw [singleQuoted, if_pos hends, List.cons_append, Glyph.glyphs_cons,
          readFrom]
        simpa [Glyph.isBlank, Glyph.isBreak, hyaml, hyaml', htext] using this
      · have hyaml : Yaml.isBreak c = false := by
          simpa [isBreak_of_isPrintable hc] using hends
        rw [singleQuoted, if_neg hends]
        by_cases hspace : c = ' '
        · subst hspace
          cases hholds with
          | breaks hbefore _ => simp [hbefore] at hbreak
          | @blanks blanks _ hm =>
              have hholds' :
                  Holds ' ' (m.after ' ') false (.ofBlanks (blanks ++ [' '])) :=
                .blanks (fun _ => rfl)
                  (by simp [Mark.after_of_not_isBreak hyaml, Mark.next])
              have := ih text hprint' hline' hblank' hbreak' hholds'
              simpa [readFrom, Glyph.isBlank, Yaml.isBlank] using this
        · have hyaml' : Yaml.isBlank c = false := by
            simp [isBlank_of_isPrintable hc, hspace]
          obtain ⟨hholds', hread⟩ :=
            hholds.readFrom_char start stop text hyaml' hyaml hcolumn
            (singleQuoted column false cs ++ tl)
          have hrest := ih (c :: (gap.text.reverse ++ text)) hprint' hline'
            hblank' hbreak' hholds'
          rw [List.append_assoc, hread, hrest, Mark.afterAll_append]
          simp [Gap.text, Gap.empty]

theorem hasPair_cons {first second : Char → Bool} {c : Char}
    (hc : first c = false) (cs : List Char) :
    hasPair first second (c :: cs) = hasPair first second cs := by
  cases cs <;> simp [hasPair, hc]

theorem read_of_allowsSingle (h : Datum.Scalar.allowsSingle cs = true)
    (hline : '\n' ∉ cs) {column : Nat} (hcolumn : column ≠ 0)
    (hm : m.column ≠ 0) (htl : tl.head? ≠ some '\'') :
    read true start stop (glyphs (singleQuoted column false cs ++ tl) m) =
      .ok ⟨cs, glyphs tl (m.afterAll (singleQuoted column false cs))⟩ := by
  simp only [Datum.Scalar.allowsSingle, Datum.Scalar.needsEscapes,
    Bool.not_eq_true', Bool.or_eq_false_iff, List.any_eq_false] at h
  obtain ⟨⟨hescape, hblank⟩, hbreak⟩ := h
  have hholds : Holds '\'' m false .empty := .blanks (by simp) hm
  have hread := readFrom_singleQuoted start stop []
    (fun c hc => by simpa using hescape c hc) hline
    (by rwa [hasPair_cons rfl]) (by rwa [hasPair_cons rfl]) hholds hcolumn htl
  simpa [read, Gap.text, Gap.empty] using hread

/-! ## Texts between double quotes -/

/-- The number that hexadecimal digits continue another one to. -/
def hexFrom? (value : Nat) : List Char → Option Nat
  | [] => some value
  | d :: ds => (hexValue? d).bind fun digit => hexFrom? (value * 16 + digit) ds

/-- A text between double quotes stands for a character. -/
inductive Spells : List Char → Char → Prop where
  | raw {c : Char} (hbreak : Yaml.isBreak c = false) (hquote : c ≠ '"')
      (hescape : c ≠ '\\') :
      Spells [c] c
  | escape {e c : Char} (h : escapeValue? e = some c) : Spells ['\\', e] c
  | digits {e c : Char} {ds : List Char} (he : escapeWidth? e = some ds.length)
      (hds : ds ≠ []) (h : hexFrom? 0 ds = some c.toNat) :
      Spells ('\\' :: e :: ds) c

/-- A character that is read as something between double quotes ends no line. -/
theorem isBreak_of_isSome {α : Type} {f : Char → Option α} {c : Char}
    (h : (f c).isSome = true) (hfeed : f '\n' = none := by rfl)
    (hline : f '\u2028' = none := by rfl)
    (hparagraph : f '\u2029' = none := by rfl) : Yaml.isBreak c = false := by
  by_contra hbreak
  simp only [isBreak, Bool.not_eq_false, Bool.or_eq_true, beq_iff_eq] at hbreak
  rcases hbreak with (rfl | rfl) | rfl <;> simp_all

theorem isBreak_of_hexFrom? {value n : Nat} {ds : List Char}
    (h : hexFrom? value ds = some n) :
    ∀ d ∈ ds, Yaml.isBreak d = false := by
  induction ds generalizing value with
  | nil => simp
  | cons d ds ih =>
      obtain ⟨digit, hdigit, h⟩ := Option.bind_eq_some_iff.1 h
      intro c hc
      rcases List.mem_cons.1 hc with rfl | hc
      · exact isBreak_of_isSome (f := hexValue?) (by simp [hdigit])
      · exact ih h c hc

theorem isBreak_of_escapeWidth? {e : Char} {n : Nat}
    (h : escapeWidth? e = some n) :
    Yaml.isBreak e = false ∧ escapeValue? e = none := by
  unfold escapeWidth? at h
  split at h <;> first | exact ⟨rfl, rfl⟩ | cases h

/-- What stands for a character is part of a line. -/
theorem Spells.line {w : List Char} {c : Char} (h : Spells w c) :
    w ≠ [] ∧ ∀ d ∈ w, Yaml.isBreak d = false := by
  cases h with
  | raw hbreak _ _ => simp [hbreak]
  | @escape e _ h =>
      have he : Yaml.isBreak e = false :=
        isBreak_of_isSome (f := escapeValue?) (by simp [h])
      simp [he, show Yaml.isBreak '\\' = false from rfl]
  | digits he _ h =>
      simpa [(isBreak_of_escapeWidth? he).1, show Yaml.isBreak '\\' =
        false from rfl] using isBreak_of_hexFrom? h

theorem charOfNat?_toNat (c : Char) : charOfNat? c.toNat = some c := by
  have hvalid : c.toNat.isValidChar := c.valid
  unfold charOfNat?
  exact dif_pos hvalid

theorem readFrom_digits {value : Nat} {ds y : List Char} {c : Char}
    {mark : Mark} (hds : ds ≠ []) (h : hexFrom? value ds = some c.toNat) :
    readFrom false start stop (glyphs (ds ++ y) m) text
      (.digits ds.length value mark) =
      readFrom false start stop (glyphs y (m.afterAll ds)) (c :: text)
        (.text .empty) := by
  induction ds generalizing value m with
  | nil => exact absurd rfl hds
  | cons d ds ih =>
      obtain ⟨digit, hdigit, h⟩ := Option.bind_eq_some_iff.1 h
      cases ds with
      | nil =>
          have hvalue : value * 16 + digit = c.toNat := by
            simpa [hexFrom?] using h
          simp [readFrom, hdigit, hvalue, charOfNat?_toNat]
      | cons d' ds =>
          have := ih (m := m.after d) (by simp) h
          simpa [readFrom, hdigit] using this

theorem readFrom_backslash {gs : List Glyph} {gap : Gap} (hm : m.column ≠ 0) :
    readFrom false start stop (⟨'\\', m⟩ :: gs) text (.text gap) =
      readFrom false start stop gs (gap.text.reverse ++ text) (.escape m) := by
  simp [readFrom, Glyph.isBlank, Yaml.isBlank, Glyph.isBreak, Yaml.isBreak,
    Glyph.isDocumentBoundary_of_column hm]

/-- Characters that are written one after the other are read one after the
other. -/
theorem readFrom_spelled (blanks tl : List Char) {write : Char → List Char}
    (h : ∀ c ∈ cs, Spells (write c) c) (hm : m.column ≠ 0) :
    readFrom false start stop (glyphs (cs.flatMap write ++ '"' :: tl) m) text
        (.text (.ofBlanks blanks)) =
      .ok ⟨text.reverse ++ blanks ++ cs,
        glyphs tl (m.afterAll (cs.flatMap write ++ ['"']))⟩ := by
  have hboundary : ∀ c gs, Glyph.isDocumentBoundary (⟨c, m⟩ :: gs) = false :=
    fun c gs => Glyph.isDocumentBoundary_of_column hm c gs
  induction cs generalizing text blanks m with
  | nil =>
      simp [readFrom, Glyph.isBlank, Yaml.isBlank, Glyph.isBreak, Yaml.isBreak,
        hboundary]
  | cons c cs ih =>
      have hspells := h c (by simp)
      have hline := (Mark.afterAll_of_line hspells.line.2 m).2
      have hm' : (m.afterAll (write c)).column ≠ 0 := by omega
      have hrest := fun text blanks => ih text blanks
        (fun d hd => h d (by simp [hd])) hm'
        fun c gs => Glyph.isDocumentBoundary_of_column hm' c gs
      rw [List.flatMap_cons, List.append_assoc, List.append_assoc,
        Mark.afterAll_append]
      generalize write c = w at hspells hrest
      cases hspells with
      | raw hbreak hquote hescape =>
          by_cases hblank : Yaml.isBlank c = true
          · have := hrest text (blanks ++ [c])
            simpa [readFrom, Glyph.isBlank, hblank] using this
          · have := hrest (c :: (blanks.reverse ++ text)) []
            simpa [readFrom, Glyph.isBlank, hblank, Glyph.isBreak, hbreak,
              hboundary, hquote, hescape] using this
      | @escape e _ hvalue =>
          have he : Yaml.isBreak e = false :=
            isBreak_of_isSome (f := escapeValue?) (by simp [hvalue])
          have := hrest (c :: (blanks.reverse ++ text)) []
          rw [List.cons_append, Glyph.glyphs_cons,
            readFrom_backslash start stop text hm]
          simpa [readFrom, Glyph.isBreak, he, hvalue] using this
      | @digits e _ ds hwidth hds hvalue =>
          obtain ⟨he, hnone⟩ := isBreak_of_escapeWidth? hwidth
          have := hrest (c :: (blanks.reverse ++ text)) []
          rw [List.cons_append, Glyph.glyphs_cons,
            readFrom_backslash start stop text hm]
          simpa [readFrom, Glyph.isBreak, he, hnone, hwidth,
            readFrom_digits start stop _ hds hvalue] using this

theorem hexFrom?_append (value : Nat) (as bs : List Char) :
    hexFrom? value (as ++ bs) = (hexFrom? value as).bind (hexFrom? · bs) := by
  induction as generalizing value with
  | nil => rfl
  | cons a as ih => simp [hexFrom?, ih, Option.bind_assoc]

theorem hexValue?_digitChar (n : Nat) :
    hexValue? (Nat.digitChar (n % 16)).toUpper = some (n % 16) ∧
      hexValue? (Nat.digitChar (n % 16)) = some (n % 16) := by
  have h : ∀ d : Fin 16, hexValue? (Nat.digitChar d).toUpper = some d.val ∧
      hexValue? (Nat.digitChar d) = some d.val := by decide
  exact h ⟨n % 16, Nat.mod_lt n (by decide)⟩

end QuotedScalar

end Yaml

namespace Datum.Scalar

open Yaml.QuotedScalar (Spells hexFrom? hexFrom?_append hexValue?_digitChar)

theorem hexFrom?_hexDigits (width value n : Nat) :
    hexFrom? value (hexDigits width n) =
      some (value * 16 ^ width + n % 16 ^ width) := by
  induction width generalizing n with
  | zero => simp [hexDigits, hexFrom?, Nat.mod_one]
  | succ width ih =>
      rw [hexDigits, hexFrom?_append, ih]
      simp only [hexFrom?, Option.bind_some, (hexValue?_digitChar n).1]
      rw [Nat.pow_succ', Nat.mod_mul]
      congr 1
      ring

theorem length_hexDigits (width n : Nat) :
    (hexDigits width n).length = width := by
  induction width generalizing n with
  | zero => rfl
  | succ width ih => simp [hexDigits, ih]

theorem spells_hexDigits {e c : Char} {width : Nat}
    (he : Yaml.QuotedScalar.escapeWidth? e = some width) (hwidth : width ≠ 0)
    (hc : c.toNat < 16 ^ width) :
    Spells ('\\' :: e :: hexDigits width c.toNat) c := by
  have hlength := length_hexDigits width c.toNat
  refine .digits (by rw [hlength, he]) ?_ ?_
  · rintro hnil
    rw [hnil] at hlength
    exact hwidth hlength.symm
  · rw [hexFrom?_hexDigits, Nat.mod_eq_of_lt hc]
    simp

/-- An escaped character stands for itself. -/
theorem spells_escaped (c : Char) : Spells (escaped c) c := by
  unfold escaped
  split
  · next h =>
      simp only [Bool.and_eq_true, bne_iff_ne, Bool.not_eq_true'] at h
      obtain ⟨⟨⟨hprint, hbreak⟩, hquote⟩, hescape⟩ := h
      exact .raw (by rw [isBreak_of_isPrintable hprint, hbreak]) hquote hescape
  · split
    case h_15 =>
      split
      · exact spells_hexDigits rfl (by decide) (by omega)
      · split
        · exact spells_hexDigits rfl (by decide) (by omega)
        · exact spells_hexDigits rfl (by decide) (UInt32.toNat_lt _)
    all_goals exact .escape rfl

end Datum.Scalar

/-! ## Texts line by line -/

namespace Yaml.BlockScalar

open Datum.Scalar
  (isPrintable pad lines header allowsLiteral isBreak_of_isPrintable
  isBlank_of_isPrintable)

variable (level : Nat) (start stop : Mark) {m : Mark} {indent : Nat}
  {cs : List Char} {p : Progress}

/-- What has to become of the breaks at the end of a text for it to be read as
it is. -/
def chompingOf (cs : List Char) : Chomping :=
  match cs.reverse with
  | [] => .strip
  | [c] => if Datum.Scalar.isBreak c then .keep else .strip
  | c :: d :: _ =>
      if !Datum.Scalar.isBreak c then .strip
      else if Datum.Scalar.isBreak d then .keep else .clip

/-- Whether the first line of a text cannot tell where lines start. -/
def needsHint (cs : List Char) :
    Bool := cs.head?.any fun c => c == ' ' || Datum.Scalar.isBreak c

theorem header_eq (cs : List Char) :
    header cs = '|' :: (if needsHint cs then ['2'] else []) ++
      match chompingOf cs with
      | .strip => ['-']
      | .clip => []
      | .keep => ['+'] := by
  unfold header chompingOf needsHint
  rcases cs.reverse with _ | ⟨c, _ | ⟨d, ds⟩⟩
  · rfl
  · cases hc : Datum.Scalar.isBreak c <;> simp [hc]
  · cases hc : Datum.Scalar.isBreak c <;> cases hd : Datum.Scalar.isBreak d <;>
      simp [hc, hd]

/-- The header says what becomes of the breaks, and where lines start if it has
to. -/
theorem readHeader_header (cs y : List Char) :
    readHeader start stop (glyphs ((header cs).tail ++ '\n' :: y) m) =
      .ok (⟨chompingOf cs, if needsHint cs then 2 else 0⟩,
        glyphs y (m.afterAll ((header cs).tail ++ ['\n']))) := by
  rw [header_eq]
  cases needsHint cs <;> cases chompingOf cs <;> rfl

/-- What a reader holds of the lines `r` of a text that is indented by
`indent`. -/
inductive Holds (indent : Nat) (r : List Char) (m : Mark) :
    (atStart : Bool) → Progress → State → Prop where
  | inLine {p : Progress} (htext : p.text.reverse = r) (hfirst : p.first = [])
      (hothers : p.others = []) (hlast : chompingOf r = .strip) (hr : r ≠ []) :
      Holds indent r m false p (.inLine indent)
  | lineStart {p : Progress} {widest : Nat}
      (htext : p.text.reverse ++ p.first ++ p.others = r)
      (hlast : r = [] ∨ chompingOf r ≠ .strip)
      (hclip : chompingOf r = .clip → p.others = []) (hm : m.column = 0) :
      Holds indent r m true p (.lineStart indent widest)

theorem chompingOf_concat_of_not_isBreak {c : Char}
    (h : Datum.Scalar.isBreak c = false) (r : List Char) :
    chompingOf (r ++ [c]) = .strip := by
  cases hr : r.reverse <;> simp [chompingOf, hr, h]

theorem chompingOf_concat_of_isBreak {c : Char}
    (h : Datum.Scalar.isBreak c = true) (r : List Char) :
    chompingOf (r ++ [c]) = if r ≠ [] ∧
    chompingOf r = .strip then .clip else .keep := by
  cases hr : r.reverse with
  | nil =>
      obtain rfl : r = [] := by simpa using hr
      simp [chompingOf, h]
  | cons d ds =>
      have hne : r ≠ [] := by rintro rfl; simp at hr
      cases hd : Datum.Scalar.isBreak d with
      | false => cases ds <;> simp [chompingOf, hr, h, hd, hne]
      | true =>
          cases ds with
          | nil => simp [chompingOf, hr, h, hd]
          | cons e ds =>
              cases he : Datum.Scalar.isBreak e <;>
                simp [chompingOf, hr, h, hd, he]

/-- The blanks that a line starts with are no part of the text, as far as lines
are indented. -/
theorem readFrom_pad (chomping : Chomping) (widest : Nat) {i n : Nat}
    (h : i = 0 ∨ m.column + n ≤ i) (y : List Char) :
    ∃ widest', (widest = m.column → widest' = m.column + n) ∧
      readFrom true level start chomping (glyphs (pad n ++ y) m) p
        (.lineStart i widest) =
        readFrom true level start chomping (glyphs y (m.afterAll (pad n))) p
          (.lineStart i widest') := by
  induction n generalizing m widest with
  | zero => exact ⟨widest, id, rfl⟩
  | succ n ih =>
      have hcolumn : (m.after ' ').column = m.column + 1 := rfl
      obtain ⟨widest', hwidest', hread⟩ :=
        ih (max widest (m.column + 1)) (m := m.after ' ') (by omega)
      refine ⟨widest', by omega, ?_⟩
      have hshort : i = 0 ∨ m.column < i := by omega
      simpa [pad, List.replicate_succ, readFrom, hshort] using hread

/-- A line starts with its first character that is no blank to its left. -/
theorem readFrom_startLine (chomping : Chomping) (widest : Nat)
    (gs : List Glyph) {i : Nat} {c : Char} (hc : isPrintable c = true)
    (hbreak : Datum.Scalar.isBreak c = false)
    (hcolumn : m.column = settleIndent level i widest) (hi : i = 0 → c ≠ ' ') :
    readFrom true level start chomping (⟨c, m⟩ :: gs) p (.lineStart i widest) =
      readFrom true level start chomping gs (p.startLine true c)
        (.inLine m.column) := by
  have hyaml : Yaml.isBreak c = false := by
    rw [isBreak_of_isPrintable hc, hbreak]
  have htab : c ≠ '\t' := Datum.Scalar.ne_of_isPrintable hc (by decide)
  have hlong : ¬ (i = 0 ∨ m.column < i) ∨ c ≠ ' ' := by
    by_cases h : i = 0
    · exact .inr (hi h)
    · exact .inl (by simp [settleIndent, h] at hcolumn; omega)
  have hshort : ((decide (i = 0) || decide (m.column < i)) && c == ' ') =
      false := by
    rcases hlong with h | h <;> simp_all
  simp [readFrom, hshort, htab, Glyph.isBreak, hyaml, ← hcolumn]

/-- A break ends a line, or is an empty one. -/
theorem Holds.readFrom_break {r : List Char} {atStart : Bool} {st : State}
    {c : Char} (h : Holds indent r m atStart p st) (hc : isPrintable c = true)
    (hbreak : Datum.Scalar.isBreak c = true) (y : List Char)
    (chomping : Chomping) :
    ∃ p' st', Holds indent (r ++ [c]) (m.after c) true p' st' ∧
      readFrom true level start chomping (glyphs (c :: y) m) p st =
        readFrom true level start chomping (glyphs y (m.after c)) p' st' := by
  have hyaml : Yaml.isBreak c = true := by
    rw [isBreak_of_isPrintable hc, hbreak]
  have hcolumn : (m.after c).column = 0 := by
    simp [Mark.after, hyaml, Mark.nextLine]
  have hconcat := chompingOf_concat_of_isBreak hbreak r
  cases h with
  | inLine htext hfirst hothers hlast hr =>
      refine ⟨{ p with first := [c] }, .lineStart indent 0,
        .lineStart ?_ ?_ ?_ hcolumn, ?_⟩
      · simp [htext, hothers]
      · rw [hconcat]; simp [hlast, hr]
      · exact fun _ => hothers
      · simp [readFrom, Glyph.isBreak, hyaml]
  | @lineStart _ widest htext hlast hclip hm =>
      have hkeep : chompingOf (r ++ [c]) = .keep := by
        rw [hconcat, if_neg]
        rintro ⟨hr, hstrip⟩
        exact hlast.elim hr fun h => h hstrip
      refine ⟨{ p with others := p.others ++ [c] }, .lineStart indent widest,
        .lineStart ?_ ?_ ?_ hcolumn, ?_⟩
      · simp [← htext]
      · simp [hkeep]
      · simp [hkeep]
      · have hspace : c ≠ ' ' := by rintro rfl; exact absurd hbreak (by decide)
        have htab : c ≠ '\t' := Datum.Scalar.ne_of_isPrintable hc (by decide)
        simp [readFrom, Glyph.isBreak, hyaml, hspace, htab]

theorem settleIndent_of_ne_zero {i : Nat} (h : i ≠ 0) (level widest : Nat) :
    settleIndent level i widest = i := by
  simp [settleIndent, h]

/-- Any other character goes on with its line, or starts one where lines are
indented to. -/
theorem Holds.readFrom_char {r : List Char} {atStart : Bool} {st : State}
    {c : Char} (h : Holds indent r m atStart p st) (hc : isPrintable c = true)
    (hbreak : Datum.Scalar.isBreak c = false) (hindent : indent ≠ 0)
    (y : List Char) (chomping : Chomping) :
    let ws := if atStart then pad indent else []
    ∃ p' st', Holds indent (r ++ [c]) ((m.afterAll ws).after c) false p' st' ∧
      readFrom true level start chomping (glyphs (ws ++ c :: y) m) p st =
        readFrom true level start chomping (glyphs y ((m.afterAll ws).after c))
          p' st' := by
  have hyaml : Yaml.isBreak c = false := by
    rw [isBreak_of_isPrintable hc, hbreak]
  have hconcat := chompingOf_concat_of_not_isBreak hbreak r
  cases h with
  | inLine htext hfirst hothers hlast hr =>
      refine ⟨{ p with text := c :: p.text }, .inLine indent,
        .inLine ?_ hfirst hothers hconcat (by simp), ?_⟩
      · simp [htext]
      · simp [readFrom, Glyph.isBreak, hyaml]
  | @lineStart _ widest htext hlast hclip hm =>
      obtain ⟨widest', -, hpad⟩ :=
        readFrom_pad level start chomping widest (m := m) (p := p)
        (i := indent) (n := indent) (by omega) (c :: y)
      refine ⟨p.startLine true c, .inLine indent,
        .inLine ?_ rfl rfl hconcat (by simp), hpad.trans ?_⟩
      · simp [Progress.startLine, ← htext]
      · have hcolumn : (m.afterAll (pad indent)).column = indent := by simp [hm]
        have := readFrom_startLine level start chomping widest'
          (glyphs y ((m.afterAll (pad indent)).after c)) (p := p) (i := indent)
            hc hbreak
          (by rw [hcolumn, settleIndent_of_ne_zero hindent])
            (fun h => absurd h hindent)
        rw [hcolumn] at this
        exact this

/-- The lines of a text are held as the text. -/
theorem Holds.readFrom_lines {r : List Char} {atStart : Bool} {st : State}
    (h : Holds indent r m atStart p st)
    (hprint : ∀ c ∈ cs, isPrintable c = true) (hindent : indent ≠ 0)
    (tl : List Char) (chomping : Chomping) :
    ∃ atStart' p' st', Holds indent (r ++ cs)
      (m.afterAll (lines indent atStart cs)) atStart' p' st' ∧
      readFrom true level start chomping
        (glyphs (lines indent atStart cs ++ tl) m) p st =
        readFrom true level start chomping
          (glyphs tl (m.afterAll (lines indent atStart cs))) p' st' := by
  induction cs generalizing r m p st atStart with
  | nil => exact ⟨atStart, p, st, by simpa [lines] using h, rfl⟩
  | cons c cs ih =>
      have hc := hprint c (by simp)
      have hprint' : ∀ d ∈ cs, isPrintable d = true :=
        fun d hd => hprint d (by simp [hd])
      rw [lines]
      split
      · next hbreak =>
          obtain ⟨p', st', hholds, hread⟩ :=
            h.readFrom_break level start hc hbreak
            (lines indent true cs ++ tl) chomping
          obtain ⟨atStart', q, sq, hholds', hread'⟩ := ih hholds hprint'
          refine ⟨atStart', q, sq, by simpa using hholds', hread.trans hread'⟩
      · next hbreak =>
          obtain ⟨p', st', hholds, hread⟩ := h.readFrom_char level start hc
            (by simpa using hbreak) hindent (lines indent false cs ++ tl)
              chomping
          obtain ⟨atStart', q, sq, hholds', hread'⟩ := ih hholds hprint'
          refine ⟨atStart', q, sq, by simpa using hholds', ?_⟩
          rw [List.append_assoc, Mark.afterAll_append]
          exact hread.trans hread'

/-- A text has to be stripped unless a break ends it. -/
theorem chompingOf_eq_strip_iff (cs : List Char) :
    chompingOf cs = .strip ↔ cs.getLast?.any Datum.Scalar.isBreak = false := by
  rcases List.eq_nil_or_concat cs with rfl | ⟨r, c, rfl⟩
  · simp [chompingOf]
  · cases hc : Datum.Scalar.isBreak c with
    | false => simp [chompingOf_concat_of_not_isBreak hc, hc]
    | true =>
        rw [List.concat_eq_append, chompingOf_concat_of_isBreak hc]
        split <;> simp [hc]

/-- The end of the last line, unless a break of the text is it. -/
def lineEnd (cs : List Char) : List Char :=
  if cs.getLast?.any Datum.Scalar.isBreak then [] else ['\n']

/-- The scalar ends before a token further left, and is what the reader
holds. -/
theorem readFrom_dedent (chomping : Chomping) (widest : Nat) {n : Nat}
    {x : List Char} (hm : m.column = 0) (hn : n < indent) (hx : StartsToken x) :
    readFrom true level start chomping (glyphs (pad n ++ x) m) p
      (.lineStart indent widest) =
      .ok ⟨p.finish chomping, glyphs x (m.afterAll (pad n))⟩ := by
  obtain ⟨widest', -, hread⟩ :=
    readFrom_pad level start chomping widest (m := m) (p := p)
    (i := indent) (n := n) (by omega) x
  rw [hread]
  have hcolumn : (m.afterAll (pad n)).column = n := by simp [hm]
  cases x with
  | nil => rfl
  | cons c cs =>
      obtain ⟨hblank, hbreak, -, -⟩ := hx
      simp only [Yaml.isBlank, Bool.or_eq_false_iff, beq_eq_false_iff_ne]
        at hblank
      have hsettle : n ≠ settleIndent level indent widest' := by
        rw [settleIndent_of_ne_zero (by omega)]
        omega
      simp [readFrom, Glyph.isBreak, hbreak, hblank, hcolumn, hsettle]

theorem Holds.readFrom_end {atStart : Bool} {st : State} {n : Nat}
    {x : List Char} (h : Holds indent cs m atStart p st) (hcs : cs ≠ [])
    (hn : n < indent) (hx : StartsToken x) :
    readFrom true level start (chompingOf cs)
      (glyphs (lineEnd cs ++ (pad n ++ x)) m) p st =
      .ok ⟨cs, glyphs x (m.afterAll (lineEnd cs ++ pad n))⟩ := by
  cases h with
  | inLine htext hfirst hothers hlast hr =>
      have hend : lineEnd cs = ['\n'] := by
        simp [lineEnd, (chompingOf_eq_strip_iff cs).1 hlast]
      have := readFrom_dedent level start (chompingOf cs) 0
        (p := { p with first := ['\n'] }) (m := m.after '\n') rfl hn hx
      rw [hend]
      simpa [readFrom, Glyph.isBreak, Yaml.isBreak, hlast, Progress.finish,
        htext] using this
  | @lineStart _ widest htext hlast hclip hm =>
      have hstrip : chompingOf cs ≠ .strip := hlast.resolve_left hcs
      have hend : lineEnd cs = [] := by
        have := mt (chompingOf_eq_strip_iff cs).2 hstrip
        simp only [Bool.not_eq_false] at this
        simp [lineEnd, this]
      have hfinish : p.finish (chompingOf cs) = cs := by
        cases hchomping : chompingOf cs with
        | strip => exact absurd hchomping hstrip
        | clip => simpa [Progress.finish, hclip hchomping] using htext
        | keep => simpa [Progress.finish] using htext
      rw [hend]
      simpa [hfinish] using readFrom_dedent level start (chompingOf cs) widest
        (p := p) hm hn hx

/-- The lines of a text are read as the text, where the header or the first line
tells how far they are indented. -/
theorem readFrom_text (hprint : ∀ c ∈ cs, isPrintable c = true) (hcs : cs ≠ [])
    {column n : Nat} {x : List Char} (hn : n ≤ column) (hx : StartsToken x)
    (hm : m.column = 0) :
    readFrom true (column + 1) start (chompingOf cs)
        (glyphs (lines (column + 2) true cs ++ (lineEnd cs ++ (pad n ++ x))) m)
        .empty (.lineStart (if needsHint cs then column + 2 else 0) 0) =
      .ok ⟨cs, glyphs x
        (m.afterAll (lines (column + 2) true cs ++ (lineEnd cs ++ pad n)))⟩ := by
  -- Without a number in the header the first line settles how far the text is
  -- indented, so its first character is read before the others.
  cases hhint : needsHint cs with
  | true =>
      have hholds :
          Holds (column + 2) [] m true .empty (.lineStart (column + 2) 0) :=
        .lineStart rfl (.inl rfl) (fun _ => rfl) hm
      obtain ⟨atStart, p, st, hholds', hlines⟩ :=
        hholds.readFrom_lines (column + 1) start hprint
        (by omega) (lineEnd cs ++ (pad n ++ x)) (chompingOf cs)
      have hend := hholds'.readFrom_end (column + 1) start hcs
        (Nat.lt_add_right 1 (Nat.lt_succ_of_le hn)) hx
      rw [if_pos rfl, Mark.afterAll_append]
      exact hlines.trans hend
  | false =>
      obtain ⟨c, cs, rfl⟩ := List.exists_cons_of_ne_nil hcs
      have hc := hprint c (by simp)
      obtain ⟨hspace, hbreak⟩ : (c == ' ') = false ∧
          Datum.Scalar.isBreak c = false := by
        simpa [needsHint] using hhint
      obtain ⟨widest, hwidest, hpad⟩ :=
        readFrom_pad (column + 1) start (chompingOf (c :: cs)) 0
        (m := m) (p := .empty) (i := 0) (n := column + 2) (.inl rfl)
        (c :: lines (column + 2) false cs ++
          (lineEnd (c :: cs) ++ (pad n ++ x)))
      have hcolumn : (m.afterAll (pad (column + 2))).column = column + 2 := by
        simp [hm]
      have hfirst := readFrom_startLine (column + 1) start
        (chompingOf (c :: cs)) widest
        (glyphs
          (lines (column + 2) false cs ++ (lineEnd (c :: cs) ++ (pad n ++ x)))
          ((m.afterAll (pad (column + 2))).after c))
        (m := m.afterAll (pad (column + 2))) (p := .empty) (i := 0) hc hbreak
        (by rw [hcolumn, hwidest hm.symm, hm, settleIndent, if_pos rfl]; omega)
        (fun _ => by simpa using hspace)
      have hholds :
        Holds (column + 2) [c] ((m.afterAll (pad (column + 2))).after c) false
          (Progress.empty.startLine true c) (.inLine (column + 2)) :=
        .inLine rfl rfl rfl (chompingOf_concat_of_not_isBreak hbreak [])
          (by simp)
      have hprint' : ∀ d ∈ cs, isPrintable d = true :=
        fun d hd => hprint d (by simp [hd])
      obtain ⟨atStart, p, st, hholds', hlines⟩ :=
        hholds.readFrom_lines (column + 1) start hprint'
        (by omega) (lineEnd (c :: cs) ++ (pad n ++ x)) (chompingOf (c :: cs))
      have hend := hholds'.readFrom_end (column + 1) start (by simp)
        (Nat.lt_add_right 1 (Nat.lt_succ_of_le hn)) hx
      rw [hcolumn] at hfirst
      rw [if_neg (by simp), lines, if_neg (by simp [hbreak]), if_pos rfl,
        List.append_assoc]
      refine (hpad.trans (hfirst.trans (hlines.trans hend))).trans ?_
      simp

/-- A text that is written line by line is read as the text. -/
theorem read_of_allowsLiteral (h : allowsLiteral cs = true) (hcs : cs ≠ [])
    {column n : Nat} {x : List Char} (hn : n ≤ column) (hx : StartsToken x) :
    read true (column + 1) start stop
        (glyphs ((header cs).tail ++ '\n' :: (lines (column + 2) true cs
          ++ (lineEnd cs ++ (pad n ++ x)))) m) =
      .ok ⟨cs, glyphs x
        (m.afterAll ((header cs).tail ++ '\n' :: (lines (column + 2) true cs
          ++ (lineEnd cs ++ pad n))))⟩ := by
  simp only [allowsLiteral, Datum.Scalar.needsEscapes, Bool.not_eq_true',
    Bool.or_eq_false_iff, List.any_eq_false] at h
  have hprint : ∀ c ∈ cs, isPrintable c = true :=
    fun c hc => by simpa using h.1.1 c hc
  have hm : (m.afterAll ((header cs).tail ++ ['\n'])).column = 0 := by
    simp [Mark.after, isBreak, Mark.nextLine]
  have hread := readFrom_text start hprint hcs hn hx hm
  rw [read, readHeader_header]
  cases hhint : needsHint cs <;> simpa [hhint, bind, Except.bind] using hread

end Yaml.BlockScalar

end DaggerWorkflows
