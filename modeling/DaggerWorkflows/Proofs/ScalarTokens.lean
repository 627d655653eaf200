import DaggerWorkflows.Proofs.BlockSteps
import DaggerWorkflows.Proofs.ScalarReading
import Mathlib.Data.String.Basic

/-!
# Scalars among tokens

A reader that stands before a scalar reads it in one step, whatever its style.
What differs is what the reader takes of the text behind it: without quotes all
that separates it from the next token, line by line the end of its last line,
and between quotes nothing. So a scalar before a colon leaves a key that is
noted (`Stands.scalarKey`), and one at the end of a line leaves the reader where
it resumes on a later line (`Stands.scalarLine`).
-/

namespace DaggerWorkflows

namespace Yaml

namespace Lexer

open Glyph (glyphs)
open Datum.Scalar (pad)

/-- The place before a scalar as one where a key may have started, where keys
are allowed. -/
def Frame.possibleKey (F : Frame) (allowed : Bool) (m : Mark) :
    Option PossibleKey :=
  if allowed then some ⟨F.kinds.length, F.level == m.column + 1, m⟩ else none

/-- The reader `t` has been before a scalar at `m`; now it has read the
characters `w` of it and is before `y`. -/
structure Scanned (t : Lexer) (F : Frame) (key : Option PossibleKey)
    (w y : List Char) (m : Mark) (token : Token.Kind) (broken : Bool) :
    Prop where
  before : t.Before y (m.afterAll w)
  frame : t.frame = F.add [token]
  outer : t.outer = []
  key : t.key = key
  keyAllowed : t.keyAllowed = broken

variable {s : Lexer} {F : Frame} {floor n : Nat} {allowed broken : Bool}
  {w x y cs : List Char} {m : Mark} {text : String}

theorem Stands.saveKey (h : s.Stands F allowed x m) :
    s.saveKey = .ok { s with key := F.possibleKey allowed m } := by
  have hlength : s.tokens.size = F.kinds.length := by
    rw [← length_kinds, ← h.frame]
    rfl
  cases allowed with
  | false =>
      have hkey : { s with key := none } = s := by
        rw [← h.key]
      rw [saveKey_of_not_keyAllowed h.keyAllowed]
      exact congrArg Except.ok hkey.symm
  | true =>
      rw [saveKey_of_keyAllowed h.keyAllowed h.dropKey]
      simp [h.mark, h.inFlow, h.level, hlength, Frame.possibleKey]

/-- A scalar that is read from where the reader stands. -/
theorem scanned_of_read {token : Token.Kind} {key : Option PossibleKey}
    (h : s.Stands F allowed (w ++ y) m)
    (hread : s.readHere = .ok { s.emit token s.mark s.mark with
      key, keyAllowed := broken, rest := glyphs y (m.afterAll w) }) :
    ∃ t, s.readHere = .ok t ∧ t.Scanned F key w y m token broken := by
  refine ⟨_, hread, ⟨rfl, by simp [emit, h.before.stop]⟩, ?_, h.outer, rfl, rfl⟩
  rw [← h.frame]
  simp [Lexer.frame, kinds, emit, Frame.add]

theorem quotedScalar_eq {single : Bool} {key : Option PossibleKey}
    {rest : List Glyph} (hsave : s.saveKey = .ok { s with key })
    (hread : QuotedScalar.read single s.mark s.stop s.rest.tail =
      .ok ⟨text.toList, rest⟩) :
    s.quotedScalar single = .ok
      { s.emit (.scalar text (if single then .singleQuoted else .doubleQuoted))
          s.mark s.mark with
        key, keyAllowed := false, rest } := by
  have hread' : QuotedScalar.read single
    { s with key, keyAllowed := false }.mark s.stop s.rest.tail =
      .ok ⟨text.toList, rest⟩ := hread
  simp only [Lexer.quotedScalar, hsave, bind, Except.bind, hread',
    String.ofList_toList]
  rfl

/-- A text between quotes. -/
theorem Stands.quotedScalar {q : Char} (single : Bool)
    (h : s.Stands F allowed (q :: w ++ y) m)
    (hquote : q = if single then '\'' else '"')
    (hread :
      ∀ stop, QuotedScalar.read single m stop (glyphs (w ++ y) (m.after q)) =
      .ok ⟨text.toList, glyphs y ((m.after q).afterAll w)⟩) :
    ∃ t, s.readHere = .ok t ∧ t.Scanned F (F.possibleKey allowed m) (q :: w) y m
      (.scalar text (if single then .singleQuoted else .doubleQuoted))
        false := by
  have hhere : s.readHere = s.quotedScalar single := by
    cases single <;> subst hquote <;>
      simp [readHere, readAt, h.before.rest, Glyph.isBoundary_of_ne]
  refine scanned_of_read h (hhere.trans (quotedScalar_eq h.saveKey ?_))
  rw [h.mark, h.before.rest]
  exact hread _

theorem plainScalar_eq {key : Option PossibleKey} {rest : List Glyph}
    (hsave : s.saveKey = .ok { s with key })
    (hread : PlainScalar.read s.inFlow s.level s.mark s.rest =
      .ok ⟨text.toList, broken, rest⟩) :
    s.plainScalar = .ok { s.emit (.scalar text .plain) s.mark s.mark with
      key, keyAllowed := broken, rest } := by
  have hread' : PlainScalar.read ({ s with key } : Lexer).inFlow s.level
    { s with key }.mark s.rest = .ok ⟨text.toList, broken, rest⟩ := hread
  simp only [Lexer.plainScalar, hsave, bind, Except.bind, hread',
    String.ofList_toList]
  rfl

/-- A text starts no document boundary, unless with its first characters. -/
theorem isBoundary_glyphs_append {d : Char} (hcs : cs ≠ [])
    (hboundary : cs.take 3 ≠ [d, d, d]) (hy : ∀ e ∈ y.head?, e ≠ d) :
    Glyph.isBoundary d (glyphs (cs ++ y) m) = false := by
  rcases cs with _ | ⟨c₁, _ | ⟨c₂, _ | ⟨c₃, cs⟩⟩⟩
  · exact absurd rfl hcs
  · rcases y with _ | ⟨e₁, y⟩
    · rfl
    · exact Glyph.isBoundary_of_second_ne (hy e₁ rfl) _ _ _
  · rcases y with _ | ⟨e₁, y⟩
    · rfl
    · have : e₁ ≠ d := hy e₁ rfl
      simp [Glyph.isBoundary, this]
  · have : ¬ (c₁ = d ∧ c₂ = d ∧ c₃ = d) := by
      rintro ⟨rfl, rfl, rfl⟩
      exact hboundary rfl
    simp only [List.cons_append, Glyph.glyphs_cons, Glyph.isBoundary]
    simp_all

/-- The characters that never start a plain scalar. -/
def indicators : List Char :=
  ['#', ',', '[', ']', '\x7b', '\x7d', '&', '*', '!', '|', '>', '\'', '"', '%',
    '@', '\x60']

theorem not_startsIndicator {c : Char} {cs : List Char}
    (h : Datum.Scalar.startsIndicator c cs = false) :
    c ∉ indicators ∧
    (c = '?' ∨ c = ':' ∨ c = '-' → Datum.Scalar.endsWord cs = false) := by
  rw [Datum.Scalar.startsIndicator, String.contains_char_eq,
    Bool.or_eq_false_iff] at h
  obtain ⟨hlist, hends⟩ := h
  refine ⟨by simpa [indicators] using hlist, ?_⟩
  rintro (rfl | rfl | rfl) <;> simpa using hends

/-- A character that may start a plain scalar does so, where the next one makes
it clear. -/
theorem startsPlain_of_not_mem {c : Char} {gs : List Glyph}
    (hblank : isBlank c = false) (hbreak : isBreak c = false)
    (hindicator : c ∉ indicators)
    (hends : c = '?' ∨ c = ':' ∨ c = '-' → Glyph.endsWord gs = false) :
    startsPlain false c gs = true := by
  by_cases hspecial : c = '?' ∨ c = ':' ∨ c = '-'
  · have hword := hends hspecial
    rcases hspecial with rfl | rfl | rfl
    · simp [startsPlain, hword]
    · simp [startsPlain, hword]
    · cases gs with
      | nil => simp [startsPlain]
      | cons g gs =>
          simp only [Glyph.endsWord, Bool.or_eq_false_iff] at hword
          simp [startsPlain, hword.1]
  · have hplain : isIndicator c = false := by
      rw [isIndicator, String.contains_char_eq]
      simp only [not_or] at hspecial
      simp only [indicators, List.mem_cons, List.not_mem_nil, or_false, not_or]
        at hindicator
      simp [hspecial, hindicator]
    simp [startsPlain, hblank, hbreak, hplain]

/-- The characters that a plain scalar starts with start no other token. -/
theorem Stands.readHere_plain (h : s.Stands F allowed (cs ++ y) m)
    (hplain : Datum.Scalar.allowsPlain cs = true) (hcs : cs ≠ [])
    (hy : ∀ d ∈ y.head?, d ≠ '-' ∧ d ≠ '.') : s.readHere = s.plainScalar := by
  have hdash := isBoundary_glyphs_append (d := '-') (m := m) (y := y) hcs
  have hdot := isBoundary_glyphs_append (d := '.') (m := m) (y := y) hcs
  simp only [Datum.Scalar.allowsPlain, Datum.Scalar.needsEscapes,
    Bool.not_eq_true',
    Bool.or_eq_false_iff, Datum.Scalar.hasIndicators,
      Datum.Scalar.startsBoundary,
    beq_eq_false_iff_ne] at hplain
  obtain ⟨⟨⟨⟨hescape, -⟩, hbreaks⟩, hends⟩, ⟨hnodash, hnodot⟩, hindicators⟩ :=
    hplain
  have hdash := hdash hnodash fun d hd => (hy d hd).1
  have hdot := hdot hnodot fun d hd => (hy d hd).2
  obtain ⟨c, cs, rfl⟩ := List.exists_cons_of_ne_nil hcs
  simp only [List.any_cons, Bool.or_eq_false_iff, Bool.not_eq_false']
    at hescape hbreaks hindicators
  have hbreak : isBreak c = false := by
    rw [Datum.Scalar.isBreak_of_isPrintable hescape.1, hbreaks.1]
  have hblank : isBlank c = false := by
    simpa [Datum.Scalar.isBlank_of_isPrintable hescape.1]
      using (Bool.or_eq_false_iff.1 hends).1
  obtain ⟨hindicator, hword⟩ := not_startsIndicator hindicators.1
  have hword' : c = '?' ∨ c = ':' ∨ c = '-' →
      Glyph.endsWord (glyphs (cs ++ y) (m.after c)) = false :=
    fun hc => Datum.Scalar.endsWord_glyphs (hword hc) y _
  have hstarts := startsPlain_of_not_mem hblank hbreak hindicator hword'
  simp only [List.cons_append, Glyph.glyphs_cons] at hdash hdot
  simp only [indicators, List.mem_cons, List.not_mem_nil, or_false, not_or]
    at hindicator
  have hnot (d : Char) (hd : d = '?' ∨ d = ':' ∨ d = '-') :
      ¬ (c = d ∧ Glyph.endsWord (glyphs (cs ++ y) (m.after c)) = true) := by
    rintro ⟨rfl, hends⟩
    simp [hword' hd] at hends
  simp [readHere, readAt, h.before.rest, h.inFlow, hdash, hdot, hindicator,
    hstarts, hnot '?' (by simp), hnot ':' (by simp), hnot '-' (by simp)]

/-- A text without quotes. -/
theorem Stands.plainScalar (ws : List Char) (h : s.Stands F allowed (cs ++ y) m)
    (hplain : Datum.Scalar.allowsPlain cs = true) (hcs : cs ≠ [])
    (hy : ∀ d ∈ y.head?, d ≠ '-' ∧ d ≠ '.') (hlevel : F.level ≤ m.column + 2)
    (htext : text.toList = cs) {x : List Char} (hwx : y = ws ++ x)
    (hread : PlainScalar.readFrom false F.level m (glyphs y (m.afterAll cs))
      cs.reverse .empty =
      .ok ⟨cs, broken, glyphs x ((m.afterAll cs).afterAll ws)⟩) :
    ∃ t, s.readHere = .ok t ∧
      t.Scanned F (F.possibleKey allowed m) (cs ++ ws) x m (.scalar text .plain)
        broken := by
  have hhere := h.readHere_plain hplain hcs hy
  subst hwx htext
  rw [← List.append_assoc] at h
  refine scanned_of_read h (hhere.trans (plainScalar_eq h.saveKey ?_))
  rw [h.inFlow, h.mark, h.before.rest, h.level, List.append_assoc,
    PlainScalar.read_of_allowsPlain _ _ hplain _ hlevel, Mark.afterAll_append]
  exact hread

/-- A text line by line. -/
theorem Stands.literalScalar (h : s.Stands F allowed ('|' :: w ++ y) m)
    (hread : ∀ stop,
      BlockScalar.read true F.level m stop (glyphs (w ++ y) (m.after '|')) =
      .ok ⟨text.toList, glyphs y ((m.after '|').afterAll w)⟩) :
    ∃ t, s.readHere = .ok t ∧
    t.Scanned F none ('|' :: w) y m (.scalar text .literal) true := by
  have hhere : s.readHere = s.blockScalar true := by
    simp [readHere, readAt, h.before.rest, Glyph.isBoundary_of_ne, h.inFlow]
  have hread' : BlockScalar.read true s.level s.mark s.stop s.rest.tail =
      .ok ⟨text.toList, glyphs y (m.afterAll ('|' :: w))⟩ := by
    rw [h.level, h.mark, h.before.rest]
    exact hread _
  have hmark : ({ s with keyAllowed := true } : Lexer).mark = s.mark := rfl
  refine scanned_of_read h (hhere.trans ?_)
  simp only [Lexer.blockScalar, h.dropKey, bind, Except.bind, hmark, hread',
    String.ofList_toList]
  simp [emit, pure, Except.pure, h.key]

/-- After a scalar that is no key the reader resumes on a later line. -/
theorem Scanned.resumes (ws : List Char) (floor : Nat)
    {key : Option PossibleKey} {token : Token.Kind} {x : List Char}
    (h : s.Scanned F key w (ws ++ x) m token broken)
    (hws : ∀ e ∈ ws, isSeparator e = true) (hx : StartsToken x)
    (hkey : ∀ k ∈ key, k.required = false ∧ k.mark = m)
    (hbroken : (broken || ws.contains '\n') = true) (hline : '\n' ∈ w ++ ws)
    (hfloor : F.level ≤ floor) :
    s.Resumes (F.add [token]) floor true x (m.afterAll (w ++ ws)).column where
  startsToken := hx
  frame := by rw [h.frame, Frame.unroll_eq_self (by simpa using hfloor)]
  outer := h.outer
  separated := by
    refine ⟨ws, m.afterAll w, hws, h.before, by
      simp, by rw [h.keyAllowed, hbroken], ?_⟩
    intro k hk
    obtain ⟨hrequired, hmark⟩ := hkey k (by rwa [h.key] at hk)
    refine ⟨hrequired, ?_⟩
    rw [hmark, ← Mark.afterAll_append]
    exact Mark.line_lt_afterAll hline rfl m

end Lexer

end Yaml

namespace Datum.Scalar

open Yaml.BlockScalar (lineEnd)

/-- The style that the writer's choice is read as. -/
def readStyle (s : String) : Yaml.ScalarStyle :=
  match style s with
  | .plain => .plain
  | .single => .singleQuoted
  | .double => .doubleQuoted
  | .literal => .literal

/-- What is known of a text for which the writer has chosen a style. -/
def Suits (s : String) : Style → Prop
  | .plain => allowsPlain s.toList = true ∧ looksDifferent s = false
  | .single => allowsSingle s.toList = true ∧ '\n' ∉ s.toList
  | .double => True
  | .literal => allowsLiteral s.toList = true ∧ '\n' ∈ s.toList

theorem suits_style (s : String) : Suits s (style s) := by
  unfold style
  simp only []
  split
  · next hline =>
      split
      · next hliteral => exact ⟨hliteral, by simpa using hline⟩
      · trivial
  · next hline =>
      have hline : '\n' ∉ s.toList := by simpa using hline
      split
      · next hplain => simpa [Suits, and_comm] using hplain
      · split
        · next hsingle => exact ⟨hsingle, hline⟩
        · trivial

theorem ne_nil_of_looksDifferent {s : String} (h : looksDifferent s = false) :
    s.toList ≠ [] := by
  intro hnil
  obtain rfl : s = "" := String.toList_eq_nil_iff.1 hnil
  exact absurd h (by decide)

theorem endLine_eq (cs : List Char) : endLine cs = cs ++ lineEnd cs := by
  unfold endLine lineEnd
  split <;> simp

theorem lineEnd_of_getLast? {cs : List Char} {c : Char}
    (h : cs.getLast? = some c) (hc : isBreak c = false) :
    lineEnd cs = ['\n'] := by
  simp [lineEnd, h, hc]

theorem getLast?_singleQuoted (column : Nat) (atStart : Bool) (cs : List Char) :
    (singleQuoted column atStart cs).getLast? = some '\'' := by
  induction cs generalizing atStart with
  | nil => simp [singleQuoted]
  | cons c cs ih =>
      rw [singleQuoted]
      split
      · simp [List.getLast?_cons, ih]
      · simp [List.getLast?_append, ih]

theorem getLast?_lines (column : Nat) (atStart : Bool) {cs : List Char} :
    (lines column atStart cs).getLast? = cs.getLast? := by
  induction cs generalizing atStart with
  | nil => rfl
  | cons c cs ih =>
      rw [lines]
      split
      · simp [List.getLast?_cons, ih]
      · simp [List.getLast?_append, List.getLast?_cons, ih]

/-- Only line by line does a text need no end of its last line. -/
theorem lineEnd_render (column : Nat) (s : String) :
    lineEnd (render column s) = if style s = .literal then lineEnd s.toList
      else ['\n'] := by
  have hsuits := suits_style s
  unfold render
  cases hstyle : style s with
  | plain =>
      rw [hstyle] at hsuits
      have hbreaks : s.toList.any isBreak = false := by
        simp only [Suits, allowsPlain, Bool.not_eq_true', Bool.or_eq_false_iff]
          at hsuits
        exact hsuits.1.1.1.2
      cases hlast : s.toList.getLast? with
      | none => simp [lineEnd, hlast]
      | some c =>
          have hc := List.any_eq_false.1 hbreaks c (List.mem_of_getLast? hlast)
          simpa using lineEnd_of_getLast? hlast (by simpa using hc)
  | single =>
      have := getLast?_singleQuoted (column + 2) false s.toList
      simp [lineEnd, List.getLast?_cons, this, show isBreak '\'' =
        false from rfl]
  | double =>
      simp [lineEnd, List.getLast?_cons, List.getLast?_append,
        show isBreak '"' = false from rfl]
  | literal =>
      have hne : s.toList ≠ [] := by
        rw [hstyle] at hsuits
        exact List.ne_nil_of_mem hsuits.2
      have hlast := List.getLast?_eq_some_getLast hne
      simp [lineEnd, List.getLast?_append, List.getLast?_cons, getLast?_lines,
        hlast]

/-! ## Short keys -/

theorem utf8Size_lower_bound (c : Char) :
    1 ≤ c.utf8Size ∧ (0xff < c.toNat → 2 ≤ c.utf8Size) ∧
    (0xffff < c.toNat → 3 ≤ c.utf8Size) := by
  have hval : c.val.toNat = c.toNat := rfl
  simp only [Char.utf8Size, UInt32.le_iff_toNat_le, UInt32.toNat_ofNatLT, hval]
  split <;> [skip; split <;> [skip; split]] <;> omega

/-- Escapes do not take more than four characters for each octet of what they
stand for. -/
theorem length_escaped_le (c : Char) : (escaped c).length ≤ 4 * c.utf8Size := by
  obtain ⟨hone, htwo, hthree⟩ := utf8Size_lower_bound c
  unfold escaped
  split
  · simp
    omega
  · split
    case h_15 =>
      split
      · simp [length_hexDigits]
        omega
      · split
        · simp [length_hexDigits]
          omega
        · simp [length_hexDigits]
          omega
    all_goals simp; omega

theorem isBreak_of_yaml {c : Char} (h : isBreak c = false) :
    Yaml.isBreak c = false := by
  simp only [isBreak, Bool.or_eq_false_iff] at h
  simp [Yaml.isBreak, h]

/-- On one line only quotes take more than their character between single
quotes. -/
theorem singleQuoted_of_line {cs : List Char} (h : ∀ c ∈ cs, isBreak c = false)
    (column : Nat) :
    singleQuoted column false cs =
      cs.flatMap (fun c => if c == '\'' then ['\'', '\''] else [c]) ++
        ['\''] := by
  induction cs with
  | nil => rfl
  | cons c cs ih =>
      have hc : isBreak c = false := h c (by simp)
      rw [singleQuoted, if_neg (by simp [hc]), ih fun d hd =>
        h d (by simp [hd])]
      simp

theorem length_flatMap_le (write : Char → List Char) {k : Nat}
    (h : ∀ c, (write c).length ≤ k * c.utf8Size) (cs : List Char) :
    (cs.flatMap write).length ≤ k * String.utf8Len cs := by
  induction cs with
  | nil => simp
  | cons c cs ih =>
      rw [List.flatMap_cons, List.length_append, String.utf8Len_cons,
        Nat.mul_add]
      have := h c
      omega

/-- Between single quotes a line stays one. -/
theorem isBreak_of_mem_doubled {cs : List Char}
    (h : ∀ c ∈ cs, Yaml.isBreak c = false) {c : Char}
    (hc : c ∈ cs.flatMap fun c => if c == '\'' then ['\'', '\''] else [c]) :
    Yaml.isBreak c = false := by
  obtain ⟨d, hd, hc⟩ := List.mem_flatMap.1 hc
  split at hc
  · obtain rfl : c = '\'' := by simpa using hc
    rfl
  · obtain rfl := List.mem_singleton.1 hc
    exact h _ hd

/-- Between double quotes everything is on one line. -/
theorem isBreak_of_mem_escaped {cs : List Char} {c : Char}
    (hc : c ∈ cs.flatMap escaped) :
    Yaml.isBreak c = false := by
  obtain ⟨d, -, hc⟩ := List.mem_flatMap.1 hc
  exact (spells_escaped d).line.2 c hc

/-- A short key is written on one line, and in a length that a reader takes for
a key. -/
theorem render_of_isSimpleKey {s : String} (h : isSimpleKey s = true)
    (column : Nat) :
    style s ≠ .literal ∧ (∀ c ∈ render column s, Yaml.isBreak c = false) ∧
      (render column s).length ≤ Yaml.PossibleKey.reach := by
  simp only [isSimpleKey, Bool.and_eq_true, decide_eq_true_eq,
    Bool.not_eq_true', List.any_eq_false] at h
  obtain ⟨hsize, hbreaks⟩ := h
  have hbreaks : ∀ c ∈ s.toList, isBreak c = false :=
    fun c hc => by simpa using hbreaks c hc
  have hline : ∀ c ∈ s.toList, Yaml.isBreak c = false :=
    fun c hc => isBreak_of_yaml (hbreaks c hc)
  have hlen : String.utf8Len s.toList ≤ 128 := by
    rw [← String.utf8ByteSize_ofList, String.ofList_toList]
    exact hsize
  have hsuits := suits_style s
  unfold render
  cases hstyle : style s with
  | plain =>
      have := length_flatMap_le (fun c => [c]) (k := 1)
        (fun c => by have := c.utf8Size_pos; simp; omega) s.toList
      simp only [List.flatMap_singleton', Yaml.PossibleKey.reach] at this ⊢
      exact ⟨by simp, hline, by omega⟩
  | single =>
      have :=
        length_flatMap_le (fun c => if c == '\'' then ['\'', '\''] else [c])
          (k := 2)
        (fun c => by have := c.utf8Size_pos; split <;> simp <;> omega) s.toList
      simp only [singleQuoted_of_line hbreaks, List.forall_mem_cons,
        List.forall_mem_append]
      refine ⟨by
        simp, ⟨rfl, fun c => isBreak_of_mem_doubled hline, rfl, by simp⟩, ?_⟩
      simp only [List.length_cons, List.length_append, Yaml.PossibleKey.reach,
        List.length_nil]
      omega
  | double =>
      have := length_flatMap_le _ length_escaped_le s.toList
      simp only [List.cons_append, List.forall_mem_cons, List.forall_mem_append]
      refine ⟨by simp, ⟨rfl, fun c => isBreak_of_mem_escaped, rfl, by simp⟩, ?_⟩
      simp only [List.length_cons, List.length_append, Yaml.PossibleKey.reach,
        List.length_nil]
      omega
  | literal =>
      rw [hstyle] at hsuits
      exact absurd (hbreaks _ hsuits.2) (by decide)

end Datum.Scalar

namespace Yaml.Lexer

open Glyph (glyphs)
open Datum.Scalar (pad render endLine style readStyle singleQuoted escaped)

variable {s : Lexer} {F : Frame} {floor n : Nat} {allowed broken : Bool}
  {w x y cs : List Char} {m : Mark} {text : String}

/-- A text between quotes is read, and nothing behind it. -/
theorem Stands.quotedText (text : String) {column : Nat}
    (hstyle : style text = .single ∨ style text = .double)
    (h : s.Stands F allowed (render column text ++ y) m)
    (hy : y.head? ≠ some '\'') :
    ∃ t, s.readHere = .ok t ∧
    t.Scanned F (F.possibleKey allowed m) (render column text) y m
      (.scalar text (readStyle text)) false := by
  have hm : ∀ q : Char, isBreak q = false → (m.after q).column ≠ 0 := by
    intro q hq
    simp [Mark.after_of_not_isBreak hq, Mark.next]
  have hsuits := Datum.Scalar.suits_style text
  unfold readStyle
  unfold render at h ⊢
  rcases hstyle with hstyle | hstyle
  · rw [hstyle] at hsuits
    simp only [hstyle] at h ⊢
    refine h.quotedScalar true rfl fun stop => ?_
    exact QuotedScalar.read_of_allowsSingle m stop hsuits.1 hsuits.2 (by omega)
      (hm _ (by decide)) hy
  · simp only [hstyle] at h ⊢
    refine h.quotedScalar false rfl fun stop => ?_
    have hwrite : ∀ c ∈ text.toList, QuotedScalar.Spells (escaped c) c :=
      fun c _ => Datum.Scalar.spells_escaped c
    simpa [QuotedScalar.read] using
      QuotedScalar.readFrom_spelled m stop [] [] y hwrite (hm '"' (by decide))

theorem Scanned.length_lt {t : Lexer} {key : Option PossibleKey}
    {token : Token.Kind} (ht : t.Scanned F key w y m token broken)
    (h : s.Stands F allowed (w ++ y) m) (hw : w ≠ []) :
    t.rest.length < s.rest.length := by
  rw [ht.before.rest, h.before.rest]
  simpa using List.length_pos_iff.2 hw

theorem Scanned.not_atEnd {key : Option PossibleKey} {style : ScalarStyle}
    (h : s.Scanned F key w y m (.scalar text style) broken) : ¬ s.AtEnd :=
  not_atEnd_of_frame h.frame (by simp [Frame.add])

theorem column_afterAll_of_getLast? {c : Char} (h : w.getLast? = some c)
    (hc : isBreak c = true) (m : Mark) : (m.afterAll w).column = 0 := by
  obtain ⟨r, rfl⟩ := List.getLast?_eq_some_iff.1 h
  simp [Mark.after, hc, Mark.nextLine]

/-- The lines of a text end where a line starts. -/
theorem column_afterAll_lines
    (hprint : ∀ c ∈ cs, Datum.Scalar.isPrintable c = true) (hcs : cs ≠ [])
    (column : Nat) (m : Mark) :
    (m.afterAll (Datum.Scalar.lines column true cs ++
      BlockScalar.lineEnd cs)).column = 0 := by
  have hlast := List.getLast?_eq_some_getLast hcs
  cases hbreak : Datum.Scalar.isBreak (cs.getLast hcs) with
  | false =>
      rw [Datum.Scalar.lineEnd_of_getLast? hlast hbreak]
      exact column_afterAll_of_getLast? (c := '\n') (by simp) rfl m
  | true =>
      have hend : BlockScalar.lineEnd cs = [] := by
        simp [BlockScalar.lineEnd, hlast, hbreak]
      rw [hend, List.append_nil]
      refine column_afterAll_of_getLast?
        (by rw [Datum.Scalar.getLast?_lines, hlast]) ?_ m
      rw [Datum.Scalar.isBreak_of_isPrintable (hprint _ (List.getLast_mem hcs)),
        hbreak]

theorem column_afterAll_newline (m : Mark) (w : List Char) (n : Nat) :
    (m.afterAll (w ++ '\n' :: pad n)).column = n := by
  simp [Mark.after, isBreak, Mark.nextLine]

theorem isSeparator_of_mem_newline {c : Char} (hc : c ∈ '\n' :: pad n) :
    isSeparator c = true := by
  rcases List.mem_cons.1 hc with rfl | hc
  · rfl
  · rw [(List.mem_replicate.1 hc).2]
    rfl

/-- The place before a scalar to the right of the keys around it need not be a
key. -/
theorem required_of_mem_possibleKey {k : PossibleKey}
    (h : F.level < m.column + 1) (hk : k ∈ F.possibleKey allowed m) :
    k.required = false ∧ k.mark = m := by
  unfold Frame.possibleKey at hk
  split at hk
  · obtain rfl := Option.mem_some_iff.1 hk
    simp [Nat.ne_of_lt h]
  · simp at hk

/-- A text without quotes at the end of a line. -/
theorem Stands.plainLine (text : String) {column : Nat}
    (hplain : Datum.Scalar.allowsPlain text.toList = true)
    (htext : text.toList ≠ [])
    (h : s.Stands F allowed (text.toList ++ ('\n' :: pad n ++ x)) m)
    (hlevel : F.level = column + 1) (hm : column < m.column) (hn : n ≤ column)
    (hx : StartsToken x) :
    ∃ t, s.readHere = .ok t ∧
      t.Resumes (F.add [.scalar text .plain]) (column + 1) true x n ∧
      t.rest.length < s.rest.length ∧ ¬ t.AtEnd := by
  have hkey : ∀ k ∈ F.possibleKey allowed m, k.required = false ∧ k.mark = m :=
    fun k hk => required_of_mem_possibleKey (by omega) hk
  -- the reader takes what follows the scalar up to the next token
  have hpad : ∀ e ∈ pad n, isSeparator e = true :=
    fun e he => isSeparator_of_mem_newline (List.mem_cons_of_mem _ he)
  have hline := PlainScalar.readFrom_line F.level m text.toList.reverse
    (m := m.afterAll text.toList) hpad hx (by
      rw [← Mark.afterAll_append, column_afterAll_newline]
      omega)
  obtain ⟨t, hread, ht⟩ := h.plainScalar ('\n' :: pad n) hplain htext (by simp)
    (by omega) rfl rfl (by simpa using hline)
  refine ⟨t, hread, ?_, ?_, ht.not_atEnd⟩
  · have := ht.resumes [] (column + 1) (by simp) hx hkey rfl (by simp)
      (by omega)
    rwa [List.append_nil, column_afterAll_newline] at this
  · exact ht.length_lt (by simpa using h) (by simp)

/-- A text between quotes at the end of a line. -/
theorem Stands.quotedLine (text : String) {column : Nat}
    (hstyle : style text = .single ∨ style text = .double)
    (h : s.Stands F allowed (render column text ++ ('\n' :: pad n ++ x)) m)
    (hlevel : F.level = column + 1) (hm : column < m.column)
    (hx : StartsToken x) :
    ∃ t, s.readHere = .ok t ∧
      t.Resumes (F.add [.scalar text (readStyle text)]) (column + 1) true x n ∧
      t.rest.length < s.rest.length ∧ ¬ t.AtEnd := by
  have hkey : ∀ k ∈ F.possibleKey allowed m, k.required = false ∧ k.mark = m :=
    fun k hk => required_of_mem_possibleKey (by omega) hk
  obtain ⟨t, hread, ht⟩ := h.quotedText text hstyle (by simp)
  refine ⟨t, hread, ?_, ?_, ht.not_atEnd⟩
  · have := ht.resumes ('\n' :: pad n) (column + 1)
      (fun e => isSeparator_of_mem_newline) hx hkey
      (by simp) (by simp) (by omega)
    rwa [column_afterAll_newline] at this
  · exact ht.length_lt h (by rcases hstyle with h | h <;> simp [render, h])

/-- A text line by line. The reader takes the end of the last line too, and what
the next one starts with. -/
theorem Stands.literalLine (text : String) {column : Nat}
    (hliteral : Datum.Scalar.allowsLiteral text.toList = true)
    (htext : text.toList ≠ [])
    (h : s.Stands F allowed (Datum.Scalar.header text.toList ++ '\n' ::
      Datum.Scalar.lines (column + 2) true text.toList ++
        (BlockScalar.lineEnd text.toList ++ (pad n ++ x))) m)
    (hlevel : F.level = column + 1) (hn : n ≤ column) (hx : StartsToken x) :
    ∃ t, s.readHere = .ok t ∧
      t.Resumes (F.add [.scalar text .literal]) (column + 1) true x n ∧
      t.rest.length < s.rest.length ∧ ¬ t.AtEnd := by
  have hprint : ∀ c ∈ text.toList, Datum.Scalar.isPrintable c = true := by
    simp only [Datum.Scalar.allowsLiteral, Datum.Scalar.needsEscapes,
      Bool.not_eq_true', Bool.or_eq_false_iff, List.any_eq_false] at hliteral
    exact fun c hc => by simpa using hliteral.1.1 c hc
  let top := '|' :: (Datum.Scalar.header text.toList).tail ++ ['\n']
  let body := Datum.Scalar.lines (column + 2) true text.toList ++
    BlockScalar.lineEnd text.toList
  let w := (Datum.Scalar.header text.toList).tail ++ '\n' ::
    (Datum.Scalar.lines (column + 2) true text.toList ++
      (BlockScalar.lineEnd text.toList ++ pad n))
  have hheader : Datum.Scalar.header text.toList =
      '|' :: (Datum.Scalar.header text.toList).tail := by
    rw [BlockScalar.header_eq]
    rfl
  have hw : s.Stands F allowed ('|' :: w ++ x) m := by
    rw [hheader] at h
    simpa [w] using h
  obtain ⟨t, hread, ht⟩ := hw.literalScalar fun stop => by
    rw [hlevel]
    simpa [w] using BlockScalar.read_of_allowsLiteral m stop (m := m.after '|')
      hliteral htext hn hx
  refine ⟨t, hread, ?_, ht.length_lt hw (by simp), ht.not_atEnd⟩
  have hcolumn : (m.afterAll ('|' :: w)).column = n := by
    have hbody :=
      column_afterAll_lines hprint htext (column + 2) (m.afterAll top)
    have hsplit : '|' :: w = top ++ body ++ pad n := by simp [w, top, body]
    rw [hsplit, Mark.afterAll_append, Mark.column_afterAll_pad,
      Mark.afterAll_append, hbody, Nat.zero_add]
  have := ht.resumes [] (column + 1) (by simp) hx (by simp) rfl (by simp [w])
    (by omega)
  rwa [List.append_nil, hcolumn] at this

/-- A scalar at the end of a line, to the right of the column of the keys or
dashes around it. -/
theorem Stands.scalarLine (text : String) {column : Nat}
    (h : s.Stands F allowed (endLine (render column text) ++ (pad n ++ x)) m)
    (hlevel : F.level = column + 1) (hm : column < m.column) (hn : n ≤ column)
    (hx : StartsToken x) :
    ∃ t, s.readHere = .ok t ∧
      t.Resumes (F.add [.scalar text (readStyle text)]) (column + 1) true x n ∧
      t.rest.length < s.rest.length ∧ ¬ t.AtEnd := by
  have hsuits := Datum.Scalar.suits_style text
  have hstyles : style text = .plain ∨
    (style text = .single ∨ style text = .double) ∨ style text = .literal := by
    cases style text <;> simp
  rw [Datum.Scalar.endLine_eq, Datum.Scalar.lineEnd_render, List.append_assoc]
    at h
  rcases hstyles with hstyle | hstyle | hstyle
  · rw [hstyle] at hsuits
    rw [show render column text = text.toList by simp [render, hstyle], hstyle,
      if_neg (by decide)] at h
    rw [readStyle, hstyle]
    exact Stands.plainLine text hsuits.1
      (Datum.Scalar.ne_nil_of_looksDifferent hsuits.2)
      (by simpa using h) hlevel hm hn hx
  · have hliteral : style text ≠ .literal := by
      rcases hstyle with h | h <;> simp [h]
    rw [if_neg hliteral] at h
    exact Stands.quotedLine text hstyle h hlevel hm hx
  · rw [hstyle] at hsuits
    rw [if_pos hstyle, render, hstyle] at h
    rw [readStyle, hstyle]
    exact Stands.literalLine text hsuits.1 (List.ne_nil_of_mem hsuits.2) h
      hlevel hn hx

/-- A blank or the end of a line ends a word. -/
theorem endsWord_glyphs_of_head? (hy : y.head? = some ' ' ∨ y.head? = some '\n')
    (m : Mark) :
    Glyph.endsWord (glyphs y m) = true := by
  cases y with
  | nil => rfl
  | cons d y =>
      have hd : d = ' ' ∨ d = '\n' := by simpa using hy
      rcases hd with rfl | rfl <;> rfl

/-- A short key before its colon. -/
theorem Stands.scalarKey (text : String)
    (hkey : Datum.Scalar.isSimpleKey text = true) {column : Nat}
    (h : s.Stands F allowed (render column text ++ ':' :: y) m)
    (hy : y.head? = some ' ' ∨ y.head? = some '\n')
    (hlevel : F.level ≤ m.column + 2) :
    ∃ t, s.readHere = .ok t ∧
    t.Scanned F (F.possibleKey allowed m) (render column text)
      (':' :: y) m (.scalar text (readStyle text)) false := by
  have hstyles : style text = .plain ∨ style text = .single ∨
      style text = .double := by
    have := (Datum.Scalar.render_of_isSimpleKey hkey column).1
    cases hstyle : style text <;> simp_all
  rcases hstyles with hstyle | hstyle
  · have hsuits := Datum.Scalar.suits_style text
    rw [hstyle] at hsuits
    have hrender : render column text = text.toList := by simp [render, hstyle]
    have hcolon := PlainScalar.readFrom_colon F.level m text.toList.reverse
      (m := m.afterAll text.toList) (endsWord_glyphs_of_head? hy _)
    rw [hrender] at h ⊢
    obtain ⟨t, hread, ht⟩ := h.plainScalar [] hsuits.1
      (Datum.Scalar.ne_nil_of_looksDifferent hsuits.2) (by simp) hlevel rfl rfl
      (by simpa using hcolon)
    refine ⟨t, hread, ?_⟩
    rw [List.append_nil] at ht
    rwa [readStyle, hstyle]
  · exact h.quotedText text hstyle (by simp)

/-- At a colon the noted key gets its token, before the scalar that it is, and
the mapping that it may start gets one before that. -/
theorem value_eq {k : PossibleKey} (hkey : s.key = some k) :
    s.value = .ok
      { (({ s with
            tokens := s.tokens.insertIdxIfInBounds k.number
              ⟨.key, k.mark, k.mark⟩ } : Lexer)
          |>.roll k.mark.column k.number .blockMappingStart k.mark
          |>.indicator .value) with
        key := none, keyAllowed := false } := by
  unfold Lexer.value
  split
  · next k' hk' =>
      obtain rfl : k = k' := Option.some.inj (hkey.symm.trans hk')
      rfl
  · next hnone => simp [hkey] at hnone

/-- The colon after a short key makes it one. -/
theorem Scanned.value {k : PossibleKey} {token : Token.Kind}
    (h : s.Scanned F (some k) w (':' :: y) m token false) (hk : k.mark = m)
    (hnumber : k.number = F.kinds.length)
    (hfresh : k.isStale (m.afterAll w) = false)
    (hy : y.head? = some ' ' ∨ y.head? = some '\n')
    (hlevel : F.level ≤ (m.afterAll w).column + 1) :
    ∃ t, Reaches s t ∧ t.Stands
      ((F.opened m.column .blockMappingStart).add [.key, token, .value]) false y
      ((m.afterAll w).after ':') := by
  have hstarts : StartsToken (':' :: y) := ⟨rfl, rfl, by decide, by decide⟩
  obtain ⟨t, hbefore, houter, hframe, hkey, hallowed, hstep⟩ :=
    step_eq [] h.before (by simp) hstarts h.outer (by simp [h.key, hfresh])
  rw [Mark.afterAll_nil] at hbefore hframe hkey
  have hkey : t.key = some k := by simp [hkey, h.key, hfresh]
  have hframe : t.frame = F.add [token] := by
    rw [hframe, h.frame, Frame.unroll_eq_self (by simpa using hlevel)]
  have hflow : t.inFlow = false := by simp [inFlow, houter]
  have hword := endsWord_glyphs_of_head? hy ((m.afterAll w).after ':')
  have hhere : t.readHere = t.value := by
    simp [readHere, readAt, hbefore.rest, Glyph.isBoundary_of_ne, hword]
  have hvalue := value_eq hkey
  rw [hk, hnumber] at hvalue
  let u : Lexer := { t with
    tokens := t.tokens.insertIdxIfInBounds F.kinds.length ⟨.key, m, m⟩ }
  let v := u.roll m.column F.kinds.length .blockMappingStart m
  obtain ⟨hrest, hstop, houter', -, -⟩ :=
    u.roll_same m.column F.kinds.length .blockMappingStart m
  have hu : u.frame = F.add [.key, token] := frame_insert hframe ⟨.key, m, m⟩
  have hv : v.frame = (F.opened m.column .blockMappingStart).add
      [.key, token] :=
    frame_roll hu hflow m.column .blockMappingStart m
  have hstands : ({ v.indicator .value with key := none, keyAllowed := false } :
    Lexer).Stands
      ((F.opened m.column .blockMappingStart).add [.key, token, .value]) false y
      ((m.afterAll w).after ':') := by
    have hv' : v.Before (':' :: y) (m.afterAll w) :=
      ⟨hrest.trans hbefore.rest, hstop.trans hbefore.stop⟩
    refine ⟨⟨(hv'.indicator .value).rest, (hv'.indicator .value).stop⟩, ?_,
      houter'.trans houter, rfl, rfl⟩
    rw [show [Token.Kind.key, token, .value] = [.key, token] ++ [.value]
      from rfl, ← Frame.add_add, ← hv]
    exact frame_indicator v .value
  refine ⟨_, .single ?_ ?_ ?_, hstands⟩
  · rw [hstep, hhere, hvalue]
    exact hstands.dropStale
  · rw [hstands.before.rest, h.before.rest]
    simp
  · exact not_atEnd_of_frame hstands.frame (by simp [Frame.add])

end Yaml.Lexer

end DaggerWorkflows
