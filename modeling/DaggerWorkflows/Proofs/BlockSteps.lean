import DaggerWorkflows.Proofs.LexerSteps

/-!
# Steps through a text that is written by indentation

Outside of brackets a reader alternates between two situations. It `Stands`
before the characters of the next token, with nothing pending; or it has just
read a token and `Resumes` at a later one, when separators may still have to be
skipped, collections closed and a key given up that has turned out to be none.
Each theorem takes the reader through one token of a text as the writer has put
it, from one situation to the next.
-/

namespace DaggerWorkflows.Yaml.Lexer

open Glyph (glyphs)

/-- The reader stands before the text `x`, and nothing is pending. -/
structure Stands (s : Lexer) (F : Frame) (allowed : Bool) (x : List Char)
    (m : Mark) : Prop where
  before : s.Before x m
  frame : s.frame = F
  outer : s.outer = []
  key : s.key = none
  keyAllowed : s.keyAllowed = allowed

/-- The reader will stand before `x` in column `c` with the frame `F`, once it
has skipped what separates tokens, has closed what is to the right of `floor`
and has given up the key. -/
structure Resumes (s : Lexer) (F : Frame) (floor : Nat) (allowed : Bool)
    (x : List Char) (c : Nat) :
    Prop where
  startsToken : StartsToken x
  frame : s.frame.unroll floor = F
  outer : s.outer = []
  separated : ∃ ws m, (∀ w ∈ ws, isSeparator w = true) ∧ s.Before (ws ++ x) m ∧
    (m.afterAll ws).column = c ∧ (s.keyAllowed || ws.contains '\n') = allowed ∧
    ∀ k ∈ s.key, k.required = false ∧ k.mark.line < (m.afterAll ws).line

variable {s : Lexer} {F : Frame} {floor c n : Nat} {allowed : Bool}
  {x y : List Char} {m : Mark}

theorem Stands.inFlow (h : s.Stands F allowed x m) : s.inFlow = false := by
  simp [Lexer.inFlow, h.outer]

theorem Stands.mark (h : s.Stands F allowed x m) : s.mark = m := h.before.mark

theorem Stands.level (h : s.Stands F allowed x m) : s.level = F.level := by
  rw [← h.frame]
  rfl

theorem Stands.dropKey (h : s.Stands F allowed x m) : s.dropKey = .ok s := by
  simp [Lexer.dropKey, h.key]

theorem Stands.dropStale (h : s.Stands F allowed x m) : s.dropStale = .ok s :=
  dropStale_eq_self h.outer (by simp [h.key])

/-- Separators are all that is between the place where a reader stands and the
next token. -/
theorem Stands.resumes (ws : List Char) (floor : Nat)
    (h : s.Stands F allowed (ws ++ x) m) (hws : ∀ w ∈ ws, isSeparator w = true)
    (hx : StartsToken x) (hfloor : F.level ≤ floor) :
    s.Resumes F floor (allowed || ws.contains '\n') x
      (m.afterAll ws).column where
  startsToken := hx
  frame := by rw [h.frame, Frame.unroll_eq_self hfloor]
  outer := h.outer
  separated :=
    ⟨ws, m, hws, h.before, rfl, by rw [h.keyAllowed], by simp [h.key]⟩

/-- Closing a collection that ends right of the column that the reader resumes
in. -/
theorem Resumes.close {f outer : Nat} {levels : List Nat}
    (h : s.Resumes F floor allowed x c) (hlevels : F.levels = outer :: levels)
    (hlevel : f < F.level) (houter : outer ≤ f) (hf : f ≤ floor) :
    s.Resumes ⟨F.kinds ++ [.blockEnd], outer, levels⟩ f allowed x c where
  startsToken := h.startsToken
  frame := by
    rw [← Frame.unroll_unroll hf, h.frame, Frame.unroll_of_lt hlevels hlevel,
      Frame.unroll_eq_self houter]
  outer := h.outer
  separated := h.separated

/-- What is pending does not change when keys are given up once more. -/
theorem Resumes.dropStale (h : s.Resumes F floor allowed x c) :
    ∃ t, s.dropStale = .ok t ∧ t.Resumes F floor allowed x c ∧ t.rest = s.rest ∧
      t.kinds = s.kinds := by
  obtain ⟨ws, m, hws, hbefore, hcolumn, hallowed, hkey⟩ := h.separated
  have hkeys : ∀ k ∈ s.keys, k.required = true → k.isStale s.mark = false := by
    intro k hk hrequired
    have : k ∈ s.key := by simpa [keys, h.outer, eq_comm] using hk
    simp [(hkey k this).1] at hrequired
  refine ⟨_, dropStale_eq_ok hkeys, ⟨h.startsToken, h.frame, by simp [h.outer],
    ws, m, hws, ⟨hbefore.rest, hbefore.stop⟩, hcolumn, hallowed, ?_⟩, rfl, rfl⟩
  intro k hk
  exact hkey k (Option.mem_filter_iff.1 hk).1

/-- A step from where the reader resumes reads what stands there. -/
theorem Resumes.step (h : s.Resumes F floor allowed x c)
    (hfloor : c + 1 ≤ floor) (hlevel : F.level ≤ c + 1) :
    ∃ (t : Lexer) (m : Mark), t.Stands F allowed x m ∧ m.column = c ∧
      t.rest.length ≤ s.rest.length ∧
      s.step = t.readHere >>= Lexer.dropStale := by
  obtain ⟨ws, m, hws, hbefore, rfl, hallowed, hkey⟩ := h.separated
  obtain ⟨t, htbefore, htouter, htframe, htkey, htallowed, hstep⟩ :=
    step_eq ws hbefore hws h.startsToken h.outer fun k hk hrequired => by
      simp [(hkey k hk).1] at hrequired
  refine ⟨t, m.afterAll ws,
    ⟨htbefore, ?_, htouter, ?_, by rw [htallowed, hallowed]⟩, rfl, ?_, hstep⟩
  · rw [htframe, ← Frame.unroll_unroll hfloor, h.frame,
      Frame.unroll_eq_self hlevel]
  · rw [htkey, Option.filter_eq_none_iff]
    intro k hk
    simp [isStale_of_line_lt (hkey k hk).2]
  · simp [htbefore.rest, hbefore.rest]

/-! ## Indicators -/

/-- One character has been taken as an indicator. -/
theorem Stands.indicator {ch : Char} (h : s.Stands F allowed (ch :: y) m)
    (hbreak : isBreak ch = false) (kind : Token.Kind) (allowed' : Bool) :
    ({ s.indicator kind with keyAllowed := allowed' } : Lexer).Stands
    (F.add [kind]) allowed' y m.next where
  before := by
    rw [← Mark.after_of_not_isBreak hbreak m]
    exact ⟨(h.before.indicator kind).rest, (h.before.indicator kind).stop⟩
  frame := by
    rw [← h.frame]
    exact frame_indicator s kind
  outer := h.outer
  key := h.key
  keyAllowed := rfl

/-- Opening a collection changes the frame only. -/
theorem roll_same (s : Lexer) (column number : Nat) (kind : Token.Kind)
    (mark : Mark) :
    let t := s.roll column number kind mark
    t.rest = s.rest ∧ t.stop = s.stop ∧ t.outer = s.outer ∧ t.key = s.key ∧
      t.keyAllowed = s.keyAllowed := by
  unfold roll
  split <;> simp

/-- A collection has been opened, where one may be. -/
theorem Stands.rollHere (h : s.Stands F true x m) (kind : Token.Kind)
    (problem : Problem) :
    ∃ t, s.rollHere kind problem = .ok t ∧
    t.Stands (F.opened m.column kind) true x m := by
  have hlength : s.tokens.size = F.kinds.length := by
    rw [← length_kinds, ← h.frame]
    rfl
  refine ⟨s.roll m.column F.kinds.length kind m, ?_, ?_⟩
  · simp [Lexer.rollHere, h.inFlow, h.keyAllowed, h.mark, hlength]
  · have hframe : (s.roll m.column F.kinds.length kind m).frame =
        F.opened m.column kind := by
      have := frame_roll (show s.frame = F.add [] by simpa using h.frame)
        h.inFlow m.column kind m
      simpa using this
    obtain ⟨hrest, hstop, houter, hkey, hallowed⟩ :=
      s.roll_same m.column F.kinds.length kind m
    exact ⟨⟨hrest.trans h.before.rest, hstop.trans h.before.stop⟩, hframe,
      houter.trans h.outer, hkey.trans h.key, hallowed.trans h.keyAllowed⟩

/-- A step that ends where nothing is pending. -/
theorem Reaches.of_stands {t u : Lexer} {G : Frame} {allowed' : Bool}
    {m' : Mark} (hstep : s.step = t.readHere >>= Lexer.dropStale)
    (ht : t.Stands F allowed x m) (hlength : t.rest.length ≤ s.rest.length)
    (hread : t.readHere = .ok u) (hu : u.Stands G allowed' y m')
    (hy : y.length < x.length) (hend : G.kinds.getLast? ≠ some .streamEnd) :
    Reaches s u := by
  refine .single ?_ ?_ ?_
  · rw [hstep, hread]
    exact hu.dropStale
  · rw [ht.before.rest, Glyph.length_glyphs] at hlength
    rw [hu.before.rest, Glyph.length_glyphs]
    omega
  · exact not_atEnd_of_frame hu.frame hend

/-- A step that ends before something that is pending. -/
theorem Reaches.of_resumes {t u : Lexer}
    (hstep : s.step = t.readHere >>= Lexer.dropStale)
    (hread : t.readHere = .ok u) (hu : u.Resumes F floor allowed x c)
    (hrest : u.rest.length < s.rest.length) (hend : ¬ u.AtEnd) :
    ∃ v, Reaches s v ∧ v.Resumes F floor allowed x c := by
  obtain ⟨v, hdrop, hv, hvrest, hvkinds⟩ := hu.dropStale
  refine ⟨v, .single ?_ (by rwa [hvrest]) (by rwa [AtEnd, hvkinds]), hv⟩
  rw [hstep, hread]
  exact hdrop

/-- An indicator opens a collection, unless it belongs to the one that is
open. -/
theorem Resumes.opening {ch : Char} {start kind : Token.Kind}
    (h : s.Resumes F floor true (ch :: y) c) (problem : Problem)
    (hfloor : c + 1 ≤ floor) (hlevel : F.level ≤ c + 1)
    (hread : ∀ (t u : Lexer) (m : Mark), t.Stands F true (ch :: y) m →
      t.rollHere start problem = .ok u →
      u.Stands (F.opened m.column start) true (ch :: y) m →
      t.readHere = .ok { u.indicator kind with keyAllowed := true })
    (hkind : kind ≠ .streamEnd) :
    ∃ (t : Lexer) (m : Mark), Reaches s t ∧ m.column = c + 1 ∧
      t.Stands ((F.opened c start).add [kind]) true y m := by
  obtain ⟨t, m, ht, rfl, hlength, hstep⟩ := h.step hfloor hlevel
  obtain ⟨u, hroll, hu⟩ := ht.rollHere start problem
  have hv := hu.indicator h.startsToken.2.1 kind true
  refine ⟨_, m.next, .of_stands hstep ht hlength (hread t u m ht hroll hu) hv
    (by simp) ?_, rfl, hv⟩
  simpa [Frame.add] using hkind

/-- A dash starts an item. -/
theorem Resumes.blockEntry (h : s.Resumes F floor true ('-' :: ' ' :: y) c)
    (hfloor : c + 1 ≤ floor) (hlevel : F.level ≤ c + 1) :
    ∃ (t : Lexer) (m : Mark), Reaches s t ∧ m.column = c + 1 ∧
      t.Stands ((F.opened c .blockSequenceStart).add [.blockEntry]) true
        (' ' :: y) m := by
  refine h.opening .blockEntryMisplaced hfloor hlevel
    (fun t u m ht hroll hu => ?_) (by simp)
  have hentry : t.readHere = t.blockEntry := by
    simp [readHere, readAt, ht.before.rest, Glyph.isBoundary_of_second_ne,
      Glyph.endsWord, Glyph.isBlank, isBlank]
  rw [hentry, Lexer.blockEntry, hroll]
  simp [bind, Except.bind, hu.dropKey, pure, Except.pure]

/-- A question mark starts an entry whose key has a line of its own. -/
theorem Resumes.explicitKey (h : s.Resumes F floor true ('?' :: ' ' :: y) c)
    (hfloor : c + 1 ≤ floor) (hlevel : F.level ≤ c + 1) :
    ∃ (t : Lexer) (m : Mark), Reaches s t ∧ m.column = c + 1 ∧
      t.Stands ((F.opened c .blockMappingStart).add [.key]) true
        (' ' :: y) m := by
  refine h.opening .keyMisplaced hfloor hlevel (fun t u m ht hroll hu => ?_)
    (by simp)
  have hkey : t.readHere = t.explicitKey := by
    simp [readHere, readAt, ht.before.rest, Glyph.isBoundary_of_ne,
      Glyph.endsWord, Glyph.isBlank, isBlank]
  rw [hkey, Lexer.explicitKey, hroll]
  simp [bind, Except.bind, hu.dropKey, pure, Except.pure, hu.inFlow,
    Lexer.indicator, emit]

/-- A colon on a line of its own goes between such a key and its value. -/
theorem Resumes.explicitValue (h : s.Resumes F floor true (':' :: ' ' :: y) c)
    (hfloor : c + 1 ≤ floor) (hlevel : F.level = c + 1) :
    ∃ (t : Lexer) (m : Mark), Reaches s t ∧ m.column = c + 1 ∧
      t.Stands (F.add [.value]) true (' ' :: y) m := by
  have hopened : F.opened c .blockMappingStart = F :=
    Frame.opened_of_lt (by omega) _
  rw [← hopened]
  refine h.opening .valueMisplaced hfloor (by omega)
    (fun t u m ht hroll hu => ?_) (by simp)
  have hvalue : t.readHere = t.value := by
    simp [readHere, readAt, ht.before.rest, Glyph.isBoundary_of_ne,
      Glyph.endsWord, Glyph.isBlank, isBlank]
  rw [hvalue, Lexer.value, ht.key]
  simp only [hroll]
  simp [bind, Except.bind, pure, Except.pure, hu.inFlow, Lexer.indicator, emit]

/-! ## The end of the text -/

/-- The end of the text closes every collection. -/
theorem Resumes.finish (h : s.Resumes F floor allowed [] c) :
    ∃ t, s.step = .ok t ∧ t.kinds = (F.unroll 0).kinds ++ [.streamEnd] := by
  obtain ⟨ws, m, hws, hbefore, rfl, -, hkey⟩ := h.separated
  obtain ⟨t, htbefore, htouter, htframe, htkey, -, hstep⟩ :=
    step_eq ws hbefore hws h.startsToken h.outer fun k hk hrequired => by
      simp [(hkey k hk).1] at hrequired
  -- A key that is still noted stands on an earlier line, so nothing can make it
  -- a key any more.
  have htkey : t.key = none := by
    rw [htkey, Option.filter_eq_none_iff]
    intro k hk
    simp [isStale_of_line_lt (hkey k hk).2]
  let u : Lexer := { t with stop := t.stop.pastLine }
  obtain ⟨hframe, -, -, hukey, -, huouter⟩ := unroll_eq (s := u) htouter 0
  have hukey : (u.unroll 0).key = none := hukey.trans htkey
  have hdrop : (u.unroll 0).dropKey = .ok (u.unroll 0) := by
    simp [Lexer.dropKey, hukey]
  let v : Lexer :=
    { (u.unroll 0).emit .streamEnd (u.unroll 0).mark (u.unroll 0).mark with
    keyAllowed := false }
  have hhere : t.readHere = .ok v := by
    have hend : t.readHere = t.finish := by
      simp [readHere, show t.rest = [] from htbefore.rest]
    rw [hend]
    change (u.unroll 0).dropKey >>= _ = _
    rw [hdrop]
    rfl
  have hvkey : v.key = none := hukey
  refine ⟨v, ?_, ?_⟩
  · rw [hstep, hhere]
    exact dropStale_eq_self huouter (by simp [hvkey])
  · have hclosed : s.frame.unroll 0 = F.unroll 0 := by
      rw [← h.frame, Frame.unroll_unroll (Nat.zero_le _)]
    have hkinds : (u.unroll 0).kinds = (F.unroll 0).kinds := by
      have : u.frame = s.frame.unroll ((m.afterAll ws).column + 1) := htframe
      rw [this, Frame.unroll_unroll (Nat.zero_le _), hclosed] at hframe
      exact congrArg Frame.kinds hframe
    rw [← hkinds]
    exact kinds_emit _ _ _ _

/-- The reader before a text. -/
theorem stands_ofGlyphs (cs : List Char) :
    (ofGlyphs (glyphs cs .start) (Mark.start.afterAll cs)).Stands
    ⟨[], 0, []⟩ true cs .start :=
  ⟨⟨rfl, rfl⟩, rfl, rfl, rfl, rfl⟩

/-- The tokens of a text that is read to its end. -/
theorem ofText_of_reaches {text : String} {t : Lexer}
    (htext : IsReadable text.toList)
    (hreaches :
      Reaches (ofGlyphs (glyphs text.toList .start)
        (Mark.start.afterAll text.toList)) t)
    (hresumes : t.Resumes F floor allowed [] c) :
    ∃ list, Tokens.ofText text = ⟨list, none⟩ ∧
      list.map (·.kind) = (F.unroll 0).kinds ++ [.streamEnd] := by
  obtain ⟨u, hstep, hkinds⟩ := hresumes.finish
  have hrun := run_of_reaches hreaches hstep (by simp [AtEnd, hkinds])
    (Nat.lt_succ_self (glyphs text.toList .start).length)
  refine ⟨u.tokens.toList, ?_, hkinds⟩
  simp only [Tokens.ofText, Glyph.listOf_eq_glyphs fun c hc => (htext c hc).2,
    Horizon.ofText?_eq_none fun c hc => (htext c hc).1, hrun]

end DaggerWorkflows.Yaml.Lexer
