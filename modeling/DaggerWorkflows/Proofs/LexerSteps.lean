import DaggerWorkflows.Proofs.GlyphText
import DaggerWorkflows.Yaml.Token.OfText
import Mathlib.Data.List.InsertIdx

/-!
# Steps of a reader of tokens

What a reader does between two tokens does not depend on the token that comes:
it skips what separates them, gives up keys that are too far back, and closes
the collections to the right of the place it has come to. `step_eq_readAt` says
this once, so that a proof about a text has to say for each token only what
`readAt` does there. `Reaches` puts the steps together, and `run_of_reaches`
says that the steps a reader is given suffice, since every step takes a
character.
-/

namespace DaggerWorkflows.Yaml.Lexer

open Glyph (glyphs)

/-- What the tokens that have been read say. -/
def kinds (s : Lexer) : List Token.Kind := s.tokens.toList.map (·.kind)

@[simp] theorem kinds_emit (s : Lexer) (kind : Token.Kind) (start stop : Mark) :
    (s.emit kind start stop).kinds = s.kinds ++ [kind] := by
  simp [kinds, emit]

@[simp] theorem length_kinds (s : Lexer) : s.kinds.length = s.tokens.size := by
  simp [kinds]

/-- The reader stands before the text `cs`, which starts at `m` and is all that
is left. -/
structure Before (s : Lexer) (cs : List Char) (m : Mark) : Prop where
  rest : s.rest = glyphs cs m
  stop : s.stop = m.afterAll cs

theorem Before.mark {s : Lexer} {cs : List Char} {m : Mark}
    (h : s.Before cs m) : s.mark = m := by
  rw [Lexer.mark, h.rest, h.stop, Glyph.place_glyphs]

/-- One character has been taken as an indicator. -/
theorem Before.indicator {s : Lexer} {c : Char} {cs : List Char} {m : Mark}
    (h : s.Before (c :: cs) m) (kind : Token.Kind) :
    (s.indicator kind).Before cs (m.after c) :=
  ⟨by simp [Lexer.indicator, h.rest], by simp [Lexer.indicator, emit, h.stop]⟩

@[simp] theorem kinds_indicator (s : Lexer) (kind : Token.Kind) :
    (s.indicator kind).kinds = s.kinds ++ [kind] :=
  kinds_emit s kind _ _

/-! ## What separates tokens -/

theorem skipFrom_of_startsToken {x : List Char} (hx : StartsToken x)
    (flow keyAllowed : Bool) (m : Mark) :
    skipFrom flow (glyphs x m) keyAllowed false = (glyphs x m, keyAllowed) := by
  cases x with
  | nil => rfl
  | cons c cs =>
      obtain ⟨hblank, hbreak, hsharp, hmark⟩ := hx
      simp only [isBlank, Bool.or_eq_false_iff, beq_eq_false_iff_ne] at hblank
      simp [skipFrom, Glyph.isBreak, hbreak, hsharp, hblank, hmark]

/-- Separators are skipped; a new line outside of brackets allows a key. -/
theorem skipFrom_separators {ws : List Char}
    (hws : ∀ c ∈ ws, isSeparator c = true) {x : List Char} (hx : StartsToken x)
    (flow keyAllowed : Bool) (m : Mark) :
    skipFrom flow (glyphs (ws ++ x) m) keyAllowed false =
      (glyphs x (m.afterAll ws), keyAllowed ||
        (!flow && ws.contains '\n')) := by
  induction ws generalizing m keyAllowed with
  | nil => simpa using skipFrom_of_startsToken hx flow keyAllowed m
  | cons c ws ih =>
      have hrest := fun keyAllowed m =>
        ih (fun d hd => hws d (by simp [hd])) keyAllowed m
      have hc : c = ' ' ∨ c = '\n' := by
        simpa [isSeparator] using hws c (by simp)
      rcases hc with rfl | rfl
      · simp [skipFrom, Glyph.isBreak, isBreak, hrest]
      · cases flow <;> simp [skipFrom, Glyph.isBreak, isBreak, hrest]

/-! ## Keys that are too far back -/

/-- Nothing has to be a key that is too far back. -/
theorem dropStale_eq_ok {s : Lexer}
    (h : ∀ k ∈ s.keys, k.required = true → k.isStale s.mark = false) :
    s.dropStale = .ok { s with
      key := s.key.filter (!·.isStale s.mark)
      outer := s.outer.map (·.filter (!·.isStale s.mark)) } := by
  have hnone : s.keys.reverse.find? (fun k => k.required && k.isStale s.mark) =
      none := by
    rw [List.find?_eq_none]
    intro k hk
    cases hrequired : k.required with
    | false => simp
    | true => simp [h k (List.mem_reverse.1 hk) hrequired]
  simp [dropStale, hnone]

/-- Keys that are not too far back are kept. -/
theorem dropStale_eq_self {s : Lexer} (houter : s.outer = [])
    (h : ∀ k ∈ s.key, k.isStale s.mark = false) : s.dropStale = .ok s := by
  have hkeys : ∀ k ∈ s.keys, k.required = true → k.isStale s.mark = false := by
    intro k hk _
    exact h k (by simpa [keys, houter, eq_comm] using hk)
  rw [dropStale_eq_ok hkeys]
  cases s with
  | mk rest stop tokens level levels keyAllowed key outer =>
      obtain rfl : outer = [] := houter
      cases key with
      | none => rfl
      | some k => simp [h k rfl]

theorem isStale_of_line_lt {k : PossibleKey} {m : Mark}
    (h : k.mark.line < m.line) :
    k.isStale m = true := by
  simp [PossibleKey.isStale, h]

theorem isStale_afterAll_of_line {k : PossibleKey} {cs : List Char}
    (hline : ∀ c ∈ cs, isBreak c = false)
    (hlength : cs.length ≤ PossibleKey.reach) :
    k.isStale (k.mark.afterAll cs) = false := by
  have hsame := (Mark.afterAll_of_line hline k.mark).1
  simp [PossibleKey.isStale, hsame, Mark.index_afterAll, hlength]

theorem saveKey_of_keyAllowed {s t : Lexer} (h : s.keyAllowed = true)
    (hdrop : s.dropKey = .ok t) :
    s.saveKey = .ok { t with
      key := some ⟨t.tokens.size, !t.inFlow && t.level == t.mark.column + 1,
        t.mark⟩ } := by
  simp [saveKey, h, hdrop, bind, Except.bind, pure, Except.pure]

theorem saveKey_of_not_keyAllowed {s : Lexer} (h : s.keyAllowed = false) :
    s.saveKey = .ok s := by
  simp [saveKey, h, pure, Except.pure]

/-! ## Collections that are closed -/

/-- What a reader outside of brackets has come to: what has been read, and the
columns of the collections that are open, each as one more than the column. -/
structure Frame where
  kinds : List Token.Kind
  level : Nat
  levels : List Nat

/-- The frame of a reader. -/
def frame (s : Lexer) : Frame := ⟨s.kinds, s.level, s.levels⟩

namespace Frame

/-- Read more tokens. -/
def add (F : Frame) (kinds : List Token.Kind) :
    Frame := { F with kinds := F.kinds ++ kinds }

/-- Open a collection at a column, unless one is open there. -/
def opened (F : Frame) (column : Nat) (kind : Token.Kind) : Frame :=
  if column < F.level then F
  else ⟨F.kinds ++ [kind], column + 1, F.level :: F.levels⟩

/-- Close the innermost of the collections `levels` stand around, while they are
above `floor`. -/
def unrollFrom (floor : Nat) : List Nat → Frame → Frame
  | [], F => F
  | outer :: levels, F =>
      if F.level ≤ floor then F
      else unrollFrom floor levels ⟨F.kinds ++ [.blockEnd], outer, levels⟩

/-- Close the collections to the right of a column, given as one more than the
column. -/
def unroll (F : Frame) (floor : Nat) : Frame := unrollFrom floor F.levels F

theorem unroll_eq_self {F : Frame} {floor : Nat} (h : F.level ≤ floor) :
    F.unroll floor = F := by
  unfold unroll
  cases F.levels <;> simp [unrollFrom, h]

theorem unroll_of_lt {F : Frame} {floor outer : Nat} {levels : List Nat}
    (hlevels : F.levels = outer :: levels) (h : floor < F.level) :
    F.unroll floor = Frame.unroll ⟨F.kinds ++ [.blockEnd], outer, levels⟩
      floor := by
  rw [unroll, hlevels, unrollFrom, if_neg (by omega)]
  rfl

/-- Closing down to a column can be done in two steps. -/
theorem unroll_unroll {f g : Nat} (h : f ≤ g) (F : Frame) :
    (F.unroll g).unroll f = F.unroll f := by
  obtain ⟨kinds, level, levels⟩ := F
  induction levels generalizing kinds level with
  | nil => rfl
  | cons outer levels ih =>
      by_cases hlevel : level ≤ g
      · rw [unroll_eq_self (F := ⟨kinds, level, outer :: levels⟩) hlevel]
      · have hg : g < level := Nat.lt_of_not_le hlevel
        have hf : f < level := Nat.lt_of_le_of_lt h hg
        rw [unroll_of_lt (F := ⟨kinds, level, outer :: levels⟩) rfl hg,
          unroll_of_lt (F := ⟨kinds, level, outer :: levels⟩) rfl hf]
        exact ih _ _

@[simp] theorem add_nil (F : Frame) : F.add [] = F := by simp [add]

@[simp] theorem add_add (F : Frame) (as bs : List Token.Kind) :
    (F.add as).add bs = F.add (as ++ bs) := by
  simp [add]

@[simp] theorem level_add (F : Frame) (kinds : List Token.Kind) :
    (F.add kinds).level = F.level :=
  rfl

/-- The collection at a column is the innermost one then. -/
theorem level_opened {F : Frame} {column : Nat} (h : F.level ≤ column + 1)
    (kind : Token.Kind) :
    (F.opened column kind).level = column + 1 := by
  unfold opened
  split
  · omega
  · rfl

theorem opened_of_lt {F : Frame} {column : Nat} (h : column < F.level)
    (kind : Token.Kind) :
    F.opened column kind = F :=
  if_pos h

end Frame

@[simp] theorem frame_indicator (s : Lexer) (kind : Token.Kind) :
    (s.indicator kind).frame = s.frame.add [kind] := by
  rw [frame, kinds_indicator]
  rfl

theorem unrollFrom_eq (floor : Nat) (levels : List Nat) (s : Lexer) :
    let t := unrollFrom floor levels s
    t.frame = Frame.unrollFrom floor levels s.frame ∧ t.rest = s.rest ∧
      t.stop = s.stop ∧
      t.key = s.key ∧ t.keyAllowed = s.keyAllowed ∧ t.outer = s.outer := by
  induction levels generalizing s with
  | nil => simp [unrollFrom, Frame.unrollFrom]
  | cons outer levels ih =>
      by_cases h : s.level ≤ floor
      · simp [unrollFrom, Frame.unrollFrom, frame, h]
      · have :=
          ih { s.emit .blockEnd s.mark s.mark with
            level := outer, levels := levels }
        simp only [unrollFrom, Frame.unrollFrom, frame, h, if_false]
        simpa [frame, kinds, emit] using this

/-- Closing collections changes the frame only. -/
theorem unroll_eq {s : Lexer} (houter : s.outer = []) (floor : Nat) :
    (s.unroll floor).frame = s.frame.unroll floor ∧
    (s.unroll floor).rest = s.rest ∧
      (s.unroll floor).stop = s.stop ∧ (s.unroll floor).key = s.key ∧
      (s.unroll floor).keyAllowed = s.keyAllowed ∧
      (s.unroll floor).outer = [] := by
  have hflow : s.inFlow = false := by simp [inFlow, houter]
  have := unrollFrom_eq floor s.levels s
  simpa [unroll, hflow, houter, Frame.unroll, frame] using this

/-! ## Tokens that are put before others -/

theorem insertIdx_length {α : Type} (as bs : List α) (a : α) :
    (as ++ bs).insertIdx as.length a = as ++ a :: bs := by
  induction as with
  | nil => rfl
  | cons b as ih => simp [ih]

/-- A token that is put before the last ones. -/
theorem frame_insert {s : Lexer} {F : Frame} {bs : List Token.Kind}
    (h : s.frame = F.add bs) (token : Token) :
    ({ s with tokens := s.tokens.insertIdxIfInBounds F.kinds.length token } :
      Lexer).frame = F.add (token.kind :: bs) := by
  have hkinds : s.kinds = F.kinds ++ bs := congrArg Frame.kinds h
  have hsize : F.kinds.length ≤ s.tokens.size := by
    rw [← length_kinds, hkinds]
    simp
  have hinsert : (s.tokens.insertIdxIfInBounds F.kinds.length token).toList.map
    (·.kind) = F.kinds ++ token.kind :: bs := by
    rw [Array.insertIdxIfInBounds, dif_pos hsize, Array.toList_insertIdx,
      List.map_insertIdx]
    rw [kinds] at hkinds
    rw [hkinds, insertIdx_length]
  simp only [frame, Frame.add, Frame.mk.injEq] at h ⊢
  exact ⟨hinsert, h.2⟩

/-- A collection that is opened before the last tokens. -/
theorem frame_roll {s : Lexer} {F : Frame} {bs : List Token.Kind}
    (h : s.frame = F.add bs) (hflow : s.inFlow = false) (column : Nat)
    (kind : Token.Kind) (mark : Mark) :
    (s.roll column F.kinds.length kind mark).frame =
      (F.opened column kind).add bs := by
  have hlevel : s.level = F.level := congrArg Frame.level h
  have hlevels : s.levels = F.levels := congrArg Frame.levels h
  unfold roll Frame.opened
  by_cases hcolumn : column < F.level
  · simp [hflow, hlevel, hcolumn, h]
  · have hinsert := congrArg Frame.kinds (frame_insert h ⟨kind, mark, mark⟩)
    simp only [hflow, hlevel, hcolumn]
    simp only [frame, Frame.add, kinds] at hinsert ⊢
    simp [hinsert, hlevels]

/-! ## One step -/

/-- What stands where the next token starts takes the reader further. -/
def readHere (s : Lexer) : Except Fault Lexer :=
  match s.rest with
  | [] => s.finish
  | g :: gs => s.readAt g gs

theorem step_of_settled {s t : Lexer} (h : s.skip.dropStale = .ok t) :
    s.step = (t.unroll (t.mark.column + 1)).readHere >>= dropStale := by
  rw [step, h]
  simp only [readHere, bind, Except.bind]
  cases (t.unroll (t.mark.column + 1)).rest <;> rfl

/-- A step outside of brackets: the reader skips what separates tokens, closes
what is to the right of the place it comes to, and reads what stands there. -/
theorem step_eq {s : Lexer} (ws : List Char) {x : List Char} {m : Mark}
    (h : s.Before (ws ++ x) m) (hws : ∀ c ∈ ws, isSeparator c = true)
    (hx : StartsToken x) (houter : s.outer = [])
    (hkey : ∀ k ∈ s.key, k.required = true →
      k.isStale (m.afterAll ws) = false) :
    ∃ t : Lexer, t.Before x (m.afterAll ws) ∧ t.outer = [] ∧
      t.frame = s.frame.unroll ((m.afterAll ws).column + 1) ∧
      t.key = s.key.filter (!·.isStale (m.afterAll ws)) ∧
      t.keyAllowed = (s.keyAllowed || ws.contains '\n') ∧
      s.step = t.readHere >>= dropStale := by
  have hflow : s.inFlow = false := by simp [inFlow, houter]
  have hskip : s.skip = { s with
      rest := glyphs x (m.afterAll ws)
      keyAllowed := s.keyAllowed || ws.contains '\n' } := by
    simp [skip, h.rest, skipFrom_separators hws hx, hflow]
  have hbefore : s.skip.Before x (m.afterAll ws) :=
    ⟨by rw [hskip], by rw [hskip]; simp [h.stop]⟩
  -- The reader skips, gives up the keys that are stale and closes collections,
  -- and none of the three touches what the others look at.
  let u : Lexer :=
    { s.skip with key := s.key.filter (!·.isStale (m.afterAll ws)) }
  have hstale : s.skip.dropStale = .ok u := by
    have hkeys : ∀ k ∈ s.skip.keys, k.required = true →
        k.isStale s.skip.mark = false := by
      intro k hk
      rw [hbefore.mark]
      refine hkey k ?_
      simpa [hskip, keys, houter, eq_comm] using hk
    rw [dropStale_eq_ok hkeys, hbefore.mark]
    simp [u, hskip, houter]
  have hu : u.outer = [] := by simp [u, hskip, houter]
  have hmark : u.mark = m.afterAll ws := hbefore.mark
  obtain ⟨hframe, hrest, hstop, hkey', hallowed, houter'⟩ :=
    unroll_eq hu ((m.afterAll ws).column + 1)
  refine ⟨u.unroll ((m.afterAll ws).column + 1), ⟨?_, ?_⟩, houter', ?_,
    hkey', ?_, ?_⟩
  · rw [hrest]
    exact hbefore.rest
  · rw [hstop]
    exact hbefore.stop
  · rw [hframe]
    simp [u, hskip, frame, kinds]
  · rw [hallowed]
    simp [u, hskip]
  · rw [step_of_settled hstale, hmark]

/-! ## Many steps -/

/-- Whether the end of the text has been read. -/
def AtEnd (s : Lexer) : Prop := s.kinds.getLast? = some .streamEnd

theorem not_atEnd_of_frame {s : Lexer} {F : Frame} (h : s.frame = F)
    (hend : F.kinds.getLast? ≠ some .streamEnd) : ¬ s.AtEnd := by
  rw [AtEnd, show s.kinds = F.kinds from congrArg Frame.kinds h]
  exact hend

/-- A reader comes to a state by steps that each take a character. -/
inductive Reaches : Lexer → Lexer → Prop where
  | refl (s : Lexer) : Reaches s s
  | step {s t u : Lexer} (hstep : s.step = .ok t)
      (hrest : t.rest.length < s.rest.length) (hend : ¬ t.AtEnd)
      (h : Reaches t u) : Reaches s u

theorem Reaches.trans {s t u : Lexer} (h : Reaches s t) (h' : Reaches t u) :
    Reaches s u := by
  induction h with
  | refl => exact h'
  | step hstep hrest hend _ ih => exact .step hstep hrest hend (ih h')

theorem Reaches.single {s t : Lexer} (hstep : s.step = .ok t)
    (hrest : t.rest.length < s.rest.length) (hend : ¬ t.AtEnd) : Reaches s t :=
  .step hstep hrest hend (.refl t)

/-- As many steps as there are characters and one more are enough. -/
theorem run_of_reaches {s t u : Lexer} (h : Reaches s t)
    (hlast : t.step = .ok u) (hend : u.AtEnd) {fuel : Nat}
    (hfuel : s.rest.length < fuel) :
    run none fuel s = (u.tokens.toList, none) := by
  have hback (v : Lexer) : (v.tokens.back?.any (·.kind == .streamEnd)) = true ↔
      v.AtEnd := by
    simp [AtEnd, kinds, Array.getLast?_toList, Option.any_eq_true]
  induction h generalizing fuel with
  | refl s =>
      obtain ⟨fuel, rfl⟩ : ∃ n, fuel = n + 1 := ⟨fuel - 1, by omega⟩
      simp [run, stepWithin, hlast, (hback u).2 hend]
  | step hstep hrest hend' _ ih =>
      obtain ⟨fuel, rfl⟩ : ∃ n, fuel = n + 1 := ⟨fuel - 1, by omega⟩
      simp [run, stepWithin, hstep, (hback _).not.2 hend']
      exact ih hlast (by omega)

end DaggerWorkflows.Yaml.Lexer
