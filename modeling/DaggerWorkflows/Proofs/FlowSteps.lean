import DaggerWorkflows.Datum.Yaml
import DaggerWorkflows.Proofs.ScalarTokens

/-!
# Steps between brackets

Between brackets indentation means nothing, no key is required, and line breaks
separate tokens like blanks do. What is left to keep are the places where keys
may have started: none of them is required, and none is on a later line
(`Between.keys`).
-/

namespace DaggerWorkflows.Yaml.Lexer

open Glyph (glyphs)

/-- The reader is before the text `x` with so many brackets open, and no key is
required. -/
structure Between (s : Lexer) (F : Frame) (depth : Nat) (allowed : Bool)
    (x : List Char) (m : Mark) : Prop where
  before : s.Before x m
  frame : s.frame = F
  depth : s.outer.length = depth
  keyAllowed : s.keyAllowed = allowed
  keys : ∀ k ∈ s.keys, k.required = false ∧ k.mark.line ≤ m.line

variable {s : Lexer} {F : Frame} {depth c n floor : Nat} {allowed : Bool}
  {w ws x y : List Char} {m : Mark}

theorem Between.mark (h : s.Between F depth allowed x m) :
    s.mark = m := h.before.mark

theorem Between.level (h : s.Between F depth allowed x m) :
    s.level = F.level := by
  rw [← h.frame]
  rfl

theorem Between.inFlow (h : s.Between F depth allowed x m) :
    s.inFlow = (depth != 0) := by
  rw [Lexer.inFlow, ← h.depth]
  cases s.outer <;> rfl

theorem Stands.between (h : s.Stands F allowed x m) :
    s.Between F 0 allowed x m where
  before := h.before
  frame := h.frame
  depth := by rw [h.outer, List.length_nil]
  keyAllowed := h.keyAllowed
  keys := by simp [Lexer.keys, h.outer, h.key]

/-- Outside of all brackets the reader resumes on a later line. -/
theorem Between.resumes (ws : List Char) (floor : Nat)
    (h : s.Between F 0 allowed (ws ++ x) m)
    (hws : ∀ e ∈ ws, isSeparator e = true) (hx : StartsToken x)
    (hline : '\n' ∈ ws) (hfloor : F.level ≤ floor) :
    s.Resumes F floor true x (m.afterAll ws).column where
  startsToken := hx
  frame := by rw [h.frame, Frame.unroll_eq_self hfloor]
  outer := List.length_eq_zero_iff.1 h.depth
  separated := by
    refine ⟨ws, m, hws, h.before, rfl, by simp [hline], fun k hk => ?_⟩
    obtain ⟨hrequired, hle⟩ :=
      h.keys k (List.mem_filterMap.2 ⟨s.key, by simp, hk⟩)
    exact ⟨hrequired,
      Nat.lt_of_le_of_lt hle (Mark.line_lt_afterAll hline rfl m)⟩

theorem filterMap_filter {α : Type} (p : α → Bool) (keys : List (Option α)) :
    (keys.map (·.filter p)).filterMap id = (keys.filterMap id).filter p := by
  induction keys with
  | nil => rfl
  | cons key keys ih =>
      rw [List.map_cons]
      rcases key with _ | k
      · exact ih
      · cases hk : p k
        · simpa [Option.filter, hk] using ih
        · simpa [Option.filter, hk] using ih

theorem keys_filter (s : Lexer) (p : PossibleKey → Bool) :
    ({ s with key := s.key.filter p, outer := s.outer.map (·.filter p) } :
      Lexer).keys = s.keys.filter p :=
  filterMap_filter p (s.key :: s.outer)

/-- Giving up keys changes nothing else. -/
theorem Between.dropStale (h : s.Between F depth allowed x m) :
    ∃ t, s.dropStale = .ok t ∧ t.Between F depth allowed x m ∧
      t.key = s.key.filter (!·.isStale m) := by
  have hkeys : ∀ k ∈ s.keys, k.required = true → k.isStale s.mark = false := by
    intro k hk hrequired
    simp [(h.keys k hk).1] at hrequired
  refine ⟨_, dropStale_eq_ok hkeys, ⟨⟨h.before.rest, h.before.stop⟩, h.frame,
    by simp [h.depth], h.keyAllowed, fun k hk => ?_⟩, by rw [h.mark]⟩
  rw [keys_filter] at hk
  exact h.keys k (List.mem_filter.1 hk).1

/-- A step between brackets skips what separates tokens and reads what stands
there. -/
theorem Between.step (ws : List Char)
    (h : s.Between F depth allowed (ws ++ x) m) (hdepth : depth ≠ 0)
    (hws : ∀ e ∈ ws, isSeparator e = true) (hx : StartsToken x) :
    ∃ t : Lexer, t.Between F depth allowed x (m.afterAll ws) ∧
      t.key = s.key.filter (!·.isStale (m.afterAll ws)) ∧
      s.step = t.readHere >>= Lexer.dropStale := by
  have hflow : s.inFlow = true := by simp [h.inFlow, hdepth]
  have hskip : s.skip = { s with rest := glyphs x (m.afterAll ws) } := by
    simp [skip, h.before.rest, skipFrom_separators hws hx, hflow]
  have hbetween : s.skip.Between F depth allowed x (m.afterAll ws) := by
    rw [hskip]
    refine ⟨⟨rfl, by simp [h.before.stop]⟩, h.frame, h.depth, h.keyAllowed,
      fun k hk => ?_⟩
    obtain ⟨hrequired, hline⟩ := h.keys k hk
    exact ⟨hrequired, Nat.le_trans hline (Mark.line_le_afterAll m ws)⟩
  obtain ⟨t, hdrop, ht, hkey⟩ := hbetween.dropStale
  refine ⟨t, ht, by rw [hkey, hskip], ?_⟩
  have hunroll : t.unroll (t.mark.column + 1) = t := by
    simp [unroll, ht.inFlow, hdepth]
  rw [step_of_settled hdrop, hunroll]

/-- A key that is given up is missing, and nothing else. -/
theorem Between.dropKey (h : s.Between F depth allowed x m) :
    s.dropKey = .ok { s with key := none } ∧
      ({ s with key := none } : Lexer).Between F depth allowed x m := by
  refine ⟨?_, ⟨⟨h.before.rest, h.before.stop⟩, h.frame, h.depth, h.keyAllowed,
    fun k hk => ?_⟩⟩
  · unfold Lexer.dropKey
    split
    · next k hk =>
        have hrequired := (h.keys k (by simp [Lexer.keys, hk])).1
        simp [hrequired]
    · next hk => rw [← hk]
  · obtain ⟨o, ho, hk⟩ :=
      List.mem_filterMap.1 (show k ∈ s.outer.filterMap id from hk)
    exact h.keys k (List.mem_filterMap.2 ⟨o, List.mem_cons_of_mem _ ho, hk⟩)

/-- A key may be noted where it does not stand in the column of the keys around
it. -/
theorem Between.saveKey (h : s.Between F depth allowed x m)
    (hlevel : depth = 0 → F.level ≠ m.column + 1) :
    ∃ key, s.saveKey = .ok { s with key } ∧
      ({ s with key } : Lexer).Between F depth allowed x m ∧
      (allowed = true → key = some ⟨F.kinds.length, false, m⟩) := by
  cases allowed with
  | false => exact ⟨s.key, saveKey_of_not_keyAllowed h.keyAllowed, h, by simp⟩
  | true =>
      obtain ⟨hdrop, hdropped⟩ := h.dropKey
      have hrequired : (!s.inFlow && s.level == m.column + 1) = false := by
        rw [h.inFlow, h.level]
        by_cases hdepth : depth = 0
        · simp [hdepth, hlevel hdepth]
        · simp [hdepth]
      have hlength : s.tokens.size = F.kinds.length := by
        rw [← length_kinds, ← h.frame]
        rfl
      refine ⟨some ⟨F.kinds.length, false, m⟩, ?_,
        ⟨⟨h.before.rest, h.before.stop⟩, h.frame, h.depth,
        h.keyAllowed, fun k hk => ?_⟩, fun _ => rfl⟩
      · have hsave := saveKey_of_keyAllowed h.keyAllowed hdrop
        rw [hdropped.mark] at hsave
        rw [hsave, ← hrequired, ← hlength]
        rfl
      · rcases List.mem_cons.1 (show k ∈ _ :: s.outer.filterMap id from hk)
          with rfl | hk
        · exact ⟨rfl, Nat.le_refl _⟩
        · exact hdropped.keys k hk

/-- A reader between brackets has come to a state. -/
theorem Between.reached {t u : Lexer} {G : Frame} {depth' : Nat}
    {allowed' : Bool} {m' : Mark}
    (hstep : s.step = t.readHere >>= Lexer.dropStale)
    (hread : t.readHere = .ok u) (hu : u.Between G depth' allowed' y m')
    (hlength : y.length < s.rest.length)
    (hend : G.kinds.getLast? ≠ some .streamEnd) :
    ∃ v, Reaches s v ∧ v.Between G depth' allowed' y m' ∧
    v.key = u.key.filter (!·.isStale m') := by
  obtain ⟨v, hdrop, hv, hkey⟩ := hu.dropStale
  refine ⟨v, .single ?_ ?_ (not_atEnd_of_frame hv.frame hend), hv, hkey⟩
  · rw [hstep, hread]
    exact hdrop
  · rwa [hv.before.rest, Glyph.length_glyphs]

/-! ## Indicators -/

/-- One character has been taken as an indicator. -/
theorem Between.indicator {ch : Char}
    (h : s.Between F depth allowed (ch :: y) m) (hbreak : isBreak ch = false)
    (kind : Token.Kind) :
    (s.indicator kind).Between (F.add [kind]) depth allowed y m.next where
  before := by
    rw [← Mark.after_of_not_isBreak hbreak m]
    exact h.before.indicator kind
  frame := by rw [frame_indicator, h.frame]
  depth := h.depth
  keyAllowed := h.keyAllowed
  keys := h.keys

/-- The pairs of brackets. -/
inductive Brackets where
  | square
  | curly

namespace Brackets

/-- The bracket that opens. -/
def opening : Brackets → Char
  | square => '['
  | curly => '\x7b'

/-- The bracket that closes. -/
def closing : Brackets → Char
  | square => ']'
  | curly => '\x7d'

/-- What the opening bracket says. -/
def start : Brackets → Token.Kind
  | square => .flowSequenceStart
  | curly => .flowMappingStart

/-- What the closing bracket says. -/
def stop : Brackets → Token.Kind
  | square => .flowSequenceEnd
  | curly => .flowMappingEnd

end Brackets

/-- An opening bracket. -/
theorem Between.openFlow (b : Brackets)
    (h : s.Between F depth allowed (b.opening :: y) m)
    (hlevel : depth = 0 → F.level ≠ m.column + 1) :
    ∃ u, s.readHere = .ok u ∧
    u.Between (F.add [b.start]) (depth + 1) true y m.next := by
  have hhere : s.readHere = s.openFlow b.start := by
    cases b <;>
      simp [readHere, readAt, h.before.rest, Brackets.opening, Brackets.start,
      Glyph.isBoundary_of_ne]
  have hbreak : isBreak b.opening = false := by cases b <;> rfl
  obtain ⟨key, hsave, ht, -⟩ := h.saveKey hlevel
  have hu := ht.indicator hbreak b.start
  refine ⟨{ ({ s with key } : Lexer).indicator b.start with
      keyAllowed := true, key := none, outer := key :: s.outer }, ?_,
    ⟨hu.before.rest, hu.before.stop⟩, hu.frame, ?_, rfl, ?_⟩
  · rw [hhere, Lexer.openFlow, hsave]
    rfl
  · exact congrArg (· + 1) hu.depth
  · intro k hk
    exact hu.keys k hk

/-- A closing bracket. -/
theorem Between.closeFlow (b : Brackets)
    (h : s.Between F (depth + 1) allowed (b.closing :: y) m) :
    ∃ u, s.readHere = .ok u ∧
    u.Between (F.add [b.stop]) depth false y m.next := by
  have hhere : s.readHere = s.closeFlow b.stop := by
    cases b <;>
      simp [readHere, readAt, h.before.rest, Brackets.closing, Brackets.stop,
      Glyph.isBoundary_of_ne]
  have hbreak : isBreak b.closing = false := by cases b <;> rfl
  obtain ⟨hdrop, ht⟩ := h.dropKey
  have hu := ht.indicator hbreak b.stop
  obtain ⟨key, outer, houter⟩ : ∃ key outer, s.outer = key :: outer :=
    List.exists_cons_of_length_pos (by rw [h.depth]; exact Nat.succ_pos _)
  refine ⟨{ ({ s with key := none } : Lexer).indicator b.stop with
    keyAllowed := false, key, outer },
    ?_, ⟨hu.before.rest, hu.before.stop⟩, hu.frame, ?_, rfl, ?_⟩
  · rw [hhere, Lexer.closeFlow, hdrop]
    simp only [bind, Except.bind, houter, pure, Except.pure, Lexer.indicator,
      emit]
    rfl
  · simpa [houter] using h.depth
  · intro k hk
    have hk : k ∈ s.outer.filterMap id := by rwa [houter]
    exact hu.keys k hk

/-- A comma. -/
theorem Between.flowEntry (h : s.Between F depth allowed (',' :: y) m) :
    ∃ u, s.readHere = .ok u ∧
    u.Between (F.add [.flowEntry]) depth true y m.next := by
  have hhere : s.readHere = s.flowEntry := by
    simp [readHere, readAt, h.before.rest, Glyph.isBoundary_of_ne]
  obtain ⟨hdrop, ht⟩ := h.dropKey
  have hu := ht.indicator (by decide) .flowEntry
  refine ⟨{ ({ s with key := none } : Lexer).indicator .flowEntry with
    keyAllowed := true }, ?_,
    ⟨hu.before.rest, hu.before.stop⟩, hu.frame, hu.depth, rfl, hu.keys⟩
  rw [hhere, Lexer.flowEntry, hdrop]
  rfl

/-! ## Scalars -/

/-- The characters `w` have been read as a token. -/
theorem Between.scanned {key : Option PossibleKey}
    (h : ({ s with key } : Lexer).Between F depth allowed (w ++ y) m)
    (token : Token.Kind) (broken : Bool) :
    ({ s.emit token s.mark s.mark with
        key, keyAllowed := broken, rest := glyphs y (m.afterAll w) } :
        Lexer).Between
      (F.add [token]) depth broken y (m.afterAll w) where
  before := ⟨rfl, by simpa [emit] using h.before.stop⟩
  frame := by
    rw [← h.frame]
    simp [Lexer.frame, kinds, emit, Frame.add]
  depth := h.depth
  keyAllowed := rfl
  keys := fun k hk => by
    obtain ⟨hrequired, hline⟩ := h.keys k hk
    exact ⟨hrequired, Nat.le_trans hline (Mark.line_le_afterAll _ _)⟩

/-- A text between double quotes, each of whose characters is spelled
somehow. -/
theorem Between.doubleQuoted {write : Char → List Char} {text : String}
    (h : s.Between F depth allowed
      ('"' :: text.toList.flatMap write ++ '"' :: y) m)
    (hwrite : ∀ c ∈ text.toList, QuotedScalar.Spells (write c) c)
    (hlevel : depth = 0 → F.level ≠ m.column + 1) :
    ∃ u, s.readHere = .ok u ∧
      u.Between (F.add [.scalar text .doubleQuoted]) depth false y
        (m.afterAll ('"' :: text.toList.flatMap write ++ ['"'])) ∧
      (allowed = true → u.key = some ⟨F.kinds.length, false, m⟩) := by
  have hhere : s.readHere = s.quotedScalar false := by
    simp [readHere, readAt, h.before.rest, Glyph.isBoundary_of_ne]
  obtain ⟨key, hsave, ht, hkey⟩ := h.saveKey hlevel
  have hcolumn : (m.after '"').column ≠ 0 := by
    simp [Mark.after_of_not_isBreak (show isBreak '"' = false from rfl),
      Mark.next]
  have hread : QuotedScalar.read false s.mark s.stop s.rest.tail =
    .ok ⟨text.toList,
      glyphs y (m.afterAll ('"' :: text.toList.flatMap write ++ ['"']))⟩ := by
    rw [h.mark, h.before.rest]
    simpa [QuotedScalar.read] using
      QuotedScalar.readFrom_spelled m s.stop [] [] y hwrite hcolumn
  refine ⟨_, hhere.trans (quotedScalar_eq hsave hread), ?_, hkey⟩
  exact Between.scanned (w := '"' :: text.toList.flatMap write ++ ['"'])
    (by simpa using ht) _ _

/-- A colon between brackets makes the place that has been noted a key. -/
theorem Between.value {k : PossibleKey} {G : Frame} {added : List Token.Kind}
    (h : s.Between (G.add added) (depth + 1) allowed (':' :: y) m)
    (hkey : s.key = some k) (hnumber : k.number = G.kinds.length) :
    ∃ u, s.readHere = .ok u ∧
      u.Between (G.add (.key :: added ++ [.value])) (depth + 1) false y
        m.next := by
  have hflow : s.inFlow = true := by simp [h.inFlow]
  have hhere : s.readHere = s.value := by
    simp [readHere, readAt, h.before.rest, Glyph.isBoundary_of_ne, hflow]
  let t : Lexer := { s with
    tokens := s.tokens.insertIdxIfInBounds k.number ⟨.key, k.mark, k.mark⟩ }
  -- Between brackets no column tells where a mapping starts, so none is started
  -- here.
  have hroll : t.roll k.mark.column k.number .blockMappingStart k.mark = t := by
    simp [roll, show t.inFlow = true from hflow]
  have ht : t.frame = G.add (.key :: added) := by
    have := frame_insert h.frame ⟨.key, k.mark, k.mark⟩
    rwa [← hnumber] at this
  have hbetween : t.Between (G.add (.key :: added)) (depth + 1) allowed
      (':' :: y) m :=
    ⟨⟨h.before.rest, h.before.stop⟩, ht, h.depth, h.keyAllowed, h.keys⟩
  have hu := hbetween.indicator rfl .value
  rw [Frame.add_add] at hu
  refine ⟨{ t.indicator .value with key := none, keyAllowed := false }, ?_,
    ⟨hu.before.rest, hu.before.stop⟩, hu.frame, hu.depth, rfl, fun k' hk' => ?_⟩
  · rw [hhere, value_eq hkey]
    exact congrArg (fun v : Lexer => Except.ok
      { v.indicator .value with key := none, keyAllowed := false }) hroll
  · obtain ⟨o, ho, hk⟩ :=
      List.mem_filterMap.1 (show k' ∈ s.outer.filterMap id from hk')
    exact hu.keys k' (List.mem_filterMap.2 ⟨o, List.mem_cons_of_mem _ ho, hk⟩)

/-! ## From one token to the next -/

/-- Between brackets, separators at most are before the text `x`. -/
structure Awaits (s : Lexer) (F : Frame) (depth : Nat) (allowed : Bool)
    (x : List Char) : Prop where
  startsToken : StartsToken x
  separated : ∃ ws m, (∀ e ∈ ws, isSeparator e = true) ∧
    s.Between F depth allowed (ws ++ x) m

theorem Between.awaits (ws : List Char)
    (h : s.Between F depth allowed (ws ++ x) m)
    (hws : ∀ e ∈ ws, isSeparator e = true) (hx : StartsToken x) :
    s.Awaits F depth allowed x :=
  ⟨hx, ws, m, hws, h⟩

/-- A step reads the next token. -/
theorem Awaits.step (h : s.Awaits F (depth + 1) allowed x) :
    ∃ (t : Lexer) (m : Mark), t.Between F (depth + 1) allowed x m ∧
      s.step = t.readHere >>= Lexer.dropStale ∧ x.length ≤ s.rest.length := by
  obtain ⟨ws, m, hws, hbetween⟩ := h.separated
  obtain ⟨t, ht, -, hstep⟩ :=
    hbetween.step ws (Nat.succ_ne_zero _) hws h.startsToken
  exact ⟨t, _, ht, hstep, by simp [hbetween.before.rest]⟩

theorem Awaits.openFlow (b : Brackets)
    (h : s.Awaits F (depth + 1) allowed (b.opening :: y)) :
    ∃ (t : Lexer) (m : Mark), Reaches s t ∧
      t.Between (F.add [b.start]) (depth + 1 + 1) true y m := by
  obtain ⟨t, m, ht, hstep, hlength⟩ := h.step
  obtain ⟨u, hread, hu⟩ := ht.openFlow b (by simp)
  obtain ⟨v, hreaches, hv, -⟩ := hu.reached hstep hread hlength
    (by cases b <;> simp [Frame.add, Brackets.start])
  exact ⟨v, _, hreaches, hv⟩

theorem Awaits.closeFlow (b : Brackets)
    (h : s.Awaits F (depth + 1) allowed (b.closing :: y)) :
    ∃ (t : Lexer) (m : Mark),
      Reaches s t ∧ t.Between (F.add [b.stop]) depth false y m := by
  obtain ⟨t, m, ht, hstep, hlength⟩ := h.step
  obtain ⟨u, hread, hu⟩ := ht.closeFlow b
  obtain ⟨v, hreaches, hv, -⟩ := hu.reached hstep hread hlength
    (by cases b <;> simp [Frame.add, Brackets.stop])
  exact ⟨v, _, hreaches, hv⟩

theorem Awaits.flowEntry (h : s.Awaits F (depth + 1) allowed (',' :: y)) :
    ∃ (t : Lexer) (m : Mark), Reaches s t ∧
      t.Between (F.add [.flowEntry]) (depth + 1) true y m := by
  obtain ⟨t, m, ht, hstep, hlength⟩ := h.step
  obtain ⟨u, hread, hu⟩ := ht.flowEntry
  obtain ⟨v, hreaches, hv, -⟩ := hu.reached hstep hread hlength
    (by simp [Frame.add])
  exact ⟨v, _, hreaches, hv⟩

/-- A text that is no key. -/
theorem Awaits.doubleQuoted {write : Char → List Char} {text : String}
    (h : s.Awaits F (depth + 1) allowed
      ('"' :: text.toList.flatMap write ++ '"' :: y))
    (hwrite : ∀ c ∈ text.toList, QuotedScalar.Spells (write c) c) :
    ∃ (t : Lexer) (m : Mark), Reaches s t ∧
      t.Between (F.add [.scalar text .doubleQuoted]) (depth + 1) false y m := by
  obtain ⟨t, m, ht, hstep, hlength⟩ := h.step
  obtain ⟨u, hread, hu, -⟩ := ht.doubleQuoted hwrite (by simp)
  obtain ⟨v, hreaches, hv, -⟩ := hu.reached hstep hread
    (by simp only [List.length_append, List.length_cons] at hlength; omega)
      (by simp [Frame.add])
  exact ⟨v, _, hreaches, hv⟩

/-- A text before a colon, short enough for a key. -/
theorem Awaits.key {write : Char → List Char} {text : String}
    (h : s.Awaits F (depth + 1) true
      ('"' :: text.toList.flatMap write ++ '"' :: ':' :: y))
    (hwrite : ∀ c ∈ text.toList, QuotedScalar.Spells (write c) c)
    (hshort : ('"' :: text.toList.flatMap write ++ ['"']).length ≤
      PossibleKey.reach) :
    ∃ (t : Lexer) (m : Mark), Reaches s t ∧
      t.Between (F.add [.key, .scalar text .doubleQuoted, .value])
        (depth + 1) false y m := by
  obtain ⟨t, m, ht, hstep, hlength⟩ := h.step
  obtain ⟨u, hread, hu, hkey⟩ := ht.doubleQuoted hwrite (by simp)
  obtain ⟨v, hreaches, hv, hvkey⟩ := hu.reached hstep hread
    (by simp only [List.length_append, List.length_cons] at hlength ⊢; omega)
      (by simp [Frame.add])
  have hline : ∀ c ∈ '"' :: text.toList.flatMap write ++ ['"'],
      isBreak c = false := by
    intro c hc
    simp only [List.mem_cons, List.mem_append, List.mem_flatMap,
      List.not_mem_nil, or_false] at hc
    rcases hc with (rfl | ⟨d, hd, hc⟩) | rfl
    · rfl
    · exact (hwrite d hd).line.2 c hc
    · rfl
  have hfresh :=
    isStale_afterAll_of_line (k := ⟨F.kinds.length, false, m⟩) hline hshort
  have hvkey : v.key = some ⟨F.kinds.length, false, m⟩ := by
    rw [hvkey, hkey rfl, Option.filter_some, if_pos (by simpa using hfresh)]
  obtain ⟨t', ht', htkey, hstep'⟩ := hv.step [] (Nat.succ_ne_zero _) (by simp)
    ⟨rfl, rfl, by decide, by decide⟩
  obtain ⟨u', hread', hu'⟩ := ht'.value
    (by rw [htkey, hvkey, Option.filter_some, if_pos (by simpa using hfresh)])
      rfl
  obtain ⟨v', hreaches', hv', -⟩ :=
    hu'.reached hstep' hread' (by simp [hv.before.rest]) (by simp [Frame.add])
  exact ⟨v', _, hreaches.trans hreaches', hv'⟩

/-- A truth value, which ends where an indicator is the next thing between
brackets. -/
theorem Awaits.flag {b : Bool} {ws : List Char}
    (hws : ∀ e ∈ ws, isSeparator e = true) (hx : StartsToken x)
    (hends : x.head?.any PlainScalar.isFlowIndicator = true)
    (h : s.Awaits F (depth + 1) allowed (Datum.yamlFlag b ++ (ws ++ x))) :
    ∃ (t : Lexer) (allowed' : Bool), Reaches s t ∧
      t.Awaits (F.add [.scalar (String.ofList (Datum.yamlFlag b)) .plain])
        (depth + 1) allowed' x := by
  obtain ⟨t, m, ht, hstep, hlength⟩ := h.step
  have hhere : t.readHere = t.plainScalar := by
    cases b <;>
      simp [readHere, readAt, ht.before.rest, Datum.yamlFlag,
        Glyph.isBoundary_of_ne, startsPlain,
        isBlank, isBreak, isIndicator, String.contains_char_eq]
  obtain ⟨broken, hread⟩ :=
    PlainScalar.readFrom_brackets t.level m (Datum.yamlFlag b).reverse .empty
    (m := m.afterAll (Datum.yamlFlag b)) hws hends
  have hword :
    PlainScalar.read true t.level m (glyphs (Datum.yamlFlag b ++ (ws ++ x)) m) =
      PlainScalar.readFrom true t.level m
        (glyphs (ws ++ x) (m.afterAll (Datum.yamlFlag b)))
        (Datum.yamlFlag b).reverse .empty := by
    cases b <;> rfl
  have hflow : t.inFlow = true := by simp [ht.inFlow]
  obtain ⟨key, hsave, hkeys, -⟩ := ht.saveKey (by simp)
  have hread : PlainScalar.read t.inFlow t.level t.mark t.rest =
      .ok ⟨(String.ofList (Datum.yamlFlag b)).toList, broken,
        glyphs x (m.afterAll (Datum.yamlFlag b ++ ws))⟩ := by
    rw [hflow, ht.mark, ht.before.rest, hword, hread]
    simp
  have hu :=
    Between.scanned (w := Datum.yamlFlag b ++ ws) (by simpa using hkeys)
    (.scalar (String.ofList (Datum.yamlFlag b)) .plain) broken
  obtain ⟨v, hreaches, hv, -⟩ :=
    hu.reached hstep (hhere.trans (plainScalar_eq hsave hread)) (by
    have : 0 < (Datum.yamlFlag b).length := by cases b <;> decide
    simp only [List.length_append] at hlength
    omega) (by simp [Frame.add])
  exact ⟨v, broken, hreaches, hv.awaits [] (by simp) hx⟩

end DaggerWorkflows.Yaml.Lexer
