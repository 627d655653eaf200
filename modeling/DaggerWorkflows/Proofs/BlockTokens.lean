import DaggerWorkflows.Proofs.FlowSteps
import DaggerWorkflows.Proofs.PrintableText

/-!
# Tokens of data that is written by indentation

What the tokens of written data say is a function of the data (`blockKinds`),
and a reader that stands after the indicator before the data gets exactly these
tokens, closes what the data has opened and resumes at what comes next. The
proof follows the recursion of the writer. At each node it needs to know only
that the collection around it starts in the column of the indicator, and that
what comes next does not start further right.
-/

namespace DaggerWorkflows

namespace Datum

open Scalar (readStyle)

mutual

/-- What the tokens of data say after an indicator; a list after the colon of a
short key is not indented further than the key. -/
def blockKinds (short : Bool) : Datum → List Yaml.Token.Kind
  | text s => [.scalar s (readStyle s)]
  | flag b => [.scalar (String.ofList (yamlFlag b)) .plain]
  | list [] => [.flowSequenceStart, .flowSequenceEnd]
  | list (d :: items) =>
      if short then itemKinds (d :: items)
      else .blockSequenceStart :: itemKinds (d :: items) ++ [.blockEnd]
  | map [] => [.flowMappingStart, .flowMappingEnd]
  | map (e :: entries) =>
      .blockMappingStart :: entryKinds (e :: entries) ++ [.blockEnd]
termination_by structural d => d

/-- What the tokens of the items of a list say. -/
def itemKinds : List Datum → List Yaml.Token.Kind
  | [] => []
  | d :: items => .blockEntry :: d.blockKinds false ++ itemKinds items
termination_by structural items => items

/-- What the tokens of the entries of a map say. -/
def entryKinds : List (String × Datum) → List Yaml.Token.Kind
  | [] => []
  | (key, d) :: entries =>
      [.key, .scalar key (readStyle key), .value] ++
        d.blockKinds (Scalar.isSimpleKey key) ++ entryKinds entries
termination_by structural entries => entries

end

/-- What is written after an indicator starts with a blank, or on a new line. -/
theorem head?_yamlAfter (indent : Nat) (d : Datum) (x : List Char) :
    (∃ y, d.yamlAfter indent false ++ x = ' ' :: y) ∧
      ((d.yamlAfter indent true ++ x).head? = some ' ' ∨
        (d.yamlAfter indent true ++ x).head? = some '\n') := by
  match d with
  | text s => simp [yamlAfter]
  | flag b => simp [yamlAfter]
  | list [] => simp [yamlAfter]
  | list (_ :: _) => simp [yamlAfter]
  | map [] => simp [yamlAfter]
  | map (_ :: _) => simp [yamlAfter]

theorem yamlItems_padded {items : List Datum} (h : items ≠ []) (column : Nat) :
    yamlItems column true items = Scalar.pad column ++
      yamlItems column false items := by
  cases items with
  | nil => exact absurd rfl h
  | cons d items => simp [yamlItems]

theorem yamlEntries_padded {entries : List (String × Datum)} (h : entries ≠ [])
    (column : Nat) :
    yamlEntries column true entries = Scalar.pad column ++
      yamlEntries column false entries := by
  cases entries with
  | nil => exact absurd rfl h
  | cons e entries => simp [yamlEntries]

namespace Scalar

/-- A scalar starts with no character that separates tokens. -/
theorem startsToken_render (column : Nat) (s : String) (x : List Char) :
    Yaml.StartsToken (render column s ++ x) := by
  have hsuits := suits_style s
  unfold render
  cases hstyle : style s with
  | plain =>
      rw [hstyle] at hsuits
      obtain ⟨hplain, hdifferent⟩ := hsuits
      obtain ⟨c, cs, hcs⟩ :=
        List.exists_cons_of_ne_nil (ne_nil_of_looksDifferent hdifferent)
      simp only [hcs] at hplain ⊢
      simp only [allowsPlain, needsEscapes, Bool.not_eq_true',
        Bool.or_eq_false_iff, hasIndicators,
        List.any_cons, Bool.not_eq_false', atEnd, List.head?_cons,
          Option.any_some] at hplain
      obtain ⟨⟨⟨⟨⟨hprint, -⟩, -⟩, hbreak, -⟩, hblank, -⟩, -, hstarts, -⟩ :=
        hplain
      refine ⟨by rw [isBlank_of_isPrintable hprint, hblank],
        by rw [isBreak_of_isPrintable hprint, hbreak], ?_,
        ne_of_isPrintable hprint (by decide)⟩
      rintro rfl
      exact (Yaml.Lexer.not_startsIndicator hstarts).1
        (by simp [Yaml.Lexer.indicators])
  | single => exact ⟨rfl, rfl, by decide, by decide⟩
  | double => exact ⟨rfl, rfl, by decide, by decide⟩
  | literal => exact ⟨rfl, rfl, by decide, by decide⟩

theorem render_ne_nil (column : Nat) (s : String) : render column s ≠ [] := by
  have hsuits := suits_style s
  unfold render
  cases hstyle : style s with
  | plain =>
      rw [hstyle] at hsuits
      exact ne_nil_of_looksDifferent hsuits.2
  | single => exact List.cons_ne_nil _ _
  | double => exact List.cons_ne_nil _ _
  | literal => exact List.cons_ne_nil _ _

end Scalar

theorem startsToken_yamlItems {items : List Datum} (h : items ≠ [])
    (column : Nat) (x : List Char) :
    Yaml.StartsToken (yamlItems column false items ++ x) := by
  cases items with
  | nil => exact absurd rfl h
  | cons d items => exact ⟨rfl, rfl, by decide, by decide⟩

theorem startsToken_yamlEntries {entries : List (String × Datum)}
    (h : entries ≠ []) (column : Nat) (x : List Char) :
    Yaml.StartsToken (yamlEntries column false entries ++ x) := by
  cases entries with
  | nil => exact absurd rfl h
  | cons e entries =>
      obtain ⟨key, d⟩ := e
      cases hkey : Scalar.isSimpleKey key with
      | true =>
          simpa [yamlEntries, hkey] using Scalar.startsToken_render column key _
      | false =>
          simp only [yamlEntries, hkey]
          exact ⟨rfl, rfl, by decide, by decide⟩

end Datum

namespace Yaml.Lexer

open Datum (blockKinds itemKinds entryKinds)
open Datum.Scalar (pad render endLine readStyle isSimpleKey)

variable {s : Lexer} {F : Frame} {floor c n : Nat} {allowed : Bool}
  {x y : List Char} {m : Mark}

/-- What comes next stands one blank further on in the line. -/
theorem Stands.sameLine (h : s.Stands F allowed (' ' :: x) m)
    (hx : StartsToken x) (hlevel : F.level ≤ m.column + 2) :
    s.Resumes F (m.column + 2) allowed x (m.column + 1) := by
  have :=
    Stands.resumes [' '] (m.column + 2) h (by simp [isSeparator]) hx hlevel
  simpa [show (m.after ' ').column = m.column + 1 from rfl] using this

/-- What comes next stands on a new line, where a key is allowed. -/
theorem Stands.newLine (h : s.Stands F allowed ('\n' :: (pad c ++ x)) m)
    (hx : StartsToken x) (hlevel : F.level ≤ c + 1) :
    s.Resumes F (c + 1) true x c := by
  have := Stands.resumes ('\n' :: pad c) (c + 1) h
    (fun e => isSeparator_of_mem_newline) hx hlevel
  have hcolumn := column_afterAll_newline m [] c
  rw [List.nil_append] at hcolumn
  rw [hcolumn] at this
  simpa using this

/-- After a blank the reader goes on to the next token of the line. -/
theorem Stands.skipBlank (h : s.Stands F allowed (' ' :: x) m)
    (hx : StartsToken x) (hlevel : F.level ≤ m.column + 2) :
    ∃ (t : Lexer) (m' : Mark), t.Stands F allowed x m' ∧
    m'.column = m.column + 1 ∧
      t.rest.length ≤ s.rest.length ∧ s.step = t.readHere >>= Lexer.dropStale :=
  (h.sameLine hx hlevel).step (Nat.le_refl _) hlevel

/-- A text after an indicator. -/
theorem Stands.textData {column : Nat} (text : String)
    (h : s.Stands F allowed (' ' :: endLine (render column text) ++
      (pad n ++ x)) m) (hlevel : F.level = column + 1) (hm : column < m.column)
    (hn : n ≤ column) (hx : StartsToken x) :
    ∃ t, Reaches s t ∧
      t.Resumes (F.add [.scalar text (readStyle text)]) (column + 1) true
        x n := by
  have hstarts :
      StartsToken (endLine (render column text) ++ (pad n ++ x)) := by
    rw [Datum.Scalar.endLine_eq, List.append_assoc]
    exact Datum.Scalar.startsToken_render column text _
  obtain ⟨t, m', ht, hm', hlength, hstep⟩ := h.skipBlank hstarts (by omega)
  obtain ⟨u, hread, hu, hrest, hend⟩ :=
    ht.scalarLine text hlevel (by omega) hn hx
  exact Reaches.of_resumes hstep hread hu (by omega) hend

/-- A truth value after an indicator. -/
theorem Stands.flagData {b : Bool} {column : Nat}
    (h : s.Stands F allowed (' ' :: Datum.yamlFlag b ++ ['\n'] ++ (pad n ++ x))
      m) (hlevel : F.level = column + 1) (hm : column < m.column)
    (hn : n ≤ column) (hx : StartsToken x) :
    ∃ t, Reaches s t ∧
      t.Resumes (F.add [.scalar (String.ofList (Datum.yamlFlag b)) .plain])
        (column + 1) true x n := by
  have hword : Datum.Scalar.allowsPlain (Datum.yamlFlag b) = true ∧
      Datum.yamlFlag b ≠ [] := by
    cases b <;>
      simp [Datum.yamlFlag, Datum.Scalar.allowsPlain,
        Datum.Scalar.hasIndicators,
        Datum.Scalar.startsIndicator, String.contains_char_eq] <;>
          decide +kernel
  have hstarts : StartsToken (Datum.yamlFlag b ++ ('\n' :: pad n ++ x)) := by
    cases b <;> exact ⟨rfl, rfl, by decide, by decide⟩
  obtain ⟨t, m', ht, hm', hlength, hstep⟩ :=
    Stands.skipBlank (by simpa using h) hstarts (by omega)
  obtain ⟨u, hread, hu, hrest, hend⟩ :=
    Stands.plainLine (String.ofList (Datum.yamlFlag b))
    (by simpa using hword.1) (by simpa using hword.2) (by simpa using ht) hlevel
      (by omega) hn hx
  exact Reaches.of_resumes hstep hread hu (by omega) hend

/-- An empty collection after an indicator. -/
theorem Stands.emptyData (b : Brackets) {column : Nat}
    (h : s.Stands F allowed
      (' ' :: b.opening :: b.closing :: '\n' :: (pad n ++ x)) m)
    (hlevel : F.level = column + 1) (hm : column < m.column)
    (hx : StartsToken x) :
    ∃ t, Reaches s t ∧
    t.Resumes (F.add [b.start, b.stop]) (column + 1) true x n := by
  have hopening :
      StartsToken (b.opening :: b.closing :: '\n' :: (pad n ++ x)) := by
    cases b <;> exact ⟨rfl, rfl, by decide, by decide⟩
  have hclosing : StartsToken (b.closing :: '\n' :: (pad n ++ x)) := by
    cases b <;> exact ⟨rfl, rfl, by decide, by decide⟩
  obtain ⟨t, m', ht, hm', hlength, hstep⟩ := h.skipBlank hopening (by omega)
  obtain ⟨u, hread, hu⟩ := ht.between.openFlow b (by omega)
  have hrest : (b.opening :: b.closing :: '\n' :: (pad n ++ x)).length ≤
      s.rest.length := by
    rw [← Glyph.length_glyphs _ m', ← ht.before.rest]
    exact hlength
  obtain ⟨v, hreaches, hv, -⟩ := hu.reached hstep hread hrest
    (by cases b <;> simp [Frame.add, Brackets.start])
  obtain ⟨w, m'', hreaches', hw⟩ :=
    (hv.awaits [] (by simp) hclosing).closeFlow b
  rw [Frame.add_add] at hw
  have hresumes := Between.resumes ('\n' :: pad n) (column + 1) hw
    (fun e => isSeparator_of_mem_newline) hx (by simp) (by simp [hlevel])
  have hcolumn := column_afterAll_newline m'' [] n
  rw [List.nil_append] at hcolumn
  rw [hcolumn] at hresumes
  exact ⟨w, hreaches.trans hreaches', hresumes⟩

/-- A collection that is indented further than the one around it, once it has
been read. -/
theorem Resumes.closeOpened {column c : Nat} {kind : Token.Kind}
    {kinds : List Token.Kind}
    (h : s.Resumes ((F.opened c kind).add kinds) (c + 1) true x n)
    (hlevel : F.level = column + 1) (hc : column < c) :
    s.Resumes (F.add (kind :: kinds ++ [.blockEnd])) (column + 1) true x n := by
  have hopened : F.opened c kind =
      ⟨F.kinds ++ [kind], c + 1, F.level :: F.levels⟩ :=
    if_neg (by omega)
  rw [hopened] at h
  have := h.close (f := column + 1) rfl (by simp [Frame.add]; omega) (by omega)
    (by omega)
  simpa [Frame.add] using this

/-- A short key and its colon. -/
theorem Resumes.simpleKey {key : String} (hkey : isSimpleKey key = true)
    (h : s.Resumes F (c + 1) true (render c key ++ ':' :: y) c)
    (hy : y.head? = some ' ' ∨ y.head? = some '\n') (hlevel : F.level ≤ c + 1) :
    ∃ (t : Lexer) (m : Mark), Reaches s t ∧ c < m.column ∧
      t.Stands ((F.opened c .blockMappingStart).add
        [.key, .scalar key (readStyle key), .value]) false y m := by
  obtain ⟨t, m, ht, hm, hlength, hstep⟩ := h.step (Nat.le_refl _) hlevel
  obtain ⟨u, hread, hu⟩ := ht.scalarKey key hkey hy (by omega)
  obtain ⟨-, hline, hshort⟩ := Datum.Scalar.render_of_isSimpleKey hkey c
  let k : PossibleKey := ⟨F.kinds.length, F.level == m.column + 1, m⟩
  -- The key is short and on one line, so it is still one when the reader comes
  -- to its colon.
  have hfresh : k.isStale (m.afterAll (render c key)) = false :=
    isStale_afterAll_of_line hline hshort
  have hukey : u.key = some k := hu.key
  have hdrop : u.dropStale = .ok u := by
    refine dropStale_eq_self hu.outer fun k' hk' => ?_
    obtain rfl : k = k' := Option.some.inj (hukey.symm.trans hk')
    rw [hu.before.mark]
    exact hfresh
  have hcolumn := (Mark.afterAll_of_line hline m).2
  have hrest : u.rest.length < s.rest.length :=
    Nat.lt_of_lt_of_le (hu.length_lt ht (Datum.Scalar.render_ne_nil c key))
      hlength
  obtain ⟨v, hreaches, hv⟩ := hu.value (k := k) rfl rfl hfresh hy (by omega)
  rw [hm] at hv
  refine ⟨v, _, (Reaches.single ?_ hrest hu.not_atEnd).trans hreaches, ?_, hv⟩
  · rw [hstep, hread]
    exact hdrop
  · rw [Mark.after_of_not_isBreak rfl]
    exact Nat.lt_succ_of_le (by omega)

/-- A key on a line of its own, and the colon on the next one. -/
theorem Resumes.explicitEntry {key : String}
    (h : s.Resumes F (c + 1) true
      ('?' :: ' ' :: endLine (render c key) ++ (pad c ++ ':' :: ' ' :: y)) c)
    (hlevel : F.level ≤ c + 1) :
    ∃ (t : Lexer) (m : Mark), Reaches s t ∧ m.column = c + 1 ∧
      t.Stands ((F.opened c .blockMappingStart).add
        [.key, .scalar key (readStyle key), .value]) true (' ' :: y) m := by
  obtain ⟨t, m, hreaches, hm, ht⟩ :=
    Resumes.explicitKey h (Nat.le_refl _) hlevel
  have hopened : ((F.opened c .blockMappingStart).add [.key]).level = c + 1 :=
    Frame.level_opened hlevel _
  obtain ⟨u, hreaches', hu⟩ :=
    Stands.textData (n := c) key ht hopened (by omega) (Nat.le_refl _)
    ⟨rfl, rfl, by decide, by decide⟩
  obtain ⟨v, m', hreaches'', hm', hv⟩ :=
    hu.explicitValue (Nat.le_refl _) hopened
  refine ⟨v, m', (hreaches.trans hreaches').trans hreaches'', hm', ?_⟩
  simpa using hv

/-- After either kind of key the reader stands before the value. Only a short
key leaves it on the line of the key, where no other key may start. -/
theorem Resumes.entryKey (key : String) (d : Datum)
    (entries : List (String × Datum))
    (h : s.Resumes F (c + 1) true
      (Datum.yamlEntries c false ((key, d) :: entries) ++ (pad n ++ x)) c)
    (hlevel : F.level ≤ c + 1) :
    ∃ (t : Lexer) (m : Mark) (allowed : Bool), Reaches s t ∧ c < m.column ∧
      (isSimpleKey key = false → m.column = c + 1 ∧ allowed = true) ∧
      t.Stands ((F.opened c .blockMappingStart).add
        [.key, .scalar key (readStyle key), .value]) allowed
        (d.yamlAfter c (isSimpleKey key) ++
          (Datum.yamlEntries c true entries ++ (pad n ++ x)))
        m := by
  let rest := Datum.yamlEntries c true entries ++ (pad n ++ x)
  cases hsimple : isSimpleKey key with
  | true =>
      obtain ⟨t, m, hreaches, hm, ht⟩ :=
        Resumes.simpleKey (F := F) (s := s) (c := c)
        (y := d.yamlAfter c true ++ rest) hsimple
        (by simpa [Datum.yamlEntries, hsimple, rest] using h)
        (Datum.head?_yamlAfter c d rest).2 hlevel
      exact ⟨t, m, false, hreaches, hm, by simp, ht⟩
  | false =>
      obtain ⟨y, hy⟩ := (Datum.head?_yamlAfter c d rest).1
      obtain ⟨t, m, hreaches, hm, ht⟩ :=
        Resumes.explicitEntry (F := F) (s := s) (c := c) (y := y)
        (by rw [← hy]; simpa [Datum.yamlEntries, hsimple, rest] using h) hlevel
      exact ⟨t, m, true, hreaches, by omega, fun _ => ⟨hm, rfl⟩, by rwa [hy]⟩

/-- The entries of a map start on a line of their own, or else on that of the
indicator, and in the same column. -/
theorem Stands.beforeEntries (e : String × Datum)
    (entries : List (String × Datum)) {short : Bool} {column : Nat}
    (h : s.Stands F allowed
      ((Datum.map (e :: entries)).yamlAfter column short ++ (pad n ++ x)) m)
    (hlevel : F.level = column + 1)
    (hshort : short = false → m.column = column + 1 ∧ allowed = true) :
    s.Resumes F (column + 2 + 1) true
      (Datum.yamlEntries (column + 2) false (e :: entries) ++ (pad n ++ x))
        (column + 2) := by
  have hne := List.cons_ne_nil e entries
  cases short with
  | true =>
      simp only [Datum.yamlAfter, if_true, Datum.yamlEntries_padded hne] at h
      exact Stands.newLine (by simpa using h)
        (Datum.startsToken_yamlEntries hne _ _) (by omega)
  | false =>
      obtain ⟨hcolumn, rfl⟩ := hshort rfl
      simp only [Datum.yamlAfter, Bool.false_eq_true, if_false] at h
      have hresumes :=
        h.sameLine (Datum.startsToken_yamlEntries hne _ _) (by omega)
      rwa [hcolumn] at hresumes

mutual

/-- Data after an indicator in the column of the collection around it. -/
theorem Stands.data :
    ∀ (d : Datum) {s : Lexer} {F : Frame} {allowed short : Bool}
      {column n : Nat}
    {x : List Char} {m : Mark},
    s.Stands F allowed (d.yamlAfter column short ++ (pad n ++ x)) m →
    F.level = column + 1 →
    column < m.column →
    (short = false → m.column = column + 1 ∧ allowed = true) → n ≤ column →
    StartsToken x →
    ∃ t,
      Reaches s t ∧ t.Resumes (F.add (d.blockKinds short)) (column + 1) true x n
  | .text text, s, F, allowed, short, column, n, x, m, h, hlevel, hm, hshort,
    hn, hx =>
      h.textData text hlevel hm hn hx
  | .flag b, s, F, allowed, short, column, n, x, m, h, hlevel, hm, hshort,
      hn, hx =>
      h.flagData hlevel hm hn hx
  | .list [], s, F, allowed, short, column, n, x, m, h, hlevel, hm, hshort,
      hn, hx =>
      h.emptyData .square hlevel hm hx
  | .map [], s, F, allowed, short, column, n, x, m, h, hlevel, hm, hshort,
      hn, hx =>
      h.emptyData .curly hlevel hm hx
  | .list (d :: items), s, F, allowed, true, column, n, x, m, h, hlevel, hm,
      hshort, hn, hx => by
      -- The dashes stand in the column of the keys around, so no collection is
      -- opened for them.
      have hne := List.cons_ne_nil d items
      simp only [Datum.yamlAfter, if_true, Datum.yamlItems_padded hne] at h
      obtain ⟨t, hreaches, ht⟩ := Resumes.items (d :: items) hne
        (Stands.newLine (by simpa using h) (Datum.startsToken_yamlItems hne _ _)
          (by omega))
        (by omega) hn hx
      rw [Frame.opened_of_lt (by omega)] at ht
      exact ⟨t, hreaches, ht⟩
  | .list (d :: items), s, F, allowed, false, column, n, x, m, h, hlevel, hm,
      hshort, hn, hx => by
      have hne := List.cons_ne_nil d items
      obtain ⟨hcolumn, rfl⟩ := hshort rfl
      simp only [Datum.yamlAfter, Bool.false_eq_true, if_false] at h
      have hresumes :=
        h.sameLine (Datum.startsToken_yamlItems hne _ _) (by omega)
      rw [hcolumn] at hresumes
      obtain ⟨t, hreaches, ht⟩ :=
        Resumes.items (d :: items) hne hresumes (by omega) (by omega) hx
      exact ⟨t, hreaches, ht.closeOpened hlevel (by omega)⟩
  | .map (e :: entries), s, F, allowed, short, column, n, x, m, h, hlevel, hm,
      hshort, hn, hx => by
      have hne := List.cons_ne_nil e entries
      have hresumes := Stands.beforeEntries e entries h hlevel hshort
      obtain ⟨t, hreaches, ht⟩ :=
        Resumes.entries (e :: entries) hne hresumes (by omega) (by omega) hx
      exact ⟨t, hreaches, ht.closeOpened hlevel (by omega)⟩
termination_by structural d => d

/-- The items of a list from the first dash on. -/
theorem Resumes.items :
    ∀ (items : List Datum) {s : Lexer} {F : Frame} {c n : Nat} {x : List Char},
    items ≠ [] →
    s.Resumes F (c + 1) true (Datum.yamlItems c false items ++ (pad n ++ x)) c →
    F.level ≤ c + 1 → n ≤ c → StartsToken x →
    ∃ t, Reaches s t ∧
      t.Resumes ((F.opened c .blockSequenceStart).add (itemKinds items))
        (c + 1) true x n
  | [], s, F, c, n, x, hne, h, hlevel, hn, hx => absurd rfl hne
  | d :: items, s, F, c, n, x, hne, h, hlevel, hn, hx => by
      obtain ⟨y, hy⟩ := (Datum.head?_yamlAfter c d
        (Datum.yamlItems c true items ++ (pad n ++ x))).1
      obtain ⟨t, m, hreaches, hm, ht⟩ := Resumes.blockEntry (y := y)
        (by rw [← hy]; simpa [Datum.yamlItems] using h) (Nat.le_refl _) hlevel
      rw [← hy] at ht
      have hopened :
          ((F.opened c .blockSequenceStart).add [.blockEntry]).level = c + 1 :=
        Frame.level_opened hlevel _
      -- Behind the last item stands the text after the list, behind any other
      -- the next dash.
      cases hitems : items with
      | nil =>
          subst hitems
          obtain ⟨u, hreaches', hu⟩ := Stands.data d (n := n) (x := x)
            (by simpa [Datum.yamlItems] using ht) hopened (by omega)
              (fun _ => ⟨hm, rfl⟩) hn hx
          refine ⟨u, hreaches.trans hreaches', ?_⟩
          simpa [itemKinds] using hu
      | cons d' items' =>
          rw [← hitems]
          have hne' : items ≠ [] := by simp [hitems]
          obtain ⟨u, hreaches', hu⟩ := Stands.data d (n := c)
            (x := Datum.yamlItems c false items ++ (pad n ++ x))
            (by simpa [Datum.yamlItems_padded hne'] using ht) hopened (by omega)
              (fun _ => ⟨hm, rfl⟩)
            (Nat.le_refl _) (Datum.startsToken_yamlItems hne' _ _)
          have hopened' :=
            (Frame.level_add _ (d.blockKinds false)).trans hopened
          obtain ⟨v, hreaches'', hv⟩ :=
            Resumes.items items hne' hu (by omega) hn hx
          refine ⟨v, (hreaches.trans hreaches').trans hreaches'', ?_⟩
          rw [Frame.opened_of_lt (by omega)] at hv
          simpa [itemKinds] using hv
termination_by structural items => items

/-- The entries of a map from the first key on. -/
theorem Resumes.entries :
    ∀ (entries : List (String × Datum)) {s : Lexer} {F : Frame} {c n : Nat}
    {x : List Char},
    entries ≠ [] →
    s.Resumes F (c + 1) true (Datum.yamlEntries c false entries ++ (pad n ++ x))
      c →
    F.level ≤ c + 1 → n ≤ c → StartsToken x →
    ∃ t, Reaches s t ∧
      t.Resumes ((F.opened c .blockMappingStart).add (entryKinds entries))
        (c + 1) true x n
  | [], s, F, c, n, x, hne, h, hlevel, hn, hx => absurd rfl hne
  | (key, d) :: entries, s, F, c, n, x, hne, h, hlevel, hn, hx => by
      obtain ⟨t, m, allowed, hreaches, hm, hshort, ht⟩ :=
        Resumes.entryKey key d entries h hlevel
      have hopened : ((F.opened c .blockMappingStart).add
          [.key, .scalar key (readStyle key), .value]).level = c + 1 :=
            Frame.level_opened hlevel _
      cases hentries : entries with
      | nil =>
          subst hentries
          obtain ⟨u, hreaches', hu⟩ := Stands.data d (n := n) (x := x)
            (by simpa [Datum.yamlEntries] using ht) hopened hm hshort hn hx
          refine ⟨u, hreaches.trans hreaches', ?_⟩
          simpa [entryKinds] using hu
      | cons e' entries' =>
          rw [← hentries]
          have hne' : entries ≠ [] := by simp [hentries]
          obtain ⟨u, hreaches', hu⟩ := Stands.data d (n := c)
            (x := Datum.yamlEntries c false entries ++ (pad n ++ x))
            (by simpa [Datum.yamlEntries_padded hne'] using ht) hopened
              hm hshort
            (Nat.le_refl _) (Datum.startsToken_yamlEntries hne' _ _)
          have hopened' :=
            (Frame.level_add _ (d.blockKinds (isSimpleKey key))).trans hopened
          obtain ⟨v, hreaches'', hv⟩ :=
            Resumes.entries entries hne' hu (by omega) hn hx
          refine ⟨v, (hreaches.trans hreaches').trans hreaches'', ?_⟩
          rw [Frame.opened_of_lt (by omega)] at hv
          simpa [entryKinds] using hv
termination_by structural entries => entries

end

/-- The text of a map is read to its end, and its tokens say what the map
does. -/
theorem ofText_yaml (entries : List (String × Datum)) :
    ∃ list, Tokens.ofText (Datum.map entries).yaml = ⟨list, none⟩ ∧
      list.map (·.kind) = (Datum.map entries).blockKinds false ++
        [.streamEnd] := by
  cases hentries : entries with
  | nil => exact ⟨_, rfl, by decide +kernel⟩
  | cons e entries' =>
      rw [← hentries]
      have hne : entries ≠ [] := by simp [hentries]
      have hyaml : (Datum.map entries).yaml =
          String.ofList (Datum.yamlEntries 0 false entries) := by
        rw [hentries]
        rfl
      have htext : IsReadable (Datum.map entries).yaml.toList := by
        rw [hyaml, String.toList_ofList]
        exact Datum.isReadable_of_isPrintable
          (Datum.isPrintable_of_mem_yamlEntries entries)
      have hstands := stands_ofGlyphs (Datum.map entries).yaml.toList
      rw [hyaml, String.toList_ofList] at hstands htext
      have hresumes := Stands.resumes [] 1 (by simpa using hstands) (by simp)
        (by simpa using Datum.startsToken_yamlEntries hne 0 []) (by simp)
      rw [show (Mark.start.afterAll []).column = 0 from rfl] at hresumes
      obtain ⟨t, hreaches, ht⟩ :=
        Resumes.entries (c := 0) (n := 0) (x := []) entries hne
        (by simpa [pad] using hresumes) (by simp) (Nat.le_refl _) trivial
      have htext :
          IsReadable
            (String.ofList (Datum.yamlEntries 0 false entries)).toList := by
        simpa using htext
      obtain ⟨list, hlist, hkinds⟩ :=
        ofText_of_reaches htext (by simpa using hreaches) ht
      refine ⟨list, by rw [hyaml, hlist], ?_⟩
      rw [hkinds, hentries]
      simp [Frame.add, Frame.opened, Frame.unroll, Frame.unrollFrom, blockKinds]

end Yaml.Lexer

end DaggerWorkflows
