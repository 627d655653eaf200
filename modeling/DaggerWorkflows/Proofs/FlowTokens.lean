import DaggerWorkflows.Datum.Json
import DaggerWorkflows.Proofs.FlowSteps
import Mathlib.Data.List.TakeWhile

/-!
# Tokens of data that is written with brackets

To a reader of YAML a JSON text is one collection between brackets. Its strings
are texts between double quotes, and what the reader makes of their escapes is
what JSON means by them. The two formats do not agree about every character
that is not escaped, nor about how long a key may be: `IsShared` holds of the
data for which they do, and then the tokens say what the data does.
-/

namespace DaggerWorkflows

namespace Datum

open Yaml (PossibleKey Token)

mutual

/-- What the tokens of data between brackets say. -/
def flowKinds : Datum → List Token.Kind
  | text s => [.scalar s .doubleQuoted]
  | flag b => [.scalar (String.ofList (yamlFlag b)) .plain]
  | list [] => [.flowSequenceStart, .flowSequenceEnd]
  | list (d :: items) =>
      .flowSequenceStart :: (d.flowKinds ++ flowItemKinds items) ++
        [.flowSequenceEnd]
  | map [] => [.flowMappingStart, .flowMappingEnd]
  | map ((key, d) :: entries) =>
      .flowMappingStart ::
        ([.key, .scalar key .doubleQuoted, .value] ++ d.flowKinds ++
          flowEntryKinds entries)
        ++ [.flowMappingEnd]
termination_by structural d => d

/-- What the tokens of the items after the first say. -/
def flowItemKinds : List Datum → List Token.Kind
  | [] => []
  | d :: items => .flowEntry :: d.flowKinds ++ flowItemKinds items
termination_by structural items => items

/-- What the tokens of the entries after the first say. -/
def flowEntryKinds : List (String × Datum) → List Token.Kind
  | [] => []
  | (key, d) :: entries =>
      .flowEntry :: ([.key, .scalar key .doubleQuoted, .value] ++ d.flowKinds)
        ++ flowEntryKinds entries
termination_by structural entries => entries

end

/-! ## What both formats agree about -/

/-- Whether a reader of YAML takes a character of a JSON string as what it is:
it is escaped, or it may stand in a text and ends no line. -/
def isSharedChar (c : Char) : Bool :=
  decide (c.toNat < 32)
    || (Yaml.isAllowed c && c != '\u0085' && c != '\u2028' && c != '\u2029')

/-- Whether all characters of a text are taken as what they are. -/
def isSharedText (s : String) : Bool := s.toList.all isSharedChar

/-- Whether a reader of YAML takes a JSON string before a colon as a key. -/
def isSharedKey (key : String) : Bool :=
  isSharedText key && decide ((jsonString key).length ≤ PossibleKey.reach)

mutual

/-- Whether the data means the same to readers of JSON and of YAML when it is
written as JSON. -/
def IsShared : Datum → Prop
  | text s => isSharedText s = true
  | flag _ => True
  | list items => AreSharedItems items
  | map entries => AreSharedEntries entries
termination_by structural d => d

/-- Whether all items mean the same. -/
def AreSharedItems : List Datum → Prop
  | [] => True
  | d :: items => d.IsShared ∧ AreSharedItems items
termination_by structural items => items

/-- Whether all keys and entries mean the same. -/
def AreSharedEntries : List (String × Datum) → Prop
  | [] => True
  | (key, d) :: entries =>
      isSharedKey key = true ∧ d.IsShared ∧ AreSharedEntries entries
termination_by structural entries => entries

end

mutual

/-- What both formats agree about can be decided. -/
def decIsShared : (d : Datum) → Decidable d.IsShared
  | text s => inferInstanceAs (Decidable (isSharedText s = true))
  | flag _ => isTrue trivial
  | list items => decAreSharedItems items
  | map entries => decAreSharedEntries entries
termination_by structural d => d

/-- For the items of a list. -/
def decAreSharedItems : (items : List Datum) → Decidable (AreSharedItems items)
  | [] => isTrue trivial
  | d :: items =>
      @instDecidableAnd _ _ (decIsShared d) (decAreSharedItems items)
termination_by structural items => items

/-- For the keys and entries of a map. -/
def decAreSharedEntries :
    (entries : List (String × Datum)) → Decidable (AreSharedEntries entries)
  | [] => isTrue trivial
  | (key, d) :: entries =>
      @instDecidableAnd (isSharedKey key = true) _ inferInstance
        (@instDecidableAnd _ _ (decIsShared d) (decAreSharedEntries entries))
termination_by structural entries => entries

end

instance : DecidablePred IsShared := decIsShared

open Yaml.QuotedScalar (Spells hexFrom? hexValue?_digitChar)

theorem hexFrom?_hexDigit {n : Nat} (hn : n < 256) :
    hexFrom? 0 ['0', '0', hexDigit (n / 16), hexDigit n] = some n := by
  have hzero : Yaml.hexValue? '0' = some 0 := rfl
  simp only [hexFrom?, hexDigit, hzero, (hexValue?_digitChar _).2,
    Option.bind_some, Option.some.injEq]
  omega

/-- A character of a JSON string is spelled by what is written for it. -/
theorem spells_jsonChar {c : Char} (h : isSharedChar c = true) :
    Spells (jsonChar c) c := by
  unfold jsonChar
  split
  case h_8 hquote hescape _ _ hfeed _ _ =>
    split
    · next hcontrol =>
        exact .digits rfl (by simp) (hexFrom?_hexDigit (by omega))
    · next hcontrol =>
        simp only [isSharedChar, hcontrol, decide_false, Bool.false_or,
          Bool.and_eq_true, bne_iff_ne] at h
        obtain ⟨⟨-, hline⟩, hparagraph⟩ := h
        have hfeed : c ≠ '\n' := hfeed
        exact .raw (by simp [Yaml.isBreak, hfeed, hline, hparagraph])
          hquote hescape
  all_goals exact .escape rfl

open Yaml (IsReadable)

theorem isReadable_jsonChar {c : Char} (h : isSharedChar c = true) :
    IsReadable (jsonChar c) := by
  have hdigit : ∀ d : Fin 16, IsReadable [Nat.digitChar d] := by
    decide
  have hhex : ∀ n, IsReadable [hexDigit n] :=
    fun n => hdigit ⟨n % 16, Nat.mod_lt n (by decide)⟩
  unfold jsonChar
  split
  case h_8 _ _ _ _ _ hreturn _ =>
    split
    · rw [show ['\\', 'u', '0', '0', hexDigit (c.toNat / 16),
        hexDigit c.toNat] =
          ['\\', 'u', '0', '0'] ++
            ([hexDigit (c.toNat / 16)] ++ [hexDigit c.toNat]) from rfl,
        Yaml.isReadable_append, Yaml.isReadable_append]
      exact ⟨by decide, hhex _, hhex _⟩
    · next hcontrol =>
        simp only [isSharedChar, hcontrol, decide_false, Bool.false_or,
          Bool.and_eq_true, bne_iff_ne] at h
        obtain ⟨⟨⟨hallowed, hnext⟩, -⟩, -⟩ := h
        have hreturn : c ≠ '\r' := hreturn
        simp [IsReadable, hallowed, Yaml.Glyph.isMadeUniform, hreturn, hnext]
  all_goals decide

theorem spells_of_isSharedText {s : String} (h : isSharedText s = true) :
    ∀ c ∈ s.toList, Spells (jsonChar c) c :=
  fun c hc => spells_jsonChar (List.all_eq_true.1 h c hc)

theorem isReadable_jsonString {s : String} (h : isSharedText s = true) :
    IsReadable (jsonString s) := by
  have hquote : IsReadable ['"'] := by decide
  rw [jsonString, List.cons_append, ← List.singleton_append,
    Yaml.isReadable_append, Yaml.isReadable_append]
  refine ⟨hquote, fun c hc => ?_, hquote⟩
  obtain ⟨d, hd, hc⟩ := List.mem_flatMap.1 hc
  exact isReadable_jsonChar (List.all_eq_true.1 h d hd) c hc

theorem isReadable_jsonLine (indent : Nat) : IsReadable (jsonLine indent) := by
  intro c hc
  rcases List.mem_cons.1 hc with rfl | hc
  · decide
  · rw [(List.mem_replicate.1 hc).2]
    decide

theorem isSharedText_of_key {key : String} (h : isSharedKey key = true) :
    isSharedText key = true :=
  (Bool.and_eq_true_iff.1 h).1

mutual

theorem isReadable_jsonAt :
    ∀ (d : Datum) (indent : Nat), d.IsShared → IsReadable (d.jsonAt indent)
  | text s, indent, h => isReadable_jsonString h
  | flag true, indent, h =>
      (by decide : IsReadable (['t', 'r', 'u', 'e'] : List Char))
  | flag false, indent, h =>
      (by decide : IsReadable (['f', 'a', 'l', 's', 'e'] : List Char))
  | list [], indent, h => (by decide : IsReadable ['[', ']'])
  | map [], indent, h => (by decide : IsReadable ['\x7b', '\x7d'])
  | list (d :: items), indent, h => by
      simp only [jsonAt, List.cons_append, Yaml.isReadable_cons,
        Yaml.isReadable_append]
      exact ⟨by decide, ⟨⟨⟨isReadable_jsonLine _, isReadable_jsonAt d _ h.1⟩,
        isReadable_jsonItems items _ h.2⟩, isReadable_jsonLine _⟩, by decide⟩
  | map ((key, d) :: entries), indent, h => by
      simp only [jsonAt, List.cons_append, Yaml.isReadable_cons,
        Yaml.isReadable_append]
      have hkey := isReadable_jsonString (isSharedText_of_key h.1)
      exact ⟨by decide, ⟨⟨⟨⟨⟨isReadable_jsonLine _, hkey⟩, by decide⟩,
        isReadable_jsonAt d _ h.2.1⟩, isReadable_jsonEntries entries _ h.2.2⟩,
        isReadable_jsonLine _⟩, by decide⟩
termination_by structural d => d

theorem isReadable_jsonItems :
    ∀ (items : List Datum) (indent : Nat), AreSharedItems items →
    IsReadable (jsonItems indent items)
  | [], indent, h => (by decide : IsReadable [])
  | d :: items, indent, h => by
      simp only [jsonItems, List.cons_append, Yaml.isReadable_cons,
        Yaml.isReadable_append]
      exact ⟨by decide, ⟨isReadable_jsonLine _, isReadable_jsonAt d _ h.1⟩,
        isReadable_jsonItems items _ h.2⟩
termination_by structural items => items

theorem isReadable_jsonEntries :
    ∀ (entries : List (String × Datum)) (indent : Nat),
    AreSharedEntries entries → IsReadable (jsonEntries indent entries)
  | [], indent, h => (by decide : IsReadable [])
  | (key, d) :: entries, indent, h => by
      simp only [jsonEntries, List.cons_append, Yaml.isReadable_cons,
        Yaml.isReadable_append]
      have hkey := isReadable_jsonString (isSharedText_of_key h.1)
      exact ⟨by decide, ⟨⟨⟨isReadable_jsonLine _, hkey⟩, by decide⟩,
        isReadable_jsonAt d _ h.2.1⟩, isReadable_jsonEntries entries _ h.2.2⟩
termination_by structural entries => entries

end

end Datum

namespace Yaml.Lexer

open Datum (flowKinds flowItemKinds flowEntryKinds jsonLine jsonString jsonChar)

variable {s : Lexer} {F : Frame} {depth : Nat} {allowed : Bool}
  {x y : List Char} {m : Mark}

/-! ## Tokens between brackets -/

/-- Once separators are skipped, a place between brackets ends with `y`. -/
def EndsPlace (y : List Char) : Prop :=
  (y.dropWhile isSeparator).head?.any PlainScalar.isFlowIndicator = true

theorem EndsPlace.startsToken (h : EndsPlace y) :
    StartsToken (y.dropWhile isSeparator) := by
  unfold EndsPlace at h
  cases hy : y.dropWhile isSeparator with
  | nil => trivial
  | cons c cs =>
      rw [hy] at h
      have hc : c = ',' ∨ c = '[' ∨ c = ']' ∨ c = '\x7b' ∨ c = '\x7d' := by
        simpa [PlainScalar.isFlowIndicator, or_assoc] using h
      rcases hc with rfl | rfl | rfl | rfl | rfl <;>
        exact ⟨rfl, rfl, by decide, by decide⟩

theorem isSeparator_of_mem_jsonLine {indent : Nat} {c : Char}
    (h : c ∈ jsonLine indent) :
    isSeparator c = true :=
  isSeparator_of_mem_newline h

/-- Separators that follow are skipped before the next token. -/
theorem Between.awaits_dropWhile (h : s.Between F depth allowed y m)
    (hy : EndsPlace y) :
    s.Awaits F depth allowed (y.dropWhile isSeparator) := by
  rw [← List.takeWhile_append_dropWhile (p := isSeparator) (l := y)] at h
  exact h.awaits _ (fun e he => List.mem_takeWhile_imp he) hy.startsToken

theorem dropWhile_jsonLine {indent : Nat} (y : List Char) :
    (jsonLine indent ++ y).dropWhile isSeparator = y.dropWhile isSeparator := by
  rw [List.dropWhile_append_of_pos fun c hc => isSeparator_of_mem_jsonLine hc]

theorem startsToken_jsonAt (indent : Nat) (d : Datum) (x : List Char) :
    StartsToken (d.jsonAt indent ++ x) := by
  match d with
  | .text s => exact ⟨rfl, rfl, by decide, by decide⟩
  | .flag true => exact ⟨rfl, rfl, by decide, by decide⟩
  | .flag false => exact ⟨rfl, rfl, by decide, by decide⟩
  | .list [] => exact ⟨rfl, rfl, by decide, by decide⟩
  | .list (_ :: _) => exact ⟨rfl, rfl, by decide, by decide⟩
  | .map [] => exact ⟨rfl, rfl, by decide, by decide⟩
  | .map (_ :: _) => exact ⟨rfl, rfl, by decide, by decide⟩

theorem endsPlace_jsonItems (indent : Nat) (items : List Datum)
    (hy : EndsPlace y) :
    EndsPlace (Datum.jsonItems indent items ++ y) := by
  cases items with
  | nil => exact hy
  | cons d items => rfl

theorem endsPlace_jsonEntries (indent : Nat) (entries : List (String × Datum))
    (hy : EndsPlace y) :
    EndsPlace (Datum.jsonEntries indent entries ++ y) := by
  cases entries with
  | nil => exact hy
  | cons e entries => rfl

theorem endsPlace_closing (b : Brackets) (indent : Nat) (y : List Char) :
    EndsPlace (jsonLine indent ++ b.closing :: y) := by
  rw [EndsPlace, dropWhile_jsonLine]
  cases b <;> rfl

/-- A text for a key, its colon and the blank after it. -/
theorem Awaits.keyData {key : String} {indent : Nat} {d : Datum}
    (hkey : Datum.isSharedKey key = true)
    (h : s.Awaits F (depth + 1) true
      (jsonString key ++ ':' :: ' ' :: (d.jsonAt indent ++ y))) :
    ∃ t, Reaches s t ∧
    t.Awaits (F.add [.key, .scalar key .doubleQuoted, .value]) (depth + 1) false
      (d.jsonAt indent ++ y) := by
  have hshort := of_decide_eq_true (Bool.and_eq_true_iff.1 hkey).2
  obtain ⟨t, m, hreaches, ht⟩ := Awaits.key
    (y := ' ' :: (d.jsonAt indent ++ y)) (by simpa [jsonString] using h)
    (Datum.spells_of_isSharedText (Datum.isSharedText_of_key hkey)) hshort
  exact ⟨t, hreaches, Between.awaits [' '] ht (by simp [isSeparator])
    (startsToken_jsonAt indent d y)⟩

/-- A collection between brackets is the opening one and what comes after it. -/
theorem flowKinds_list (items : List Datum) (indent : Nat) :
    (Datum.list items).flowKinds =
    Brackets.square.start :: (Datum.list items).flowKinds.tail ∧
      (Datum.list items).jsonAt indent =
        Brackets.square.opening :: ((Datum.list items).jsonAt indent).tail := by
  cases items <;> exact ⟨rfl, rfl⟩

theorem flowKinds_map (entries : List (String × Datum)) (indent : Nat) :
    (Datum.map entries).flowKinds =
    Brackets.curly.start :: (Datum.map entries).flowKinds.tail ∧
      (Datum.map entries).jsonAt indent =
        Brackets.curly.opening :: ((Datum.map entries).jsonAt indent).tail := by
  cases entries <;> exact ⟨rfl, rfl⟩

mutual

/-- Data between brackets, at the place of a value or of an item. -/
theorem Awaits.data :
    ∀ (d : Datum) {s : Lexer} {F : Frame} {depth indent : Nat} {allowed : Bool}
    {y : List Char}, d.IsShared →
    s.Awaits F (depth + 1) allowed (d.jsonAt indent ++ y) →
    EndsPlace y →
    ∃ t allowed', Reaches s t ∧
      t.Awaits (F.add d.flowKinds) (depth + 1) allowed'
        (y.dropWhile isSeparator)
  | .text text, s, F, depth, indent, allowed, y, hd, h, hy => by
      obtain ⟨t, m, hreaches, ht⟩ := Awaits.doubleQuoted (y := y)
        (by simpa [Datum.jsonAt, jsonString] using h)
          (Datum.spells_of_isSharedText hd)
      exact ⟨t, false, hreaches, ht.awaits_dropWhile hy⟩
  | .flag b, s, F, depth, indent, allowed, y, hd, h, hy => by
      have hflag : (Datum.flag b).jsonAt indent = Datum.yamlFlag b := by
        cases b <;> rfl
      rw [hflag, ← List.takeWhile_append_dropWhile (p := isSeparator) (l := y)]
        at h
      obtain ⟨t, allowed', hreaches, ht⟩ :=
        h.flag (fun e he => List.mem_takeWhile_imp he) hy.startsToken hy
      exact ⟨t, allowed', hreaches, ht⟩
  | .list items, s, F, depth, indent, allowed, y, hd, h, hy => by
      obtain ⟨hkinds, hjson⟩ := flowKinds_list items indent
      rw [hjson] at h
      obtain ⟨t, m, hreaches, ht⟩ := Awaits.openFlow .square h
      obtain ⟨u, m', hreaches', hu⟩ := Between.list items hd ht
      refine ⟨u, false, hreaches.trans hreaches', ?_⟩
      rw [hkinds]
      simpa using hu.awaits_dropWhile hy
  | .map entries, s, F, depth, indent, allowed, y, hd, h, hy => by
      obtain ⟨hkinds, hjson⟩ := flowKinds_map entries indent
      rw [hjson] at h
      obtain ⟨t, m, hreaches, ht⟩ := Awaits.openFlow .curly h
      obtain ⟨u, m', hreaches', hu⟩ := Between.map entries hd ht
      refine ⟨u, false, hreaches.trans hreaches', ?_⟩
      rw [hkinds]
      simpa using hu.awaits_dropWhile hy
termination_by structural d => d

/-- A list after its opening bracket. -/
theorem Between.list :
    ∀ (items : List Datum) {s : Lexer} {F : Frame} {depth indent : Nat}
    {y : List Char} {m : Mark}, Datum.AreSharedItems items →
    s.Between F (depth + 1) true (((Datum.list items).jsonAt indent).tail ++ y)
      m →
    ∃ t m', Reaches s t ∧
    t.Between (F.add (Datum.list items).flowKinds.tail) depth false y m'
  | [], s, F, depth, indent, y, m, hitems, h =>
      (Between.awaits [] h (by simp) ⟨rfl, rfl, by decide, by decide⟩).closeFlow
        .square
  | d :: items, s, F, depth, indent, y, m, hitems, h => by
      have hclosing := endsPlace_closing .square indent y
      obtain ⟨t, allowed, hreaches, ht⟩ := Awaits.data d
        (y := Datum.jsonItems indent items ++ (jsonLine indent ++ ']' :: y))
          hitems.1
        (Between.awaits (jsonLine (indent + 2))
          (by simpa [Datum.jsonAt] using h)
          (fun e => isSeparator_of_mem_jsonLine) (startsToken_jsonAt _ d _))
        (endsPlace_jsonItems indent items hclosing)
      obtain ⟨u, allowed', hreaches', hu⟩ :=
        Awaits.items items hitems.2 ht hclosing
      rw [dropWhile_jsonLine] at hu
      obtain ⟨v, m', hreaches'', hv⟩ := Awaits.closeFlow .square hu
      refine ⟨v, m', (hreaches.trans hreaches').trans hreaches'', ?_⟩
      simpa [flowKinds, Brackets.stop] using hv
termination_by structural items => items

/-- A map after its opening bracket. -/
theorem Between.map :
    ∀ (entries : List (String × Datum)) {s : Lexer} {F : Frame}
    {depth indent : Nat} {y : List Char} {m : Mark},
      Datum.AreSharedEntries entries →
    s.Between F (depth + 1) true (((Datum.map entries).jsonAt indent).tail ++ y)
      m →
    ∃ t m', Reaches s t ∧
    t.Between (F.add (Datum.map entries).flowKinds.tail) depth false y m'
  | [], s, F, depth, indent, y, m, hentries, h =>
      (Between.awaits [] h (by simp) ⟨rfl, rfl, by decide, by decide⟩).closeFlow
        .curly
  | (key, d) :: entries, s, F, depth, indent, y, m, hentries, h => by
      have hclosing := endsPlace_closing .curly indent y
      obtain ⟨t, hreaches, ht⟩ := Awaits.keyData (d := d)
        (y := Datum.jsonEntries indent entries ++
          (jsonLine indent ++ '\x7d' :: y)) hentries.1
        (Between.awaits (jsonLine (indent + 2))
          (by simpa [Datum.jsonAt] using h)
          (fun e => isSeparator_of_mem_jsonLine) ⟨rfl, rfl, by
            decide, by decide⟩)
      obtain ⟨u, allowed, hreaches', hu⟩ := Awaits.data d hentries.2.1 ht
        (endsPlace_jsonEntries indent entries hclosing)
      obtain ⟨v, allowed', hreaches'', hv⟩ :=
        Awaits.entries entries hentries.2.2 hu hclosing
      rw [dropWhile_jsonLine] at hv
      obtain ⟨w, m', hreaches''', hw⟩ := Awaits.closeFlow .curly hv
      refine ⟨w, m', ((hreaches.trans hreaches').trans hreaches'').trans
        hreaches''', ?_⟩
      simpa [flowKinds, Brackets.stop] using hw
termination_by structural entries => entries

/-- The items of a list after the first. -/
theorem Awaits.items :
    ∀ (items : List Datum) {s : Lexer} {F : Frame} {depth indent : Nat}
    {allowed : Bool} {y : List Char}, Datum.AreSharedItems items →
    s.Awaits F (depth + 1) allowed
      ((Datum.jsonItems indent items ++ y).dropWhile isSeparator) →
    EndsPlace y →
    ∃ t allowed', Reaches s t ∧
      t.Awaits (F.add (flowItemKinds items)) (depth + 1) allowed'
        (y.dropWhile isSeparator)
  | [], s, F, depth, indent, allowed, y, hitems, h, hy =>
      ⟨s, allowed, .refl s, by simpa [flowItemKinds, Datum.jsonItems] using h⟩
  | d :: items, s, F, depth, indent, allowed, y, hitems, h, hy => by
      obtain ⟨t, m, hreaches, ht⟩ := Awaits.flowEntry
        (y := jsonLine (indent + 2) ++
          (d.jsonAt (indent + 2) ++ (Datum.jsonItems indent items ++ y)))
        (by simpa [Datum.jsonItems, isSeparator] using h)
      obtain ⟨u, allowed', hreaches', hu⟩ := Awaits.data d hitems.1
        (ht.awaits (jsonLine (indent + 2))
          (fun e => isSeparator_of_mem_jsonLine) (startsToken_jsonAt _ d _))
        (endsPlace_jsonItems indent items hy)
      obtain ⟨v, allowed'', hreaches'', hv⟩ := Awaits.items items hitems.2 hu hy
      refine ⟨v, allowed'', (hreaches.trans hreaches').trans hreaches'', ?_⟩
      simpa [flowItemKinds] using hv
termination_by structural items => items

/-- The entries of a map after the first. -/
theorem Awaits.entries :
    ∀ (entries : List (String × Datum)) {s : Lexer} {F : Frame}
    {depth indent : Nat} {allowed : Bool} {y : List Char},
      Datum.AreSharedEntries entries →
    s.Awaits F (depth + 1) allowed
      ((Datum.jsonEntries indent entries ++ y).dropWhile isSeparator) →
    EndsPlace y →
    ∃ t allowed', Reaches s t ∧
      t.Awaits (F.add (flowEntryKinds entries)) (depth + 1) allowed'
        (y.dropWhile isSeparator)
  | [], s, F, depth, indent, allowed, y, hentries, h, hy =>
      ⟨s, allowed, .refl s, by
        simpa [flowEntryKinds, Datum.jsonEntries] using h⟩
  | (key, d) :: entries, s, F, depth, indent, allowed, y, hentries, h, hy => by
      obtain ⟨t, m, hreaches, ht⟩ := Awaits.flowEntry
        (y := jsonLine (indent + 2) ++
          (jsonString key ++ ':' :: ' ' :: (d.jsonAt (indent + 2) ++
          (Datum.jsonEntries indent entries ++ y))))
        (by simpa [Datum.jsonEntries, isSeparator] using h)
      obtain ⟨u, hreaches', hu⟩ := Awaits.keyData hentries.1
        (ht.awaits (jsonLine (indent + 2))
          (fun e => isSeparator_of_mem_jsonLine)
          ⟨rfl, rfl, by decide, by decide⟩)
      obtain ⟨v, allowed', hreaches'', hv⟩ := Awaits.data d hentries.2.1 hu
        (endsPlace_jsonEntries indent entries hy)
      obtain ⟨w, allowed'', hreaches''', hw⟩ :=
        Awaits.entries entries hentries.2.2 hv hy
      refine ⟨w, allowed'', ((hreaches.trans hreaches').trans hreaches'').trans
        hreaches''', ?_⟩
      simpa [flowEntryKinds] using hw
termination_by structural entries => entries

end

/-! ## The text as a whole -/

/-- The JSON text of a map is read to its end, and its tokens say what the map
does. -/
theorem ofText_json (entries : List (String × Datum))
    (hshared : Datum.AreSharedEntries entries) :
    ∃ list, Tokens.ofText (Datum.map entries).json = ⟨list, none⟩ ∧
      list.map (·.kind) = (Datum.map entries).flowKinds ++ [.streamEnd] := by
  obtain ⟨hkinds, hjson⟩ := flowKinds_map entries 0
  have htext : (Datum.map entries).json.toList =
      Brackets.curly.opening :: (((Datum.map entries).jsonAt 0).tail ++
        ['\n']) := by
    rw [Datum.json, String.toList_ofList, hjson]
    rfl
  have hreadable : IsReadable (Datum.map entries).json.toList := by
    rw [Datum.json, String.toList_ofList, isReadable_append]
    exact ⟨Datum.isReadable_jsonAt (.map entries) 0 hshared, by decide⟩
  have hstart : StartsToken (Brackets.curly.opening ::
      (((Datum.map entries).jsonAt 0).tail ++ ['\n'])) :=
        ⟨rfl, rfl, by decide, by decide⟩
  have hstands := stands_ofGlyphs (Datum.map entries).json.toList
  rw [htext] at hstands
  have hresumes := Stands.resumes [] 1 hstands (by simp) hstart (by simp)
  rw [show (Mark.start.afterAll []).column = 0 from rfl] at hresumes
  -- outside of brackets the first bracket is read; from there on indentation
  -- means nothing
  obtain ⟨t, m, ht, -, hlength, hstep⟩ :=
    hresumes.step (Nat.le_refl _) (by simp)
  obtain ⟨u, hread, hu⟩ := ht.between.openFlow .curly (by simp)
  have hrest :=
    Nat.le_trans (Nat.le_of_eq (by rw [ht.before.rest, Glyph.length_glyphs]))
      hlength
  obtain ⟨v, hreaches, hv, -⟩ :=
    hu.reached hstep hread hrest (by simp [Frame.add, Brackets.start])
  obtain ⟨w, m', hreaches', hw⟩ := Between.map entries hshared hv
  have hlast := Between.resumes ['\n'] 1 (x := []) hw (by simp [isSeparator])
    trivial (by simp) (by simp)
  obtain ⟨list, hlist, hall⟩ := ofText_of_reaches hreadable
    (by rw [htext]; exact hreaches.trans hreaches') hlast
  refine ⟨list, hlist, ?_⟩
  rw [hall, hkinds]
  simp [Frame.add, Frame.unroll, Frame.unrollFrom]

end Yaml.Lexer

end DaggerWorkflows
