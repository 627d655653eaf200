import DaggerWorkflows.Proofs.ScalarReading

/-!
# JSON

The grammar of RFC 8259, with the value that each of its texts has. A relation
`Reads v cs r` says that a text for `v` stands at the beginning of `cs` and that
`r` is what comes after it; the rules are those of the format, so blanks may
stand around every bracket, comma and colon, a string may spell a character in
more than one way, and an object may have a key twice. Of a number only its
digits are kept.

However a text is taken apart, it has one value (`Json.IsTextOf.unique`). What
has to be watched is where a number ends, and that half of a surrogate pair is
no character.
-/

namespace DaggerWorkflows

open Yaml.QuotedScalar (hexFrom?)

/-- A JSON value. -/
inductive Json where
  | null
  | bool (value : Bool)
  | number (digits : List Char)
  | string (text : String)
  | array (items : List Json)
  | object (members : List (String × Json))

namespace Json

/-! ## The grammar -/

/-- Blanks that may stand between tokens, and what comes after them. -/
inductive Blanks : List Char → List Char → Prop where
  | nil {cs : List Char} : Blanks cs cs
  | cons {c : Char} {cs r : List Char} (hc : c ∈ [' ', '\t', '\n', '\r'])
      (h : Blanks cs r) :
      Blanks (c :: cs) r

/-- The letters of short escapes and what they stand for. -/
def shortEscapes : List (Char × Char) :=
  [('"', '"'), ('\\', '\\'), ('/', '/'), ('b', '\x08'), ('f', '\x0c'),
    ('n', '\n'), ('r', '\r'), ('t', '\t')]

/-- The ways to spell a character in a string. -/
inductive Spells : Char → List Char → Prop where
  | unescaped {c : Char} (hcontrol : 0x20 ≤ c.toNat) (hquote : c ≠ '"')
      (hescape : c ≠ '\\') :
      Spells c [c]
  | short {e c : Char} (h : shortEscapes.lookup e = some c) : Spells c ['\\', e]
  | digits {c : Char} {ds : List Char} (hlength : ds.length = 4)
      (h : hexFrom? 0 ds = some c.toNat) : Spells c ('\\' :: 'u' :: ds)
  | surrogates {c : Char} {ds ds' : List Char} {high low : Nat}
      (hlength : ds.length = 4) (hlength' : ds'.length = 4)
      (h : hexFrom? 0 ds = some (0xd800 + high))
      (h' : hexFrom? 0 ds' = some (0xdc00 + low)) (hhigh : high < 0x400)
      (hlow : low < 0x400) (hc : c.toNat = 0x10000 + high * 0x400 + low) :
      Spells c ('\\' :: 'u' :: ds ++ '\\' :: 'u' :: ds')

/-- The characters of a string up to its closing quote. -/
inductive ReadsChars : List Char → List Char → List Char → Prop where
  | close {r : List Char} : ReadsChars [] ('"' :: r) r
  | next {c : Char} {s spelled cs cs₁ r : List Char} (hc : Spells c spelled)
      (hcs : cs = spelled ++ cs₁) (h : ReadsChars s cs₁ r) :
      ReadsChars (c :: s) cs r

/-- A number: perhaps a minus sign, digits without needless zeros, perhaps
digits after a point, perhaps an exponent. -/
def IsNumber (cs : List Char) : Prop :=
  ∃ minus int frac exp : List Char, cs = minus ++ int ++ frac ++ exp ∧
    (minus = [] ∨ minus = ['-']) ∧
    (int = ['0'] ∨ ∃ d ds, int = d :: ds ∧ d.isDigit ∧ d ≠ '0' ∧ ∀ d ∈ ds,
      d.isDigit) ∧
    (frac = [] ∨ ∃ ds, frac = '.' :: ds ∧ ds ≠ [] ∧ ∀ d ∈ ds, d.isDigit) ∧
    (exp = [] ∨ ∃ e sign ds, exp = e :: sign ++ ds ∧ e ∈ ['e', 'E'] ∧
      (sign = [] ∨ sign = ['+'] ∨ sign = ['-']) ∧ ds ≠ [] ∧ ∀ d ∈ ds, d.isDigit)

mutual

/-- A value at the beginning of some text. -/
inductive Reads : Json → List Char → List Char → Prop where
  | null {r : List Char} : Reads .null ('n' :: 'u' :: 'l' :: 'l' :: r) r
  | yes {r : List Char} : Reads (.bool true) ('t' :: 'r' :: 'u' :: 'e' :: r) r
  | no {r : List Char} :
      Reads (.bool false) ('f' :: 'a' :: 'l' :: 's' :: 'e' :: r) r
  | number {ds cs r : List Char} (h : IsNumber ds) (hcs : cs = ds ++ r) :
      Reads (.number ds) cs r
  | string {s : String} {cs r : List Char} (h : ReadsChars s.toList cs r) :
      Reads (.string s) ('"' :: cs) r
  | emptyArray {cs r : List Char} (h : Blanks cs (']' :: r)) :
      Reads (.array []) ('[' :: cs) r
  | array {v : Json} {items : List Json} {cs cs₁ cs₂ r : List Char}
      (hblanks : Blanks cs cs₁) (h : Reads v cs₁ cs₂)
      (hitems : ReadsItems items cs₂ r) :
      Reads (.array (v :: items)) ('[' :: cs) r
  | emptyObject {cs r : List Char} (h : Blanks cs ('}' :: r)) :
      Reads (.object []) ('{' :: cs) r
  | object {key : String} {v : Json} {members : List (String × Json)}
      {cs cs₁ cs₂ r : List Char} (hblanks : Blanks cs cs₁)
      (h : ReadsMember key v cs₁ cs₂) (hmembers : ReadsMembers members cs₂ r) :
      Reads (.object ((key, v) :: members)) ('{' :: cs) r

/-- The items of an array after one, with the bracket at their end. -/
inductive ReadsItems : List Json → List Char → List Char → Prop where
  | close {cs r : List Char} (h : Blanks cs (']' :: r)) : ReadsItems [] cs r
  | next {v : Json} {items : List Json} {cs cs₁ cs₂ cs₃ r : List Char}
      (hbefore : Blanks cs (',' :: cs₁)) (hafter : Blanks cs₁ cs₂)
      (h : Reads v cs₂ cs₃) (hitems : ReadsItems items cs₃ r) :
      ReadsItems (v :: items) cs r

/-- The members of an object after one, with the brace at their end. -/
inductive ReadsMembers :
    List (String × Json) → List Char → List Char → Prop where
  | close {cs r : List Char} (h : Blanks cs ('}' :: r)) : ReadsMembers [] cs r
  | next {key : String} {v : Json} {members : List (String × Json)}
      {cs cs₁ cs₂ cs₃ r : List Char} (hbefore : Blanks cs (',' :: cs₁))
      (hafter : Blanks cs₁ cs₂) (h : ReadsMember key v cs₂ cs₃)
      (hmembers : ReadsMembers members cs₃ r) :
      ReadsMembers ((key, v) :: members) cs r

/-- A key and its value. -/
inductive ReadsMember : String → Json → List Char → List Char → Prop where
  | mk {key : String} {v : Json} {cs cs₁ cs₂ cs₃ r : List Char}
      (hkey : ReadsChars key.toList cs cs₁) (hbefore : Blanks cs₁ (':' :: cs₂))
      (hafter : Blanks cs₂ cs₃) (h : Reads v cs₃ r) :
      ReadsMember key v ('"' :: cs) r

end

/-- A text has a value: blanks may stand before and after it. -/
def IsTextOf (v : Json) (text : List Char) : Prop :=
  ∃ cs r, Blanks text cs ∧ Reads v cs r ∧ Blanks r []

mutual

/-- Whether no object has a key twice. -/
def KeysDistinct : Json → Prop
  | array items => ItemKeysDistinct items
  | object members => (members.map (·.1)).Nodup ∧ MemberKeysDistinct members
  | _ => True
termination_by structural v => v

/-- Whether no object among the items has a key twice. -/
def ItemKeysDistinct : List Json → Prop
  | [] => True
  | v :: items => v.KeysDistinct ∧ ItemKeysDistinct items
termination_by structural items => items

/-- Whether no object among the values of members has a key twice. -/
def MemberKeysDistinct : List (String × Json) → Prop
  | [] => True
  | (_, v) :: members => v.KeysDistinct ∧ MemberKeysDistinct members
termination_by structural members => members

end

/-! ## A text has one value -/

section Unique

variable {c c' : Char} {s s' p p' cs x x' r r' : List Char}

/-- A token that is not a blank comes next. -/
def StartsToken (cs : List Char) : Prop :=
  ∃ c r, cs = c :: r ∧ c ∉ [' ', '\t', '\n', '\r']

theorem Blanks.unique (h : Blanks cs r) (h' : Blanks cs r') (hr : StartsToken r)
    (hr' : StartsToken r') : r = r' := by
  induction h with
  | nil =>
      cases h' with
      | nil => rfl
      | cons hc h' =>
          obtain ⟨c, r, hcs, hnot⟩ := hr
          cases hcs
          exact absurd hc hnot
  | cons hc h ih =>
      cases h' with
      | nil =>
          obtain ⟨c, r, hcs, hnot⟩ := hr'
          cases hcs
          exact absurd hc hnot
      | cons _ h' => exact ih h' hr

/-- No character is half of a pair. -/
theorem toNat_not_surrogate (c : Char) {half : Nat} (hhalf : half < 0x400) :
    c.toNat ≠ 0xd800 + half := by
  have hvalid : c.toNat < 0xd800 ∨ 0xdfff < c.toNat ∧ c.toNat < 0x110000 :=
    c.valid
  omega

theorem Spells.unique (h : Spells c p) (h' : Spells c' p')
    (heq : p ++ x = p' ++ x') :
    c = c' ∧ x = x' := by
  -- Two spellings of one kind are compared part by part. The backslash and the
  -- letter after it tell the kinds apart, but digits are told from a pair only
  -- by what they spell: the first half of a pair is no character.
  cases h with
  | unescaped _ _ hescape =>
      cases h' with
      | unescaped => exact List.cons.inj heq
      | short | digits | surrogates =>
          exact absurd (List.cons.inj heq).1 hescape
  | @short e _ h =>
      cases h' with
      | unescaped _ _ hescape => exact absurd (List.cons.inj heq).1.symm hescape
      | short h' =>
          simp only [List.cons_append, List.nil_append, List.cons.injEq,
            true_and] at heq
          obtain ⟨rfl, hx⟩ := heq
          rw [h] at h'
          exact ⟨Option.some.inj h', hx⟩
      | digits | surrogates =>
          simp only [List.cons_append, List.nil_append, List.cons.injEq,
            true_and] at heq
          obtain ⟨rfl, -⟩ := heq
          cases h
  | digits hlength h =>
      cases h' with
      | unescaped _ _ hescape => exact absurd (List.cons.inj heq).1.symm hescape
      | short h' =>
          simp only [List.cons_append, List.nil_append, List.cons.injEq,
            true_and] at heq
          obtain ⟨rfl, -⟩ := heq
          cases h'
      | digits hlength' h' =>
          simp only [List.cons_append, List.cons.injEq, true_and] at heq
          obtain ⟨rfl, hx⟩ := List.append_inj heq (hlength.trans hlength'.symm)
          rw [h] at h'
          exact ⟨Char.toNat_inj.1 (Option.some.inj h'), hx⟩
      | surrogates hlength' _ h' _ hhigh _ _ =>
          simp only [List.cons_append, List.append_assoc, List.cons.injEq,
            true_and] at heq
          obtain ⟨rfl, -⟩ := List.append_inj heq (hlength.trans hlength'.symm)
          rw [h] at h'
          exact absurd (Option.some.inj h') (toNat_not_surrogate _ hhigh)
  | @surrogates _ _ _ high low hlength hlength₂ h h₂ hhigh hlow hc =>
      cases h' with
      | unescaped _ _ hescape => exact absurd (List.cons.inj heq).1.symm hescape
      | short h' =>
          simp only [List.cons_append, List.nil_append, List.cons.injEq,
            true_and] at heq
          obtain ⟨rfl, -⟩ := heq
          cases h'
      | digits hlength' h' =>
          simp only [List.cons_append, List.append_assoc, List.cons.injEq,
            true_and] at heq
          obtain ⟨rfl, -⟩ := List.append_inj heq (hlength.trans hlength'.symm)
          rw [h] at h'
          exact absurd (Option.some.inj h').symm (toNat_not_surrogate _ hhigh)
      | surrogates hlength' hlength₂' h' h₂' _ _ hc' =>
          simp only [List.cons_append, List.append_assoc, List.cons.injEq,
            true_and] at heq
          obtain ⟨rfl, hrest⟩ :=
            List.append_inj heq (hlength.trans hlength'.symm)
          simp only [List.cons.injEq, true_and] at hrest
          obtain ⟨rfl, hx⟩ :=
            List.append_inj hrest (hlength₂.trans hlength₂'.symm)
          have hhighs := Option.some.inj (h.symm.trans h')
          have hlows := Option.some.inj (h₂.symm.trans h₂')
          exact ⟨Char.toNat_inj.1 (by omega), hx⟩

theorem Spells.ne_quote (h : Spells c p) : p ++ x ≠ '"' :: x' := by
  cases h with
  | unescaped _ hquote _ =>
      intro heq
      exact hquote (List.cons.inj heq).1
  | short _ | digits _ _ | surrogates _ _ _ _ _ _ _ => simp

theorem ReadsChars.unique (h : ReadsChars s cs r) (h' : ReadsChars s' cs r') :
    s = s' ∧ r = r' := by
  induction h generalizing s' with
  | close =>
      cases h' with
      | close => exact ⟨rfl, rfl⟩
      | next hc hcs h' => exact absurd hcs.symm hc.ne_quote
  | next hc hcs h ih =>
      cases h' with
      | close => exact absurd hcs.symm hc.ne_quote
      | next hc' hcs' h' =>
          obtain ⟨rfl, rfl⟩ := hc.unique hc' (hcs.symm.trans hcs')
          obtain ⟨rfl, hr⟩ := ih h'
          exact ⟨rfl, hr⟩

/-- What a number is written with. -/
def isNumberChar (c : Char) :
    Bool := c.isDigit || ['+', '-', '.', 'e', 'E'].contains c

theorem IsNumber.all {ds : List Char} (h : IsNumber ds) :
    ∀ d ∈ ds, isNumberChar d = true := by
  obtain ⟨minus, int, frac, exp, rfl, hminus, hint, hfrac, hexp⟩ := h
  have hdigit : ∀ {d : Char}, d.isDigit → isNumberChar d = true := fun hd => by
    simp [isNumberChar, hd]
  have hdigits : ∀ {ds : List Char}, (∀ d ∈ ds, d.isDigit) → ∀ d ∈ ds,
      isNumberChar d = true :=
    fun hds d hd => hdigit (hds d hd)
  simp only [List.forall_mem_append]
  refine ⟨⟨⟨?_, ?_⟩, ?_⟩, ?_⟩
  · rcases hminus with rfl | rfl
    · exact List.forall_mem_nil _
    · exact List.forall_mem_singleton.2 (by decide)
  · rcases hint with rfl | ⟨d, ds, rfl, hd, -, hds⟩
    · exact List.forall_mem_singleton.2 (by decide)
    · exact List.forall_mem_cons.2 ⟨hdigit hd, hdigits hds⟩
  · rcases hfrac with rfl | ⟨ds, rfl, -, hds⟩
    · exact List.forall_mem_nil _
    · exact List.forall_mem_cons.2 ⟨by decide, hdigits hds⟩
  · rcases hexp with rfl | ⟨e, sign, ds, rfl, he, hsign, -, hds⟩
    · exact List.forall_mem_nil _
    · rw [List.cons_append, List.forall_mem_cons, List.forall_mem_append]
      refine ⟨?_, ?_, hdigits hds⟩
      · simp only [List.mem_cons, List.not_mem_nil, or_false] at he
        rcases he with rfl | rfl <;> decide
      · rcases hsign with rfl | rfl | rfl
        · exact List.forall_mem_nil _
        · exact List.forall_mem_singleton.2 (by decide)
        · exact List.forall_mem_singleton.2 (by decide)

theorem IsNumber.starts {ds : List Char} (h : IsNumber ds)
    (hcs : cs = ds ++ r) :
    ∃ d cs', cs = d :: cs' ∧ (d = '-' ∨ d.isDigit = true) := by
  obtain ⟨minus, int, frac, exp, rfl, hminus, hint, -, -⟩ := h
  rcases hminus with rfl | rfl
  · rcases hint with rfl | ⟨d, ds, rfl, hd, -, -⟩
    · exact ⟨_, _, hcs, .inr (by decide)⟩
    · exact ⟨_, _, hcs, .inr hd⟩
  · exact ⟨_, _, hcs, .inl rfl⟩

/-- Nothing but a number starts like one. -/
theorem IsNumber.not_starts {ds : List Char} (h : IsNumber ds)
    (hc : ¬ (c = '-' ∨ c.isDigit = true)) : c :: cs ≠ ds ++ r := by
  intro hcs
  obtain ⟨d, cs', heq, hd⟩ := h.starts hcs
  rw [← (List.cons.inj heq).1] at hd
  exact hc hd

/-- A number cannot go on here. -/
def Follows (r : List Char) : Prop := ∀ c ∈ r.head?, isNumberChar c = false

theorem IsNumber.unique {ds ds' : List Char} (h : IsNumber ds)
    (h' : IsNumber ds') (heq : ds ++ r = ds' ++ r') (hr : Follows r)
    (hr' : Follows r') : ds = ds' ∧ r = r' := by
  have hnil : ∀ {r : List Char}, Follows r → r.takeWhile isNumberChar = [] := by
    intro r hr
    cases r with
    | nil => rfl
    | cons c r => exact List.takeWhile_cons_of_neg (by rw [hr c rfl]; decide)
  have hsame := congrArg (List.takeWhile isNumberChar) heq
  rw [List.takeWhile_append_of_pos h.all, List.takeWhile_append_of_pos h'.all,
    hnil hr, hnil hr', List.append_nil, List.append_nil] at hsame
  subst hsame
  exact ⟨rfl, List.append_cancel_left heq⟩

theorem Blanks.follows (h : Blanks cs r) (hr : Follows r) : Follows cs := by
  cases h with
  | nil => exact hr
  | @cons c _ _ hc _ =>
      intro d hd
      cases hd
      simp only [List.mem_cons, List.not_mem_nil, or_false] at hc
      rcases hc with rfl | rfl | rfl | rfl <;> decide

theorem ReadsItems.follows {items : List Json} (h : ReadsItems items cs r) :
    Follows cs := by
  cases h with
  | close h => exact h.follows fun d hd => by cases hd; decide
  | next h => exact h.follows fun d hd => by cases hd; decide

theorem ReadsMembers.follows {members : List (String × Json)}
    (h : ReadsMembers members cs r) :
    Follows cs := by
  cases h with
  | close h => exact h.follows fun d hd => by cases hd; decide
  | next h => exact h.follows fun d hd => by cases hd; decide

theorem Reads.startsToken {v : Json} (h : Reads v cs r) : StartsToken cs := by
  cases h with
  | number hn hcs =>
      obtain ⟨d, cs', rfl, hd⟩ := hn.starts hcs
      refine ⟨d, cs', rfl, fun hblank => ?_⟩
      simp only [List.mem_cons, List.not_mem_nil, or_false] at hblank
      rcases hblank with rfl | rfl | rfl | rfl <;> revert hd <;> decide
  | _ => exact ⟨_, _, rfl, by decide⟩

theorem ReadsMember.startsToken {key : String} {v : Json}
    (h : ReadsMember key v cs r) :
    StartsToken cs := by
  cases h
  exact ⟨_, _, rfl, by decide⟩

theorem startsToken_cons (h : c ∉ [' ', '\t', '\n', '\r']) :
    StartsToken (c :: r) := ⟨c, r, rfl, h⟩

/-- The token after blanks is the same however they are counted. -/
theorem Blanks.unique_cons (h : Blanks cs (c :: r)) (h' : Blanks cs (c' :: r'))
    (hc : c ∉ [' ', '\t', '\n', '\r']) (hc' : c' ∉ [' ', '\t', '\n', '\r']) :
    c = c' ∧ r = r' :=
  List.cons.inj (h.unique h' (startsToken_cons hc) (startsToken_cons hc'))

/-- No value starts like the end of an array. -/
theorem not_reads_close {v : Json} : ¬ Reads v (']' :: cs) r := by
  intro h
  cases h with
  | number hn hcs => exact hn.not_starts (by decide) hcs

/-- A member is read in one way if its value is. -/
theorem ReadsMember.unique {key key' : String} {v v' : Json}
    (hv : ∀ {cs r : List Char}, Reads v cs r → Reads v' cs r' → Follows r →
      Follows r' →
      v = v' ∧ r = r') (h : ReadsMember key v cs r)
    (h' : ReadsMember key' v' cs r') (hr : Follows r) (hr' : Follows r') :
    (key, v) = (key', v') ∧ r = r' := by
  cases h with
  | mk hkey hbefore hafter h =>
      cases h' with
      | mk hkey' hbefore' hafter' h' =>
          obtain ⟨hkeys, rfl⟩ := hkey.unique hkey'
          obtain rfl := (hbefore.unique_cons hbefore' (by decide) (by decide)).2
          obtain rfl := hafter.unique hafter' h.startsToken h'.startsToken
          obtain ⟨rfl, hrest⟩ := hv h h' hr hr'
          rw [String.toList_inj.1 hkeys]
          exact ⟨rfl, hrest⟩

mutual

/-- A value is read in one way, if nothing follows that a number could go on
with. -/
theorem Reads.unique :
    ∀ {v v' : Json} {cs r r' : List Char}, Reads v cs r → Reads v' cs r' →
    Follows r → Follows r' → v = v' ∧ r = r'
  | .null, _, _, _, _, .null, h', _, _ => by
      cases h' with
      | null => exact ⟨rfl, rfl⟩
      | number hn hcs => exact absurd hcs (hn.not_starts (by decide))
  | .bool .true, _, _, _, _, .yes, h', _, _ => by
      cases h' with
      | yes => exact ⟨rfl, rfl⟩
      | number hn hcs => exact absurd hcs (hn.not_starts (by decide))
  | .bool .false, _, _, _, _, .no, h', _, _ => by
      cases h' with
      | no => exact ⟨rfl, rfl⟩
      | number hn hcs => exact absurd hcs (hn.not_starts (by decide))
  | .number ds, _, _, _, _, .number hn hcs, h', hr, hr' => by
      cases h' with
      | number hn' hcs' =>
          obtain ⟨rfl, hr⟩ := hn.unique hn' (hcs.symm.trans hcs') hr hr'
          exact ⟨rfl, hr⟩
      | _ => exact absurd hcs (hn.not_starts (by decide))
  | .string s, _, _, _, _, .string h, h', _, _ => by
      cases h' with
      | string h' =>
          obtain ⟨hs, hr⟩ := h.unique h'
          exact ⟨congrArg Json.string (String.toList_inj.1 hs), hr⟩
      | number hn hcs => exact absurd hcs (hn.not_starts (by decide))
  | .array [], _, _, _, _, .emptyArray h, h', _, _ => by
      cases h' with
      | number hn hcs => exact absurd hcs (hn.not_starts (by decide))
      | emptyArray h' =>
          exact ⟨rfl, (h.unique_cons h' (by decide) (by decide)).2⟩
      | array hb hx hs =>
          -- The same blanks come before a bracket and before an item, so the
          -- item would be one.
          obtain rfl :=
            h.unique hb (startsToken_cons (by decide)) hx.startsToken
          exact absurd hx not_reads_close
  | .array (x :: items), _, _, _, _, .array hb h hs, h', _, _ => by
      cases h' with
      | number hn hcs => exact absurd hcs (hn.not_starts (by decide))
      | emptyArray h' =>
          obtain rfl :=
            hb.unique h' h.startsToken (startsToken_cons (by decide))
          exact absurd h not_reads_close
      | array hb' h' hs' =>
          obtain rfl := hb.unique hb' h.startsToken h'.startsToken
          obtain ⟨rfl, rfl⟩ := h.unique h' hs.follows hs'.follows
          obtain ⟨rfl, hr⟩ := hs.unique hs'
          exact ⟨rfl, hr⟩
  | .object [], _, _, _, _, .emptyObject h, h', _, _ => by
      cases h' with
      | number hn hcs => exact absurd hcs (hn.not_starts (by decide))
      | emptyObject h' =>
          exact ⟨rfl, (h.unique_cons h' (by decide) (by decide)).2⟩
      | object hb hx hs =>
          obtain rfl :=
            h.unique hb (startsToken_cons (by decide)) hx.startsToken
          cases hx
  | .object ((key, v) :: members), _, _, _, _, .object hb h hs, h', _, _ => by
      cases h' with
      | number hn hcs => exact absurd hcs (hn.not_starts (by decide))
      | emptyObject h' =>
          obtain rfl :=
            hb.unique h' h.startsToken (startsToken_cons (by decide))
          cases h
      | object hb' h' hs' =>
          obtain rfl := hb.unique hb' h.startsToken h'.startsToken
          obtain ⟨hmember, rfl⟩ :=
            ReadsMember.unique Reads.unique h h' hs.follows hs'.follows
          obtain ⟨rfl, hr⟩ := hs.unique hs'
          rw [hmember]
          exact ⟨rfl, hr⟩
termination_by structural v => v

theorem ReadsItems.unique : ∀ {items items' : List Json} {cs r r' : List Char},
    ReadsItems items cs r → ReadsItems items' cs r' → items = items' ∧ r = r'
  | [], _, _, _, _, .close h, h' => by
      cases h' with
      | close h' =>
          exact ⟨rfl, (h.unique_cons h' (by decide) (by decide)).2⟩
      | next h' =>
          exact absurd (h.unique_cons h' (by decide) (by decide)).1 (by decide)
  | v :: items, _, _, _, _, .next hb ha h hs, h' => by
      cases h' with
      | close h' =>
          exact absurd (hb.unique_cons h' (by decide) (by decide)).1 (by decide)
      | next hb' ha' h' hs' =>
          obtain rfl := (hb.unique_cons hb' (by decide) (by decide)).2
          obtain rfl := ha.unique ha' h.startsToken h'.startsToken
          obtain ⟨rfl, rfl⟩ := h.unique h' hs.follows hs'.follows
          obtain ⟨rfl, hr⟩ := hs.unique hs'
          exact ⟨rfl, hr⟩
termination_by structural items => items

theorem ReadsMembers.unique :
    ∀ {members members' : List (String × Json)} {cs r r' : List Char},
    ReadsMembers members cs r → ReadsMembers members' cs r' →
    members = members' ∧ r = r'
  | [], _, _, _, _, .close h, h' => by
      cases h' with
      | close h' =>
          exact ⟨rfl, (h.unique_cons h' (by decide) (by decide)).2⟩
      | next h' =>
          exact absurd (h.unique_cons h' (by decide) (by decide)).1 (by decide)
  | (key, v) :: members, _, _, _, _, .next hb ha h hs, h' => by
      cases h' with
      | close h' =>
          exact absurd (hb.unique_cons h' (by decide) (by decide)).1 (by decide)
      | next hb' ha' h' hs' =>
          obtain rfl := (hb.unique_cons hb' (by decide) (by decide)).2
          obtain rfl := ha.unique ha' h.startsToken h'.startsToken
          obtain ⟨hmember, rfl⟩ :=
            ReadsMember.unique Reads.unique h h' hs.follows hs'.follows
          obtain ⟨rfl, hr⟩ := hs.unique hs'
          rw [hmember]
          exact ⟨rfl, hr⟩
termination_by structural members => members

end

/-- A text has at most one value. -/
theorem IsTextOf.unique {v v' : Json} {text : List Char} (h : v.IsTextOf text)
    (h' : v'.IsTextOf text) : v = v' := by
  obtain ⟨cs, r, hbefore, hv, hafter⟩ := h
  obtain ⟨cs', r', hbefore', hv', hafter'⟩ := h'
  obtain rfl := hbefore.unique hbefore' hv.startsToken hv'.startsToken
  exact (hv.unique hv' (hafter.follows nofun) (hafter'.follows nofun)).1

end Unique

end Json

end DaggerWorkflows
