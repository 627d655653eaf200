import DaggerWorkflows.CommandLine
import DaggerWorkflows.Proofs.Outcomes
import Mathlib.Data.List.Nodup

/-!
# Options among the words of a scope

An option may be written in several ways, and `Opt.Spelled` lists them. Words
are read one after the other, and a value that is a word of its own is only
looked at when the next option comes. `words_spelled` says that this makes no
difference to what is accepted: whatever way an option is written in, the words
are read on from a state that comes to the state before with the option's value
assigned. So a row of options is a row of assignments (`exists_reading`), and
`Accepts` says which rows succeed. Nothing else succeeds either: a scope that
has been read to its end is such a row (`exists_row`).
-/

namespace DaggerWorkflows.CommandLine

namespace Word

/-- A name without an equals sign goes up to the first one behind it. -/
theorem splitValue_append {name : List Char} (h : '=' ∉ name)
    (value : Option String) :
    splitValue (name ++ (value.elim [] fun text => '=' :: text.toList)) =
      (String.ofList name, value) := by
  have hne : ∀ c ∈ name, (c != '=') = true :=
    fun c hc => bne_iff_ne.2 fun heq => h (heq ▸ hc)
  rw [splitValue, List.takeWhile_append_of_pos hne,
    List.dropWhile_append_of_pos hne]
  cases value <;> simp

theorem eq_of_splitValue (cs : List Char) :
    cs = (splitValue cs).1.toList ++
      ((splitValue cs).2.elim [] fun text => '=' :: text.toList) := by
  have hsplit := List.takeWhile_append_dropWhile (p := (· != '=')) (l := cs)
  unfold splitValue
  cases hrest : cs.dropWhile (· != '=') with
  | nil =>
      rw [hrest] at hsplit
      simpa using hsplit.symm
  | cons c value =>
      have hc : c = '=' := by
        have hhead := List.head?_dropWhile_not (· != '=') cs
        simpa [hrest] using hhead
      rw [hrest, hc] at hsplit
      simpa using hsplit.symm

theorem ofText_long {name : String} (hne : name.toList ≠ [])
    (h : '=' ∉ name.toList) (value : Option String) :
    ofText ("--" ++ name ++ value.elim "" ("=" ++ ·)) = .long name value := by
  have hsplit := splitValue_append h value
  have hcs : (value.elim "" ("=" ++ ·)).toList = value.elim [] fun text =>
      '=' :: text.toList := by
    cases value <;> simp
  obtain ⟨c, cs, hname⟩ := List.exists_cons_of_ne_nil hne
  rw [hname, List.cons_append, ← hname, String.ofList_toList] at hsplit
  simp [ofText, hname, hcs, hsplit]

theorem ofText_short {c : Char} (h : c ≠ '-') (rest : String) :
    ofText ("-" ++ String.singleton c ++ rest) = .short (c :: rest.toList) := by
  simp [ofText, h]

theorem eq_of_ofText_terminator {word : String}
    (h : ofText word = .terminator) :
    word = "--" := by
  unfold ofText at h
  split at h
  · next hword => rw [← String.toList_inj, hword]; rfl
  all_goals cases h

theorem eq_of_ofText_long {word name : String} {value : Option String}
    (h : ofText word = .long name value) :
    word = "--" ++ name ++ value.elim "" ("=" ++ ·) := by
  unfold ofText at h
  split at h
  · cases h
  · next cs _ hword =>
      cases h
      have hcs := eq_of_splitValue cs
      rw [← String.toList_inj, hword]
      cases hvalue : (splitValue cs).2 <;> rw [hvalue] at hcs <;>
        simpa using hcs
  all_goals cases h

theorem eq_of_ofText_short {word : String} {letters : List Char}
    (h : ofText word = .short letters) :
    ∃ c cs, letters = c :: cs ∧
    word = "-" ++ String.singleton c ++ String.ofList cs := by
  unfold ofText at h
  split at h
  · cases h
  · cases h
  · cases h
  · next hne hword =>
      cases h
      obtain ⟨c, cs, rfl⟩ := List.exists_cons_of_ne_nil hne
      exact ⟨c, cs, rfl, by rw [← String.toList_inj, hword]; simp⟩
  · cases h

end Word

/-! ## Ways to write an option -/

namespace Opt

/-- A word that names an option, with the text that the word has for it if it
has one. -/
inductive Names (o : Opt) : String → Option String → Prop
  | flag (h : o.isFlag = true) : Names o ("--" ++ o.name) (some "")
  | long (h : o.isFlag = false) : Names o ("--" ++ o.name) none
  | longJoined (h : o.isFlag = false) (text : String) :
      Names o ("--" ++ o.name ++ "=" ++ text) (some text)
  | short {c : Char} (h : o.letter? = some c) :
      Names o ("-" ++ String.singleton c) none
  | shortJoined {c : Char} (h : o.letter? = some c) (text : String) :
      Names o ("-" ++ String.singleton c ++ "=" ++ text) (some text)
  | attached {c d : Char} (h : o.letter? = some c) {text : String}
      (hd : text.toList.head? = some d) (hne : d ≠ '=') :
      Names o ("-" ++ String.singleton c ++ text) (some text)

/-- The words that give an option a text, which stands in the word that names it
or behind it. -/
inductive Spelled (o : Opt) (text : String) : List String → Prop
  | within {word : String} (h : o.Names word (some text)) :
      Spelled o text [word]
  | behind {word : String} (h : o.Names word none)
      (hplain : Word.ofText text = .plain) :
      Spelled o text [word, text]

/-- The text stands for a value of the option. -/
def Reads (o : Opt) (text : String) : Prop := ∃ value, o.read text = .ok value

theorem eq_of_readPath {text path : String} (h : readPath text = .ok path) :
    path = text := by
  unfold readPath at h
  split at h
  · cases h
  · cases h
    rfl

theorem isFlag_of_letter? {o : Opt} {c : Char} (h : o.letter? = some c) :
    o.isFlag = false := by
  cases o <;> first | rfl | cases h

theorem name_ne_nil (o : Opt) : o.name.toList ≠ [] := by
  cases o <;> decide

theorem equals_notMem_name (o : Opt) : '=' ∉ o.name.toList := by
  cases o <;> decide

theorem letter_ne_dash {o : Opt} {c : Char} (h : o.letter? = some c) :
    c ≠ '-' := by
  cases o <;> cases h <;> decide

end Opt

namespace Scope

theorem long?_eq_option_iff {s : Scope} {name : String} {o : Opt} :
    s.long? name = some (.option o) ↔ o ∈ s.options ∧ o.name = name := by
  constructor
  · intro h
    unfold long? at h
    split at h
    · cases h
    split at h
    · cases h
    obtain ⟨o', ho', heq⟩ := Option.map_eq_some_iff.1 h
    cases heq
    exact ⟨List.mem_of_find?_eq_some ho', by simpa using List.find?_some ho'⟩
  · rintro ⟨ho, rfl⟩
    cases s <;> cases o <;> first | rfl | exact absurd ho (by decide)

theorem short?_eq_option_iff {s : Scope} {c : Char} {o : Opt} :
    s.short? c = some (.option o) ↔ o ∈ s.options ∧ o.letter? = some c := by
  constructor
  · intro h
    unfold short? at h
    split at h
    · cases h
    split at h
    · cases h
    obtain ⟨o', ho', heq⟩ := Option.map_eq_some_iff.1 h
    cases heq
    exact ⟨List.mem_of_find?_eq_some ho', by simpa using List.find?_some ho'⟩
  · rintro ⟨ho, hc⟩
    cases s <;> cases o <;> cases hc <;>
      first | rfl | exact absurd ho (by decide)

theorem name_of_command? {s : Scope} {word : String} {c : CommandName}
    (h : s.command? word = some c) : c.name = word := by
  unfold command? at h
  split at h
  · have hfound := List.find?_some h
    exact beq_iff_eq.1 hfound
  · cases h

/-- The name of a command has no dashes. -/
theorem command?_eq_none {s : Scope} {word : String}
    (h : Word.ofText word ≠ .plain) :
    s.command? word = none := by
  cases hc : s.command? word with
  | none => rfl
  | some c =>
      obtain rfl := name_of_command? hc
      cases c <;> exact absurd rfl h

end Scope

/-! ## One option -/

namespace Progress

theorem assign_ok_iff {p p' : Progress} {o : Opt} {text : String} :
    p.assign o text = .ok p' ↔
      p.given o = none ∧ ∃ value, o.read text = .ok value ∧
        p' = { p with given := p.given.set o value } := by
  unfold assign
  split
  · next h => simp [Option.isSome_iff_ne_none.1 h]
  · next h =>
      rw [Option.not_isSome_iff_eq_none] at h
      cases o.read text <;> simp [h, eq_comm]

theorem pending_of_settle {p p' : Progress} (h : p.settle = .ok p') :
    p'.pending = none := by
  unfold settle at h
  split at h
  · next hp =>
      cases h
      exact hp
  · cases h
  · obtain ⟨-, value, -, rfl⟩ := assign_ok_iff.1 h
    rfl

theorem settle_of_pending {p : Progress} (h : p.pending = none) :
    p.settle = .ok p := by
  rw [settle, h]

/-- Nothing can be made of an option whose value has not come. -/
theorem not_settle_of_awaiting {p p' : Progress} {o : Opt}
    (h : p.awaiting? = some o) :
    p.settle ≠ .ok p' := by
  unfold awaiting? at h
  unfold settle
  split at h
  · next hp =>
      rw [hp]
      exact nofun
  · cases h

/-- Read the word of an option, with the text that it has for the option. -/
def meet (p : Progress) (o : Opt) : Option String → Except Stop Progress
  | some text => p.give o text
  | none => p.await o

theorem words_long {s : Scope} {word name : String} {value : Option String}
    (h : Word.ofText word = .long name value) (rest : List String)
    (p : Progress) :
    words s (word :: rest) p = (p.long s name value >>= words s rest) := by
  simp only [words, Scope.command?_eq_none (by rw [h]; exact nofun), h]
  cases p.awaiting? <;> rfl

theorem words_short {s : Scope} {word : String} {letters : List Char}
    (h : Word.ofText word = .short letters) (rest : List String)
    (p : Progress) :
    words s (word :: rest) p = (short s letters p >>= words s rest) := by
  simp only [words, Scope.command?_eq_none (by rw [h]; exact nofun), h]
  cases p.awaiting? <;> rfl

theorem words_plain {s : Scope} {p : Progress} {o : Opt}
    (hp : p.awaiting? = some o) {word : String} (h : Word.ofText word = .plain)
    (rest : List String) :
    words s (word :: rest) p =
      words s rest { p with pending := some (o, some word) } := by
  simp only [words, hp, h]

theorem long_name {s : Scope} {o : Opt} (ho : o ∈ s.options) (p : Progress)
    (value : Option String) :
    p.long s o.name value =
      if o.isFlag then value.elim (p.give o "") fun _ =>
        .error (.refused (.needlessValue o.name))
      else p.meet o value := by
  simp only [long, Scope.long?_eq_option_iff.2 ⟨ho, rfl⟩]
  cases value <;> rfl

theorem words_names {s : Scope} {o : Opt} (ho : o ∈ s.options) {word : String}
    {value : Option String} (h : o.Names word value) (rest : List String)
    (p : Progress) :
    words s (word :: rest) p = (p.meet o value >>= words s rest) := by
  have hlong : Word.ofText ("--" ++ o.name) = .long o.name none := by
    simpa using Word.ofText_long o.name_ne_nil o.equals_notMem_name none
  cases h with
  | flag h => rw [words_long hlong, long_name ho, if_pos h]; rfl
  | long h => rw [words_long hlong, long_name ho, if_neg (by simp [h])]
  | longJoined h text =>
      have hword :=
        Word.ofText_long o.name_ne_nil o.equals_notMem_name (some text)
      rw [Option.elim_some, ← String.append_assoc] at hword
      rw [words_long hword, long_name ho, if_neg (by simp [h])]
  | short h =>
      have hword := Word.ofText_short (Opt.letter_ne_dash h) ""
      rw [String.append_empty] at hword
      rw [words_short hword]
      simp [short, Scope.short?_eq_option_iff.2 ⟨ho, h⟩,
        Opt.isFlag_of_letter? h, meet]
  | shortJoined h text =>
      have hword := Word.ofText_short (Opt.letter_ne_dash h) ("=" ++ text)
      rw [← String.append_assoc] at hword
      rw [words_short hword]
      simp [short, Scope.short?_eq_option_iff.2 ⟨ho, h⟩,
        Opt.isFlag_of_letter? h, meet]
  | @attached c d h text hd hne =>
      rw [words_short (Word.ofText_short (Opt.letter_ne_dash h) text)]
      obtain ⟨ds, hds⟩ := List.head?_eq_some_iff.1 hd
      have htext : text = String.ofList (d :: ds) := by
        rw [← hds, String.ofList_toList]
      simp [short, Scope.short?_eq_option_iff.2 ⟨ho, h⟩,
        Opt.isFlag_of_letter? h, meet, htext, hne]

theorem ask_ne_ok (p p' : Progress) (stop : Stop) : p.ask stop ≠ .ok p' := by
  intro h
  obtain ⟨q, -, h⟩ := of_bind_ok h
  cases h

theorem exists_of_long {s : Scope} {p p' : Progress} {name : String}
    {value : Option String} (h : p.long s name value = .ok p') :
    ∃ o ∈ s.options,
      ∃ value', o.Names ("--" ++ name ++ value.elim "" ("=" ++ ·)) value' ∧
      p.meet o value' = .ok p' := by
  unfold long at h
  split at h
  · cases h
  · next o text heq =>
      obtain ⟨ho, rfl⟩ := Scope.long?_eq_option_iff.1 heq
      split at h
      · cases h
      · next hflag =>
          refine ⟨o, ho, some text, ?_, h⟩
          rw [Option.elim_some, ← String.append_assoc]
          exact .longJoined (by simpa using hflag) text
  · next o heq =>
      obtain ⟨ho, rfl⟩ := Scope.long?_eq_option_iff.1 heq
      rw [Option.elim_none, String.append_empty]
      split at h
      · next hflag => exact ⟨o, ho, some "", .flag hflag, h⟩
      · next hflag => exact ⟨o, ho, none, .long (by simpa using hflag), h⟩
  · cases h
  · exact (ask_ne_ok _ _ _ h).elim
  · exact (ask_ne_ok _ _ _ h).elim

theorem exists_of_short {s : Scope} {p p' : Progress} {c : Char}
    {cs : List Char} (h : short s (c :: cs) p = .ok p') :
    ∃ o ∈ s.options,
      ∃ value, o.Names ("-" ++ String.singleton c ++ String.ofList cs) value ∧
      p.meet o value = .ok p' := by
  unfold short at h
  split at h
  · cases h
  · exact (ask_ne_ok _ _ _ h).elim
  · exact (ask_ne_ok _ _ _ h).elim
  · next o heq =>
      obtain ⟨ho, hc⟩ := Scope.short?_eq_option_iff.1 heq
      rw [if_neg (by simp [Opt.isFlag_of_letter? hc])] at h
      split at h
      · exact ⟨o, ho, none, by simpa using Opt.Names.short hc, h⟩
      · next text =>
          refine ⟨o, ho, some (String.ofList text), ?_, h⟩
          rw [String.ofList_cons, ← String.append_assoc]
          exact .shortJoined hc _
      · next hnil hequals =>
          obtain ⟨d, ds, rfl⟩ := List.exists_cons_of_ne_nil hnil
          have hd : (String.ofList (d :: ds)).toList.head? = some d := by simp
          refine ⟨o, ho, some (String.ofList (d :: ds)), .attached hc hd ?_, h⟩
          rintro rfl
          exact hequals ds rfl

/-- A word with dashes behind which words are read on names an option. -/
theorem exists_names {s : Scope} {word : String}
    (hplain : Word.ofText word ≠ .plain) (hend : Word.ofText word ≠ .terminator)
    {rest : List String} {p : Progress}
    {result : Progress × Option (CommandName × List String)}
    (h : words s (word :: rest) p = .ok result) :
    ∃ o ∈ s.options,
      ∃ value, o.Names word value ∧ ∃ p', p.meet o value = .ok p' ∧
      words s rest p' = .ok result := by
  cases hword : Word.ofText word with
  | terminator => exact absurd hword hend
  | plain => exact absurd hword hplain
  | long name value =>
      rw [words_long hword] at h
      obtain ⟨p', hp, hrest⟩ := of_bind_ok h
      obtain ⟨o, ho, value', hnames, hmeet⟩ := exists_of_long hp
      rw [← Word.eq_of_ofText_long hword] at hnames
      exact ⟨o, ho, value', hnames, p', hmeet, hrest⟩
  | short letters =>
      rw [words_short hword] at h
      obtain ⟨p', hp, hrest⟩ := of_bind_ok h
      obtain ⟨c, cs, rfl, rfl⟩ := Word.eq_of_ofText_short hword
      obtain ⟨o, ho, value, hnames, hmeet⟩ := exists_of_short hp
      exact ⟨o, ho, value, hnames, p', hmeet, hrest⟩

/-- What comes of a state by giving an option a text. The text need not have
been looked at. -/
structure Takes (p : Progress) (o : Opt) (text : String)
    (r : Except Stop Progress) : Prop where
  settled : (r >>= settle) = (p.settle >>= (·.assign o text))
  ready : ∀ p', r = .ok p' → p'.awaiting? = none

theorem awaiting?_of_pending {p : Progress} (h : p.pending = none) :
    p.awaiting? = none := by
  simp only [awaiting?, h]

theorem takes_give (p : Progress) (o : Opt) (text : String) :
    p.Takes o text (p.give o text) := by
  have hpending : ∀ p', p.give o text = .ok p' → p'.pending = none := by
    intro p' hp'
    obtain ⟨q, hq, hassign⟩ := of_bind_ok hp'
    obtain ⟨-, value, -, rfl⟩ := assign_ok_iff.1 hassign
    change q.pending = none
    exact pending_of_settle hq
  constructor
  · cases hgive : p.give o text with
    | error e => exact hgive.symm
    | ok p' => exact (settle_of_pending (hpending p' hgive)).trans hgive.symm
  · exact fun p' hp' => awaiting?_of_pending (hpending p' hp')

/-- Words are read on from an option as if its value had been looked at. -/
theorem words_spelled {s : Scope} {o : Opt} (ho : o ∈ s.options) {text : String}
    {ws : List String} (h : o.Spelled text ws) (p : Progress) :
    ∃ r, p.Takes o text r ∧ ∀ rest,
      words s (ws ++ rest) p = (r >>= words s rest) := by
  cases h with
  | within h =>
      exact ⟨p.give o text, takes_give p o text, fun rest =>
        words_names ho h rest p⟩
  | @behind word h hplain =>
      -- The text is kept as it is: to settle it later is to assign it now.
      let kept : Progress → Progress :=
        fun q => { q with pending := some (o, some text) }
      refine ⟨kept <$> p.settle, ⟨?_, ?_⟩, fun rest => ?_⟩
      · cases hsettle : p.settle with
        | error e => rfl
        | ok q =>
            change assign { q with pending := none } o text = q.assign o text
            rw [← pending_of_settle hsettle]
      · intro p' hp'
        obtain ⟨q, -, rfl⟩ := of_map_ok hp'
        rfl
      · rw [List.cons_append, words_names ho h]
        change (p.settle >>= _) >>= _ = _
        cases p.settle with
        | error e => rfl
        | ok q =>
            have hwaits : awaiting? { q with pending := some (o, none) } =
              some o := rfl
            exact words_plain hwaits hplain rest

end Progress

/-! ## Options in a row -/

theorem Given.orElse_empty (g : Given) : g.orElse .empty = g := by
  funext o
  simp

theorem Given.empty_orElse (g : Given) : Given.empty.orElse g = g := by
  funext o
  simp

theorem Given.set_eq_none_iff {g : Given} {o p : Opt} {value : o.Value} :
    g.set o value p = none ↔ p ≠ o ∧ g p = none := by
  rcases eq_or_ne p o with rfl | h
  · simp
  · simp [set_of_ne g value h, h]

/-- An option and its text, as they stand among the words of a scope. -/
structure Occurrence (s : Scope) where
  opt : Opt
  text : String
  words : List String
  known : opt ∈ s.options
  spelled : opt.Spelled text words

namespace Occurrence

variable {s : Scope}

/-- The text that an option has in a row. -/
def text? (row : List (Occurrence s)) (o : Opt) : Option String :=
  (row.find? (·.opt = o)).map text

/-- The values that the options of a row have. -/
def given (row : List (Occurrence s)) : Given := fun o =>
  (text? row o).bind fun text => (o.read text).toOption

theorem text?_eq_none_iff {row : List (Occurrence s)} {o : Opt} :
    text? row o = none ↔ ∀ x ∈ row, x.opt ≠ o := by
  simp [text?]

theorem notMem_opts_iff {row : List (Occurrence s)} {o : Opt} :
    o ∉ row.map opt ↔ ∀ x ∈ row, x.opt ≠ o := by
  simp

theorem exists_of_text? {row : List (Occurrence s)} {o : Opt} {t : String}
    (h : text? row o = some t) : ∃ x ∈ row, x.opt = o ∧ x.text = t := by
  obtain ⟨x, hfind, htext⟩ := Option.map_eq_some_iff.1 h
  exact ⟨x, List.mem_of_find?_eq_some hfind, by
    simpa using List.find?_some hfind, htext⟩

theorem text?_cons_self (x : Occurrence s) (row : List (Occurrence s)) :
    text? (x :: row) x.opt = some x.text := by
  simp [text?]

theorem text?_cons_of_ne {x : Occurrence s} {o : Opt} (h : x.opt ≠ o)
    (row : List (Occurrence s)) : text? (x :: row) o = text? row o := by
  simp [text?, h]

theorem given_nil : given ([] : List (Occurrence s)) = .empty := rfl

/-- The first option of a row may as well be given its value before the
others. -/
theorem given_cons_orElse {x : Occurrence s} {row : List (Occurrence s)}
    (hx : x.opt ∉ row.map opt) {value : x.opt.Value}
    (hvalue : x.opt.read x.text = .ok value) (g : Given) :
    (given (x :: row)).orElse g = (given row).orElse (g.set x.opt value) := by
  funext o
  rw [Given.orElse_apply, Given.orElse_apply, given, given]
  rcases eq_or_ne o x.opt with rfl | ho
  · have hnone : text? row x.opt = none :=
      text?_eq_none_iff.2 (notMem_opts_iff.1 hx)
    rw [text?_cons_self, hnone, Given.set_self, Option.bind_some, hvalue]
    rfl
  · rw [text?_cons_of_ne ho.symm, Given.set_of_ne _ _ ho]

/-- The words of the options of a row. -/
def rowWords (row : List (Occurrence s)) : List String := row.flatMap words

end Occurrence

namespace Progress

open Occurrence

variable {s : Scope}

/-- Give the options of a row their texts. -/
def assignRow (row : List (Occurrence s)) (p : Progress) :
    Except Stop Progress :=
  row.foldlM (fun p x => p.assign x.opt x.text) p

theorem assignRow_cons (x : Occurrence s) (row : List (Occurrence s)) :
    assignRow (x :: row) = fun p =>
      p.assign x.opt x.text >>= assignRow row := by
  funext p
  exact List.foldlM_cons

/-- Words are read on from a row of options as if the values had been looked
at. -/
theorem words_row (row : List (Occurrence s)) {p : Progress}
    (hp : p.awaiting? = none) :
    ∃ r, (r >>= settle) = (p.settle >>= assignRow row) ∧
      (∀ p', r = .ok p' → p'.awaiting? = none) ∧
      ∀ rest, words s (rowWords row ++ rest) p = (r >>= words s rest) := by
  -- The reading of words is one value behind the giving of texts: the last
  -- value waits in `r`, and settling makes up for it.
  induction row generalizing p with
  | nil =>
      refine ⟨.ok p, (bind_pure p.settle).symm, fun p' hp' =>
        ?_, fun rest => rfl⟩
      cases hp'
      exact hp
  | cons x row ih =>
      obtain ⟨r, ⟨hsettled, hready⟩, hwords⟩ :=
        words_spelled x.known x.spelled p
      have hassign : (p.settle >>= assignRow (x :: row)) = (r >>= settle) >>=
          assignRow row := by
        rw [hsettled, bind_assoc, assignRow_cons]
      have hrow : ∀ rest, words s (rowWords (x :: row) ++ rest) p =
          (r >>= words s (rowWords row ++ rest)) := by
        intro rest
        rw [← hwords, rowWords, List.flatMap_cons, List.append_assoc]
        rfl
      cases r with
      | error e => exact ⟨.error e, hassign.symm, nofun, hrow⟩
      | ok q =>
          obtain ⟨r', hsettled', hready', hwords'⟩ := ih (hready q rfl)
          exact ⟨r', hsettled'.trans hassign.symm, hready',
            fun rest => (hrow rest).trans (hwords' rest)⟩

/-- A row can be assigned if no option comes twice and every text stands for a
value. -/
theorem assignRow_ok_iff {row : List (Occurrence s)} {p p' : Progress} :
    assignRow row p = .ok p' ↔
      (row.map opt).Nodup ∧ (∀ x ∈ row, p.given x.opt = none) ∧
      (∀ x ∈ row, x.opt.Reads x.text) ∧
      p' = { p with given := (Occurrence.given row).orElse p.given } := by
  induction row generalizing p with
  | nil =>
      have hpure : assignRow ([] : List (Occurrence s)) p = .ok p := rfl
      simp [hpure, given_nil, Given.empty_orElse, eq_comm]
  | cons x row ih =>
      simp only [assignRow_cons, List.map_cons, List.nodup_cons]
      constructor
      · intro h
        obtain ⟨q, hq, hrow⟩ := of_bind_ok h
        obtain ⟨hnone, value, hvalue, rfl⟩ := assign_ok_iff.1 hq
        obtain ⟨hnodup, hnew, hreads, rfl⟩ := ih.1 hrow
        simp only [Given.set_eq_none_iff] at hnew
        have hx : x.opt ∉ row.map opt := notMem_opts_iff.2 fun y hy =>
          (hnew y hy).1
        refine ⟨⟨hx, hnodup⟩, ?_, ?_, by rw [given_cons_orElse hx hvalue]⟩
        · exact List.forall_mem_cons.2 ⟨hnone, fun y hy => (hnew y hy).2⟩
        · exact List.forall_mem_cons.2 ⟨⟨value, hvalue⟩, hreads⟩
      · rintro ⟨⟨hx, hnodup⟩, hnew, hreads, rfl⟩
        obtain ⟨hnone, hnew⟩ := List.forall_mem_cons.1 hnew
        obtain ⟨⟨value, hvalue⟩, hreads⟩ := List.forall_mem_cons.1 hreads
        rw [assign_ok_iff.2 ⟨hnone, value, hvalue, rfl⟩]
        refine ih.2 ⟨hnodup, fun y hy => ?_, hreads, by
          rw [given_cons_orElse hx hvalue]⟩
        exact Given.set_eq_none_iff.2 ⟨notMem_opts_iff.1 hx y hy, hnew y hy⟩

end Progress

/-! ## Scopes that are read to their end -/

/-- What stands in for the option, if anything does, is a value of it. -/
def Environment.Reads (env : Environment) (o : Opt) : Prop :=
  ∀ text, env.text? o = some text → o.Reads text

theorem Environment.fault?_eq_none_iff {env : Environment} {g : Given} :
    env.fault? g = none ↔ ∀ o ∈ Opt.shared, g o = none → env.Reads o := by
  rw [fault?, List.findSome?_eq_none_iff]
  refine forall₂_congr fun o _ => ?_
  rw [Environment.Reads]
  cases g o with
  | some value => simp
  | none =>
      cases htext : env.text? o with
      | none => simp
      | some text =>
          cases hread : o.read text <;> simp [Opt.Reads, hread]

/-- The words that a scope ends with, and what is left of them then. -/
inductive Scope.Ends (s : Scope) :
    Option (CommandName × List String) → List String → Prop
  | out : s.Ends none []
  | closed : s.Ends none ["--"]
  | command {word : String} {c : CommandName} (h : s.command? word = some c)
      (rest : List String) : s.Ends (some (c, rest)) (word :: rest)

namespace Occurrence

variable {s : Scope}

/-- The options of a row can be given their texts where no command follows in
the scope. -/
structure Accepts (env : Environment) (row : List (Occurrence s)) : Prop where
  once : (row.map opt).Nodup
  reads : ∀ x ∈ row, x.opt.Reads x.text
  environment : ∀ o ∈ Opt.shared, (∀ x ∈ row, x.opt ≠ o) → env.Reads o

theorem given_eq_none_iff {row : List (Occurrence s)}
    (h : ∀ x ∈ row, x.opt.Reads x.text) {o : Opt} :
    given row o = none ↔ ∀ x ∈ row, x.opt ≠ o := by
  rw [given, ← text?_eq_none_iff]
  cases htext : text? row o with
  | none => simp
  | some text =>
      obtain ⟨x, hx, rfl, rfl⟩ := exists_of_text? htext
      obtain ⟨value, hvalue⟩ := h x hx
      simp [hvalue, Except.toOption]

end Occurrence

namespace Progress

open Occurrence

variable {s : Scope}

theorem words_ends {next : Option (CommandName × List String)}
    {tail : List String} (h : s.Ends next tail) {p : Progress}
    (hp : p.awaiting? = none) :
    words s tail p = .ok (p, next) := by
  cases h with
  | out => rfl
  | closed =>
      have hword : Word.ofText "--" = .terminator := rfl
      have hc : s.command? "--" = none := Scope.command?_eq_none (by decide)
      simp only [words, hp, hc, hword]
  | command h rest => simp only [words, hp, h]

theorem bind_finish_ok_iff {env : Environment} {r : Except Stop Progress}
    {g : Given} :
    (r >>= finish env) = .ok g ↔
      ∃ p, (r >>= settle) = .ok p ∧ env.fault? p.given = none ∧
      g = p.given := by
  cases r with
  | error e => exact ⟨nofun, nofun⟩
  | ok p =>
      change p.finish env = _ ↔ ∃ q, p.settle = _ ∧ _
      unfold finish
      cases p.settle with
      | error e => exact ⟨nofun, nofun⟩
      | ok q =>
          cases hfault : env.fault? q.given with
          | some fault =>
              simp [bind, Except.bind, throw, throwThe, MonadExceptOf.throw,
                hfault]
          | none => simp [bind, Except.bind, pure, Except.pure, hfault, eq_comm]

/-- A scope with a row of options is read to its end, and what comes of it can
be told from the row. -/
theorem exists_reading (row : List (Occurrence s))
    {next : Option (CommandName × List String)} {tail : List String}
    (htail : s.Ends next tail) :
    ∃ r, words s (rowWords row ++ tail) .start =
      (r >>= fun p => .ok (p, next)) ∧
      ∀ env g, (r >>= finish env) = .ok g ↔ Accepts env row ∧
      g = Occurrence.given row := by
  obtain ⟨r, hsettled, hready, hwords⟩ := words_row row (p := .start) rfl
  refine ⟨r, ?_, fun env g => ?_⟩
  · rw [hwords]
    cases r with
    | error e => rfl
    | ok p => exact words_ends htail (hready p rfl)
  · have hstart : (r >>= settle) = assignRow row .start := hsettled
    rw [bind_finish_ok_iff, hstart]
    simp only [assignRow_ok_iff, Environment.fault?_eq_none_iff]
    constructor
    · rintro ⟨p, ⟨honce, -, hreads, rfl⟩, henv, rfl⟩
      have hgiven : (Occurrence.given row).orElse start.given =
          Occurrence.given row :=
        Given.orElse_empty _
      refine ⟨⟨honce, hreads, fun o ho hnot => henv o ho ?_⟩, hgiven⟩
      rw [hgiven]
      exact (given_eq_none_iff hreads).2 hnot
    · rintro ⟨⟨honce, hreads, henv⟩, rfl⟩
      refine ⟨⟨Occurrence.given row, none⟩, ⟨honce, fun _ _ => rfl, hreads, ?_⟩,
        ?_, rfl⟩
      · exact congrArg (Progress.mk · none) (Given.orElse_empty _).symm
      · exact fun o ho hnone => henv o ho ((given_eq_none_iff hreads).1 hnone)

/-- What waits for its value is looked at before another option is read. -/
theorem exists_settle_of_meet {p p' : Progress} {o : Opt}
    {value : Option String} (h : p.meet o value = .ok p') :
    ∃ q, p.settle = .ok q := by
  cases value with
  | none =>
      obtain ⟨q, hq, -⟩ := of_bind_ok (x := p.settle) h
      exact ⟨q, hq⟩
  | some text =>
      obtain ⟨q, hq, -⟩ := of_bind_ok (x := p.settle) h
      exact ⟨q, hq⟩

theorem awaiting?_of_await {p p' : Progress} {o : Opt}
    (h : p.await o = .ok p') :
    p'.awaiting? = some o := by
  obtain ⟨q, -, hq⟩ := of_bind_ok (x := p.settle) h
  cases hq
  rfl

/-- Nothing that is read on stands behind two dashes. -/
theorem words_terminator {word : String}
    (hword : Word.ofText word = .terminator) {rest : List String} {p : Progress}
    {result : Progress × Option (CommandName × List String)}
    (h : words s (word :: rest) p = .ok result) :
    rest = [] ∧ result = (p, none) := by
  have hc : s.command? word = none :=
    Scope.command?_eq_none (by rw [hword]; exact nofun)
  cases rest with
  | nil =>
      simp only [words, hc, hword] at h
      cases hp : p.awaiting? <;> rw [hp] at h <;> cases h <;> exact ⟨rfl, rfl⟩
  | cons word' rest =>
      simp only [words, hc, hword] at h
      cases hp : p.awaiting? <;> rw [hp] at h <;> cases h

/-- An option that waits for its value gets it from the next word. -/
theorem exists_value {ws : List String} {p p' q : Progress}
    {next : Option (CommandName × List String)}
    (h : words s ws p = .ok (p', next)) (hq : p'.settle = .ok q) {o : Opt}
    (hp : p.awaiting? = some o) :
    ∃ text rest, ws = text :: rest ∧ Word.ofText text = .plain ∧
      words s rest { p with pending := some (o, some text) } =
        .ok (p', next) := by
  have hstuck : ∀ {q}, p.settle ≠ .ok q := not_settle_of_awaiting hp
  cases ws with
  | nil =>
      cases h
      exact absurd hq hstuck
  | cons word rest =>
      by_cases hplain : Word.ofText word = .plain
      · rw [words_plain hp hplain] at h
        exact ⟨word, rest, rfl, hplain, h⟩
      by_cases hend : Word.ofText word = .terminator
      · obtain ⟨-, heq⟩ := words_terminator hend h
        cases heq
        exact absurd hq hstuck
      -- A word with dashes would have the value looked at that has not come.
      obtain ⟨o', -, value, -, p₁, hmeet, -⟩ := exists_names hplain hend h
      obtain ⟨q₁, hq₁⟩ := exists_settle_of_meet hmeet
      exact absurd hq₁ hstuck

/-- The words of a scope that are read to its end are a row of options and an
end. -/
theorem exists_row {ws : List String} {p p' q : Progress}
    {next : Option (CommandName × List String)}
    (h : words s ws p = .ok (p', next)) (hq : p'.settle = .ok q)
    (hp : p.awaiting? = none) :
    ∃ row : List (Occurrence s),
      ∃ tail, s.Ends next tail ∧ ws = rowWords row ++ tail := by
  match ws with
  | [] =>
      cases h
      exact ⟨[], [], .out, rfl⟩
  | word :: rest =>
      by_cases hplain : Word.ofText word = .plain
      · cases hc : s.command? word with
        | none =>
            simp only [words, hp, hc, hplain] at h
            cases h
        | some c =>
            simp only [words, hp, hc] at h
            cases h
            exact ⟨[], word :: rest, .command hc rest, rfl⟩
      by_cases hend : Word.ofText word = .terminator
      · obtain ⟨rfl, heq⟩ := words_terminator hend h
        cases heq
        rw [Word.eq_of_ofText_terminator hend]
        exact ⟨[], ["--"], .closed, rfl⟩
      obtain ⟨o, ho, value, hnames, p₁, hmeet, hrest⟩ :=
        exists_names hplain hend h
      cases value with
      | some text =>
          have hready := (takes_give p o text).ready p₁ hmeet
          obtain ⟨row, tail, htail, rfl⟩ := exists_row hrest hq hready
          exact ⟨⟨o, text, [word], ho, .within hnames⟩ :: row, tail, htail, rfl⟩
      | none =>
          -- Two words are one option here, so the induction is on the number of
          -- words.
          obtain ⟨text, rest', rfl, htext, hrest'⟩ :=
            exists_value hrest hq (awaiting?_of_await hmeet)
          obtain ⟨row, tail, htail, rfl⟩ := exists_row hrest' hq rfl
          exact ⟨⟨o, text, [word, text], ho, .behind hnames htext⟩ :: row, tail,
            htail, rfl⟩
termination_by ws.length

end Progress

end DaggerWorkflows.CommandLine
