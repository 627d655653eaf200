import DaggerWorkflows.Shell
import Mathlib.Data.List.Basic

/-!
# How a shell reads a text

A shell first cuts a text into tokens, one character after the other, and then
puts the tokens together into commands. `Shell.step` is the cutting: it says for
every state between two characters what the next character does.
`Shell.commands?` is the putting together, for texts of simple commands one
after the other. Such a text is all that a call needs; any other has no reading
here, and neither has one with an expansion, since what that gives depends on
more than the text.

Two kinds of text matter. A text of bare words is read as these words, line by
line (`tokensFrom?_within`), and a quoted text is read as one word with the same
characters, whatever they are (`run_quoteTail`).
-/

namespace DaggerWorkflows.Shell

/-- A character of a word. -/
inductive Piece where
  /-- It stands for itself without quotes. -/
  | plain (c : Char)
  /-- It stands for itself because it is quoted. -/
  | quoted (c : Char)
  /-- It starts an expansion or is a pattern, so that the word is not its
  text. -/
  | active (c : Char)
deriving DecidableEq, Repr

/-- A token. -/
inductive Token where
  | word (pieces : List Piece)
  | newline
  | operator (text : List Char)
deriving DecidableEq, Repr

/-- The quotes that a reader of a word is in. -/
inductive Quoting where
  | none
  | single
  | double
  /-- After a backslash outside of quotes. -/
  | escape
  /-- After a backslash between double quotes. -/
  | doubleEscape
deriving DecidableEq, Repr

/-- Where a reader of tokens stands between two characters. -/
inductive State where
  /-- No token has begun. -/
  | start
  /-- After a backslash where no token has begun. -/
  | startEscape
  | comment
  | operator (text : List Char)
  | word (quoting : Quoting) (pieces : List Piece)
deriving DecidableEq, Repr

/-- Whether a character separates words and is nothing by itself. -/
def isBlank (c : Char) : Bool := c == ' ' || c == '\t'

/-- The characters that operators are made of. -/
def isOperatorChar (c : Char) :
    Bool := ['|', '&', ';', '<', '>', '(', ')'].contains c

/-- The operators of more than one character, and what is left of the longest of
them on the way there. -/
def longOperators : List (List Char) :=
  [['&', '&'], ['|', '|'], [';', ';'], ['<', '<'], ['>', '>'], ['<', '&'],
    ['>', '&'], ['<', '>'], ['<', '<', '-'], ['>', '|']]

/-- Whether a character outside of quotes makes more of a word than its text. -/
def isActive (c : Char) : Bool := ['$', '`', '*', '?', '[', '~', '{'].contains c

/-- A character of a word outside of quotes. -/
def piece (c : Char) : Piece := if isActive c then .active c else .plain c

/-- What a character does where no token has begun. -/
def begin (c : Char) : State × List Token :=
  if c = '\n' then (.start, [.newline])
  else if isBlank c then (.start, [])
  else if c = '#' then (.comment, [])
  else if c = '\\' then (.startEscape, [])
  else if c = '\'' then (.word .single [], [])
  else if c = '"' then (.word .double [], [])
  else if isOperatorChar c then (.operator [c], [])
  else (.word .none [piece c], [])

/-- What a character does after a token that it may end. -/
def beginAfter (token : Token) (c : Char) : State × List Token :=
  ((begin c).1, token :: (begin c).2)

/-- What a character does, and which tokens it ends. -/
def step : State → Char → State × List Token
  | .start, c => begin c
  | .startEscape, c =>
      if c = '\n' then (.start, []) else (.word .none [.quoted c], [])
  | .comment, c => if c = '\n' then (.start, [.newline]) else (.comment, [])
  | .operator text, c =>
      if longOperators.contains (text ++ [c]) then (.operator (text ++ [c]), [])
      else beginAfter (.operator text) c
  | .word .none ps, c =>
      if c = '\'' then (.word .single ps, [])
      else if c = '"' then (.word .double ps, [])
      else if c = '\\' then (.word .escape ps, [])
      else if c = '\n' || isBlank c ||
        isOperatorChar c then beginAfter (.word ps) c
      else (.word .none (ps ++ [piece c]), [])
  | .word .escape ps, c =>
      if c = '\n' then (.word .none ps, [])
        else (.word .none (ps ++ [.quoted c]), [])
  | .word .single ps, c =>
      if c = '\'' then (.word .none ps, [])
        else (.word .single (ps ++ [.quoted c]), [])
  | .word .double ps, c =>
      if c = '"' then (.word .none ps, [])
      else if c = '\\' then (.word .doubleEscape ps, [])
      else if c = '$' || c = '`' then (.word .double (ps ++ [.active c]), [])
      else (.word .double (ps ++ [.quoted c]), [])
  | .word .doubleEscape ps, c =>
      if c = '\n' then (.word .double ps, [])
      else if ['$', '`', '"', '\\'].contains c
        then (.word .double (ps ++ [.quoted c]), [])
      else (.word .double (ps ++ [.quoted '\\', .quoted c]), [])

/-- What the characters of a text do one after the other. -/
def run : State → List Char → State × List Token
  | s, [] => (s, [])
  | s, c :: cs =>
      ((run (step s c).1 cs).1, (step s c).2 ++ (run (step s c).1 cs).2)

/-- The token that ends with the text, unless a quote is still open. -/
def finish : State → Option (List Token)
  | .start | .comment => some []
  | .operator text => some [.operator text]
  | .word .none ps => some [.word ps]
  | _ => none

/-- The tokens of characters that are read in some state. -/
def tokensFrom? (s : State) (cs : List Char) : Option (List Token) :=
  (finish (run s cs).1).map ((run s cs).2 ++ ·)

/-- The tokens of a text. -/
def tokens? (text : String) :
    Option (List Token) := tokensFrom? .start text.toList

/-- The character that a piece stands for, unless it is active. -/
def Piece.char? : Piece → Option Char
  | plain c | quoted c => some c
  | active _ => none

/-- The text of a word. -/
def wordText? (ps : List Piece) :
    Option String := (ps.mapM Piece.char?).map String.ofList

/-- The words that are no names of commands, where they stand without quotes. -/
def reservedWords : List String :=
  ["!", "\x7b", "\x7d", "case", "do", "done", "elif", "else", "esac", "fi",
    "for", "if", "in",
    "then", "until", "while", "function", "select", "time", "coproc", "[["]

/-- Whether a word at the start of a command is something other than its name: a
reserved word, or an assignment. -/
def startsOtherwise (ps : List Piece) : Bool :=
  reservedWords.any (fun w => ps = w.toList.map .plain) ||
    ps.contains (.plain '=')

/-- The simple commands of tokens, when the words `args` of the first one have
been read. -/
def commandsFrom? : List String → List Token → Option (List (List String))
  | args, [] => some (if args.isEmpty then [] else [args])
  | args, .word ps :: ts =>
      if args.isEmpty && startsOtherwise ps then none
      else (wordText? ps).bind fun w => commandsFrom? (args ++ [w]) ts
  | args, .newline :: ts =>
      (commandsFrom? [] ts).map fun cmds =>
        if args.isEmpty then cmds else args :: cmds
  | args, .operator text :: ts =>
      if text = [';'] &&
        !args.isEmpty then (commandsFrom? [] ts).map (args :: ·) else none

/-- The simple commands that a text consists of, each with its words. -/
def commands? (text : String) : Option (List (List String)) :=
  (tokens? text).bind (commandsFrom? [])

/-! ## Reading piece by piece -/

theorem run_append (s : State) (as bs : List Char) :
    run s (as ++ bs) =
      ((run (run s as).1 bs).1, (run s as).2 ++ (run (run s as).1 bs).2) := by
  induction as generalizing s with
  | nil => rfl
  | cons a as ih => simp [run, ih]

theorem tokensFrom?_append (s : State) (as bs : List Char) :
    tokensFrom? s (as ++ bs) =
      (tokensFrom? (run s as).1 bs).map ((run s as).2 ++ ·) := by
  simp [tokensFrom?, run_append, Function.comp_def]

theorem tokensFrom?_cons (s : State) (c : Char) (cs : List Char) :
    tokensFrom? s (c :: cs) = (tokensFrom? (step s c).1 cs).map
      ((step s c).2 ++ ·) := by
  simp [tokensFrom?, run, Function.comp_def]

/-- A quoted text is one word, character for character: an apostrophe ends the
quotes, stands behind a backslash, and starts them again. -/
theorem run_quoteTail (ps : List Piece) (cs : List Char) :
    run (.word .single ps) (quoteTail cs) =
      (.word .none (ps ++ cs.map .quoted), []) := by
  induction cs generalizing ps with
  | nil => simp [quoteTail, run, step]
  | cons c cs ih =>
      rw [quoteTail]
      split
      · next hc => simp [run, step, ih, hc]
      · next hc => simp [run, step, ih, hc]

/-- A quoted text is one word, wherever a word may begin, and what comes behind
the next space is read as if nothing had been before it. -/
theorem run_quote (s : String) (rest : List Char) :
    run .start ((quote s).toList ++ ' ' :: rest) =
      ((run .start rest).1,
        .word (s.toList.map .quoted) :: (run .start rest).2) := by
  have hword : run .start (quote s).toList =
      (.word .none (s.toList.map .quoted), []) := by
    rw [quote, String.toList_ofList, run, show step .start '\'' =
      (.word .single [], []) from rfl, run_quoteTail]
    rfl
  rw [run_append, hword, run,
    show step (.word .none (s.toList.map .quoted)) ' ' =
      (.start, [.word (s.toList.map .quoted)]) from rfl]
  rfl

theorem wordText?_plain (cs : List Char) :
    wordText? (cs.map .plain) = some (String.ofList cs) := by
  have hmap : (cs.map Piece.plain).mapM Piece.char? = some cs := by
    induction cs with
    | nil => rfl
    | cons c cs ih => simp [Piece.char?, ih]
  rw [wordText?, hmap]
  rfl

theorem wordText?_quoted (cs : List Char) :
    wordText? (cs.map .quoted) = some (String.ofList cs) := by
  have hmap : (cs.map Piece.quoted).mapM Piece.char? = some cs := by
    induction cs with
    | nil => rfl
    | cons c cs ih => simp [Piece.char?, ih]
  rw [wordText?, hmap]
  rfl

/-! ## Texts of bare words -/

/-- Whether a character stands between words: a blank or the end of a line. -/
def isGap (c : Char) : Bool := isBlank c || c == '\n'

/-- Whether a character is nothing but itself in a word without quotes. -/
def isBareChar (c : Char) : Bool :=
  !(isGap c || isOperatorChar c || isActive c || c == '\'' || c == '"' ||
    c == '\\')

/-- Whether a word is free of characters that mean something to a shell. Only at
its start does a sharp mean something. -/
def IsBare (w : List Char) : Prop :=
  w ≠ [] ∧ (∀ c ∈ w, isBareChar c = true) ∧ w.head? ≠ some '#'

instance (w : List Char) : Decidable (IsBare w) :=
  decidable_of_iff (w ≠ [] ∧ w.all isBareChar = true ∧ w.head? ≠ some '#')
    (by simp [IsBare])

/-- The words of a text, when the characters `w` of the first one have been
read. -/
def wordsFrom : List Char → List Char → List (List Char)
  | w, [] => if w.isEmpty then [] else [w]
  | w, c :: cs =>
      if isGap c then (if w.isEmpty then [] else [w]) ++ wordsFrom [] cs
      else wordsFrom (w ++ [c]) cs

/-- The words of a text: what stands between gaps. -/
def words (text : String) : List (List Char) := wordsFrom [] text.toList

/-- The tokens of a text of bare words, when the characters `w` of the first one
have been read. -/
def spacedTokens : List Char → List Char → List Token
  | w, [] => if w.isEmpty then [] else [.word (w.map .plain)]
  | w, c :: cs =>
      if isGap c then
        (if w.isEmpty then [] else [.word (w.map .plain)])
          ++ (if c = '\n' then [.newline] else []) ++ spacedTokens [] cs
      else spacedTokens (w ++ [c]) cs

/-- The state of a reader that has read the characters `w` of a bare word. -/
def within (w : List Char) :
    State := if w.isEmpty then .start else .word .none (w.map .plain)

/-- A bare character makes the word longer; at its start it must not be a
sharp. -/
theorem step_within {w : List Char} {c : Char} (hc : isBareChar c = true)
    (hsharp : w = [] → c ≠ '#') :
    step (within w) c = (within (w ++ [c]), []) := by
  simp only [isBareChar, isGap, Bool.not_eq_true', Bool.or_eq_false_iff,
    beq_eq_false_iff_ne] at hc
  obtain ⟨⟨⟨⟨⟨⟨hblank, hbreak⟩, hoperator⟩, hactive⟩, hsingle⟩, hdouble⟩,
    hescape⟩ := hc
  cases w with
  | nil => simp [within, step, begin, piece, *]
  | cons a w => simp [within, step, piece, *]

/-- A gap ends the word. -/
theorem step_gap {w : List Char} {c : Char} (hc : isGap c = true) :
    step (within w) c =
      (.start, (if w.isEmpty then [] else [.word (w.map .plain)])
        ++ (if c = '\n' then [.newline] else [])) := by
  have hbegin : begin c = (.start, if c = '\n' then [.newline] else []) := by
    simp only [isGap, Bool.or_eq_true, beq_iff_eq] at hc
    by_cases hbreak : c = '\n'
    · simp [begin, hbreak]
    · simp [begin, hbreak, hc.resolve_right hbreak]
  cases w with
  | nil => simpa [within, step] using hbegin
  | cons a w =>
      have hquotes : c ≠ '\'' ∧ c ≠ '"' ∧ c ≠ '\\' := by
        refine ⟨?_, ?_, ?_⟩ <;> rintro rfl <;> exact absurd hc (by decide)
      have hends : (c = '\n' || isBlank c || isOperatorChar c) = true := by
        simp only [isGap, Bool.or_eq_true, beq_iff_eq] at hc
        simp [hc.symm]
      simp [within, step, hquotes, hends, beginAfter, hbegin]

/-- What has been read of a word is how a word of the text starts. -/
theorem exists_wordsFrom_of_ne_nil {w : List Char} (hw : w ≠ [])
    (cs : List Char) :
    ∃ x ∈ wordsFrom w cs, w <+: x := by
  induction cs generalizing w with
  | nil => exact ⟨w, by simp [wordsFrom, hw], List.prefix_rfl⟩
  | cons c cs ih =>
      by_cases hc : isGap c = true
      · exact ⟨w, by simp [wordsFrom, hc, hw], List.prefix_rfl⟩
      · obtain ⟨x, hx, hwx⟩ := ih (w := w ++ [c]) (by simp)
        exact ⟨x, by
          simpa [wordsFrom, hc] using hx, (List.prefix_append w [c]).trans hwx⟩

/-- The characters of a text of bare words mean nothing but themselves to a
shell. -/
theorem tokensFrom?_within {w cs : List Char}
    (hbare : ∀ x ∈ wordsFrom w cs, IsBare x) :
    tokensFrom? (within w) cs = some (spacedTokens w cs) := by
  induction cs generalizing w with
  | nil => cases w <;> simp [tokensFrom?, run, within, finish, spacedTokens]
  | cons c cs ih =>
      rw [tokensFrom?_cons]
      by_cases hc : isGap c = true
      · have hrest := ih (w := []) fun x hx =>
          hbare x (by simp [wordsFrom, hc, hx])
        rw [step_gap hc, show State.start = within [] from rfl, hrest]
        simp [spacedTokens, hc]
      · have hrest : ∀ x ∈ wordsFrom (w ++ [c]) cs, IsBare x := by
          simpa [wordsFrom, hc] using hbare
        obtain ⟨x, hx, t, rfl⟩ :=
          exists_wordsFrom_of_ne_nil (w := w ++ [c]) (by simp) cs
        obtain ⟨-, hchars, hsharp⟩ := hrest _ hx
        have hstep : step (within w) c = (within (w ++ [c]), []) := by
          refine step_within (hchars c (by simp)) ?_
          rintro rfl
          simpa using hsharp
        rw [hstep, ih hrest]
        simp [spacedTokens, hc]

theorem wordsFrom_append_gap (w cs ds : List Char) {g : Char}
    (hg : isGap g = true) :
    wordsFrom w (cs ++ g :: ds) = wordsFrom w cs ++ wordsFrom [] ds := by
  induction cs generalizing w with
  | nil => simp [wordsFrom, hg]
  | cons c cs ih => by_cases hc : isGap c = true <;> simp [wordsFrom, hc, ih]

theorem spacedTokens_append_space (w cs ds : List Char) :
    spacedTokens w (cs ++ ' ' :: ds) = spacedTokens w cs ++
      spacedTokens [] ds := by
  induction cs generalizing w with
  | nil => simp [spacedTokens, show isGap ' ' = true from rfl]
  | cons c cs ih => by_cases hc : isGap c = true <;> simp [spacedTokens, hc, ih]

/-- On one line there is nothing but the words. -/
theorem spacedTokens_of_line (w : List Char) {cs : List Char} (h : '\n' ∉ cs) :
    spacedTokens w cs = (wordsFrom w cs).map fun x => .word (x.map .plain) := by
  induction cs generalizing w with
  | nil => cases w <;> simp [spacedTokens, wordsFrom]
  | cons c cs ih =>
      obtain ⟨hc, hcs⟩ : c ≠ '\n' ∧ '\n' ∉ cs := by simpa [eq_comm] using h
      by_cases hgap : isGap c = true
      · cases w <;> simp [spacedTokens, wordsFrom, hgap, hc, ih _ hcs]
      · simp [spacedTokens, wordsFrom, hgap, ih _ hcs]

theorem newline_mem_spacedTokens (w : List Char) {cs : List Char}
    (h : '\n' ∈ cs) :
    .newline ∈ spacedTokens w cs := by
  induction cs generalizing w with
  | nil => simp at h
  | cons c cs ih =>
      rcases List.mem_cons.1 h with rfl | h
      · simp [spacedTokens, show isGap '\n' = true from rfl]
      · by_cases hgap : isGap c = true <;> simp [spacedTokens, hgap, ih _ h]

/-! ## Putting commands together -/

/-- The words of a command that has begun are its arguments, whatever they
are. -/
theorem commandsFrom?_words {args : List String} (hargs : args ≠ [])
    (ws : List (List Char)) (ts : List Token) :
    commandsFrom? args (ws.map (fun w => .word (w.map .plain)) ++ ts) =
      commandsFrom? (args ++ ws.map String.ofList) ts := by
  induction ws generalizing args with
  | nil => simp
  | cons w ws ih =>
      have hbegun : (args.isEmpty && startsOtherwise (w.map .plain)) =
        false := by simp [hargs]
      simp [commandsFrom?, hbegun, wordText?_plain, ih]

/-- Where a command has begun or a word stands last, there is a command. -/
theorem commandsFrom?_ne_nil {args : List String} {ts : List Token}
    {cmds : List (List String)} (h : commandsFrom? args ts = some cmds)
    (hsome : args ≠ [] ∨ ∃ ps, ts.getLast? = some (.word ps)) : cmds ≠ [] := by
  induction ts generalizing args cmds with
  | nil =>
      obtain hargs : args ≠ [] := by simpa using hsome
      have : cmds = [args] := by simpa [commandsFrom?, hargs] using h.symm
      simp [this]
  | cons t ts ih =>
      cases t with
      | word ps =>
          simp only [commandsFrom?] at h
          split at h
          · cases h
          · obtain ⟨w, -, h⟩ := Option.bind_eq_some_iff.1 h
            exact ih h (.inl (by simp))
      | newline =>
          obtain ⟨rest, hrest, rfl⟩ := Option.map_eq_some_iff.1 h
          by_cases hargs : args = []
          · have hlast : ∃ ps, ts.getLast? = some (.word ps) := by
              obtain ⟨ps, hps⟩ := hsome.resolve_left (by simpa using hargs)
              rw [List.getLast?_cons] at hps
              cases hts : ts.getLast? <;> simp_all
            simpa [hargs] using ih hrest (.inr hlast)
          · simp [hargs]
      | operator text =>
          simp only [commandsFrom?] at h
          split at h
          · obtain ⟨rest, -, rfl⟩ := Option.map_eq_some_iff.1 h
            simp
          · cases h

/-- A newline between words of a text separates two commands. -/
theorem commandsFrom?_newline {args : List String} (hargs : args ≠ [])
    {ts : List Token} (hnewline : .newline ∈ ts) {ps : List Piece}
    (hlast : ts.getLast? = some (.word ps)) (cmd : List String) :
    commandsFrom? args ts ≠ some [cmd] := by
  induction ts generalizing args with
  | nil => simp at hnewline
  | cons t ts ih =>
      have hrest : ts ≠ [] → ts.getLast? = some (.word ps) := by
        intro hts
        rw [List.getLast?_cons] at hlast
        cases h : ts.getLast? <;> simp_all
      cases t with
      | word qs =>
          have hmem : .newline ∈ ts := by simpa using hnewline
          intro h
          simp only [commandsFrom?] at h
          split at h
          · cases h
          · obtain ⟨w, -, h⟩ := Option.bind_eq_some_iff.1 h
            exact ih (by simp) hmem (hrest (List.ne_nil_of_mem hmem)) h
      | newline =>
          intro h
          obtain ⟨rest, hcmds, hsingle⟩ := Option.map_eq_some_iff.1 h
          have hts : ts ≠ [] := by rintro rfl; simp at hlast
          have := commandsFrom?_ne_nil hcmds (.inr ⟨ps, hrest hts⟩)
          simp_all
      | operator text =>
          intro h
          simp only [commandsFrom?] at h
          split at h
          · obtain ⟨rest, hcmds, hsingle⟩ := Option.map_eq_some_iff.1 h
            have hts : ts ≠ [] := by rintro rfl; simp at hlast
            have := commandsFrom?_ne_nil hcmds (.inr ⟨ps, hrest hts⟩)
            simp_all
          · cases h

/-! ## The start of a command -/

/-- A text that ends between two words is the start of a command with these
words. -/
def Begins (text : String) (args : List String) : Prop :=
  ∃ ts, run .start text.toList = (.start, ts) ∧
    ∀ rest, commandsFrom? [] (ts ++ rest) = commandsFrom? args rest

/-- A command has a name, unless its first word is a reserved one or an
assignment. -/
theorem begins_name {w : String}
    (hread : run .start (w ++ " ").toList =
      (.start, [.word (w.toList.map .plain)]))
    (hname : startsOtherwise (w.toList.map .plain) = false) :
    Begins (w ++ " ") [w] :=
  ⟨_, hread, fun rest => by simp [commandsFrom?, hname, wordText?_plain]⟩

variable {text : String} {args : List String}

/-- A word that is read as it stands is one more word of the command. -/
theorem Begins.word (h : Begins text args) (hargs : args ≠ []) {w : String}
    (hread : run .start (w ++ " ").toList =
      (.start, [.word (w.toList.map .plain)])) :
    Begins (text ++ (w ++ " ")) (args ++ [w]) := by
  obtain ⟨ts, htext, hcommands⟩ := h
  refine ⟨ts ++ [.word (w.toList.map .plain)], ?_, fun rest => ?_⟩
  · rw [String.toList_append, run_append, htext, hread]
  · simp [hcommands, commandsFrom?, wordText?_plain, hargs]

/-- A quoted word is one more word of the command. -/
theorem Begins.quote (h : Begins text args) (hargs : args ≠ []) (w : String) :
    Begins (text ++ (Shell.quote w ++ " ")) (args ++ [w]) := by
  obtain ⟨ts, htext, hcommands⟩ := h
  have hword : run .start (Shell.quote w ++ " ").toList =
      (.start, [.word (w.toList.map .quoted)]) := by
    rw [String.toList_append]
    exact run_quote w []
  refine ⟨ts ++ [.word (w.toList.map .quoted)], ?_, fun rest => ?_⟩
  · rw [String.toList_append, run_append, htext, hword]
  · simp [hcommands, commandsFrom?, wordText?_quoted, hargs]

/-- A text of bare words is read as these words, as the rest of a command that
has begun. -/
theorem Begins.commands? (h : Begins text args) {rest : String}
    (hbare : ∀ w ∈ words rest, IsBare w) :
    commands? (text ++ rest) =
      commandsFrom? args (spacedTokens [] rest.toList) := by
  obtain ⟨ts, htext, hcommands⟩ := h
  have hrest : tokensFrom? .start rest.toList =
      some (spacedTokens [] rest.toList) :=
    tokensFrom?_within (w := []) hbare
  rw [Shell.commands?, tokens?, String.toList_append, tokensFrom?_append,
    htext, hrest]
  exact hcommands _

/-- On one line the words end the command. -/
theorem Begins.commands?_of_line (h : Begins text args) (hargs : args ≠ [])
    {rest : String} (hbare : ∀ w ∈ words rest, IsBare w)
    (hline : '\n' ∉ rest.toList) :
    Shell.commands? (text ++ rest) =
      some [args ++ (words rest).map String.ofList] := by
  have hwords := commandsFrom?_words hargs (words rest) []
  rw [List.append_nil] at hwords
  rw [h.commands? hbare, spacedTokens_of_line [] hline, ← words, hwords]
  simp [commandsFrom?, hargs]

end DaggerWorkflows.Shell
