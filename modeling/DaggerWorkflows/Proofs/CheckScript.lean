import DaggerWorkflows.Proofs.StepEnvironment
import DaggerWorkflows.Proofs.ShellReading

/-!
# The call that a check asks for help on

The script of a check and the command of the compiled workflow are put together
from the same text. A shell reads both as one call with the same words, the one
with `--help` behind them, as long as the text is a single line. A newline
anywhere in it, be it the one that ends a block of a manifest, ends the call
before `--help`, which then is a command of its own.

The module is quoted, so the same cannot come of it (`checkScript_module`): it
is one word whatever is in it, and the call is still open behind it.
-/

namespace DaggerWorkflows

namespace Pipeline

/-- The words of the command. -/
def commandWords (p : Pipeline) :
    List String := (Shell.words p.command).map String.ofList

/-- The words that choose the module. -/
def moduleWords (p : Pipeline) : List String :=
  match p.module with
  | none => []
  | some m => ["-m", m]

/-- The variables that come later leave the command alone. -/
theorem get?_execEnvironment_command (p : Pipeline) :
    p.execEnvironment.values.get? "COMMAND" =
      some ("dagger call -q " ++ p.command) := by
  rw [execEnvironment, StepEnvironment.get?_addAll]
  rfl

/-- The call without its flags. -/
theorem begins_call : Shell.Begins "dagger call " ["dagger", "call"] :=
  (Shell.begins_name (w := "dagger") (by decide +kernel)
    (by decide +kernel)).word (by simp) (w := "call") (by decide +kernel)

/-- What stands before the command in the script is the start of a call, with
the module that is called. -/
theorem begins_moduleCall (p : Pipeline) :
    Shell.Begins ("dagger call " ++ p.moduleArgument)
      (["dagger", "call"] ++ p.moduleWords) := by
  unfold moduleArgument moduleWords
  cases p.module with
  | none => exact begins_call
  | some m =>
      have hflag := begins_call.word (by simp) (w := "-m") (by decide +kernel)
      have hmodule := hflag.quote (by simp) m
      rw [show "-m" ++ " " = "-m " from rfl] at hmodule
      simpa only [String.append_assoc, List.append_assoc, List.cons_append,
        List.nil_append] using hmodule

/-- A command of bare words that is a single line is the call that a check asks
for help on: the script of the check is that call with `--help` as its last
word, and the workflow makes the same call. If the command is more than one
line, the script is not one command, so that `--help` is no word of the call. -/
theorem checkScript_call (p : Pipeline)
    (hbare : ∀ w ∈ Shell.words p.command, Shell.IsBare w) :
    if '\n' ∈ p.command.toList then
      ∀ cmd, Shell.commands? p.checkScript ≠ some [cmd]
    else
      Shell.commands? p.checkScript =
          some [["dagger", "call"] ++ p.moduleWords ++ p.commandWords ++
            ["--help"]] ∧
        ∃ text, p.execEnvironment.values.get? "COMMAND" = some text ∧
          Shell.commands? text =
            some [["dagger", "call", "-q"] ++ p.commandWords] := by
  have htext : (p.command ++ " --help").toList = p.command.toList ++
      ' ' :: "--help".toList := by
    rw [String.toList_append]
    rfl
  have hwords : Shell.words (p.command ++ " --help") =
      Shell.words p.command ++ ["--help".toList] := by
    rw [Shell.words, htext, Shell.wordsFrom_append_gap _ _ _ (g := ' ') rfl]
    rfl
  have hscript : p.checkScript = "dagger call " ++ p.moduleArgument ++
      (p.command ++ " --help") := by
    simp only [checkScript, String.append_assoc]
  have hhelp : ∀ w ∈ Shell.words (p.command ++ " --help"), Shell.IsBare w := by
    rw [hwords]
    intro w hw
    rcases List.mem_append.1 hw with hw | hw
    · exact hbare w hw
    · obtain rfl := List.mem_singleton.1 hw
      decide +kernel
  split
  · next hbreak =>
      intro cmd
      have htokens : Shell.spacedTokens [] (p.command ++ " --help").toList =
          Shell.spacedTokens [] p.command.toList ++
            [.word ("--help".toList.map .plain)] := by
        rw [htext, Shell.spacedTokens_append_space]
        rfl
      rw [hscript, p.begins_moduleCall.commands? hhelp, htokens]
      refine Shell.commandsFrom?_newline (by simp) ?_
        (List.getLast?_concat ..) cmd
      exact List.mem_append_left _ (Shell.newline_mem_spacedTokens [] hbreak)
  · next hline =>
      refine ⟨?_, _, p.get?_execEnvironment_command, ?_⟩
      · have hline' : '\n' ∉ (p.command ++ " --help").toList := by
          rw [htext]
          simp [hline]
        rw [hscript, p.begins_moduleCall.commands?_of_line (by simp) hhelp
          hline', hwords]
        simp [commandWords]
      · have hquiet :=
          begins_call.word (by simp) (w := "-q") (by decide +kernel)
        exact hquiet.commands?_of_line (by simp) hbare hline

/-- A pipeline whose call is one line, and calls a module. -/
theorem checkScript_call_module :
    (∀ w ∈ Shell.words "build --source=.", Shell.IsBare w) ∧
      Shell.commands? "dagger call -m 'ci' build --source=. --help" =
        some
          [["dagger", "call", "-m", "ci", "build", "--source=.",
            "--help"]] := by
  have hbare : ∀ w ∈ Shell.words "build --source=.", Shell.IsBare w := by
    decide +kernel
  have hcall := checkScript_call
    ⟨"build --source=.", some "ci", [], none, .default, by decide +kernel⟩ hbare
  rw [if_neg (by decide +kernel)] at hcall
  refine ⟨hbare, ?_⟩
  have : (Pipeline.mk "build --source=." (some "ci") [] none .default
    (by decide +kernel)).checkScript =
      "dagger call -m 'ci' build --source=. --help" := by decide +kernel
  rw [← this, hcall.1]
  decide +kernel

/-- The newline that ends a block of a manifest ends the call, so that it is
made for real. -/
theorem checkScript_makes_call :
    ∃ p : Pipeline, (∀ w ∈ Shell.words p.command, Shell.IsBare w) ∧
    p.commandWords = ["build"] ∧
      Shell.commands? p.checkScript =
        some [["dagger", "call", "build"], ["--help"]] :=
  ⟨⟨"build\n", none, [], none, .default, by decide +kernel⟩, by
    decide +kernel, by decide +kernel, by decide +kernel⟩

/-! ## The module -/

/-- The words that stand before a command which belongs to a module, piece by
piece. -/
def wordsBefore (module : String) : List (List Shell.Piece) :=
  ["dagger", "call", "-m"].map (·.toList.map .plain) ++
    [module.toList.map .quoted]

theorem run_wordsBefore (module : String) (rest : List Char) :
    Shell.run .start (("dagger call -m " ++ Shell.quote module ++ " ").toList ++
      rest) = ((Shell.run .start rest).1,
        (wordsBefore module).map .word ++ (Shell.run .start rest).2) := by
  have hcall : Shell.run .start "dagger call -m ".toList =
      (.start,
        (["dagger", "call", "-m"].map (·.toList.map Shell.Piece.plain)).map
          .word) := by
    decide +kernel
  have htext : ("dagger call -m " ++ Shell.quote module ++ " ").toList ++ rest =
      "dagger call -m ".toList ++
        ((Shell.quote module).toList ++ ' ' :: rest) := by
    simp
  rw [htext, Shell.run_append, hcall, Shell.run_quote]
  simp [wordsBefore]

/-- A module is one word of the call that is checked, character for character,
whatever the characters are: before the text of the command begins, the shell
has read three words as they stand and then the module, all of it quoted, and no
quote is open. Quoting is undone by reading, for any text and whatever comes
behind the next space. -/
theorem checkScript_module :
    (∀ (p : Pipeline) (module : String), ∃ before : String,
      ({ p with module := some module } : Pipeline).checkScript =
          before ++ (p.command ++ " --help") ∧
        Shell.run .start before.toList =
          (.start, (wordsBefore module).map .word) ∧
        (∀ rest, Shell.run .start (before.toList ++ rest) =
          ((Shell.run .start rest).1,
            (wordsBefore module).map .word ++ (Shell.run .start rest).2)) ∧
        (wordsBefore module).map Shell.wordText? =
          [some "dagger", some "call", some "-m", some module]) ∧
    ∀ (s : String) (rest : List Char),
      Shell.run .start ((Shell.quote s).toList ++ ' ' :: rest) =
          ((Shell.run .start rest).1,
            .word (s.toList.map .quoted) :: (Shell.run .start rest).2) ∧
        Shell.wordText? (s.toList.map .quoted) = some s := by
  have hquoted : ∀ s : String, Shell.wordText? (s.toList.map .quoted) =
      some s := by
    intro s
    rw [Shell.wordText?_quoted, String.ofList_toList]
  refine ⟨fun p module =>
    ⟨"dagger call -m " ++ Shell.quote module ++ " ", ?_, ?_, ?_, ?_⟩,
    fun s rest => ⟨Shell.run_quote s rest, hquoted s⟩⟩
  · simp [checkScript, moduleArgument, ← String.toList_inj]
  · have hread := run_wordsBefore module []
    rwa [List.append_nil, show Shell.run .start [] = (.start, []) from rfl,
      List.append_nil] at hread
  · exact run_wordsBefore module
  · have hplain :
      (["dagger", "call", "-m"].map (·.toList.map Shell.Piece.plain)).map
        Shell.wordText? = [some "dagger", some "call", some "-m"] := by
          decide +kernel
    rw [wordsBefore, List.map_append, hplain, List.map_singleton, hquoted]
    rfl

end Pipeline

end DaggerWorkflows
