import DaggerWorkflows.CommandLine.Opt

/-!
# Scopes of the command line

Before the name of a command other words are understood than behind it.
-/

namespace DaggerWorkflows.CommandLine

/-- The name of a command. -/
inductive CommandName where
  | generate
  | check
  | help
deriving DecidableEq, Repr

namespace CommandName

/-- All names. -/
def all : List CommandName := [generate, check, help]

/-- The name as a word. -/
def name : CommandName → String
  | generate => "generate"
  | check => "check"
  | help => "help"

/-- The name that a word is. -/
def ofText? (word : String) : Option CommandName := all.find? (·.name == word)

end CommandName

/-- Where words stand. -/
inductive Scope where
  /-- Before the name of a command. -/
  | program
  | generate
  | check
deriving DecidableEq, Repr

/-- What the name of an option asks for. -/
inductive Meaning where
  | option (o : Opt)
  | help
  | version
deriving DecidableEq, Repr

namespace Scope

/-- The options that are understood. -/
def options : Scope → List Opt
  | program => Opt.shared
  | generate => .stem :: .output :: .stdout :: Opt.shared
  | check => .repo :: .concurrency :: .timeout :: .baseImage :: Opt.shared

/-- What a name behind two dashes means. -/
def long? (s : Scope) (name : String) : Option Meaning :=
  if name = "help" then some .help
  else if s = program ∧ name = "version" then some .version
  else (s.options.find? (·.name == name)).map .option

/-- What a letter behind one dash means. -/
def short? (s : Scope) (letter : Char) : Option Meaning :=
  if letter = 'h' then some .help
  else if s = program ∧ letter = 'V' then some .version
  else (s.options.find? (·.letter? == some letter)).map .option

/-- The command that a word names. A command has no commands of its own. -/
def command? (s : Scope) (word : String) : Option CommandName :=
  if s = program then CommandName.ofText? word else none

end Scope

end DaggerWorkflows.CommandLine
