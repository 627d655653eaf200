import DaggerWorkflows.CommandLine.Opt

/-!
# Ends of the command line

A command line may ask for nothing but help or the version, and it may be
refused. In both cases no command runs.
-/

namespace DaggerWorkflows.CommandLine

/-- Why a command line is refused. -/
inductive Refusal where
  | value (o : Opt) (fault : ValueFault)
  /-- An option is given twice in one scope. -/
  | repeated (o : Opt)
  /-- A flag is given a value. -/
  | needlessValue (name : String)
  | unknownArgument (word : String)
  | unknownCommand (word : String)
  | missingCommand
  /-- There is no command, and nothing else either. -/
  | nothing
deriving DecidableEq, Repr

/-- Why no command runs. -/
inductive Stop where
  | help
  | version
  | refused (reason : Refusal)
deriving DecidableEq, Repr

namespace Refusal

/-- The refusal as shown to people. -/
def message : Refusal → String
  | value o .invalid => s!"invalid value for '--{o.name}'"
  | value o .notNumber => s!"'--{o.name}' takes a number"
  | repeated o => s!"'--{o.name}' cannot be used multiple times"
  | needlessValue name => s!"'--{name}' takes no value"
  | unknownArgument word => s!"unexpected argument '{word}'"
  | unknownCommand word => s!"unrecognized command '{word}'"
  | missingCommand | nothing => "a command is required: generate or check"

end Refusal

namespace Stop

/-- How the program ends. -/
def exitCode : Stop → Nat
  | help | version => 0
  | refused _ => 2

end Stop

end DaggerWorkflows.CommandLine
