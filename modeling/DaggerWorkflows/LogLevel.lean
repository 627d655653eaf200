import DaggerWorkflows.Event

/-!
# Log levels

How much of what happens is shown on standard error, and in which form.
-/

namespace DaggerWorkflows

/-- How much is shown, the most first. -/
inductive LogLevel where
  | trace
  | debug
  | info
  | warn
  | error
deriving DecidableEq, Repr

namespace LogLevel

/-- All levels. -/
def all : List LogLevel := [trace, debug, info, warn, error]

/-- The word for a level. -/
def name : LogLevel → String
  | trace => "trace"
  | debug => "debug"
  | info => "info"
  | warn => "warn"
  | error => "error"

/-- The level that a word stands for. -/
def ofName? (name : String) : Option LogLevel := all.find? (·.name == name)

/-- The parts of the program whose events a level applies to. -/
def targets : List String := ["gha", "gha_core", "gha_github", "gha_dagger"]

/-- The log filter that applies a level to every part of the program and shows
nothing else. -/
def filter (l : LogLevel) : String :=
  String.intercalate "," (targets.map fun target => target ++ "=" ++ l.name)

/-- Whether events that matter this much are shown. -/
def shows : LogLevel → Severity → Bool
  | trace, _ | debug, _ => true
  | info, s => s.isShown .information
  | warn, s => s.isShown .warning
  | error, _ => false

end LogLevel

/-- The form in which events are shown. -/
inductive LogFormat where
  | pretty
  | compact
  | json
deriving DecidableEq, Repr

namespace LogFormat

/-- All forms. -/
def all : List LogFormat := [pretty, compact, json]

/-- The word for a form. -/
def name : LogFormat → String
  | pretty => "pretty"
  | compact => "compact"
  | json => "json"

/-- The form that a word stands for. -/
def ofName? (name : String) : Option LogFormat := all.find? (·.name == name)

end LogFormat

end DaggerWorkflows
