import DaggerWorkflows.LogFilter.Pattern
import DaggerWorkflows.LogLevel
import DaggerWorkflows.Text.Blank
import DaggerWorkflows.Text.Split

/-!
# Log filters

A log filter says which events are shown. It is a list of rules between commas,
each of the form `target[span{field}]=level` with most of it optional. Only
whether a filter is well formed is of interest here.
-/

namespace DaggerWorkflows.LogFilter

/-- Whether a text is a level: a word in any case, or a number from zero, which
shows nothing, to five, which shows everything. -/
def isLevel (text : String) : Bool :=
  match Number.word? text with
  | some n => decide (n ≤ 5)
  | none => (LogLevel.all.map LogLevel.name ++ ["off"]).contains text.toLower

/-- What a well-formed rule says about its level, as far as its form goes. -/
inductive Form where
  | withoutLevel
  /-- A level is named, or left empty. -/
  | level (text : String)
deriving DecidableEq, Repr

/-- A level, at the end of a rule. -/
def level (cs : List Char) : Option Form := some (.level (String.ofList cs))

/-- What follows a span. -/
def afterSpan : List Char → Option Form
  | [] => some .withoutLevel
  | '=' :: cs => level cs
  | _ => none

/-- Whether a field is well formed: it has a name, and behind an equals sign
perhaps a value. -/
def isField (cs : List Char) : Bool :=
  match Text.split '=' cs with
  | _ :: value :: _ => Pattern.isWellFormed value
  | _ => !cs.isEmpty

/-- The field of a span, from behind the brace that opens it. -/
def field (cs : List Char) : Option Form :=
  match cs.dropWhile (· != '}') with
  | '}' :: ']' :: rest =>
      if isField (cs.takeWhile (· != '}')) then afterSpan rest else none
  | _ => none

/-- A span, from behind the bracket that opens it. -/
def span (cs : List Char) : Option Form :=
  match cs.dropWhile fun c => c != ']' && c != '{' with
  | ']' :: cs => afterSpan cs
  | '{' :: cs => field cs
  | _ => none

/-- A rule that starts with a target, or is nothing but a level. -/
def target (cs : List Char) : Option Form :=
  match cs.dropWhile fun c => c != '=' && c != '[' with
  | '=' :: cs => level cs
  | '[' :: cs => span cs
  | _ => some .withoutLevel

/-- Whether a target may start with the character. -/
def startsTarget (c : Char) : Bool :=
  Text.isAlphanumeric c || c == '-' || c == ':' || c == '_'

/-- The form of a rule without blanks around it. -/
def form : List Char → Option Form
  | [] => none
  | '[' :: cs => span cs
  | c :: cs => if startsTarget c then target (c :: cs) else none

/-- Whether a rule is well formed. Blanks around it are allowed only if it has
no level. -/
def isRule (rule : String) : Bool :=
  let trimmed := Text.trim rule
  match form trimmed.toList with
  | none => false
  | some .withoutLevel => true
  | some (.level text) => trimmed == rule && (text.isEmpty || isLevel text)

/-- Whether a filter is well formed. Nothing between two commas is no rule. -/
def isWellFormed (filter : String) : Bool :=
  ((Text.split ',' filter.toList).filter (!·.isEmpty)).all fun rule =>
    isRule (String.ofList rule)

end DaggerWorkflows.LogFilter
