import DaggerWorkflows.CommandLine.Given
import DaggerWorkflows.CommandLine.Scope
import DaggerWorkflows.CommandLine.Stop
import DaggerWorkflows.CommandLine.Word

/-!
# Reading the words of a scope

An option that takes a value may get it in its own word or in the next one. The
value is looked at only when another option comes or the scope ends, so a word
that cannot be understood is told about before a bad value in front of it.
-/

namespace DaggerWorkflows.CommandLine

/-- How far the words of a scope have been read. -/
structure Progress where
  given : Given
  /-- The last option in a word of its own, and its value once that has come. -/
  pending : Option (Opt × Option String)

namespace Progress

/-- Before the first word. -/
def start : Progress := ⟨.empty, none⟩

/-- Give an option the value that a text stands for. -/
def assign (p : Progress) (o : Opt) (text : String) : Except Stop Progress :=
  if (p.given o).isSome then .error (.refused (.repeated o))
  else
    match o.read text with
    | .ok value => .ok { p with given := p.given.set o value }
    | .error fault => .error (.refused (.value o fault))

/-- Look at the value of the last option. -/
def settle (p : Progress) : Except Stop Progress :=
  match p.pending with
  | none => .ok p
  | some (o, none) => .error (.refused (.value o .invalid))
  | some (o, some text) => { p with pending := none }.assign o text

/-- An option with its value in the same word, or a flag. -/
def give (p : Progress) (o : Opt) (text : String) : Except Stop Progress := do
  (← p.settle).assign o text

/-- An option whose value is to come. -/
def await (p : Progress) (o : Opt) : Except Stop Progress := do
  return { (← p.settle) with pending := some (o, none) }

/-- Ask for help or the version. -/
def ask (p : Progress) (stop : Stop) : Except Stop Progress := do
  let _ ← p.settle
  throw stop

/-- A word with a name behind two dashes. -/
def long (p : Progress) (s : Scope) (name : String) (value : Option String) :
    Except Stop Progress :=
  match s.long? name, value with
  | none, _ => .error (.refused (.unknownArgument ("--" ++ name)))
  | some (.option o), some text =>
      if o.isFlag then .error (.refused (.needlessValue name))
        else p.give o text
  | some (.option o), none => if o.isFlag then p.give o "" else p.await o
  | some _, some _ => .error (.refused (.needlessValue name))
  | some .help, none => p.ask .help
  | some .version, none => p.ask .version

/-- The letters of a word behind one dash. The first option that takes a value
has the rest of the word for it, less an equals sign at its start. -/
def short (s : Scope) : List Char → Progress → Except Stop Progress
  | [], p => .ok p
  | letter :: letters, p =>
      match s.short? letter with
      | none =>
          .error (.refused (.unknownArgument ("-" ++ String.singleton letter)))
      | some .help => p.ask .help
      | some .version => p.ask .version
      | some (.option o) =>
          if o.isFlag then do short s letters (← p.give o "")
          else
            match letters with
            | [] => p.await o
            | '=' :: text => p.give o (String.ofList text)
            | text => p.give o (String.ofList text)

/-- The option that waits for its value. -/
def awaiting? (p : Progress) : Option Opt :=
  match p.pending with
  | some (o, none) => some o
  | _ => none

/-- A word that is neither an option nor a value, which no scope takes. -/
def misplaced (s : Scope) (word : String) : Stop :=
  .refused
    (if s = .program then .unknownCommand word else .unknownArgument word)

/-- Read the words of a scope up to its end or the name of a command, and say
what is left. -/
def words (s : Scope) : List String → Progress →
    Except Stop (Progress × Option (CommandName × List String))
  | [], p => .ok (p, none)
  | word :: rest, p =>
      match p.awaiting?, s.command? word with
      | none, some command => .ok (p, some (command, rest))
      | awaiting, _ =>
          match Word.ofText word with
          | .terminator =>
              match rest with
              | [] => .ok (p, none)
              | word :: _ =>
                  .error (if (s.command? word).isSome
                    then .refused (.unknownArgument word) else misplaced s word)
          | .long name value => do words s rest (← p.long s name value)
          | .short letters => do words s rest (← short s letters p)
          | .plain =>
              match awaiting with
              | some o => words s rest { p with pending := some (o, some word) }
              | none => .error (misplaced s word)

/-- The values that the options of a scope are given, at its end. Where the
environment stands in for an option it has to have a value of that option. -/
def finish (env : Environment) (p : Progress) : Except Stop Given := do
  let p ← p.settle
  match env.fault? p.given with
  | some (o, fault) => throw (.refused (.value o fault))
  | none => return p.given

end Progress

end DaggerWorkflows.CommandLine
