import DaggerWorkflows.LogLevel
import DaggerWorkflows.Number.Digits

/-!
# Options of the command line

An option is a flag, which is there or not, or takes a value. Which values an
option has depends on the option, so the type of its values does too.
-/

namespace DaggerWorkflows.CommandLine

/-- An option. -/
inductive Opt where
  | manifest
  | level
  | logFormat
  | logFilter
  | publicToken
  | daggerVersion
  | noTraces
  | stopEngine
  | asJson
  | runner
  | stem
  | output
  | stdout
  | repo
  | concurrency
  | timeout
  | baseImage
deriving DecidableEq, Repr

/-- Why a text is no value of an option. -/
inductive ValueFault where
  /-- There is no value, an empty one, or none of those there are. -/
  | invalid
  /-- The value is not a number of the right size. -/
  | notNumber
deriving DecidableEq, Repr

namespace Opt

/-- The values of an option; of a flag there is one. -/
abbrev Value : Opt → Type
  | level => LogLevel
  | logFormat => LogFormat
  | noTraces | stopEngine | asJson | stdout => Unit
  | concurrency | timeout => Nat
  | _ => String

/-- The options that may stand before and after the name of a command. -/
def shared : List Opt :=
  [manifest, level, logFormat, logFilter, publicToken, daggerVersion, noTraces,
    stopEngine, asJson, runner]

/-- Whether the option takes no value. -/
def isFlag : Opt → Bool
  | noTraces | stopEngine | asJson | stdout => true
  | _ => false

/-- The name behind two dashes. -/
def name : Opt → String
  | manifest => "manifest"
  | level => "level"
  | logFormat => "log-format"
  | logFilter => "log-filter"
  | publicToken => "public-token"
  | daggerVersion => "dagger-version"
  | noTraces => "no-traces"
  | stopEngine => "stop-engine"
  | asJson => "as-json"
  | runner => "runner"
  | stem => "prefix"
  | output => "output"
  | stdout => "stdout"
  | repo => "repo"
  | concurrency => "concurrency"
  | timeout => "timeout"
  | baseImage => "base-image"

/-- The letter behind one dash. -/
def letter? : Opt → Option Char
  | manifest => some 'f'
  | level => some 'L'
  | output => some 'o'
  | concurrency => some 'j'
  | _ => none

/-- The environment variable that stands in for the option. -/
def environmentName? : Opt → Option String
  | manifest => some "GHA_MANIFEST"
  | publicToken => some "DAGGER_PUBLIC_TOKEN"
  | daggerVersion => some "GHA_DAGGER_VERSION"
  | runner => some "GHA_RUNNER"
  | _ => none

/-- A path that is not empty. -/
def readPath (text : String) : Except ValueFault String :=
  if text.isEmpty then .error .invalid else .ok text

/-- A number of at most 64 bits. -/
def readNumber (text : String) : Except ValueFault Nat :=
  (Number.word? text).elim (.error .notNumber) .ok

/-- The value that a text stands for. -/
def read : (o : Opt) → String → Except ValueFault o.Value
  | manifest, text | output, text | repo, text => readPath text
  | level, text => (LogLevel.ofName? text).elim (.error .invalid) .ok
  | logFormat, text => (LogFormat.ofName? text).elim (.error .invalid) .ok
  | concurrency, text | timeout, text => readNumber text
  | logFilter, text | publicToken, text | daggerVersion, text | runner,
      text | stem, text
  | baseImage, text => .ok text
  | noTraces, _ | stopEngine, _ | asJson, _ | stdout, _ => .ok ()

end Opt

end DaggerWorkflows.CommandLine
