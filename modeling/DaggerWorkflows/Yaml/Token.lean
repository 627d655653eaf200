import DaggerWorkflows.Yaml.Directive

/-!
# Tokens

A document is a list of tokens: indicators, scalars, and marks that stand for
where an indented collection begins and ends.
-/

namespace DaggerWorkflows.Yaml

/-- How a scalar is written. -/
inductive ScalarStyle where
  | plain
  | singleQuoted
  | doubleQuoted
  | literal
  | folded
deriving DecidableEq, Repr

namespace Token

/-- What a token says. -/
inductive Kind where
  | streamEnd
  | directive (directive : Directive)
  | documentStart
  | documentEnd
  | blockSequenceStart
  | blockMappingStart
  | blockEnd
  | flowSequenceStart
  | flowSequenceEnd
  | flowMappingStart
  | flowMappingEnd
  | blockEntry
  | flowEntry
  | key
  | value
  | reference (name : String)
  | anchor (name : String)
  | tag (tag : WrittenTag)
  | scalar (text : String) (style : ScalarStyle)
deriving DecidableEq, Repr

end Token

/-- A token and where it stands. -/
structure Token where
  kind : Token.Kind
  /-- Where it starts. -/
  start : Mark
  /-- Where it ends; kept up for indicators, which are all that is asked
  about. -/
  stop : Mark
deriving DecidableEq, Repr

end DaggerWorkflows.Yaml
