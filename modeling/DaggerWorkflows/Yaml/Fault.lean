import DaggerWorkflows.Yaml.Mark

/-!
# Faults of a text

What can be wrong with the form of a document, apart from what it means. A
fault is a problem at a place; most problems also name what was being read and
where that began. The wording is in `Problem.message` and `Context.message`
alone.
-/

namespace DaggerWorkflows.Yaml

/-- What is wrong. -/
inductive Problem where
  | colonExpected
  | tokenExpected
  | blockEntryMisplaced
  | keyMisplaced
  | valueMisplaced
  | directiveNameMissing
  | directiveNameBroken
  | directiveUnknown
  | lineEndExpected
  | versionSeparatorMissing
  | versionNumberMissing
  | versionNumberTooLong
  | blankExpected
  | blankOrBreakExpected
  | anchorNameExpected
  | tagMarkExpected
  | tagEndExpected
  | tagUriMissing
  | uriEscapeExpected
  | uriEscapeLeading
  | uriEscapeTrailing
  | indentationZero
  | indentationTab
  | boundaryInScalar
  | endInScalar
  | escapeUnknown
  | escapeDigitExpected
  | escapeOutOfRange
  | colonInScalar
  | tabInScalar
  | documentStartExpected
  | versionRepeated
  | versionUnsupported
  | tagDirectiveRepeated
  | tagHandleUndefined
  | nodeExpected
  | dashExpected
  | keyExpected
  | sequenceSeparatorExpected
  | mappingSeparatorExpected
deriving DecidableEq, Repr

/-- What was being read when the problem was found. -/
inductive Context where
  | simpleKey
  | nextToken
  | directive
  | versionDirective
  | tagDirective
  | tagDirectiveHandle
  | tagDirectiveHandleEnd
  | tagDirectiveValue
  | anchor
  | reference
  | tag
  | tagText
  | blockScalar
  | quotedScalar
  | quotedEscape
  | plainScalar
  | node
  | blockNode
  | flowNode
  | blockCollection
  | blockMapping
  | flowSequence
  | flowMapping
deriving DecidableEq, Repr

/-- The wording of a problem. -/
def Problem.message : Problem → String
  | .colonExpected => "could not find expected ':'"
  | .tokenExpected => "found character that cannot start any token"
  | .blockEntryMisplaced =>
      "block sequence entries are not allowed in this context"
  | .keyMisplaced => "mapping keys are not allowed in this context"
  | .valueMisplaced => "mapping values are not allowed in this context"
  | .directiveNameMissing => "could not find expected directive name"
  | .directiveNameBroken => "found unexpected non-alphabetical character"
  | .directiveUnknown => "found unknown directive name"
  | .lineEndExpected => "did not find expected comment or line break"
  | .versionSeparatorMissing => "did not find expected digit or '.' character"
  | .versionNumberMissing => "did not find expected version number"
  | .versionNumberTooLong => "found extremely long version number"
  | .blankExpected => "did not find expected whitespace"
  | .blankOrBreakExpected => "did not find expected whitespace or line break"
  | .anchorNameExpected =>
      "did not find expected alphabetic or numeric character"
  | .tagMarkExpected => "did not find expected '!'"
  | .tagEndExpected => "did not find the expected '>'"
  | .tagUriMissing => "did not find expected tag URI"
  | .uriEscapeExpected => "did not find URI escaped octet"
  | .uriEscapeLeading => "found an incorrect leading UTF-8 octet"
  | .uriEscapeTrailing => "found an incorrect trailing UTF-8 octet"
  | .indentationZero => "found an indentation indicator equal to 0"
  | .indentationTab =>
      "found a tab character where an indentation space is expected"
  | .boundaryInScalar => "found unexpected document indicator"
  | .endInScalar => "found unexpected end of stream"
  | .escapeUnknown => "found unknown escape character"
  | .escapeDigitExpected => "did not find expected hexadecimal number"
  | .escapeOutOfRange => "found invalid Unicode character escape code"
  | .colonInScalar => "found unexpected ':'"
  | .tabInScalar => "found a tab character that violates indentation"
  | .documentStartExpected => "did not find expected <document start>"
  | .versionRepeated => "found duplicate %YAML directive"
  | .versionUnsupported => "found incompatible YAML document"
  | .tagDirectiveRepeated => "found duplicate %TAG directive"
  | .tagHandleUndefined => "found undefined tag handle"
  | .nodeExpected => "did not find expected node content"
  | .dashExpected => "did not find expected '-' indicator"
  | .keyExpected => "did not find expected key"
  | .sequenceSeparatorExpected => "did not find expected ',' or ']'"
  | .mappingSeparatorExpected => "did not find expected ',' or '\x7d'"

/-- The wording of a context. -/
def Context.message : Context → String
  | .simpleKey => "while scanning a simple key"
  | .nextToken => "while scanning for the next token"
  | .directive => "while scanning a directive"
  | .versionDirective => "while scanning a %YAML directive"
  | .tagDirective => "while scanning a %TAG directive"
  | .tagDirectiveHandle => "while scanning a tag directive"
  | .tagDirectiveHandleEnd => "while parsing a tag directive"
  | .tagDirectiveValue => "while parsing a %TAG directive"
  | .anchor => "while scanning an anchor"
  | .reference => "while scanning an alias"
  | .tag => "while scanning a tag"
  | .tagText => "while parsing a tag"
  | .blockScalar => "while scanning a block scalar"
  | .quotedScalar => "while scanning a quoted scalar"
  | .quotedEscape => "while parsing a quoted scalar"
  | .plainScalar => "while scanning a plain scalar"
  | .node => "while parsing a node"
  | .blockNode => "while parsing a block node"
  | .flowNode => "while parsing a flow node"
  | .blockCollection => "while parsing a block collection"
  | .blockMapping => "while parsing a block mapping"
  | .flowSequence => "while parsing a flow sequence"
  | .flowMapping => "while parsing a flow mapping"

/-- Why a text is no document. -/
inductive Fault where
  /-- A character that a text may not hold, that many octets into it. -/
  | control (octets : Nat)
  /-- A problem of form, and what was being read since when. -/
  | form (problem : Problem) (mark : Mark) (context : Option (Context × Mark))
  /-- An alias to an anchor that does not stand before it. -/
  | unknownAnchor (mark : Mark)
deriving DecidableEq, Repr

namespace Fault

/-- The place where a fault is noticed, if it is shown as one. -/
def mark? : Fault → Option Mark
  | control _ => none
  | form _ mark _ | unknownAnchor mark => some mark

/-- The part of a message that names a place; the first place of a text goes
unnamed. -/
def suffixAt (m : Mark) : String :=
  if m.isOrigin then "" else s!" at {m.describe}"

/-- The fault as shown to people. The context's place is left out where it is
the problem's. -/
def message : Fault → String
  | .control 0 => "control characters are not allowed"
  | .control n => s!"control characters are not allowed at position {n}"
  | .unknownAnchor m => "unknown anchor" ++ suffixAt m
  | .form problem m none => problem.message ++ suffixAt m
  | .form problem m (some (context, start)) =>
      problem.message ++ suffixAt m ++ ", " ++ context.message
        ++ (if m.samePlace start then "" else suffixAt start)

end Fault

end DaggerWorkflows.Yaml
