import DaggerWorkflows.Yaml.Node
import DaggerWorkflows.Yaml.Token.OfText

/-!
# Nodes of tokens

A node is read by looking at the next token only. A fault, of the text or of
the order of its tokens, leaves no more tokens to look at; whatever is read
after it is missing.
-/

namespace DaggerWorkflows.Yaml

/-- A reader of nodes between two tokens. -/
structure NodeReader where
  tokens : List Token
  /-- Why there are no more tokens. -/
  fault : Option Fault
  /-- What the tag handles stand for. -/
  handles : List (String × List UInt8)
  /-- The anchors so far and their numbers, each name once. -/
  anchors : List (String × Nat)
deriving Repr

/-- A step that reads tokens. -/
abbrev Reading := StateM NodeReader

namespace NodeReader

/-- The next token, unless a fault comes first. -/
def peek? : Reading (Option Token) := do return (← get).tokens.head?

/-- Whether the next token is of a kind. -/
def nextIs (is : Token.Kind → Bool) : Reading Bool := do
  return (← peek?).any (is ·.kind)

/-- Take the next token. -/
def skip : Reading Unit := modify fun r => { r with tokens := r.tokens.tail }

/-- End the reading with a fault. -/
def fail (problem : Problem) (mark : Mark) (context : Option (Context × Mark)) :
    Reading Unit :=
  modify fun r =>
    { r with tokens := [], fault := some (.form problem mark context) }

/-- The number of a new anchor. A name used again gets a new number as well. -/
def addAnchor (name : Option String) : Reading (Option Nat) := do
  match name with
  | none => return none
  | some name =>
      let r ← get
      let number := r.anchors.length
      let anchors :=
        if r.anchors.any (·.1 == name) then
          r.anchors.map fun a => if a.1 == name then (name, number) else a
        else r.anchors ++ [(name, number)]
      set { r with anchors }
      return some number

/-- A tag with its handle replaced; `start` is where the node starts. -/
def expandTag (start : Mark) (tag : Option (WrittenTag × Mark)) :
    Reading (Option Tag) := do
  match tag with
  | none => return none
  | some (tag, mark) =>
      if tag.handle.isEmpty then return some ⟨tag.suffix⟩
      match (← get).handles.find? (·.1 == tag.handle) with
      | some (_, expansion) => return some ⟨expansion ++ tag.suffix⟩
      | none =>
          fail .tagHandleUndefined mark (some (.node, start))
          return none

/-- An anchor, if one is written here. -/
def readAnchor : Reading (Option String) := do
  match ← peek? with
  | some ⟨.anchor name, _, _⟩ => skip; return some name
  | _ => return none

/-- A tag, if one is written here. -/
def readTag : Reading (Option (WrittenTag × Mark)) := do
  match ← peek? with
  | some ⟨.tag tag, mark, _⟩ => skip; return some (tag, mark)
  | _ => return none

/-- An anchor and a tag, in either order. -/
def readProperties : Reading (Option String × Option (WrittenTag × Mark)) := do
  match ← readAnchor with
  | some name => return (some name, ← readTag)
  | none =>
      let tag ← readTag
      return (← if tag.isSome then readAnchor else pure none, tag)

/-- A node, or the empty scalar at `mark` if the next token is one that ends the
place. -/
def slot (ends : Token.Kind → Bool) (mark : Mark) (node : Reading Node) :
    Reading Node := do
  match ← peek? with
  | none => return .missing
  | some t => if ends t.kind then return .empty mark else node

/-- Ends an entry of a block sequence. -/
def endsItem (k : Token.Kind) : Bool := k == .blockEntry || k == .blockEnd

/-- Ends an entry of a sequence that is not indented further than the keys
around it. -/
def endsIndentlessItem (k : Token.Kind) : Bool :=
  k == .blockEntry || k == .key || k == .value || k == .blockEnd

/-- Ends a key or a value of a block mapping. -/
def endsField (k : Token.Kind) :
    Bool := k == .key || k == .value || k == .blockEnd

/-- Ends the key of a pair inside a flow sequence. -/
def endsPairKey (k : Token.Kind) : Bool :=
  k == .value || k == .flowEntry || k == .flowSequenceEnd

/-- Ends the value of a pair inside a flow sequence. -/
def endsPairValue (k : Token.Kind) :
    Bool := k == .flowEntry || k == .flowSequenceEnd

/-- Ends a key of a flow mapping. -/
def endsFlowKey (k : Token.Kind) : Bool :=
  k == .value || k == .flowEntry || k == .flowMappingEnd

/-- Ends a value of a flow mapping. -/
def endsFlowValue (k : Token.Kind) :
    Bool := k == .flowEntry || k == .flowMappingEnd

/-- The value of a flow mapping entry whose key has been read. -/
def flowValue (node : Reading Node) (ends : Token.Kind → Bool) :
    Reading Node := do
  match ← peek? with
  | none => return .missing
  | some ⟨.value, _, _⟩ =>
      skip
      match ← peek? with
      | none => return .missing
      | some t => slot ends t.start node
  | some t => return .empty t.start

/-- Before the next entry of a flow collection: skip a comma, which has to stand
there unless the collection ends or has just begun. -/
def separator (first : Bool) (closing : Token.Kind) (problem : Problem)
    (context : Context × Mark) : Reading Unit := do
  match ← peek? with
  | none => return
  | some t =>
      if first || t.kind == closing then return
      if t.kind == .flowEntry then skip
      else fail problem t.start (some context)

mutual

/-- Read a node. `block` allows block collections, and `indentless` a block
sequence whose dashes stand in the column of the keys around it. The first
argument bounds the depth. -/
def readNode : Nat → (block indentless : Bool) → Reading Node
  | 0, _, _ => return .missing
  | fuel + 1, block, indentless => do
    match ← peek? with
    | none => return .missing
    | some ⟨.reference name, mark, _⟩ =>
        match (← get).anchors.find? (·.1 == name) with
        | some (_, number) => skip; return .reference number mark
        | none =>
            modify fun r =>
              { r with tokens := [], fault := some (.unknownAnchor mark) }
            return .missing
    | some ⟨_, mark, _⟩ =>
      let (name, tag) ← readProperties
      match ← peek? with
      | none => return .missing
      | some ⟨kind, place, _⟩ =>
        let tag ← expandTag mark tag
        if (← peek?).isNone then return .missing
        if indentless && kind == .blockEntry then
          let anchor ← addAnchor name
          let (items, closed) ← readIndentlessItems fuel
          return .sequence items closed ⟨tag, anchor⟩ mark
        match kind, block with
        | .scalar text style, _ =>
            skip
            return .scalar text style ⟨tag, ← addAnchor name⟩ mark
        | .flowSequenceStart, _ =>
            skip
            let anchor ← addAnchor name
            let (items, closed) ← readFlowItems fuel place true
            return .sequence items closed ⟨tag, anchor⟩ mark
        | .flowMappingStart, _ =>
            skip
            let anchor ← addAnchor name
            let (entries, closed) ← readFlowEntries fuel place true
            return .mapping entries closed ⟨tag, anchor⟩ mark
        | .blockSequenceStart, true =>
            skip
            let anchor ← addAnchor name
            let (items, closed) ← readBlockItems fuel place
            return .sequence items closed ⟨tag, anchor⟩ mark
        | .blockMappingStart, true =>
            skip
            let anchor ← addAnchor name
            let (entries, closed) ← readBlockEntries fuel place
            return .mapping entries closed ⟨tag, anchor⟩ mark
        | _, _ =>
            if name.isSome || tag.isSome then
              return .scalar "" .plain ⟨tag, ← addAnchor name⟩ mark
            fail .nodeExpected place
              (some (if block then .blockNode else .flowNode, mark))
            return .missing

/-- Read the rest of a block sequence, and whether it ends. -/
def readBlockItems : Nat → Mark → Reading (List Node × Bool)
  | 0, _ => return ([], false)
  | fuel + 1, start => do
    match ← peek? with
    | none => return ([.missing], false)
    | some ⟨.blockEntry, _, stop⟩ =>
        skip
        let item ← slot endsItem stop (readNode fuel true false)
        let (items, closed) ← readBlockItems fuel start
        return (item :: items, closed)
    | some ⟨.blockEnd, _, _⟩ => skip; return ([], true)
    | some ⟨_, place, _⟩ =>
        fail .dashExpected place (some (.blockCollection, start))
        return ([.missing], false)

/-- Read the rest of a sequence that is not indented further than the keys
around it. -/
def readIndentlessItems : Nat → Reading (List Node × Bool)
  | 0 => return ([], false)
  | fuel + 1 => do
    match ← peek? with
    | none => return ([.missing], false)
    | some ⟨.blockEntry, _, stop⟩ =>
        skip
        let item ← slot endsIndentlessItem stop (readNode fuel true false)
        let (items, closed) ← readIndentlessItems fuel
        return (item :: items, closed)
    | some _ => return ([], true)

/-- Read the rest of a block mapping, and whether it ends. -/
def readBlockEntries : Nat → Mark → Reading (List (Node × Node) × Bool)
  | 0, _ => return ([], false)
  | fuel + 1, start => do
    match ← peek? with
    | none => return ([(.missing, .missing)], false)
    | some ⟨.key, _, stop⟩ =>
        skip
        let key ← slot endsField stop (readNode fuel true true)
        let value ←
          match ← peek? with
          | none => pure .missing
          | some ⟨.value, _, stop⟩ =>
              skip
              slot endsField stop (readNode fuel true true)
          | some t => pure (.empty t.start)
        let (entries, closed) ← readBlockEntries fuel start
        return ((key, value) :: entries, closed)
    | some ⟨.blockEnd, _, _⟩ => skip; return ([], true)
    | some ⟨_, place, _⟩ =>
        fail .keyExpected place (some (.blockMapping, start))
        return ([(.missing, .missing)], false)

/-- Read the rest of a flow sequence, and whether it ends. An entry with a colon
is a mapping of its own; where that one has no key, the token that says so is
passed over. -/
def readFlowItems : Nat → Mark → (first : Bool) → Reading (List Node × Bool)
  | 0, _, _ => return ([], false)
  | fuel + 1, start, first => do
    separator first .flowSequenceEnd .sequenceSeparatorExpected
      (.flowSequence, start)
    match ← peek? with
    | none => return ([.missing], false)
    | some ⟨.flowSequenceEnd, _, _⟩ => skip; return ([], true)
    | some ⟨.key, mark, _⟩ =>
        skip
        let key ←
          match ← peek? with
          | none => pure .missing
          | some t =>
              if endsPairKey t.kind then
                skip
                pure (.empty t.stop)
              else readNode fuel false false
        let value ← flowValue (readNode fuel false false) endsPairValue
        let closed ← nextIs fun _ => true
        let pair :=
          (key, value) :: if closed then [] else [(.missing, .missing)]
        let item := Node.mapping pair closed .none mark
        let (items, closed) ← readFlowItems fuel start false
        return (item :: items, closed)
    | some _ =>
        let item ← readNode fuel false false
        let (items, closed) ← readFlowItems fuel start false
        return (item :: items, closed)

/-- Read the rest of a flow mapping, and whether it ends. -/
def readFlowEntries :
    Nat → Mark → (first : Bool) → Reading (List (Node × Node) × Bool)
  | 0, _, _ => return ([], false)
  | fuel + 1, start, first => do
    separator first .flowMappingEnd .mappingSeparatorExpected
      (.flowMapping, start)
    match ← peek? with
    | none => return ([(.missing, .missing)], false)
    | some ⟨.flowMappingEnd, _, _⟩ => skip; return ([], true)
    | some ⟨.key, _, _⟩ =>
        skip
        let key ←
          match ← peek? with
          | none => pure .missing
          | some t => slot endsFlowKey t.start (readNode fuel false false)
        let value ← flowValue (readNode fuel false false) endsFlowValue
        let (entries, closed) ← readFlowEntries fuel start false
        return ((key, value) :: entries, closed)
    | some _ =>
        let key ← readNode fuel false false
        let value ←
          match ← peek? with
          | none => pure .missing
          | some t => pure (.empty t.start)
        let (entries, closed) ← readFlowEntries fuel start false
        return ((key, value) :: entries, closed)

end

/-- The handles that stand for something in every document. -/
def defaultHandles : List (String × List UInt8) :=
  [("!", [33]), ("!!", "tag:yaml.org,2002:".toUTF8.toList)]

/-- Read the directives before a document, in that many steps. -/
def readDirectives : Nat → (versioned : Bool) → Reading Unit
  | 0, _ => return
  | fuel + 1, versioned => do
    match ← peek? with
    | some ⟨.directive (.version major minor), mark, _⟩ =>
        if versioned then fail .versionRepeated mark none
        else if major != 1 ||
          (minor != 1 && minor != 2) then fail .versionUnsupported mark none
        else
          skip
          readDirectives fuel true
    | some ⟨.directive (.tag handle expansion), mark, _⟩ =>
        if (← get).handles.any (·.1 == handle)
          then fail .tagDirectiveRepeated mark none
        else
          modify fun r =>
            { r with handles := r.handles ++ [(handle, expansion)] }
          skip
          readDirectives fuel versioned
    | _ => return

/-- Whether a document with its own start line begins with this token. -/
def startsExplicit (k : Token.Kind) : Bool :=
  match k with
  | .directive _ | .documentStart => true
  | _ => false

/-- Ends a document that holds nothing. -/
def endsDocument (k : Token.Kind) : Bool :=
  startsExplicit k || k == .documentEnd || k == .streamEnd

/-- The steps that suffice for the tokens at hand. -/
def steps : Reading Nat := do return 4 * (← get).tokens.length + 4

/-- Read the root of the first document. -/
def readRoot : Reading Node := do
  let fuel ← steps
  match ← peek? with
  | none => return .missing
  | some t =>
    if t.kind == .streamEnd then return .void t.start
    if !startsExplicit t.kind then
      modify fun r => { r with handles := defaultHandles }
      return ← readNode fuel true false
    readDirectives fuel false
    modify fun r => { r with handles := r.handles ++ defaultHandles }
    match ← peek? with
    | none => return .missing
    | some t =>
      if t.kind != .documentStart then
        fail .documentStartExpected t.start none
        return .missing
      skip
      match ← peek? with
      | none => return .missing
      | some t => slot endsDocument t.start (readNode fuel true false)

end NodeReader

namespace Document

/-- The first document of a text. -/
def ofText (text : String) : Document :=
  let tokens := Tokens.ofText text
  let (root, r) := NodeReader.readRoot.run ⟨tokens.list, tokens.fault, [], []⟩
  match r.tokens with
  | [] => ⟨root, r.fault, false⟩
  | t :: rest =>
      if t.kind == .streamEnd then ⟨root, none, false⟩
      else
        let next := if t.kind == .documentEnd then rest else t :: rest
        let next := next.dropWhile (·.kind == .documentEnd)
        ⟨root, none, !(next.head?.any (·.kind == .streamEnd))⟩

end Document

end DaggerWorkflows.Yaml
