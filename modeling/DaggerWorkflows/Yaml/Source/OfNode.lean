import DaggerWorkflows.Yaml.Node.OfTokens
import DaggerWorkflows.Yaml.Source

/-!
# Records of nodes

A place is a node and the path to it. Places are lenient: any scalar is a text
where a text is wanted, and nothing at all is an empty collection. An alias is
followed to what it stands for; how often that may happen is bounded by the
size of the document, and how deep collections may lie is bounded as well, so
that a document that contains itself is found out.
-/

namespace DaggerWorkflows.Yaml

/-- A step that reads a document, counting the aliases that have been
followed. -/
abbrev Decoding := ReaderT Document (StateT Nat (Except Complaint))

/-- A node and where it is. -/
structure Place where
  path : Path
  /-- How many collections may still lie inside one another here. -/
  depth : Nat
  node : Node
deriving Inhabited

namespace Place

/-- How many collections may lie inside one another. -/
def maxDepth : Nat := 128

/-- How often aliases may be followed for each scalar, alias and end of a
collection. -/
def aliasesPerNode : Nat := 100

/-- The document is cut short here. -/
def cut {β : Type} : Decoding β := do
  match (← read).fault with
  | some f => throw (.fault f)
  | none => throw .ended

/-- Say of mismatches that they arose at a place. -/
def locate {β : Type} (p : Place) (mark : Mark) (act : Decoding β) :
    Decoding β :=
  tryCatch act fun complaint => throw (complaint.locate p.path mark)

/-- Follow an alias. -/
def resolve (p : Place) : Decoding Place := do
  match p.node with
  | .missing => cut
  | .reference anchor _ =>
      let d ← read
      let count := (← get) + 1
      set count
      if d.root.size * aliasesPerNode < count then throw .tooManyAliases
      match d.target? anchor with
      | some node => return { p with node }
      | none => throw .ended
  | _ => return p

/-- Complain that a node is not what was wanted. -/
def unexpected {β : Type} (p : Place) (wanted : Wanted) : Decoding β :=
  match p.node with
  | .scalar text style properties mark =>
      let mismatch :=
        match Atom.ofScalar text style properties.tag with
        | .ok atom => .type (.atom atom) wanted
        | .error mismatch => mismatch
      throw (.mismatch mismatch (some (p.path, mark)))
  | .sequence _ _ _ mark =>
      throw (.mismatch (.type .sequence wanted) (some (p.path, mark)))
  | .mapping _ _ _ mark =>
      throw (.mismatch (.type .map wanted) (some (p.path, mark)))
  | _ => throw .ended

/-- Whether nothing stands at a place, not even quotes. -/
def isEmpty (p : Place) : Bool :=
  match p.node with
  | .void _ => true
  | .scalar text style _ _ => text.isEmpty && style == .plain
  | _ => false

/-- The text of a scalar; `wanted` is for the complaint if there is none. -/
def readScalar (wanted : Wanted) (p : Place) : Decoding String := do
  let p ← p.resolve
  match p.node with
  | .scalar text _ _ _ => return text
  | _ => p.unexpected wanted

/-- A truth value. -/
def readFlag (p : Place) : Decoding Bool := do
  let p ← p.resolve
  match p.node with
  | .scalar text style properties _ =>
      if style = .plain ||
        (style = .literal && properties.tag = some .bool) then
        match Atom.boolWord? text with
        | some b => return b
        | none => p.unexpected .boolean
      else p.unexpected .boolean
  | _ => p.unexpected .boolean

/-- Null, or something else. A scalar with the tag of null has to be null, and
the complaint that it is not is about what surrounds it. -/
def readOptional {β : Type} (read : Place → Decoding β) (p : Place) :
    Decoding (Option β) := do
  let p ← p.resolve
  match p.node with
  | .void _ => return none
  | .scalar text .plain properties _ =>
      match properties.tag with
      | none =>
          if text.isEmpty || Atom.isNullWord text then return none
            else some <$> read p
      | some tag =>
          if tag = .null then
            if Atom.isNullWord text then return none
            throw (.mismatch (.promise text .null) none)
          some <$> read p
  | _ => some <$> read p

/-- The depth inside a collection. -/
def inner (p : Place) (mark : Mark) : Decoding Nat :=
  match p.depth with
  | 0 => throw (.tooDeep mark)
  | depth + 1 => return depth

/-- A sequence. -/
def readItems {β : Type} (read : Place → Decoding β) (p : Place) :
    Decoding (List β) := do
  let p ← p.resolve
  match p.node with
  | .sequence items _ _ mark => p.locate mark do
      let depth ← p.inner mark
      items.zipIdx.mapM fun (node, i) => read ⟨.item p.path i, depth, node⟩
  | _ => if p.isEmpty then return [] else p.unexpected .sequence

/-- The path to the value of a key. -/
def valuePath (path : Path) (key : Node) : Path :=
  match key with
  | .scalar text _ _ _ => .field path text
  | _ => .unnamed path

/-- A mapping, given as the places of its keys and values. -/
def readEntries {β : Type} (wanted : Wanted)
    (read : List (Place × Place) → Decoding β) (p : Place) : Decoding β := do
  let p ← p.resolve
  match p.node with
  | .mapping entries _ _ mark => p.locate mark do
      let depth ← p.inner mark
      read (entries.map fun (key, value) =>
        (⟨p.path, depth, key⟩, ⟨valuePath p.path key, depth, value⟩))
  | node =>
      if p.isEmpty then p.locate node.mark (read []) else p.unexpected wanted

/-- A mapping whose keys are texts. -/
def readFields {β : Type} (read : Place → Decoding β) (p : Place) :
    Decoding (List (String × β)) :=
  p.readEntries .map fun entries => entries.mapM fun (key, value) => do
    let key ← key.readScalar .string
    return (key, ← read value)

/-- Pass over a place, which has to be there in full. -/
def ignore (p : Place) : Decoding Unit :=
  match p.node with
  | .missing | .sequence _ false _ _ | .mapping _ false _ _ => cut
  | _ => return

instance : Source Place Decoding where
  text := readScalar .string
  flag := readFlag
  optional := readOptional
  items := readItems
  fields := readFields
  record title _ := readEntries (.struct title)
  fieldName names key := do
    let name ← key.readScalar .key
    return if names.contains name then some name else none
  ignore := ignore

/-- Complain at a place. -/
def refuse {β : Type} (p : Place) (mark : Mark) (e : Mismatch) : Decoding β :=
  throw (.mismatch e (some (p.path, mark)))

/-- The value at a place; `inside` reads the values inside collections, unless
they lie too deep. A node with a tag of the document's own has no value. -/
def valueWith (inside : Option (Path → Node → Decoding Value)) (p : Place) :
    Decoding Value := do
  let p ← p.resolve
  if p.node.properties.tag.any Tag.namesVariant
    then p.refuse p.node.mark .taggedValue
  match p.node, inside with
  | .scalar text style properties mark, _ =>
      match Atom.ofScalar text style properties.tag with
      | .error e => p.refuse mark e
      | .ok (.wide n) => p.refuse mark (.type (.atom (.wide n)) .anyValue)
      | .ok atom => return .atom atom
  | .sequence _ _ _ mark, none | .mapping _ _ _ mark, none =>
      throw (.tooDeep mark)
  | .sequence items _ _ _, some inside =>
      return .sequence (← items.zipIdx.mapM fun (node, i) =>
        inside (.item p.path i) node)
  | .mapping entries _ _ _, some inside =>
      return .map (← entries.mapM fun (key, value) => do
        let k ← inside p.path key
        return (k, ← inside (valuePath p.path key) value))
  | _, _ => return .atom .null

/-- The value of a node, given how many collections may lie inside one
another. -/
def valueAt : Nat → Path → Node → Decoding Value
  | 0, path, node => valueWith none ⟨path, 0, node⟩
  | depth + 1, path, node =>
      valueWith (some (valueAt depth)) ⟨path, depth + 1, node⟩

/-- The value at a place. -/
def value (p : Place) : Decoding Value := valueAt p.depth p.path p.node

end Place

namespace Document

/-- Read a document from its root. It has to be whole and the only one of its
text. -/
def decode {β : Type} (d : Document) (read : Place → Decoding β) :
    Except Complaint β := do
  let (r, _) ← (read ⟨.root, Place.maxDepth, d.root⟩).run d |>.run 0
  match d.fault with
  | some f => throw (.fault f)
  | none => if d.hasNext then throw .severalDocuments else return r

end Document

end DaggerWorkflows.Yaml
