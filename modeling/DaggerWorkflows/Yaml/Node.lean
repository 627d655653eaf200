import DaggerWorkflows.Yaml.Token

/-!
# Nodes

A document is a tree of scalars, sequences and mappings. Any node may carry a
tag and an anchor, and an alias stands for the node of an anchor before it. A
text with a fault still has the part of its tree that was read before the
fault, since a reader that asks for less never notices; `Node.missing` stands
where the fault is.
-/

namespace DaggerWorkflows.Yaml

/-- What may be written before a node. -/
structure Properties where
  tag : Option Tag
  /-- The number of the node's anchor. -/
  anchor : Option Nat
deriving DecidableEq, Repr, Inhabited

/-- Neither tag nor anchor. -/
def Properties.none : Properties := ⟨.none, .none⟩

/-- A node of a document. Collections that a fault cuts short are not
`closed`. -/
inductive Node where
  /-- A fault stands before the node. -/
  | missing
  /-- The document holds nothing. -/
  | void (mark : Mark)
  | reference (anchor : Nat) (mark : Mark)
  | scalar (text : String) (style : ScalarStyle) (properties : Properties)
      (mark : Mark)
  | sequence (items : List Node) (closed : Bool) (properties : Properties)
      (mark : Mark)
  | mapping (entries : List (Node × Node)) (closed : Bool)
      (properties : Properties) (mark : Mark)
deriving Repr, Inhabited

namespace Node

/-- A scalar that is not written at all. -/
def empty (mark : Mark) : Node := .scalar "" .plain .none mark

/-- Where the node starts. -/
def mark : Node → Mark
  | missing => .start
  | void mark | reference _ mark | scalar _ _ _ mark | sequence _ _ _ mark
  | mapping _ _ _ mark => mark

/-- What is written before the node. -/
def properties : Node → Properties
  | missing | void _ | reference _ _ => .none
  | scalar _ _ p _ | sequence _ _ p _ | mapping _ _ p _ => p

/-! A node's size counts its scalars and aliases once and its collections
twice, where they open and where they close. -/

mutual

/-- The size of a node. -/
def size : Node → Nat
  | missing => 0
  | void _ | reference _ _ | scalar _ _ _ _ => 1
  | sequence items closed _ _ => sizeItems items + if closed then 2 else 1
  | mapping entries closed _ _ => sizeEntries entries + if closed then 2 else 1
termination_by structural n => n

/-- The size of the items of a sequence. -/
def sizeItems : List Node → Nat
  | [] => 0
  | n :: items => n.size + sizeItems items
termination_by structural items => items

/-- The size of the entries of a mapping. -/
def sizeEntries : List (Node × Node) → Nat
  | [] => 0
  | (key, value) :: entries => key.size + value.size + sizeEntries entries
termination_by structural entries => entries

end

mutual

/-- The nodes with an anchor in the order of their starts, each with the
anchor's number. -/
def anchored : Node → List (Nat × Node)
  | missing | void _ | reference _ _ => []
  | scalar text style p mark =>
      (p.anchor.map fun a => (a, scalar text style p mark)).toList
  | sequence items closed p mark =>
      (p.anchor.map fun a => (a, sequence items closed p mark)).toList ++
        anchoredItems items
  | mapping entries closed p mark =>
      (p.anchor.map fun a => (a, mapping entries closed p mark)).toList ++
        anchoredEntries entries
termination_by structural n => n

/-- The anchored nodes among the items of a sequence. -/
def anchoredItems : List Node → List (Nat × Node)
  | [] => []
  | n :: items => n.anchored ++ anchoredItems items
termination_by structural items => items

/-- The anchored nodes among the entries of a mapping. -/
def anchoredEntries : List (Node × Node) → List (Nat × Node)
  | [] => []
  | (key, value) :: entries =>
      key.anchored ++ value.anchored ++ anchoredEntries entries
termination_by structural entries => entries

end

end Node

/-- What has been read of a document. -/
structure Document where
  root : Node
  /-- The fault that cuts the document short. -/
  fault : Option Fault
  /-- Whether something follows the document. -/
  hasNext : Bool
deriving Repr, Inhabited

namespace Document

/-- The node that an alias stands for: of the nodes with its number the one that
starts last. -/
def target? (d : Document) (anchor : Nat) : Option Node :=
  (d.root.anchored.reverse.find? (·.1 == anchor)).map (·.2)

end Document

end DaggerWorkflows.Yaml
