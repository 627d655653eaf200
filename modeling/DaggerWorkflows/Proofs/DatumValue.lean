import DaggerWorkflows.Proofs.Decoding
import DaggerWorkflows.Proofs.NodeReading

/-!
# The value of written data

A node that says data is read as the value of the data: no tag changes what a
scalar means, there are no aliases to follow, and a text that is written without
quotes means itself. What has to be asked of the data is that its collections do
not lie too deep inside one another, and that no map has a key twice.
-/

namespace DaggerWorkflows

open Yaml (Atom Complaint Decoding Document Mark Mismatch Node Path Place
  Properties ScalarStyle Value)

namespace Datum

mutual

/-- Data as a value. -/
def value : Datum → Value
  | text s => .atom (.text s)
  | flag b => .atom (.bool b)
  | list items => .sequence (itemValues items)
  | map entries => .map (entryValues entries)
termination_by structural d => d

/-- The values of the items of a list. -/
def itemValues : List Datum → List Value
  | [] => []
  | d :: items => d.value :: itemValues items
termination_by structural items => items

/-- The values of the keys and entries of a map. -/
def entryValues : List (String × Datum) → List (Value × Value)
  | [] => []
  | (key, d) :: entries => (.atom (.text key), d.value) :: entryValues entries
termination_by structural entries => entries

end

mutual

/-- How many collections lie inside one another. -/
def depth : Datum → Nat
  | text _ | flag _ => 0
  | list items => itemDepth items + 1
  | map entries => entryDepth entries + 1
termination_by structural d => d

/-- The depth of the deepest item. -/
def itemDepth : List Datum → Nat
  | [] => 0
  | d :: items => max d.depth (itemDepth items)
termination_by structural items => items

/-- The depth of the deepest entry. -/
def entryDepth : List (String × Datum) → Nat
  | [] => 0
  | (_, d) :: entries => max d.depth (entryDepth entries)
termination_by structural entries => entries

end

mutual

/-- Whether no map has a key twice. -/
def KeysDistinct : Datum → Prop
  | text _ | flag _ => True
  | list items => ItemKeysDistinct items
  | map entries => (entries.map (·.1)).Nodup ∧ EntryKeysDistinct entries
termination_by structural d => d

/-- Whether no map among the items has a key twice. -/
def ItemKeysDistinct : List Datum → Prop
  | [] => True
  | d :: items => d.KeysDistinct ∧ ItemKeysDistinct items
termination_by structural items => items

/-- Whether no map among the entries has a key twice. -/
def EntryKeysDistinct : List (String × Datum) → Prop
  | [] => True
  | (_, d) :: entries => d.KeysDistinct ∧ EntryKeysDistinct entries
termination_by structural entries => entries

end

end Datum

namespace Yaml.Place

open Decoding
open Datum (Says SaysItems SaysEntries)

variable {doc : Document} {count : Nat} {p : Place} {mark : Mark}

theorem gives_valueWith_scalar {inside : Option (Path → Node → Decoding Value)}
    {s : String} {style : ScalarStyle} {atom : Atom}
    (hnode : p.node = .scalar s style .none mark)
    (hatom : Atom.ofScalar s style none = .ok atom)
    (hwide : ∀ n, atom ≠ .wide n) :
    Gives doc count (valueWith inside p) (.atom atom) count := by
  refine gives_bind.2
    ⟨p, count,
      gives_resolve (by simp [hnode]) (by simp [hnode, Node.IsReference]), ?_⟩
  simp only [hnode, Node.properties, Properties.none, Option.any_none,
    Bool.false_eq_true, if_false, hatom]
  cases atom with
  | wide n => exact absurd rfl (hwide n)
  | _ => exact gives_pure.2 ⟨rfl, rfl⟩

theorem gives_valueWith_sequence {inside : Path → Node → Decoding Value}
    {items : List Node} {values : List Value}
    (hnode : p.node = .sequence items true .none mark)
    (h : Gives doc count (items.zipIdx.mapM fun (n, i) =>
      inside (.item p.path i) n) values count) :
    Gives doc count (valueWith (some inside) p) (.sequence values) count := by
  refine gives_bind.2
    ⟨p, count,
      gives_resolve (by simp [hnode]) (by simp [hnode, Node.IsReference]), ?_⟩
  simp only [hnode, Node.properties, Properties.none, Option.any_none,
    Bool.false_eq_true, if_false]
  exact gives_bind.2 ⟨values, count, h, gives_pure.2 ⟨rfl, rfl⟩⟩

theorem gives_valueWith_mapping {inside : Path → Node → Decoding Value}
    {entries : List (Node × Node)} {values : List (Value × Value)}
    (hnode : p.node = .mapping entries true .none mark)
    (h : Gives doc count (entries.mapM fun (key, value) => do
      let k ← inside p.path key
      return (k, ← inside (valuePath p.path key) value)) values count) :
    Gives doc count (valueWith (some inside) p) (.map values) count := by
  refine gives_bind.2
    ⟨p, count,
      gives_resolve (by simp [hnode]) (by simp [hnode, Node.IsReference]), ?_⟩
  simp only [hnode, Node.properties, Properties.none, Option.any_none,
    Bool.false_eq_true, if_false]
  exact gives_bind.2 ⟨values, count, h, gives_pure.2 ⟨rfl, rfl⟩⟩

theorem valueAt_eq (k : Nat) (path : Path) (n : Node) :
    ∃ inside, valueAt k path n = valueWith inside ⟨path, k, n⟩ := by
  cases k with
  | zero => exact ⟨none, rfl⟩
  | succ k => exact ⟨some (valueAt k), rfl⟩

theorem gives_text {s : String} {n : Node} {k : Nat} (path : Path)
    (h : Says (.text s) n) :
    Gives doc count (valueAt k path n) (.atom (.text s)) count := by
  obtain ⟨inside, hvalueAt⟩ := valueAt_eq k path n
  rw [hvalueAt]
  cases h with
  | text hplain =>
      refine gives_valueWith_scalar rfl ?_ (by simp)
      simp only [Atom.ofScalar]
      split
      · next hstyle => rw [hplain hstyle]
      · rfl

mutual

/-- A node that says data has the value of the data. -/
theorem gives_valueAt :
    ∀ (d : Datum) {n : Node} {k : Nat} (path : Path), Says d n → d.depth ≤ k →
    Gives doc count (valueAt k path n) d.value count
  | .text s, _, k, path, h, hk => gives_text path h
  | .flag b, n, k, path, h, hk => by
      obtain ⟨inside, hvalueAt⟩ := valueAt_eq k path n
      rw [hvalueAt]
      cases h
      refine gives_valueWith_scalar rfl ?_ (by simp)
      cases b <;> rfl
  | .list items, _, k, path, .list hitems, hk => by
      obtain ⟨k, rfl⟩ : ∃ j, k = j + 1 :=
        ⟨k - 1, by simp only [Datum.depth] at hk; omega⟩
      exact gives_valueWith_sequence rfl
        (gives_itemValues items path 0 hitems (by simpa [Datum.depth] using hk))
  | .map entries, _, k, path, .map hentries, hk => by
      obtain ⟨k, rfl⟩ : ∃ j, k = j + 1 :=
        ⟨k - 1, by simp only [Datum.depth] at hk; omega⟩
      exact gives_valueWith_mapping rfl
        (gives_entryValues entries path hentries
          (by simpa [Datum.depth] using hk))
termination_by structural d => d

theorem gives_itemValues :
    ∀ (items : List Datum) {nodes : List Node} {k : Nat} (path : Path)
    (start : Nat), SaysItems items nodes → Datum.itemDepth items ≤ k →
    Gives doc count ((nodes.zipIdx start).mapM fun (n, i) =>
      valueAt k (.item path i) n) (Datum.itemValues items) count
  | [], _, k, path, start, .nil, hk => gives_pure.2 ⟨rfl, rfl⟩
  | d :: items, _, k, path, start, .cons hd hitems, hk => by
      simp only [Datum.itemDepth, Nat.max_le] at hk
      exact gives_mapM_cons (gives_valueAt d (.item path start) hd hk.1)
        (gives_itemValues items path (start + 1) hitems hk.2)
termination_by structural items => items

theorem gives_entryValues :
    ∀ (entries : List (String × Datum)) {nodes : List (Node × Node)}
    {k : Nat} (path : Path), SaysEntries entries nodes →
    Datum.entryDepth entries ≤ k →
    Gives doc count (nodes.mapM fun (key, value) => do
      let v ← valueAt k path key
      return (v, ← valueAt k (valuePath path key) value))
        (Datum.entryValues entries) count
  | [], _, k, path, .nil, hk => gives_pure.2 ⟨rfl, rfl⟩
  | (key, d) :: entries, _, k, path, .cons (k := keyNode) hkey hd hentries,
      hk => by
      simp only [Datum.entryDepth, Nat.max_le] at hk
      refine gives_mapM_cons ?_ (gives_entryValues entries path hentries hk.2)
      exact gives_bind.2 ⟨.atom (.text key), count, gives_text path hkey,
        gives_bind.2
          ⟨d.value, count, gives_valueAt d (valuePath path keyNode) hd hk.1,
          gives_pure.2 ⟨rfl, rfl⟩⟩⟩
termination_by structural entries => entries

end

end Yaml.Place

namespace Datum

theorem same_text (a b : String) :
    (Value.atom (.text a)).same (.atom (.text b)) = (a == b) := by
  simp [Value.same, Atom.same]

mutual

/-- The value of data without repeated keys has none. -/
theorem checkKeys_value :
    ∀ (d : Datum), d.KeysDistinct → d.value.checkKeys = .ok ()
  | text s, h => rfl
  | flag b, h => rfl
  | list items, h => checkItems_itemValues items h
  | map entries, h =>
      checkEntries_entryValues entries [] (by simpa using h.1) h.2
termination_by structural d => d

theorem checkItems_itemValues : ∀ (items : List Datum), ItemKeysDistinct items →
    Value.checkItems (itemValues items) = .ok ()
  | [], h => rfl
  | d :: items, h => by
      simp only [itemValues, Value.checkItems, checkKeys_value d h.1, bind,
        Except.bind]
      exact checkItems_itemValues items h.2
termination_by structural items => items

theorem checkEntries_entryValues :
    ∀ (entries : List (String × Datum)) (before : List String),
    (before ++ entries.map (·.1)).Nodup → EntryKeysDistinct entries →
    Value.checkEntries (before.map fun key => .atom (.text key))
      (entryValues entries) = .ok ()
  | [], before, hkeys, h => rfl
  | (key, d) :: entries, before, hkeys, h => by
      have hnew : key ∉ before := by
        intro hmem
        exact (List.nodup_append.1 hkeys).2.2 key hmem key (by simp) rfl
      have hfind : (before.map fun key => Value.atom (.text key)).find?
          (Value.same (.atom (.text key)) ·) = none := by
        rw [List.find?_eq_none]
        intro v hv
        obtain ⟨key', hkey', rfl⟩ := List.mem_map.1 hv
        rw [same_text]
        rintro heq
        exact hnew (by rwa [beq_iff_eq.1 heq])
      have hrest := checkEntries_entryValues entries (before ++ [key])
        (by simpa using hkeys) h.2
      simp only [entryValues, Value.checkEntries, Value.checkKeys, hfind,
        checkKeys_value d h.1, bind, Except.bind]
      simpa using hrest
termination_by structural entries => entries

end

end Datum

/-- The value of a text: its only document, no mapping of which may have a key
twice. -/
def Yaml.Value.ofText (text : String) : Except Complaint Value := do
  let v ← (Document.ofText text).decode Place.value
  match v.checkKeys with
  | .ok () => return v
  | .error mismatch => throw (.mismatch mismatch none)

/-- A text that is one document and says data is read as the value of the
data. -/
theorem Yaml.Value.ofText_of_says {text : String} {root : Node} {d : Datum}
    (htext : Document.ofText text = ⟨root, none, false⟩) (hroot : d.Says root)
    (hdepth : d.depth ≤ Place.maxDepth) (hkeys : d.KeysDistinct) :
    Value.ofText text = .ok d.value := by
  have hdecode : Document.decode ⟨root, none, false⟩ Place.value =
      .ok d.value :=
    Document.decode_of_gives rfl rfl (Place.gives_valueAt d .root hroot hdepth)
  simp only [Value.ofText, htext, hdecode, bind, Except.bind,
    d.checkKeys_value hkeys]
  rfl

end DaggerWorkflows
