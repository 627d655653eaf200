/-!
# Maps in the order of their keys

A map from texts that is written out key by key has to have one order. Here it
is that of the code points of the keys, and it is part of the type: two maps
with the same entries are the same map.
-/

namespace DaggerWorkflows

/-- A map from texts, its entries in strictly ascending order of their keys. -/
structure SortedMap (β : Type) where
  entries : List (String × β)
  ascending : entries.Pairwise (fun a b => a.1 < b.1) := by exact .nil
deriving Repr

namespace SortedMap

variable {β : Type}

instance [DecidableEq β] : DecidableEq (SortedMap β) := fun a b =>
  decidable_of_iff (a.entries = b.entries) <| by
    cases a; cases b; simp

/-- The empty map. -/
def empty : SortedMap β := ⟨[], .nil⟩

instance : Inhabited (SortedMap β) := ⟨empty⟩

/-- Put an entry into an ascending list, in place of the one with its key. -/
def insertInto (key : String) (value : β) :
    List (String × β) → List (String × β)
  | [] => [(key, value)]
  | e :: entries =>
      if key < e.1 then (key, value) :: e :: entries
      else if e.1 < key then e :: insertInto key value entries
      else (key, value) :: entries

theorem mem_insertInto {key : String} {value : β} {entries : List (String × β)}
    {e : String × β} (h : e ∈ insertInto key value entries) :
    e = (key, value) ∨ e ∈ entries := by
  induction entries with
  | nil => simpa [insertInto] using h
  | cons e' entries ih =>
      simp only [insertInto] at h
      split at h
      · simpa using h
      · split at h
        · rcases List.mem_cons.1 h with rfl | h
          · simp
          · rcases ih h with rfl | h <;> simp [*]
        · rcases List.mem_cons.1 h with rfl | h <;> simp [*]

theorem pairwise_insertInto (key : String) (value : β)
    {entries : List (String × β)}
    (h : entries.Pairwise (fun a b => a.1 < b.1)) :
    (insertInto key value entries).Pairwise (fun a b => a.1 < b.1) := by
  induction entries with
  | nil => simp [insertInto]
  | cons e entries ih =>
      obtain ⟨he, hs⟩ := List.pairwise_cons.1 h
      simp only [insertInto]
      split
      · next hlt =>
          refine List.pairwise_cons.2 ⟨fun a ha => ?_, h⟩
          rcases List.mem_cons.1 ha with rfl | ha
          · exact hlt
          · exact String.lt_trans hlt (he a ha)
      · next hge =>
          split
          · next hlt =>
              refine List.pairwise_cons.2 ⟨fun a ha => ?_, ih hs⟩
              rcases mem_insertInto ha with rfl | ha
              · exact hlt
              · exact he a ha
          · next hle =>
              have heq : key = e.1 :=
                String.le_antisymm (String.not_lt.1 hle) (String.not_lt.1 hge)
              exact List.pairwise_cons.2 ⟨fun a ha => heq ▸ he a ha, hs⟩

/-- The map with one more entry, in place of the one with its key. -/
def insert (map : SortedMap β) (key : String) (value : β) : SortedMap β :=
  ⟨insertInto key value map.entries,
    pairwise_insertInto key value map.ascending⟩

/-- The value of a key. -/
def get? (map : SortedMap β) (key : String) : Option β :=
  (map.entries.find? (·.1 == key)).map (·.2)

/-- Whether the map has a key. -/
def contains (map : SortedMap β) (key : String) :
    Bool := map.entries.any (·.1 == key)

/-- Whether the map has no entries. -/
def isEmpty (map : SortedMap β) : Bool := map.entries.isEmpty

/-- The map of a list of entries; of two with one key the later one counts. -/
def ofList (entries : List (String × β)) : SortedMap β :=
  entries.foldl (fun map e => map.insert e.1 e.2) empty

/-- The keys in ascending order. -/
def keys (map : SortedMap β) : List String := map.entries.map (·.1)

end SortedMap

end DaggerWorkflows
