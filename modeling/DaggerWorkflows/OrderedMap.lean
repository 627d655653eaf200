/-!
# Maps in the order of insertion

A map whose entries keep the order they were first put in. That no key occurs
twice is part of the type.
-/

namespace DaggerWorkflows

/-- A map from texts, its entries in the order of their insertion. -/
structure OrderedMap (β : Type) where
  entries : List (String × β)
  distinct : (entries.map (·.1)).Nodup := by exact .nil
deriving Repr

namespace OrderedMap

variable {β : Type}

instance [DecidableEq β] : DecidableEq (OrderedMap β) := fun a b =>
  decidable_of_iff (a.entries = b.entries) <| by
    cases a; cases b; simp

/-- The empty map. -/
def empty : OrderedMap β := ⟨[], .nil⟩

instance : Inhabited (OrderedMap β) := ⟨empty⟩

/-- Put an entry into a list: in place of the one with its key, or at the
end. -/
def insertInto (key : String) (value : β) :
    List (String × β) → List (String × β)
  | [] => [(key, value)]
  | e :: entries =>
      if e.1 = key then (key, value) :: entries
        else e :: insertInto key value entries

theorem mem_keys_insertInto {key k : String} {value : β}
    {entries : List (String × β)} :
    k ∈ (insertInto key value entries).map (·.1) ↔ k = key ∨
    k ∈ entries.map (·.1) := by
  induction entries with
  | nil => simp [insertInto]
  | cons e entries ih =>
      simp only [insertInto]
      split
      · next h => simp [h]
      · simp only [List.map_cons, List.mem_cons, ih]
        constructor
        · rintro (h | h | h) <;> simp [h]
        · rintro (h | h | h) <;> simp [h]

theorem nodup_insertInto (key : String) (value : β)
    {entries : List (String × β)} (h : (entries.map (·.1)).Nodup) :
    ((insertInto key value entries).map (·.1)).Nodup := by
  induction entries with
  | nil => simp [insertInto]
  | cons e entries ih =>
      rw [List.map_cons, List.nodup_cons] at h
      obtain ⟨he, hs⟩ := h
      simp only [insertInto]
      split
      · next heq => exact List.nodup_cons.2 ⟨heq ▸ he, hs⟩
      · next hne =>
          rw [List.map_cons, List.nodup_cons]
          refine ⟨fun hmem => ?_, ih hs⟩
          rcases mem_keys_insertInto.1 hmem with heq | hmem
          · exact hne heq
          · exact he hmem

/-- The map with one more entry, or with another value for its key. -/
def insert (map : OrderedMap β) (key : String) (value : β) : OrderedMap β :=
  ⟨insertInto key value map.entries, nodup_insertInto key value map.distinct⟩

/-- The value of a key. -/
def get? (map : OrderedMap β) (key : String) : Option β :=
  (map.entries.find? (·.1 == key)).map (·.2)

/-- The map of a list of entries. -/
def ofList (entries : List (String × β)) : OrderedMap β :=
  entries.foldl (fun map e => map.insert e.1 e.2) empty

/-- The keys in order. -/
def keys (map : OrderedMap β) : List String := map.entries.map (·.1)

end OrderedMap

end DaggerWorkflows
