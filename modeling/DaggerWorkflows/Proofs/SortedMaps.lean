import DaggerWorkflows.SortedMap
import Mathlib.Data.List.Nodup

/-!
# Sorted maps by what they hold

A sorted map is known by what it has for each key: its entries are the pairs of
a key and what there is for it, and since their order is part of the type, two
maps that answer alike are the same map (`SortedMap.ext_get?`). So nobody who
builds a map has to follow its entries around, only what an insertion does to a
lookup.
-/

namespace DaggerWorkflows.SortedMap

variable {β : Type}

theorem entries_injective :
    Function.Injective (SortedMap.entries : SortedMap β →
      List (String × β)) := by
  rintro ⟨entries, _⟩ ⟨entries', _⟩ rfl
  rfl

/-- The keys of an ascending map are different. -/
theorem nodup_keys (map : SortedMap β) : (map.entries.map (·.1)).Nodup :=
  List.pairwise_map.2 (map.ascending.imp fun hlt => String.ne_of_lt hlt)

/-! ## Lookups -/

theorem find?_insertInto_self (key : String) (value : β)
    (entries : List (String × β)) :
    (insertInto key value entries).find? (·.1 == key) = some (key, value) := by
  induction entries with
  | nil => simp [insertInto]
  | cons e entries ih =>
      simp only [insertInto]
      split
      · simp
      · split
        · next hlt =>
            have hne : (e.1 == key) = false := by
              simpa using String.ne_of_lt hlt
            simp [hne, ih]
        · simp

theorem find?_insertInto_of_ne {key other : String} (h : key ≠ other)
    (value : β) (entries : List (String × β)) :
    (insertInto key value entries).find? (·.1 == other) =
      entries.find? (·.1 == other) := by
  have hkey : (key == other) = false := by simpa using h
  induction entries with
  | nil => simp [insertInto, hkey]
  | cons e entries ih =>
      simp only [insertInto]
      split
      · simp [List.find?_cons, hkey]
      · split
        · simp [List.find?_cons, ih]
        · next hge hle =>
            have heq : key = e.1 :=
              String.le_antisymm (String.not_lt.1 hle) (String.not_lt.1 hge)
            simp [hkey, ← heq]

@[simp] theorem get?_empty (key : String) :
    (empty : SortedMap β).get? key = none := rfl

@[simp] theorem get?_insert_self (map : SortedMap β) (key : String)
    (value : β) :
    (map.insert key value).get? key = some value := by
  simp [get?, insert, find?_insertInto_self]

theorem get?_insert_of_ne (map : SortedMap β) {key other : String}
    (h : key ≠ other) (value : β) :
    (map.insert key value).get? other = map.get? other := by
  simp [get?, insert, find?_insertInto_of_ne h]

theorem mem_entries_iff {map : SortedMap β} {key : String} {value : β} :
    (key, value) ∈ map.entries ↔ map.get? key = some value := by
  rw [get?, Option.map_eq_some_iff]
  constructor
  · intro hmem
    obtain ⟨e, he⟩ : ∃ e, map.entries.find? (·.1 == key) = some e := by
      rw [← Option.isSome_iff_exists, List.find?_isSome]
      exact ⟨_, hmem, by simp⟩
    have hkey : e.1 = key := by simpa using List.find?_some he
    have heq := List.inj_on_of_nodup_map map.nodup_keys
      (List.mem_of_find?_eq_some he) hmem hkey
    exact ⟨e, he, by rw [heq]⟩
  · rintro ⟨e, he, rfl⟩
    have hkey : e.1 = key := by simpa using List.find?_some he
    rw [← hkey]
    exact List.mem_of_find?_eq_some he

theorem mem_keys_iff {map : SortedMap β} {key : String} :
    key ∈ map.keys ↔ ∃ value, map.get? key = some value := by
  simp only [keys, List.mem_map, ← mem_entries_iff]
  constructor
  · rintro ⟨e, he, rfl⟩
    exact ⟨e.2, he⟩
  · rintro ⟨value, he⟩
    exact ⟨_, he, rfl⟩

/-- Maps that have the same for every key are the same map. -/
theorem ext_get? {a b : SortedMap β} (h : ∀ key, a.get? key = b.get? key) :
    a = b := by
  have hmem : ∀ e, e ∈ a.entries ↔ e ∈ b.entries := by
    intro e
    rw [mem_entries_iff, mem_entries_iff, h]
  have hperm : a.entries.Perm b.entries :=
    (List.perm_ext_iff_of_nodup (a.nodup_keys.of_map _)
      (b.nodup_keys.of_map _)).2 hmem
  refine entries_injective (hperm.eq_of_pairwise ?_ a.ascending b.ascending)
  intro e e' _ _ hlt hgt
  exact absurd (String.lt_trans hlt hgt) (String.lt_irrefl _)

/-! ## Entries in their order -/

/-- An entry whose key comes after all others is put at the end. -/
theorem insertInto_of_forall_lt {entries : List (String × β)} {e : String × β}
    (h : ∀ a ∈ entries, a.1 < e.1) :
    insertInto e.1 e.2 entries = entries ++ [e] := by
  induction entries with
  | nil => rfl
  | cons a entries ih =>
      have ha : a.1 < e.1 := h a (by simp)
      have hnot : ¬ e.1 < a.1 :=
        fun hlt => String.lt_irrefl _ (String.lt_trans ha hlt)
      simp [insertInto, hnot, ha, ih fun b hb => h b (by simp [hb])]

/-- A map is the map of its entries. -/
theorem ofList_entries (map : SortedMap β) : ofList map.entries = map := by
  have hfold : ∀ (rest : List (String × β)) (m : SortedMap β),
      (m.entries ++ rest).Pairwise (fun a b => a.1 < b.1) →
      (rest.foldl (fun m e => m.insert e.1 e.2) m).entries = m.entries ++
        rest := by
    intro rest
    induction rest with
    | nil => simp
    | cons e rest ih =>
        intro m h
        have hlt : ∀ a ∈ m.entries, a.1 < e.1 := fun a ha =>
          (List.pairwise_append.1 h).2.2 a ha e (by simp)
        have hentries : (m.insert e.1 e.2).entries = m.entries ++ [e] :=
          insertInto_of_forall_lt hlt
        rw [List.foldl_cons, ih _ (by rw [hentries]; simpa using h), hentries]
        simp
  refine entries_injective ?_
  rw [ofList, hfold map.entries empty (by simpa [empty] using map.ascending)]
  rfl

end DaggerWorkflows.SortedMap
