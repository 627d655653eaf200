import DaggerWorkflows.Datum.Json
import DaggerWorkflows.Proofs.DatumValue
import DaggerWorkflows.Proofs.JsonGrammar

/-!
# What is written as JSON

Data is written in a narrow part of the format: of the ways to spell a character
the shortest, no blanks but line ends and indentation, and neither numbers nor
null. `reads_jsonAt` finds the data again in the text at any place of it, along
the three functions that write it.
-/

namespace DaggerWorkflows

open Json (Blanks Spells ReadsChars Reads ReadsItems ReadsMembers ReadsMember)

namespace Datum

mutual

/-- Data as a JSON value. -/
def toJson : Datum → Json
  | text s => .string s
  | flag b => .bool b
  | list items => .array (itemsToJson items)
  | map entries => .object (entriesToJson entries)
termination_by structural d => d

/-- The items of a list as JSON values. -/
def itemsToJson : List Datum → List Json
  | [] => []
  | d :: items => d.toJson :: itemsToJson items
termination_by structural items => items

/-- The entries of a map as members of an object. -/
def entriesToJson : List (String × Datum) → List (String × Json)
  | [] => []
  | (key, d) :: entries => (key, d.toJson) :: entriesToJson entries
termination_by structural entries => entries

end

theorem entriesToJson_eq (entries : List (String × Datum)) :
    entriesToJson entries = entries.map fun e => (e.1, e.2.toJson) := by
  induction entries with
  | nil => rfl
  | cons e entries ih => rw [entriesToJson, ih, List.map_cons]

/-! ## Back again -/

end Datum

namespace Json

mutual

/-- The data that a JSON value is of, if it is of any. -/
def datum? : Json → Option Datum
  | string s => some (.text s)
  | bool b => some (.flag b)
  | array items => (itemsDatum? items).map .list
  | object members => (membersDatum? members).map .map
  | null | number _ => none
termination_by structural v => v

/-- The data that the items of an array are of. -/
def itemsDatum? : List Json → Option (List Datum)
  | [] => some []
  | v :: items => do return (← v.datum?) :: (← itemsDatum? items)
termination_by structural items => items

/-- The entries that the members of an object are of. -/
def membersDatum? : List (String × Json) → Option (List (String × Datum))
  | [] => some []
  | (key, v) :: members => do
      return (key, ← v.datum?) :: (← membersDatum? members)
termination_by structural members => members

end

end Json

namespace Datum

mutual

theorem datum?_toJson : ∀ d : Datum, d.toJson.datum? = some d
  | text _ | flag _ => rfl
  | list items => by
    rw [toJson, Json.datum?, itemsDatum?_itemsToJson items, Option.map_some]
  | map entries => by
      rw [toJson, Json.datum?, membersDatum?_entriesToJson entries,
        Option.map_some]
termination_by structural d => d

theorem itemsDatum?_itemsToJson : ∀ items : List Datum,
    Json.itemsDatum? (itemsToJson items) = some items
  | [] => rfl
  | d :: items => by
      rw [itemsToJson, Json.itemsDatum?, datum?_toJson d,
        itemsDatum?_itemsToJson items]
      rfl
termination_by structural items => items

theorem membersDatum?_entriesToJson : ∀ entries : List (String × Datum),
    Json.membersDatum? (entriesToJson entries) = some entries
  | [] => rfl
  | (key, d) :: entries => by
      rw [entriesToJson, Json.membersDatum?, datum?_toJson d,
        membersDatum?_entriesToJson entries]
      rfl
termination_by structural entries => entries

end

/-! ## Keys -/

mutual

theorem KeysDistinct.toJson :
    ∀ {d : Datum}, d.KeysDistinct → d.toJson.KeysDistinct
  | text _, _ | flag _, _ => trivial
  | list items, h => ItemKeysDistinct.toJson h
  | map entries, h => by
      obtain ⟨hkeys, hentries⟩ := h
      refine ⟨?_, EntryKeysDistinct.toJson hentries⟩
      rw [entriesToJson_eq, List.map_map]
      exact hkeys
termination_by structural d => d

theorem ItemKeysDistinct.toJson :
    ∀ {items : List Datum}, ItemKeysDistinct items →
    Json.ItemKeysDistinct (itemsToJson items)
  | [], _ => trivial
  | _ :: _, h => ⟨KeysDistinct.toJson h.1, ItemKeysDistinct.toJson h.2⟩
termination_by structural items => items

theorem EntryKeysDistinct.toJson :
    ∀ {entries : List (String × Datum)}, EntryKeysDistinct entries →
    Json.MemberKeysDistinct (entriesToJson entries)
  | [], _ => trivial
  | _ :: _, h => ⟨KeysDistinct.toJson h.1, EntryKeysDistinct.toJson h.2⟩
termination_by structural entries => entries

end

/-! ## Texts -/

end Datum

/-- A character is spelled by what is written for it in a string. -/
theorem Json.Spells.jsonChar (c : Char) : Spells c (Datum.jsonChar c) := by
  unfold Datum.jsonChar
  split
  case h_8 hquote hescape _ _ _ _ _ =>
    split
    · next hcontrol => exact .digits rfl (Datum.hexFrom?_hexDigit (by omega))
    · next hcontrol => exact .unescaped (by omega) hquote hescape
  all_goals exact .short rfl

namespace Datum

theorem readsChars_jsonChars (cs r : List Char) :
    ReadsChars cs (cs.flatMap jsonChar ++ '"' :: r) r := by
  induction cs with
  | nil => exact .close
  | cons c cs ih =>
      rw [List.flatMap_cons, List.append_assoc]
      exact .next (.jsonChar c) rfl ih

theorem jsonString_append (s : String) (r : List Char) :
    jsonString s ++ r = '"' :: (s.toList.flatMap jsonChar ++ '"' :: r) := by
  rw [jsonString, List.cons_append, List.cons_append, List.append_assoc]
  rfl

theorem blanks_jsonLine (indent : Nat) (r : List Char) :
    Blanks (jsonLine indent ++ r) r := by
  have hpad : ∀ n, Blanks (List.replicate n ' ' ++ r) r := by
    intro n
    induction n with
    | zero => exact .nil
    | succ n ih => exact .cons (by decide) ih
  exact .cons (by decide) (hpad indent)

/-- A member stands where its key, a colon and its value do. -/
theorem readsMember {key : String} {v : Json} {cs r : List Char}
    (h : Reads v cs r) :
    ReadsMember key v (jsonString key ++ ':' :: ' ' :: cs) r := by
  rw [jsonString_append]
  exact .mk (readsChars_jsonChars _ _) .nil (.cons (by decide) .nil) h

mutual

/-- Data is found again in its text, and what comes after it is not touched. -/
theorem reads_jsonAt : ∀ (d : Datum) (indent : Nat) (r : List Char),
    Reads d.toJson (d.jsonAt indent ++ r) r
  | text s, _, r => by
      rw [jsonAt, jsonString_append]
      exact .string (readsChars_jsonChars _ _)
  | flag true, _, _ => .yes
  | flag false, _, _ => .no
  | list [], _, _ => .emptyArray .nil
  | list (d :: items), indent, r => by
      have htext : (list (d :: items)).jsonAt indent ++ r =
          '[' :: (jsonLine (indent + 2) ++ (d.jsonAt (indent + 2) ++
            (jsonItems indent items ++ (jsonLine indent ++ ']' :: r)))) := by
        simp [jsonAt]
      rw [htext]
      exact .array (blanks_jsonLine _ _) (reads_jsonAt d _ _)
        (reads_jsonItems items _ _)
  | map [], _, _ => .emptyObject .nil
  | map ((key, d) :: entries), indent, r => by
      have htext : (map ((key, d) :: entries)).jsonAt indent ++ r =
          '{' :: (jsonLine (indent + 2) ++ (jsonString key ++ ':' :: ' ' ::
            (d.jsonAt (indent + 2) ++ (jsonEntries indent entries ++
              (jsonLine indent ++ '}' :: r))))) := by
        simp [jsonAt]
      rw [htext]
      exact .object (blanks_jsonLine _ _) (readsMember (reads_jsonAt d _ _))
        (reads_jsonEntries entries _ _)
termination_by structural d => d

theorem reads_jsonItems : ∀ (items : List Datum) (indent : Nat) (r : List Char),
    ReadsItems (itemsToJson items)
      (jsonItems indent items ++ (jsonLine indent ++ ']' :: r)) r
  | [], _, _ => .close (blanks_jsonLine _ _)
  | d :: items, indent, r => by
      have htext : jsonItems indent (d :: items) ++
        (jsonLine indent ++ ']' :: r) =
          ',' :: (jsonLine (indent + 2) ++ (d.jsonAt (indent + 2) ++
            (jsonItems indent items ++ (jsonLine indent ++ ']' :: r)))) := by
        simp [jsonItems]
      rw [htext]
      exact .next .nil (blanks_jsonLine _ _) (reads_jsonAt d _ _)
        (reads_jsonItems items _ _)
termination_by structural items => items

theorem reads_jsonEntries :
    ∀ (entries : List (String × Datum)) (indent : Nat) (r : List Char),
    ReadsMembers (entriesToJson entries)
      (jsonEntries indent entries ++ (jsonLine indent ++ '}' :: r)) r
  | [], _, _ => .close (blanks_jsonLine _ _)
  | (key, d) :: entries, indent, r => by
      have htext : jsonEntries indent ((key, d) :: entries) ++
        (jsonLine indent ++ '}' :: r) =
          ',' :: (jsonLine (indent + 2) ++ (jsonString key ++ ':' :: ' ' ::
            (d.jsonAt (indent + 2) ++ (jsonEntries indent entries ++
              (jsonLine indent ++ '}' :: r))))) := by
        simp [jsonEntries]
      rw [htext]
      exact .next .nil (blanks_jsonLine _ _) (readsMember (reads_jsonAt d _ _))
        (reads_jsonEntries entries _ _)
termination_by structural entries => entries

end

/-- The text of data has the data as its one value. -/
theorem isTextOf_json (d : Datum) : d.toJson.IsTextOf d.json.toList := by
  rw [json, String.toList_ofList]
  exact ⟨_, _, .nil, reads_jsonAt d 0 ['\n'], .cons (by decide) .nil⟩

end Datum

end DaggerWorkflows
