import DaggerWorkflows.Proofs.DatumDecoding
import DaggerWorkflows.Proofs.SortedMaps

/-!
# Conditions are read back

For each kind of event, what is read from the YAML text of conditions is these
conditions.
-/

namespace DaggerWorkflows

open Yaml (Decoding Document Place Source)
open Yaml.Decoding
open Datum (Says)

variable {doc : Document} {count : Nat} {p : Place}

theorem keys_textsMember (key : String) (items : List String) :
    ((textsMember key items).map (·.1)).Sublist [key] := by
  unfold textsMember
  split <;> simp

theorem keys_optionMember {α : Type} (key : String) (f : α → Datum)
    (x : Option α) :
    ((optionMember key f x).map (·.1)).Sublist [key] := by
  cases x <;> simp [optionMember]

theorem keys_textMapMember (key : String) (map : SortedMap String) :
    ((textMapMember key map).map (·.1)).Sublist [key] := by
  unfold textMapMember
  split <;> simp

/-- What is read from every node that says a map is read from the text of the
map. -/
theorem Yaml.Document.decode_yaml {β : Type} {entries : List (String × Datum)}
    {read : Place → Decoding β} {b : β}
    (h : ∀ (doc : Document) (p : Place), Says (.map entries) p.node →
      p.depth = Place.maxDepth →
      Gives doc 0 (read p) b 0) :
    (Document.ofText (Datum.map entries).yaml).decode read = .ok b := by
  obtain ⟨root, hsays, htext⟩ := Document.ofText_yaml entries
  rw [htext]
  exact Document.decode_of_gives rfl rfl (h _ _ hsays rfl)

namespace PushConditions

theorem keys_datum (branches tags paths : List String) :
    ((textsMember "branches" branches ++ textsMember "tags" tags
      ++ textsMember "paths" paths).map (·.1)).Sublist fieldNames := by
  rw [List.map_append, List.map_append]
  exact ((keys_textsMember "branches" branches).append
    (keys_textsMember "tags" tags)).append (keys_textsMember "paths" paths)

theorem gives_read {c : PushConditions} (h : Says c.datum p.node)
    (hdepth : 1 < p.depth) :
    Gives doc count (read p) c count := by
  obtain ⟨branches, tags, paths⟩ := c
  refine gives_record h (by omega) (by decide) (keys_datum branches tags paths)
    ?_ fun _ h => h
  refine ((sets_textsMember (fun bs => (⟨bs, [], []⟩ : PushConditions)) ?_
    (by omega)).append
    (sets_textsMember (fun ts => (⟨branches, ts, []⟩ : PushConditions)) ?_
      (by omega))).append
    (sets_textsMember (fun ps => (⟨branches, tags, ps⟩ : PushConditions)) ?_
      (by omega))
  all_goals exact fun p hp =>
    gives_bind.2 ⟨_, count, hp, gives_pure.2 ⟨rfl, rfl⟩⟩

theorem decode_yaml (c : PushConditions) :
    (Document.ofText c.datum.yaml).decode read = .ok c :=
  Document.decode_yaml fun _ _ hp hdepth =>
    gives_read hp (by rw [hdepth]; decide)

end PushConditions

namespace PullRequestConditions

theorem keys_datum (branches types paths : List String) :
    ((textsMember "branches" branches ++ textsMember "types" types
      ++ textsMember "paths" paths).map (·.1)).Sublist fieldNames := by
  rw [List.map_append, List.map_append]
  exact ((keys_textsMember "branches" branches).append
    (keys_textsMember "types" types)).append (keys_textsMember "paths" paths)

theorem gives_read {c : PullRequestConditions} (h : Says c.datum p.node)
    (hdepth : 1 < p.depth) :
    Gives doc count (read p) c count := by
  obtain ⟨branches, types, paths⟩ := c
  refine gives_record h (by omega) (by decide) (keys_datum branches types paths)
    ?_ fun _ h => h
  refine ((sets_textsMember (fun bs => (⟨bs, [], []⟩ : PullRequestConditions))
    ?_ (by omega)).append
    (sets_textsMember (fun ts => (⟨branches, ts, []⟩ : PullRequestConditions))
      ?_ (by omega))).append
    (sets_textsMember
      (fun ps => (⟨branches, types, ps⟩ : PullRequestConditions)) ?_ (by omega))
  all_goals exact fun p hp =>
    gives_bind.2 ⟨_, count, hp, gives_pure.2 ⟨rfl, rfl⟩⟩

theorem decode_yaml (c : PullRequestConditions) :
    (Document.ofText c.datum.yaml).decode read = .ok c :=
  Document.decode_yaml fun _ _ hp hdepth =>
    gives_read hp (by rw [hdepth]; decide)

end PullRequestConditions

namespace CommentConditions

theorem gives_read {c : CommentConditions} (h : Says c.datum p.node)
    (hdepth : 1 < p.depth) :
    Gives doc count (read p) c count := by
  obtain ⟨types⟩ := c
  refine gives_record h (by omega) (by decide) (keys_textsMember "types" types)
    ?_ fun _ h => h
  refine sets_textsMember (fun ts => (⟨ts⟩ : CommentConditions)) ?_ (by omega)
  exact fun p hp => gives_bind.2 ⟨_, count, hp, gives_pure.2 ⟨rfl, rfl⟩⟩

theorem decode_yaml (c : CommentConditions) :
    (Document.ofText c.datum.yaml).decode read = .ok c :=
  Document.decode_yaml fun _ _ hp hdepth =>
    gives_read hp (by rw [hdepth]; decide)

end CommentConditions

namespace DispatchInput

theorem keys_datum (i : DispatchInput) :
    ((("description", Datum.text i.description) :: optionMember "required" .flag
      i.required
      ++ optionMember "default" .text i.default ++
        optionMember "type" .text i.type).map (·.1)).Sublist fieldNames := by
  rw [List.map_append, List.map_append, List.map_cons]
  exact (((keys_optionMember "required" .flag i.required).cons_cons _).append
    (keys_optionMember "default" .text i.default)).append
      (keys_optionMember "type" .text i.type)

theorem gives_read {i : DispatchInput} (h : Says i.datum p.node)
    (hdepth : 0 < p.depth) :
    Gives doc count (read p) i count := by
  have hkeys := i.keys_datum
  obtain ⟨description, required, default, type⟩ := i
  have hset : Sets doc count (p.depth - 1) readField
      (("description", Datum.text description) :: optionMember "required" .flag
        required
        ++ optionMember "default" .text default ++
          optionMember "type" .text type)
      Inhabited.default ⟨some description, required, default, type⟩ := by
    refine ((Sets.cons ?_
      (sets_optionMember (fun x =>
        (⟨some description, x, none, none⟩ : PartialInput)) Source.flag
        ?_ ?_)).append
      (sets_optionMember (fun x =>
        (⟨some description, required, x, none⟩ : PartialInput)) Source.text
        ?_ ?_)).append
      (sets_optionMember (fun x =>
        (⟨some description, required, default, x⟩ : PartialInput)) Source.text
        ?_ ?_)
    · intro p hp _
      exact gives_bind.2 ⟨_, count, Place.gives_readScalar hp,
        gives_pure.2 ⟨rfl, rfl⟩⟩
    · exact fun b p hp => Place.gives_readFlag hp
    · exact fun p hp => gives_bind.2 ⟨_, count, hp, gives_pure.2 ⟨rfl, rfl⟩⟩
    · exact fun s p hp => Place.gives_readScalar hp
    · exact fun p hp => gives_bind.2 ⟨_, count, hp, gives_pure.2 ⟨rfl, rfl⟩⟩
    · exact fun s p hp => Place.gives_readScalar hp
    · exact fun p hp => gives_bind.2 ⟨_, count, hp, gives_pure.2 ⟨rfl, rfl⟩⟩
  refine gives_record h hdepth (by decide) hkeys hset fun places hplaces => ?_
  exact gives_bind.2 ⟨_, count, hplaces, gives_pure.2 ⟨rfl, rfl⟩⟩

theorem decode_yaml (i : DispatchInput) :
    (Document.ofText i.datum.yaml).decode read = .ok i :=
  Document.decode_yaml fun _ _ hp hdepth =>
    gives_read hp (by rw [hdepth]; decide)

end DispatchInput

namespace DispatchConditions

theorem gives_read {c : DispatchConditions} (h : Says c.datum p.node)
    (hdepth : 2 < p.depth) :
    Gives doc count (read p) c count := by
  obtain ⟨inputs⟩ := c
  have hset : Sets doc count (p.depth - 1) readField
      (if inputs.isEmpty then []
        else [("inputs", .map (inputs.entries.map fun e => (e.1, e.2.datum)))])
      default ⟨inputs⟩ := by
    split
    · next hempty =>
        have : inputs = default := by
          obtain ⟨entries, ascending⟩ := inputs
          obtain rfl : entries = [] := List.isEmpty_iff.1 hempty
          rfl
        rw [this]
        exact .nil
    · refine .single fun q hq hdepth' =>
        gives_bind.2 ⟨inputs.entries, count, ?_, gives_pure.2 ⟨?_, rfl⟩⟩
      · exact Place.gives_readFields hq (by omega)
          fun e _ q' hq' hdepth'' => DispatchInput.gives_read hq' (by omega)
      · rw [SortedMap.ofList_entries]
  refine gives_record h (by omega) (by decide) ?_ hset fun _ h => h
  split <;> simp [fieldNames]

theorem decode_yaml (c : DispatchConditions) :
    (Document.ofText c.datum.yaml).decode read = .ok c :=
  Document.decode_yaml fun _ _ hp hdepth =>
    gives_read hp (by rw [hdepth]; decide)

end DispatchConditions

end DaggerWorkflows
