import DaggerWorkflows.Proofs.JsonWriting
import DaggerWorkflows.Proofs.WorkflowData
import DaggerWorkflows.Proofs.WorkflowDecoding

/-!
# Workflows are read back

What a reader of YAML makes of the text of a workflow is the tree of its data,
and no two workflows have the same text. The JSON text is one object, in which
every reader of JSON finds the workflow again. It is read as the same tree as
the YAML text as far as both formats agree: JSON leaves some characters as they
are that a YAML text may not hold, or that end a line there, and it has no bound
for the length of a key.
-/

namespace DaggerWorkflows

open Yaml (Document Value)

namespace Datum

mutual

/-- The value of data tells the data. -/
theorem eq_of_value : ∀ {d d' : Datum}, d.value = d'.value → d = d'
  | text s, text s', h => by
      injection h with h
      injection h with h
      rw [h]
  | flag b, flag b', h => by
      injection h with h
      injection h with h
      rw [h]
  | list items, list items', h => by
      rw [eq_of_itemValues (Value.sequence.inj h)]
  | map entries, map entries', h => by
      rw [eq_of_entryValues (Value.map.inj h)]
termination_by structural d => d

theorem eq_of_itemValues :
    ∀ {items items' : List Datum}, itemValues items = itemValues items' →
    items = items'
  | [], [], h => rfl
  | d :: items, d' :: items', h => by
      obtain ⟨hd, hitems⟩ := List.cons.inj h
      rw [eq_of_value hd, eq_of_itemValues hitems]
termination_by structural items => items

theorem eq_of_entryValues : ∀ {entries entries' : List (String × Datum)},
    entryValues entries = entryValues entries' → entries = entries'
  | [], [], h => rfl
  | (key, d) :: entries, (key', d') :: entries', h => by
      obtain ⟨he, hentries⟩ := List.cons.inj h
      obtain ⟨hkey, hd⟩ := Prod.mk.inj he
      injection hkey with hkey
      injection hkey with hkey
      rw [hkey, eq_of_value hd, eq_of_entryValues hentries]
termination_by structural entries => entries

end

end Datum

namespace Workflow

/-- The YAML text of a workflow is read as the tree of its data. -/
theorem ofText_render_yaml (w : Workflow) :
    Value.ofText (OutputFormat.yaml.render w) = .ok w.datum.value := by
  obtain ⟨root, hsays, htext⟩ := Document.ofText_yaml
    [("name", .text w.name), ("on", w.on.datum),
      ("jobs", .map (w.jobs.entries.map fun e => (e.1, e.2.datum)))]
  exact Yaml.Value.ofText_of_says htext hsays
    (Nat.le_trans w.fits_datum.depth (by decide)) w.fits_datum.keys

/-- So is its JSON text, if both formats agree about what stands in it. -/
theorem ofText_render_json (w : Workflow) (hshared : w.datum.IsShared) :
    Value.ofText (OutputFormat.json.render w) = .ok w.datum.value := by
  obtain ⟨root, hsays, htext⟩ := Document.ofText_json _ hshared
  exact Yaml.Value.ofText_of_says htext hsays
    (Nat.le_trans w.fits_datum.depth (by decide)) w.fits_datum.keys

/-- YAML loses nothing: a reader finds one document, which is the tree of the
workflow, so different workflows have different texts; and conditions and inputs
are what is read from their texts. -/
theorem yaml_lossless :
    (∀ w : Workflow, Value.ofText (OutputFormat.yaml.render w) =
      .ok w.datum.value) ∧
    Function.Injective OutputFormat.yaml.render ∧
    (∀ c : PushConditions,
      (Document.ofText c.datum.yaml).decode PushConditions.read = .ok c) ∧
    (∀ c : PullRequestConditions,
      (Document.ofText c.datum.yaml).decode PullRequestConditions.read =
      .ok c) ∧
    (∀ c : DispatchConditions,
      (Document.ofText c.datum.yaml).decode DispatchConditions.read = .ok c) ∧
    (∀ i : DispatchInput,
      (Document.ofText i.datum.yaml).decode DispatchInput.read = .ok i) ∧
    (∀ c : CommentConditions,
      (Document.ofText c.datum.yaml).decode CommentConditions.read =
      .ok c) := by
  refine ⟨ofText_render_yaml, fun w w' h => ?_, PushConditions.decode_yaml,
    PullRequestConditions.decode_yaml, DispatchConditions.decode_yaml,
      DispatchInput.decode_yaml,
    CommentConditions.decode_yaml⟩
  have hvalue : Except.ok w.datum.value =
      (Except.ok w'.datum.value : Except Yaml.Complaint Value) := by
    rw [← ofText_render_yaml, ← ofText_render_yaml, h]
  exact datum_injective (Datum.eq_of_value (Except.ok.inj hvalue))

/-- JSON is YAML with the same meaning, unless a text has a character or a key
has a length that the formats treat differently. -/
theorem json_means_yaml (w : Workflow) (hshared : w.datum.IsShared) :
    Value.ofText (OutputFormat.json.render w) = .ok w.datum.value ∧
      Value.ofText (OutputFormat.yaml.render w) = .ok w.datum.value :=
  ⟨w.ofText_render_json hshared, w.ofText_render_yaml⟩

theorem json_means_yaml_escapes :
    let step := Step.run "say \"hi\"" "bash" "echo 'hi'\n\techo \x1b[0m\n"
    let w : Workflow :=
      ⟨"Gr\u00fc\u00dfe: \\o/", .only (.push ⟨["main"], [], []⟩),
      .ofList [("yes", ⟨"ubuntu-latest", [step], .empty⟩)]⟩
    w.datum.IsShared ∧
      Value.ofText (OutputFormat.json.render w) = .ok w.datum.value ∧
      Value.ofText (OutputFormat.yaml.render w) = .ok w.datum.value :=
  ⟨by decide +kernel, json_means_yaml _ (by decide +kernel)⟩

/-- JSON does not escape the delete character, and no YAML text may hold it. -/
theorem json_rejected_delete :
    let w : Workflow := ⟨"\x7f", .none, .empty⟩
    (¬ ∃ v, Value.ofText (OutputFormat.json.render w) = .ok v) ∧
      ∃ v, Value.ofText (OutputFormat.yaml.render w) = .ok v := by
  refine ⟨fun ⟨v, h⟩ => ?_, _, ofText_render_yaml _⟩
  have hrejected :
      (Value.ofText (OutputFormat.json.render ⟨"\x7f", .none, .empty⟩)).toBool =
        false := by
    decide +kernel
  rw [h] at hrejected
  cases hrejected

/-- The workflow that a JSON value is of, if it is of any. -/
def ofJson? (v : Json) : Option Workflow := v.datum?.bind ofDatum?

theorem ofJson?_toJson (w : Workflow) : ofJson? w.datum.toJson = some w := by
  rw [ofJson?, Datum.datum?_toJson, Option.bind_some, ofDatum?_datum]

/-- JSON loses nothing either: the text is one object and a line end, no object
in it has a key twice, and it cannot be taken for any other value; the workflow
is found again in that value, so different workflows have different texts. -/
theorem json_lossless :
    (∀ w : Workflow, ∃ members body,
      (OutputFormat.json.render w).toList = body ++ ['\n'] ∧
      Json.Reads (.object members) body [] ∧
      (Json.object members).KeysDistinct ∧
      (∀ v : Json, v.IsTextOf (OutputFormat.json.render w).toList ↔
        v = .object members) ∧
      ofJson? (.object members) = some w) ∧
    Function.Injective OutputFormat.json.render := by
  have htext : ∀ w : Workflow,
      w.datum.toJson.IsTextOf (OutputFormat.json.render w).toList :=
    fun w => w.datum.isTextOf_json
  refine ⟨fun w => ?_, fun w w' h => ?_⟩
  · refine ⟨_, w.datum.jsonAt 0, String.toList_ofList, ?_,
      w.fits_datum.keys.toJson, fun v => ?_, w.ofJson?_toJson⟩
    · have hreads := w.datum.reads_jsonAt 0 []
      rwa [List.append_nil] at hreads
    · exact ⟨fun hv => hv.unique (htext w), fun hv => hv ▸ htext w⟩
  · have htext' := htext w'
    rw [← h] at htext'
    have hread := congrArg ofJson? ((htext w).unique htext')
    rw [ofJson?_toJson, ofJson?_toJson] at hread
    exact Option.some.inj hread

end Workflow

end DaggerWorkflows
