import DaggerWorkflows.Proofs.UnknownKeys

/-!
# Which keys a manifest may have

Three kinds of mappings make up a manifest: the manifest itself, the entries of
its sections, and the definitions of inputs inside entries. `Document.parts`
lists them for any document, whether or not it is a manifest, and
`ManifestPart.keys` says which keys mean something in each.

The first two refuse every other key, by two mechanisms: a section without a
name of its own fails at once, and an entry keeps the keys that neither of its
two records takes, to be complained about when everything has been read. So a
text that is accepted has only known keys in both, and its manifest has what is
written for them (`Manifest.ofText_keys`). A
definition of an input refuses nothing: a key that it does not know is passed
over together with its value, and the definition read is the one that has never
had the key (`DispatchInput.readFields_known`).
-/

namespace DaggerWorkflows

open Yaml (Document Node Place Value)
open Yaml.Decoding (Gives)

/-- What a mapping in a manifest is about. -/
inductive ManifestPart where
  | manifest
  | entry (kind : TriggerKind)
  | input
deriving DecidableEq, Repr

/-- The keys that mean something. -/
def ManifestPart.keys : ManifestPart → List String
  | manifest => ReadManifest.sectionNames
  | entry kind => PipelineSpec.fieldNames ++ kind.fieldNames
  | input => DispatchInput.fieldNames

namespace Yaml.Document

/-- The entries of all sections. -/
def sectionEntries (d : Document) : List (TriggerKind × Node) :=
  (d.entriesOf d.root).flatMap fun e =>
    match d.sectionOf? e.1 with
    | some kind => (d.itemsOf e.2).map fun n => (kind, n)
    | none => []

/-- The definitions of inputs in all entries that may have some. -/
def inputDefinitions (d : Document) : List Node :=
  (d.sectionEntries.filter (·.1 = .dispatch)).flatMap fun entry =>
    ((d.entriesOf entry.2).filter fun e =>
      d.textOf? e.1 = some "inputs").flatMap fun e =>
      (d.entriesOf e.2).map (·.2)

/-- All mappings that say something about a manifest. -/
def parts (d : Document) : List (ManifestPart × Node) :=
  (.manifest, d.root) :: d.sectionEntries.map (fun e => (.entry e.1, e.2))
    ++ d.inputDefinitions.map fun n => (.input, n)

/-- Whether a mapping has no keys but those. -/
def HasKeysAmong (d : Document) (names : List String) (n : Node) : Prop :=
  ∀ e ∈ d.entriesOf n, ∃ name ∈ names, d.textOf? e.1 = some name

instance (d : Document) (names : List String) (n : Node) :
    Decidable (d.HasKeysAmong names n) :=
  inferInstanceAs
    (Decidable (∀ e ∈ d.entriesOf n, ∃ name ∈ names, d.textOf? e.1 = some name))

theorem mem_sectionItems {d : Document} {e : TriggerKind × Node}
    (h : e ∈ d.sectionEntries) :
    e.2 ∈ d.sectionItems e.1 := by
  obtain ⟨opened, hopened, he⟩ := List.mem_flatMap.1 h
  cases hkind : d.sectionOf? opened.1 with
  | none =>
      rw [hkind] at he
      cases he
  | some kind =>
      rw [hkind] at he
      obtain ⟨n, hn, rfl⟩ := List.mem_map.1 he
      exact List.mem_flatMap.2 ⟨opened, hopened, by rwa [if_pos hkind]⟩

/-- An entry that leaves no key over has none but those of its two records. -/
theorem Declares.hasKeysAmong {d : Document} {kind : TriggerKind} {n : Node}
    {e : PipelineSpec × Conditions} (h : d.Declares kind n e)
    (hstray : d.strayKeys kind n = []) :
    d.HasKeysAmong (ManifestPart.entry kind).keys n := by
  obtain ⟨fields, hwrites, -⟩ := h.written
  intro entry hentry
  obtain ⟨field, -, htext, -⟩ := exists_of_forall₂ hwrites hentry
  refine ⟨field.1, ?_, htext⟩
  rw [strayKeys, List.filter_eq_nil_iff] at hstray
  have hknown := hstray field.1 (List.mem_filterMap.2 ⟨entry, hentry, htext⟩)
  show field.1 ∈ kind.entryKeys
  simpa using hknown

end Yaml.Document

/-! ## Sections -/

namespace ReadManifest

variable {d : Document} {n n' : Nat}

theorem sectionName_mem (kind : TriggerKind) :
    kind.sectionName ∈ sectionNames := by
  cases kind <;> decide

/-- A manifest that has been read with nothing to complain about has known keys
only, and so have its entries, and it has what they declare. -/
theorem hasKeysAmong_of_gives_read {p : Place} {m : ReadManifest}
    (h : Gives d n (read p) m n') (hknown : m.unknown? = none)
    (hp : p.node = d.root) :
    d.HasKeysAmong sectionNames d.root ∧
      (∀ e ∈ d.sectionEntries,
        d.HasKeysAmong (ManifestPart.entry e.1).keys e.2) ∧
      ∀ kind, List.Forall₂ (d.Declares kind) (d.sectionItems kind)
        (m.manifest.entriesOf kind) := by
  obtain ⟨hsections, hreads⟩ := read_spec h hp
  refine ⟨?_, ?_, declares_of_reads hreads⟩
  · intro e he
    obtain ⟨kind, hkind⟩ := Option.isSome_iff_exists.1 (hsections e he)
    exact ⟨kind.sectionName, sectionName_mem kind, by
      simpa using List.find?_some hkind⟩
  · intro e he
    have hitem := Document.mem_sectionItems he
    obtain ⟨entry, -, hdeclares, -⟩ := Yaml.exists_of_forall₂ (hreads e.1) hitem
    refine hdeclares.hasKeysAmong (unknown?_eq_none hknown e.1 _ ?_)
    rw [unknownKeys_of_reads hreads]
    exact List.mem_map_of_mem hitem

end ReadManifest

/-! ## Inputs -/

namespace DispatchInput

/-- Whether a key is one of an input's fields, by name or by position. -/
def isFieldKey (key : Value) : Bool :=
  match Value.readFieldName fieldNames key with
  | .ok none => false
  | _ => true

theorem foldFields_known {ρ : Type}
    (set : String → Value → ρ → Except Yaml.Complaint ρ)
    (entries : List (Value × Value)) (seen : List String) (r : ρ) :
    Yaml.Source.foldFields fieldNames set
      (entries.filter fun e => isFieldKey e.1) seen r =
      Yaml.Source.foldFields fieldNames set entries seen r := by
  induction entries generalizing seen r with
  | nil => rfl
  | cons e entries ih =>
      have hname : ∀ key : Value,
        (Yaml.Source.fieldName fieldNames key : Except Yaml.Complaint _) =
          Value.readFieldName fieldNames key := fun _ => rfl
      cases hread : Value.readFieldName fieldNames e.1 with
      | error complaint =>
          rw [List.filter_cons_of_pos (by simp [isFieldKey, hread])]
          simp [Yaml.Source.foldFields, hname, hread, bind, Except.bind]
      | ok name =>
          cases name with
          | none =>
              rw [List.filter_cons_of_neg (by simp [isFieldKey, hread]), ih]
              simp only [Yaml.Source.foldFields, hname, hread]
              rfl
          | some name =>
              rw [List.filter_cons_of_pos (by simp [isFieldKey, hread])]
              simp only [Yaml.Source.foldFields, hname, hread, ih]

/-- Nothing of an unknown key gets into an input: leaving it out together with
its value makes no difference. -/
theorem readFields_known (entries : List (Value × Value)) :
    (readFields (entries.filter fun e => isFieldKey e.1) :
      Except Yaml.Complaint DispatchInput) = readFields entries := by
  simp only [readFields, foldFields_known]

end DispatchInput

/-! ## Texts -/

namespace Manifest

/-- A text that is accepted has known keys only, except that a definition of an
input may have others, and its manifest has the entries that the text declares,
each with what is written for its keys; a text that is not accepted is refused
as a manifest. -/
theorem ofText_keys (path text : String) :
    match ofText path text with
    | .ok manifest =>
        (∀ part ∈ (Document.ofText text).parts,
          part.1 = .input ∨
            (Document.ofText text).HasKeysAmong part.1.keys part.2) ∧
        ∀ kind, List.Forall₂ ((Document.ofText text).Declares kind)
          ((Document.ofText text).sectionItems kind) (manifest.entriesOf kind)
    | .error e => ∃ message, e = .manifest path message := by
  unfold ofText
  cases hdecode : (Document.ofText text).decode ReadManifest.read with
  | error complaint => exact ⟨_, rfl⟩
  | ok m =>
      obtain ⟨n, hgives⟩ := Document.gives_of_decode hdecode
      cases hunknown : m.unknown? with
      | some key => simp [hunknown]
      | none =>
          obtain ⟨hroot, hentries, hdeclares⟩ :=
            ReadManifest.hasKeysAmong_of_gives_read hgives hunknown rfl
          simp only [hunknown]
          refine ⟨fun part hpart => ?_, hdeclares⟩
          simp only [Document.parts, List.cons_append, List.mem_cons,
            List.mem_append, List.mem_map] at hpart
          rcases hpart with rfl | ⟨e, he, rfl⟩ | ⟨input, hinput, rfl⟩
          · exact .inr hroot
          · exact .inr (hentries e he)
          · exact .inl rfl

/-- The choices of an input, which workflows know and definitions of inputs do
not. -/
def textWithOptions : String :=
  Datum.json (.map [("dispatch", .list [.map [
    ("command", .text "deploy"),
    ("inputs", .map [("stage", .map [
      ("description", .text "Where to"),
      ("options", .list [.text "test", .text "live"])])])]])])

/-- A text is accepted although a key of an input means nothing and is lost. -/
theorem ofText_loses_key :
    (ofText "gha.yaml" textWithOptions).isOk = true ∧
      ∃ part ∈ (Document.ofText textWithOptions).parts,
        ¬ (Document.ofText textWithOptions).HasKeysAmong part.1.keys
          part.2 := by
  decide +kernel

end Manifest

end DaggerWorkflows
