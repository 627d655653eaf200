import DaggerWorkflows.Manifest.OfText
import DaggerWorkflows.Proofs.ManifestFiles
import DaggerWorkflows.Proofs.NodeValues
import DaggerWorkflows.Proofs.WrittenRecords
import Mathlib.Data.List.Nodup

/-!
# What is read of a manifest

A document that is read as a manifest has four sections, in any order, and the
entries of each are read one by one. Said of the document: the entries of a kind
are the items of the section with the name of the kind (`sectionItems`), and
each `Declares` a pipeline and conditions, the fields of which have what is
written for them; the keys that are left over are its `unknownKeys`.
`ReadManifest.readSections_spec` carries that along the sections, whichever have
been read already.
-/

namespace DaggerWorkflows

open Yaml (Complaint Decoding Document Means Node Place Source Value)
open Yaml.Decoding
  (Gives gives_bind gives_pure not_gives_throw forall₂_of_gives_mapM)
open Yaml.Value (namedFields named?)

/-- The fields of the conditions of a kind. -/
def TriggerKind.fieldNames : TriggerKind → List String
  | push => PushConditions.fieldNames
  | pullRequest => PullRequestConditions.fieldNames
  | dispatch => DispatchConditions.fieldNames
  | issueComment => CommentConditions.fieldNames

/-- The keys that an entry of a kind may have: those of a pipeline and those of
conditions. -/
def TriggerKind.entryKeys (kind : TriggerKind) : List String :=
  PipelineSpec.fieldNames ++ kind.fieldNames

namespace Yaml.Document

/-- The section that a key opens. -/
def sectionOf? (d : Document) (key : Node) : Option TriggerKind :=
  TriggerKind.all.find? fun kind => d.textOf? key = some kind.sectionName

/-- The items of the sections of a kind among some entries. -/
def itemsIn (d : Document) (kind : TriggerKind) (entries : List (Node × Node)) :
    List Node :=
  entries.flatMap fun e =>
    if d.sectionOf? e.1 = some kind then d.itemsOf e.2 else []

/-- The items of the section of a kind. -/
def sectionItems (d : Document) (kind : TriggerKind) : List Node :=
  d.itemsIn kind (d.entriesOf d.root)

/-- The keys of an entry that are not for it. -/
def strayKeys (d : Document) (kind : TriggerKind) (n : Node) : List String :=
  ((d.entriesOf n).filterMap fun e => d.textOf? e.1).filter (· ∉ kind.entryKeys)

/-- The keys of each entry of a section that are not for it. -/
def strayLists (d : Document) (kind : TriggerKind) : List (List String) :=
  (d.sectionItems kind).map (d.strayKeys kind)

/-- What is written in an entry: the texts of its keys, and what their values
mean. -/
def Writes (d : Document) (n : Node) (fields : List (String × Value)) : Prop :=
  List.Forall₂ (fun e f => d.textOf? e.1 = some f.1 ∧ Means d e.2 f.2)
    (d.entriesOf n) fields

/-- An entry declares a pipeline with conditions: they are what is written for
their fields, none of which is written twice. -/
structure Declares (d : Document) (kind : TriggerKind) (n : Node)
    (e : PipelineSpec × Conditions) :
    Prop where
  conditions : e.2.kind = kind
  written : ∃ fields, d.Writes n fields ∧
    (∀ name ∈ kind.entryKeys, (fields.map (·.1)).count name ≤ 1) ∧
    e.1.IsWritten fields ∧ e.2.IsWritten fields

end Yaml.Document

/-! ## Entries -/

namespace ReadEntry

variable {C : Type} {names : List String}
  {conditions : List (Value × Value) → Except Complaint C}
  {fields : List (String × Value)} {d : Document} {n n' : Nat} {p : Place}
  {r : ReadEntry C}

theorem namedFields_select :
    namedFields names (select names fields) = fields.filter fun f =>
      names.contains f.1 := by
  induction fields with
  | nil => rfl
  | cons f fields ih =>
      rw [select, List.filter_cons]
      split
      · next hname =>
          have hnamed : (named? names (.atom (.text f.1))).map (·, f.2) =
              some f := by
            rw [named?, if_pos (by simpa using hname)]
            rfl
          have hcons : namedFields names
            ((.atom (.text f.1), f.2) :: select names fields) =
              f :: namedFields names (select names fields) := by
            simp only [namedFields, List.filterMap_cons, hnamed]
          rw [ih] at hcons
          exact hcons
      · exact ih

theorem lookup_namedFields_select {name : String} (hname : name ∈ names) :
    (namedFields names (select names fields)).lookup name =
    fields.lookup name := by
  rw [namedFields_select]
  induction fields with
  | nil => rfl
  | cons f fields ih =>
      rw [List.filter_cons]
      split
      · rw [List.lookup_cons, List.lookup_cons, ih]
      · next hf =>
          have hne : name ≠ f.1 := by
            rintro rfl
            exact hf (by simpa using hname)
          rw [List.lookup_cons, beq_eq_false_iff_ne.2 hne, ih]

/-- No field that is read has been written twice. -/
theorem count_of_foldFields {ρ : Type}
    {set : String → Value → ρ → Except Complaint ρ} {a b : ρ}
    (h : Source.foldFields names set (select names fields) [] a = .ok b) :
    ∀ name ∈ names, (fields.map (·.1)).count name ≤ 1 := by
  intro name hname
  obtain ⟨-, hnodup, -⟩ := Source.foldFields_cases h
  rw [namedFields_select] at hnodup
  have hcount := List.nodup_iff_count_le_one.1 hnodup name
  have hsame : (fields.filter fun f => names.contains f.1).map (·.1) =
      (fields.map (·.1)).filter (names.contains ·) := by
    rw [List.filter_map]
    rfl
  rwa [hsame, List.count_filter (by simpa using hname)] at hcount

theorem ofFields_cases (h : ofFields names conditions fields = .ok r) :
    PipelineSpec.readFields (select PipelineSpec.fieldNames fields) =
        Except.ok (ε := Complaint) r.entry.spec ∧
      conditions (select names fields) = .ok r.entry.conditions ∧
      r.unknown = (fields.map (·.1)).filter fun key =>
        !(PipelineSpec.fieldNames ++ names).contains key := by
  obtain ⟨spec, hspec, h⟩ := of_bind_ok h
  obtain ⟨c, hconditions, h⟩ := of_bind_ok h
  obtain ⟨-, -, h⟩ := of_bind_ok h
  cases h
  refine ⟨hspec, hconditions, ?_⟩
  rw [List.filter_map]
  rfl

/-- An entry is read from its keys and from what their values mean. -/
theorem writes_of_gives_read (h : Gives d n (read names conditions p) r n') :
    ∃ fields, d.Writes p.node fields ∧
    ofFields names conditions fields = .ok r := by
  obtain ⟨k, places, h, hplaces⟩ := Place.entriesOf_of_gives_readEntries h
  obtain ⟨fields, k, hfields, h⟩ := gives_bind.1 h
  refine ⟨fields, ?_, ?_⟩
  · rw [Document.Writes, ← hplaces, List.forall₂_map_left_iff]
    refine (forall₂_of_gives_mapM hfields).imp fun e f ⟨k, k', hread⟩ => ?_
    obtain ⟨name, k₁, hname, hread⟩ := gives_bind.1 hread
    obtain ⟨v, k₂, hv, hread⟩ := gives_bind.1 hread
    obtain ⟨rfl, -⟩ := gives_pure.1 hread
    exact ⟨Place.textOf?_of_gives_readScalar hname,
      Place.means_of_gives_valueAt hv⟩
  · split at h
    · next entry hentry =>
        obtain ⟨rfl, -⟩ := gives_pure.1 h
        exact hentry
    · exact absurd h not_gives_throw

end ReadEntry

theorem Yaml.Document.Writes.keys {d : Document} {n : Node}
    {fields : List (String × Value)} (h : d.Writes n fields) :
    (d.entriesOf n).filterMap (fun e => d.textOf? e.1) = fields.map (·.1) := by
  unfold Writes at h
  generalize d.entriesOf n = entries at h
  induction h with
  | nil => rfl
  | cons hf _ ih =>
      rw [List.map_cons, ← ih]
      exact List.filterMap_cons_some hf.1

theorem Yaml.Document.Writes.strayKeys {d : Document} {n : Node}
    {fields : List (String × Value)} (h : d.Writes n fields)
    (kind : TriggerKind) :
    d.strayKeys kind n = (fields.map (·.1)).filter (· ∉ kind.entryKeys) := by
  rw [Document.strayKeys, h.keys]

/-! ## Sections -/

namespace ReadManifest

/-- The entries of one section, each with the keys that nobody knows. -/
def entriesOf (m : ReadManifest) :
    TriggerKind → List ((PipelineSpec × Conditions) × List String)
  | .push =>
    m.push.map fun r => ((r.entry.spec, .push r.entry.conditions), r.unknown)
  | .pullRequest =>
      m.pullRequest.map fun r =>
        ((r.entry.spec, .pullRequest r.entry.conditions), r.unknown)
  | .dispatch =>
      m.dispatch.map fun r =>
        ((r.entry.spec, .dispatch r.entry.conditions), r.unknown)
  | .issueComment =>
      m.issueComment.map fun r =>
        ((r.entry.spec, .issueComment r.entry.conditions), r.unknown)

theorem entriesOf_manifest (m : ReadManifest) (kind : TriggerKind) :
    m.manifest.entriesOf kind = (m.entriesOf kind).map (·.1) := by
  cases kind <;> simp [manifest, Manifest.entriesOf, entriesOf]

/-- What has been read of an entry of a document. -/
def Reads (d : Document) (kind : TriggerKind) (n : Node)
    (x : (PipelineSpec × Conditions) × List String) : Prop :=
  d.Declares kind n x.1 ∧ x.2 = d.strayKeys kind n

variable {d : Document} {n n' : Nat} {p : Place} {m m' : ReadManifest}
  {kind : TriggerKind}

theorem reads_of_gives_readItems {C : Type} {wrap : C → Conditions}
    {conditions : List (Value × Value) → Except Complaint C}
    {entries : List (ReadEntry C)} (hkind : ∀ c, (wrap c).kind = kind)
    (hread : ∀ fields c, conditions (ReadEntry.select kind.fieldNames fields) =
      .ok c →
      (∀ name ∈ kind.fieldNames, (fields.map (·.1)).count name ≤ 1) ∧
      (wrap c).IsWritten fields)
    (h : Gives d n (p.readItems (ReadEntry.read kind.fieldNames conditions))
      entries n') :
    List.Forall₂ (Reads d kind) (d.itemsOf p.node)
      (entries.map fun r =>
        ((r.entry.spec, wrap r.entry.conditions), r.unknown)) := by
  obtain ⟨places, hplaces, hall⟩ := Place.itemsOf_of_gives_readItems h
  rw [← hplaces, List.forall₂_map_left_iff, List.forall₂_map_right_iff]
  refine hall.imp fun q r ⟨k, k', hr⟩ => ?_
  obtain ⟨fields, hwrites, hr⟩ := ReadEntry.writes_of_gives_read hr
  obtain ⟨hspec, hconditions, hunknown⟩ := ReadEntry.ofFields_cases hr
  obtain ⟨honce, hwritten⟩ := hread fields _ hconditions
  refine ⟨⟨hkind _, fields, hwrites, fun name hname => ?_, ?_, hwritten⟩, ?_⟩
  · rcases List.mem_append.1 hname with hname | hname
    · exact ReadEntry.count_of_foldFields hspec name hname
    · exact honce name hname
  · exact PipelineSpec.isWritten_of_readFields
      (fun _ => ReadEntry.lookup_namedFields_select) hspec
  · rw [hwrites.strayKeys, hunknown]
    refine List.filter_congr fun key _ => ?_
    rw [TriggerKind.entryKeys, List.contains_eq_mem]
    simp

/-- Reading a section fills that section and leaves the others as they are. -/
theorem readSection_spec (h : Gives d n (readSection kind p m) m' n') :
    List.Forall₂ (Reads d kind) (d.itemsOf p.node) (m'.entriesOf kind) ∧
      ∀ other, other ≠ kind → m'.entriesOf other = m.entriesOf other := by
  cases kind <;>
    obtain ⟨entries, k, hentries, h⟩ := gives_bind.1 h <;>
    obtain ⟨rfl, -⟩ := gives_pure.1 h <;>
    refine ⟨reads_of_gives_readItems (fun _ => rfl) (fun fields c hc => ?_)
      hentries,
      fun other hother => by
        cases other <;> first | rfl | exact absurd rfl hother⟩
  · exact ⟨ReadEntry.count_of_foldFields hc,
      PushConditions.isWritten_of_readFields
        (fun _ => ReadEntry.lookup_namedFields_select) hc⟩
  · exact ⟨ReadEntry.count_of_foldFields hc,
      PullRequestConditions.isWritten_of_readFields
        (fun _ => ReadEntry.lookup_namedFields_select) hc⟩
  · exact ⟨ReadEntry.count_of_foldFields hc,
      DispatchConditions.isWritten_of_readFields
        (fun _ => ReadEntry.lookup_namedFields_select) hc⟩
  · exact ⟨ReadEntry.count_of_foldFields hc,
      CommentConditions.isWritten_of_readFields
        (fun _ => ReadEntry.lookup_namedFields_select) hc⟩

/-- A section is of the kind whose name its key reads. -/
theorem sectionOf?_of_gives {key q : Place} {name : String} {k k' : Nat}
    (hq : Gives d n key.resolve q k)
    (hname : Gives d k' (q.readScalar .key) name n') :
    d.sectionOf? key.node = TriggerKind.all.find? (·.sectionName == name) := by
  have htext : d.textOf? key.node = some name := by
    rw [← Document.textOf?_follow, ← Place.node_of_gives_resolve hq]
    exact Place.textOf?_of_gives_readScalar hname
  simp [Document.sectionOf?, htext, eq_comm, beq_eq_decide]

/-- Sections are read one after the other, each key names one, and none is read
twice: what has been read of a kind so far is followed by what is still to
come. -/
theorem readSections_spec {places : List (Place × Place)}
    {seen : List TriggerKind}
    (h : Gives d n (readSections places seen m) m' n') :
    (∀ e ∈ places, (d.sectionOf? e.1.node).isSome) ∧
    ∀ kind done, List.Forall₂ (Reads d kind) done (m.entriesOf kind) →
    (kind ∉ seen → done = []) → List.Forall₂ (Reads d kind)
        (done ++ d.itemsIn kind (places.map fun e => (e.1.node, e.2.node)))
          (m'.entriesOf kind) := by
  induction places generalizing seen m n with
  | nil =>
      obtain ⟨rfl, -⟩ := gives_pure.1 h
      refine ⟨nofun, fun kind done hdone _ => ?_⟩
      rw [List.map_nil, Document.itemsIn, List.flatMap_nil, List.append_nil]
      exact hdone
  | cons e places ih =>
      obtain ⟨key, value⟩ := e
      obtain ⟨q, _, hq, h⟩ := gives_bind.1 h
      obtain ⟨name, _, hname, h⟩ := gives_bind.1 h
      have hsection := sectionOf?_of_gives hq hname
      split at h
      · exact absurd h not_gives_throw
      · next here hhere =>
          rw [hhere] at hsection
          split at h
          · exact absurd h not_gives_throw
          · next hnew =>
              obtain ⟨m₁, _, hread, h⟩ := gives_bind.1 h
              obtain ⟨hsections, hrest⟩ := ih h
              obtain ⟨hitems, hothers⟩ := readSection_spec hread
              refine ⟨fun e he => ?_, fun kind done hdone hseen => ?_⟩
              · rcases List.mem_cons.1 he with rfl | he
                · exact Option.isSome_iff_exists.2 ⟨here, hsection⟩
                · exact hsections e he
              · rw [List.map_cons, Document.itemsIn, List.flatMap_cons,
                  hsection]
                -- A section fills the entries of its kind, which were empty,
                -- and leaves the others.
                by_cases hkind : here = kind
                · subst hkind
                  rw [hseen (by simpa using hnew), if_pos rfl, List.nil_append]
                  exact hrest here _ hitems fun hnot =>
                    absurd List.mem_cons_self hnot
                · rw [if_neg (by simpa using hkind), List.nil_append]
                  refine hrest kind done ?_ fun hnot =>
                    hseen fun hmem => hnot ?_
                  · rwa [hothers kind (Ne.symm hkind)]
                  · exact List.mem_cons_of_mem _ hmem

theorem read_spec (h : Gives d n (read p) m n') (hp : p.node = d.root) :
    (∀ e ∈ d.entriesOf d.root, (d.sectionOf? e.1).isSome) ∧
      ∀ kind, List.Forall₂ (Reads d kind) (d.sectionItems kind)
        (m.entriesOf kind) := by
  obtain ⟨k, places, h, hplaces⟩ := Place.entriesOf_of_gives_readEntries h
  obtain ⟨hsections, hall⟩ := readSections_spec h
  rw [hp] at hplaces
  constructor
  · intro e he
    rw [← hplaces] at he
    obtain ⟨place, hplace, rfl⟩ := List.mem_map.1 he
    exact hsections place hplace
  · intro kind
    have hempty : (default : ReadManifest).entriesOf kind = [] := by
      cases kind <;> rfl
    have hkind := hall kind [] (by rw [hempty]; exact .nil) fun _ => rfl
    rwa [hplaces, List.nil_append] at hkind

/-- The manifest of what has been read has what the document declares. -/
theorem declares_of_reads
    (h : ∀ kind, List.Forall₂ (Reads d kind) (d.sectionItems kind)
      (m.entriesOf kind)) (kind : TriggerKind) :
    List.Forall₂ (d.Declares kind) (d.sectionItems kind)
      (m.manifest.entriesOf kind) := by
  rw [entriesOf_manifest, List.forall₂_map_right_iff]
  exact (h kind).imp fun _ _ hreads => hreads.1

end ReadManifest

end DaggerWorkflows
