import DaggerWorkflows.Datum.Json
import DaggerWorkflows.Proofs.ByteOrder
import DaggerWorkflows.Proofs.ManifestEntries

/-!
# The key that is complained about

An entry keeps the keys that it has no use for until the whole manifest has been
read. Then one of them is complained about: sections go in an order of their
own, entries in the order of the file, and keys in the order of their bytes.
`UnknownKey.IsFirst` says which one that is among any keys, given for each kind
and each of its entries. What has been read of a document leaves over the keys
that its entries leave over, so the complaint is about the first of these
(`Manifest.ofText_unknown_key`).
-/

namespace DaggerWorkflows

open Yaml (Document)

namespace ReadManifest

/-- A key comes first of all keys, given for each kind and each of its entries:
in no section before its own is there any, nor in an entry before its own, and
it is the least of its entry. -/
structure UnknownKey.IsFirst (keys : TriggerKind → List (List String))
    (k : UnknownKey) : Prop where
  ofSections : ∃ before after,
    [TriggerKind.push, .pullRequest, .dispatch, .issueComment] = before ++
      k.kind :: after ∧ ∀ kind ∈ before, ∀ ks ∈ keys kind, ks = []
  ofEntries : ∃ before ks after, keys k.kind = before ++ ks :: after ∧
    k.position = before.length ∧
    (∀ ks' ∈ before, ks' = []) ∧ k.key ∈ ks ∧ ∀ s ∈ ks,
      Text.bytes k.key ≤ Text.bytes s

/-! ## The first of some keys -/

theorem foldl_least (texts : List String) (t : String) :
    ∃ s ∈ t :: texts, (∀ u ∈ t :: texts, s ≤ u) ∧
      texts.foldl (fun least s =>
        match least with
        | none => some s
        | some t => if s < t then some s else some t) (some t) = some s := by
  -- The induction is for whatever text is the least so far.
  induction texts generalizing t with
  | nil => exact ⟨t, by simp, by simp, rfl⟩
  | cons u texts ih =>
      rw [List.foldl_cons]
      dsimp only
      split
      · next hlt =>
          obtain ⟨s, hs, hleast, hfold⟩ := ih u
          refine ⟨s, List.mem_cons_of_mem _ hs, fun v hv => ?_, hfold⟩
          rcases List.mem_cons.1 hv with rfl | hv
          · exact (hleast u List.mem_cons_self).trans hlt.le
          · exact hleast v hv
      · next hge =>
          obtain ⟨s, hs, hleast, hfold⟩ := ih t
          refine ⟨s, ?_, fun v hv => ?_, hfold⟩
          · rcases List.mem_cons.1 hs with rfl | hs
            · exact List.mem_cons_self
            · exact List.mem_cons_of_mem _ (List.mem_cons_of_mem _ hs)
          · rcases List.mem_cons.1 hv with rfl | hv
            · exact hleast v List.mem_cons_self
            · rcases List.mem_cons.1 hv with rfl | hv
              · exact (hleast t List.mem_cons_self).trans (not_lt.1 hge)
              · exact hleast v (List.mem_cons_of_mem _ hv)

theorem least?_cases (texts : List String) :
    (texts = [] ∧ least? texts = none) ∨
      ∃ s ∈ texts, (∀ t ∈ texts, s ≤ t) ∧ least? texts = some s := by
  cases texts with
  | nil => exact .inl ⟨rfl, rfl⟩
  | cons t texts => exact .inr (foldl_least texts t)

theorem least?_eq_none {texts : List String} (h : least? texts = none) :
    texts = [] := by
  rcases least?_cases texts with ⟨hnil, -⟩ | ⟨s, -, -, hsome⟩
  · exact hnil
  · rw [hsome] at h
    cases h

/-- The first key of the entries of one section. -/
def firstKey? (kind : TriggerKind) (keys : List (List String)) :
    Option UnknownKey :=
  keys.zipIdx.findSome? fun (ks, position) =>
    (least? ks).map (⟨kind, position, ·⟩)

theorem firstKey?_eq_none {kind : TriggerKind} {keys : List (List String)}
    (h : firstKey? kind keys = none) : ∀ ks ∈ keys, ks = [] := by
  intro ks hks
  obtain ⟨i, hi, rfl⟩ := List.getElem_of_mem hks
  rw [firstKey?, List.findSome?_eq_none_iff] at h
  have hnone :=
    h (keys[i], i)
      (List.mk_mem_zipIdx_iff_getElem?.2 (List.getElem?_eq_getElem hi))
  exact least?_eq_none (Option.map_eq_none_iff.1 hnone)

theorem firstKey?_eq_some {kind : TriggerKind} {keys : List (List String)}
    {k : UnknownKey} (h : firstKey? kind keys = some k) :
    k.kind = kind ∧ ∃ before ks after, keys = before ++ ks :: after ∧
    k.position = before.length ∧
      (∀ ks' ∈ before, ks' = []) ∧ k.key ∈ ks ∧ ∀ s ∈ ks,
        Text.bytes k.key ≤ Text.bytes s := by
  obtain ⟨before', ⟨ks, i⟩, after', hzip, hkey, hnone⟩ :=
    List.findSome?_eq_some_iff.1 h
  obtain ⟨before, rest, rfl, rfl, hrest⟩ := List.zipIdx_eq_append_iff.1 hzip
  obtain ⟨ks', after, rfl, hks, -⟩ := List.zipIdx_eq_cons_iff.1 hrest.symm
  cases hks
  obtain ⟨key, hleast, rfl⟩ := Option.map_eq_some_iff.1 hkey
  refine ⟨rfl, before, ks, after, rfl, Nat.zero_add _, ?_, ?_⟩
  · exact firstKey?_eq_none (List.findSome?_eq_none_iff.2 hnone)
  · rcases least?_cases ks with ⟨-, hno⟩ | ⟨s, hs, hle, hsome⟩
    · rw [hno] at hleast
      cases hleast
    · rw [hsome] at hleast
      cases hleast
      exact ⟨hs, fun t ht => Text.bytes_le (hle t ht)⟩

/-! ## The keys of a manifest -/

/-- The unknown keys of the entries of one section. -/
def unknownKeys (m : ReadManifest) : TriggerKind → List (List String)
  | .push => m.push.map (·.unknown)
  | .pullRequest => m.pullRequest.map (·.unknown)
  | .dispatch => m.dispatch.map (·.unknown)
  | .issueComment => m.issueComment.map (·.unknown)

theorem unknown?_eq (m : ReadManifest) :
    m.unknown? = [TriggerKind.push, .pullRequest, .dispatch,
      .issueComment].findSome? fun kind =>
      firstKey? kind (m.unknownKeys kind) := by
  have hsection :
    ∀ {C : Type} (kind : TriggerKind) (entries : List (ReadEntry C)),
      unknownIn kind entries = firstKey? kind (entries.map (·.unknown)) := by
    intro C kind entries
    rw [firstKey?, List.zipIdx_map, List.findSome?_map]
    rfl
  simp only [unknown?, hsection, List.findSome?_cons, List.findSome?_nil,
    unknownKeys]
  cases firstKey? .push (m.push.map (·.unknown)) <;>
    cases firstKey? .pullRequest (m.pullRequest.map (·.unknown)) <;>
      cases firstKey? .dispatch (m.dispatch.map (·.unknown)) <;>
        cases firstKey? .issueComment (m.issueComment.map (·.unknown)) <;> rfl

theorem unknown?_eq_none {m : ReadManifest} (h : m.unknown? = none)
    (kind : TriggerKind) :
    ∀ ks ∈ m.unknownKeys kind, ks = [] := by
  rw [unknown?_eq, List.findSome?_eq_none_iff] at h
  exact firstKey?_eq_none (h kind (by cases kind <;> decide))

theorem unknown?_eq_some {m : ReadManifest} {k : UnknownKey}
    (h : m.unknown? = some k) :
    k.IsFirst m.unknownKeys := by
  rw [unknown?_eq] at h
  obtain ⟨before, kind, after, hkinds, hkey, hnone⟩ :=
    List.findSome?_eq_some_iff.1 h
  obtain ⟨rfl, hentries⟩ := firstKey?_eq_some hkey
  exact ⟨⟨before, after, hkinds, fun kind hkind =>
    firstKey?_eq_none (hnone kind hkind)⟩, hentries⟩

/-- What has been read leaves over the keys that the document leaves over. -/
theorem unknownKeys_of_reads {d : Document} {m : ReadManifest}
    (h : ∀ kind, List.Forall₂ (Reads d kind) (d.sectionItems kind)
      (m.entriesOf kind)) :
    m.unknownKeys = d.strayLists := by
  funext kind
  have hkeys : m.unknownKeys kind = (m.entriesOf kind).map (·.2) := by
    cases kind <;> simp [unknownKeys, entriesOf]
  rw [hkeys, Document.strayLists]
  have hkind := h kind
  generalize d.sectionItems kind = items, m.entriesOf kind = entries at hkind
  induction hkind with
  | nil => rfl
  | cons hreads _ ih => rw [List.map_cons, List.map_cons, ih, hreads.2]

end ReadManifest

namespace Manifest

/-- A text that can be read as a manifest is refused if and only if an entry of
it has a key that is neither for its pipeline nor for the conditions of its
section. The complaint is about the first of these keys. If there is none, the
manifest has one entry for each in the text, with what is written there. -/
theorem ofText_unknown_key {path text : String} {m : ReadManifest}
    (h : (Document.ofText text).decode ReadManifest.read = .ok m) :
    ((∃ e, ofText path text = .error e) ↔
      ∃ kind, ∃ n ∈ (Document.ofText text).sectionItems kind,
        (Document.ofText text).strayKeys kind n ≠ []) ∧
    match ofText path text with
    | .error e =>
      ∃ k : ReadManifest.UnknownKey,
        k.IsFirst (Document.ofText text).strayLists ∧
        e = .manifest path
          s!"{k.kind.sectionName}[{k.position}]: unknown key `{k.key}`"
    | .ok manifest =>
      ∀ kind, List.Forall₂ ((Document.ofText text).Declares kind)
        ((Document.ofText text).sectionItems kind)
        (manifest.entriesOf kind) := by
  obtain ⟨n, hgives⟩ := Document.gives_of_decode h
  obtain ⟨-, hreads⟩ := ReadManifest.read_spec hgives rfl
  have hkeys := ReadManifest.unknownKeys_of_reads hreads
  unfold ofText
  rw [h]
  dsimp only
  cases hunknown : m.unknown? with
  | some k =>
      have hfirst := ReadManifest.unknown?_eq_some hunknown
      rw [hkeys] at hfirst
      refine ⟨iff_of_true ⟨_, rfl⟩ ?_, k, hfirst, rfl⟩
      obtain ⟨before, ks, after, hlists, -, -, hkey, -⟩ := hfirst.ofEntries
      have hks : ks ∈ (Document.ofText text).strayLists k.kind := by
        rw [hlists]
        exact List.mem_append_right _ List.mem_cons_self
      obtain ⟨item, hitem, rfl⟩ := List.mem_map.1 hks
      exact ⟨k.kind, item, hitem, List.ne_nil_of_mem hkey⟩
  | none =>
      have hnone := ReadManifest.unknown?_eq_none hunknown
      rw [hkeys] at hnone
      refine ⟨iff_of_false ?_ ?_, fun kind => ?_⟩
      · rintro ⟨e, he⟩
        cases he
      · rintro ⟨kind, item, hitem, hstray⟩
        exact hstray (hnone kind _ (List.mem_map_of_mem hitem))
      · exact ReadManifest.declares_of_reads hreads kind

/-- Sections in another order than that of complaints, and an entry with a
condition of another section and a key that is for nothing. -/
def textWithStrayKeys : String :=
  Datum.json (.map [
    ("issue_comment", .list [.map [("a", .list [])]]),
    ("push", .list [.map [], .map [("types", .list []), ("b", .list [])]])])

theorem ofText_unknown_key_misplaced :
    ∃ m, (Document.ofText textWithStrayKeys).decode ReadManifest.read = .ok m ∧
      ofText "gha.yaml" textWithStrayKeys =
        .error (.manifest "gha.yaml" "push[1]: unknown key `b`") ∧
      ∃ k : ReadManifest.UnknownKey,
        k.IsFirst (Document.ofText textWithStrayKeys).strayLists ∧
        k.message = "push[1]: unknown key `b`" := by
  have hresult : ofText "gha.yaml" textWithStrayKeys =
      .error (.manifest "gha.yaml" "push[1]: unknown key `b`") := by
    decide +kernel
  have hok :
      ((Document.ofText textWithStrayKeys).decode ReadManifest.read).isOk =
        true := by
    decide +kernel
  generalize textWithStrayKeys = text at hresult hok ⊢
  cases h : (Document.ofText text).decode ReadManifest.read with
  | error complaint =>
      rw [h] at hok
      cases hok
  | ok m =>
      have hspec := (@ofText_unknown_key "gha.yaml" text m h).2
      rw [hresult] at hspec
      obtain ⟨k, hfirst, hmessage⟩ := hspec
      exact ⟨m, rfl, hresult, k, hfirst, (Error.manifest.inj hmessage).2.symm⟩

end Manifest

end DaggerWorkflows
