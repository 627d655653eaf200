import DaggerWorkflows.Datum.Json
import DaggerWorkflows.Proofs.DatumValue
import DaggerWorkflows.Proofs.NodeOrder
import DaggerWorkflows.Proofs.RunEffects
import DaggerWorkflows.Proofs.UnknownKeys
import Mathlib

/-!
# The order of keys in a manifest

Keys may come in any order: two documents that differ in nothing else are read
as one manifest (`Manifest.ofText_of_reordered`). For an entry that is so
because each of its two records is read the same in another order, and no key is
left over if all of it is accepted. For the sections it takes what reading all
of them comes to (`ReadManifest.sections_of_gives`), and back from there to
reading them in the other order: each section is read by itself, and none is
read twice.

A key that is written twice has no order that could tell which value counts, so
it is refused.

What is asked of the documents holds for all that say data without repeated keys
(`Document.isPlain_of_says`).
-/

namespace DaggerWorkflows

open Yaml (Atom Complaint Decoding Document Mark Means Node Place Value)
open Yaml.Decoding
open Yaml.Value (EntryReordered)

namespace Yaml.Document

/-- The texts of the keys of a mapping. -/
def keysOf (d : Document) (n : Node) : List String :=
  (d.entriesOf n).filterMap fun e => d.textOf? e.1

/-- The kinds of the sections. -/
def sectionKinds (d : Document) : List TriggerKind :=
  (d.entriesOf d.root).filterMap fun e => d.sectionOf? e.1

end Yaml.Document

/-! ## Entries -/

namespace ReadEntry

variable {C : Type} {names : List String}
  {conditions : List (Value × Value) → Except Complaint C}
  {fields fields' : List (String × Value)} {r : ReadEntry C} {d d' : Document}
  {p p' : Place}

/-- The same key with a value that differs in the order of entries. -/
def FieldReordered (f f' : String × Value) :
    Prop := f.1 = f'.1 ∧ f.2.Reordered f'.2

/-- A reader of fields that does not mind their order. -/
def IsOrderless (conditions : List (Value × Value) → Except Complaint C) :
    Prop :=
  ∀ entries entries' c, Reorders EntryReordered entries entries' →
    conditions entries = .ok c → conditions entries' = .ok c

theorem reorders_select (names : List String)
    (h : Reorders FieldReordered fields fields') :
    Reorders EntryReordered (select names fields) (select names fields') := by
  refine (h.filter fun f f' hf => ?_).map fun f f' hf => ?_
  · rw [hf.1]
  · rw [hf.1]
    exact ⟨.atom _, hf.2⟩

theorem ofFields_of_reorders (hconditions : IsOrderless conditions)
    (hfields : Reorders FieldReordered fields fields')
    (h : ofFields names conditions fields = .ok r) (hknown : r.unknown = []) :
    ofFields names conditions fields' = .ok r := by
  obtain ⟨hspec, hcond, hunknown⟩ := ofFields_cases h
  have hspec' :=
    PipelineSpec.readFields_of_reorders (reorders_select _ hfields) hspec
  have hcond' := hconditions _ _ _ (reorders_select names hfields) hcond
  have hnone :
      (fields'.filter fun e =>
        !(PipelineSpec.fieldNames ++ names).contains e.1) = [] := by
    rw [hunknown, List.filter_map, List.map_eq_nil_iff] at hknown
    have hleft :=
      hfields.filter
        (p := fun e => !(PipelineSpec.fieldNames ++ names).contains e.1)
      (q := fun e => !(PipelineSpec.fieldNames ++ names).contains e.1)
        fun f f' hf => by rw [hf.1]
    have hnil : Reorders FieldReordered [] _ := hknown ▸ hleft
    exact Reorders.eq_nil hnil
  unfold ofFields
  rw [hspec', hcond', hnone]
  obtain ⟨⟨spec, c⟩, unknown⟩ := r
  cases hknown
  rfl

theorem carries_read (hanchors : d.root.anchored = [])
    (hconditions : IsOrderless conditions) (hp : p.Reordered d p') :
    Carries d d' (fun r => r.unknown = []) Eq (read names conditions p)
      (read names conditions p') := by
  refine Place.carries_readEntries hanchors hp fun places places' hplaces => ?_
  refine carries_bind
    (carries_mapM_reorders (R := FieldReordered) (hplaces.imp ?_)) ?_
  · rintro e e' ⟨hkey, hvalue⟩
    exact carries_pair (Place.carries_readScalar hanchors hkey .key)
      (Place.carries_value hanchors hvalue)
  · intro fields fields' hfields n r n' h hknown
    split at h
    · next entry hentry =>
        obtain ⟨rfl, -⟩ := gives_pure.1 h
        refine ⟨entry, rfl, fun k => ?_⟩
        rw [ofFields_of_reorders hconditions hfields hentry hknown]
        exact gives_pure.2 ⟨rfl, rfl⟩
    · exact absurd h not_gives_throw

end ReadEntry

/-! ## Sections -/

namespace ReadManifest

/-- Two manifests have the same section of a kind. -/
def SameSection : TriggerKind → ReadManifest → ReadManifest → Prop
  | .push, m, m' => m.push = m'.push
  | .pullRequest, m, m' => m.pullRequest = m'.pullRequest
  | .dispatch, m, m' => m.dispatch = m'.dispatch
  | .issueComment, m, m' => m.issueComment = m'.issueComment

variable {d d' : Document} {n n' : Nat} {p p' : Place} {m m' m'' : ReadManifest}
  {kind : TriggerKind}

theorem SameSection.symm (h : SameSection kind m m') :
    SameSection kind m' m := by
  cases kind <;> exact Eq.symm h

theorem SameSection.trans (h : SameSection kind m m')
    (h' : SameSection kind m' m'') :
    SameSection kind m m'' := by
  cases kind <;> exact Eq.trans h h'

theorem SameSection.unknownKeys (h : SameSection kind m m') :
    m.unknownKeys kind = m'.unknownKeys kind := by
  cases kind <;> exact congrArg _ h

theorem eq_of_sameSection (h : ∀ kind, SameSection kind m m') : m = m' := by
  have hpush : m.push = m'.push := h .push
  have hpullRequest : m.pullRequest = m'.pullRequest := h .pullRequest
  have hdispatch : m.dispatch = m'.dispatch := h .dispatch
  have hissueComment : m.issueComment = m'.issueComment := h .issueComment
  cases m
  cases m'
  congr

/-- Reading a section leaves the other ones alone. -/
theorem sameSection_of_gives_readSection
    (h : Gives d n (readSection kind p m) m' n') :
    ∀ other, other ≠ kind → SameSection other m m' := by
  cases kind <;>
    obtain ⟨entries, k, -, h⟩ := gives_bind.1 h <;>
    obtain ⟨rfl, -⟩ := gives_pure.1 h <;>
    exact fun other hother => by
      cases other <;> first | rfl | exact absurd rfl hother

theorem carries_items {C : Type} {names : List String}
    {conditions : List (Value × Value) → Except Complaint C}
    (hanchors : d.root.anchored = [])
    (hconditions : ReadEntry.IsOrderless conditions) (hp : p.Reordered d p') :
    Carries d d' (fun entries => ∀ r ∈ entries, r.unknown = []) Eq
      (p.readItems (ReadEntry.read names conditions))
      (p'.readItems (ReadEntry.read names conditions)) := by
  have hread (q q' : Place) (hq : q.Reordered d q') :
      Carries d d' (fun r => r.unknown = []) Eq
        (ReadEntry.read names conditions q)
        (ReadEntry.read names conditions q') :=
          ReadEntry.carries_read hanchors hconditions hq
  intro n entries n' h hknown
  obtain ⟨entries', heq, hread⟩ :=
    Place.carries_readItems hanchors hp hread n entries n' h hknown
  exact ⟨entries', List.forall₂_eq_eq_eq ▸ heq, hread⟩

theorem carries_set {C : Type} {wanted : List (ReadEntry C) → Prop}
    {act act' : Decoding (List (ReadEntry C))}
    {set set' : List (ReadEntry C) → ReadManifest}
    (hact : Carries d d' wanted Eq act act')
    (hset : ∀ entries, SameSection kind (set entries) (set' entries))
    (hwanted : ∀ entries, (∀ ks ∈ (set entries).unknownKeys kind, ks = []) →
      wanted entries) :
    Carries d d' (fun m => ∀ ks ∈ m.unknownKeys kind, ks = [])
      (SameSection kind) (do return set (← act)) (do return set' (← act')) := by
  intro n m n' h hknown
  obtain ⟨entries, k, hentries, h⟩ := gives_bind.1 h
  obtain ⟨rfl, -⟩ := gives_pure.1 h
  obtain ⟨_, rfl, hread⟩ := hact _ _ _ hentries (hwanted entries hknown)
  exact ⟨set' entries, hset entries, fun k =>
    gives_bind.2 ⟨entries, k, hread k, gives_pure.2 ⟨rfl, rfl⟩⟩⟩

/-- A section that leaves no keys over is read the same, whatever has been read
before it. -/
theorem carries_readSection (hanchors : d.root.anchored = [])
    (hp : p.Reordered d p') (m m' : ReadManifest) :
    Carries d d' (fun m => ∀ ks ∈ m.unknownKeys kind, ks = [])
      (SameSection kind) (readSection kind p m) (readSection kind p' m') := by
  cases kind with
  | push =>
      exact carries_set (carries_items hanchors
        (fun _ _ _ => PushConditions.readFields_of_reorders) hp) (fun _ => rfl)
        fun _ h r hr => h _ (List.mem_map_of_mem hr)
  | pullRequest =>
      exact carries_set (carries_items hanchors
        (fun _ _ _ => PullRequestConditions.readFields_of_reorders) hp)
          (fun _ => rfl)
        fun _ h r hr => h _ (List.mem_map_of_mem hr)
  | dispatch =>
      exact carries_set (carries_items hanchors
        (fun _ _ _ => DispatchConditions.readFields_of_reorders) hp)
          (fun _ => rfl)
        fun _ h r hr => h _ (List.mem_map_of_mem hr)
  | issueComment =>
      exact carries_set (carries_items hanchors
        (fun _ _ _ => CommentConditions.readFields_of_reorders) hp)
          (fun _ => rfl)
        fun _ h r hr => h _ (List.mem_map_of_mem hr)

/-- A section is read for a kind, whatever has been read before it, and found to
be the one of a manifest. -/
structure ReadsAs (d : Document) (m : ReadManifest) (e : Place × Place)
    (kind : TriggerKind) :
    Prop where
  name : ∃ q name, (∀ n, Gives d n e.1.resolve q n) ∧
    (∀ n, Gives d n (q.readScalar .key) name n) ∧
    TriggerKind.all.find? (·.sectionName == name) = some kind
  items : ∀ m',
    ∃ m₁, SameSection kind m₁ m ∧ ∀ n, Gives d n (readSection kind e.2 m') m₁ n

/-- Sections that are read one by one are read one after the other. -/
theorem gives_readSections {places : List (Place × Place)}
    {kinds seen : List TriggerKind}
    (h : List.Forall₂ (ReadsAs d m) places kinds) (hnodup : kinds.Nodup)
    (hseen : ∀ kind ∈ kinds, kind ∉ seen)
    (hothers : ∀ kind, kind ∉ kinds → SameSection kind m' m) (n : Nat) :
    Gives d n (readSections places seen m') m n := by
  induction h generalizing seen m' with
  | nil =>
      obtain rfl := eq_of_sameSection fun kind => hothers kind List.not_mem_nil
      exact gives_pure.2 ⟨rfl, rfl⟩
  | @cons e kind places kinds he _ ih =>
      obtain ⟨key, value⟩ := e
      obtain ⟨q, name, hq, hname, hkind⟩ := he.name
      obtain ⟨m₁, hsame, hread⟩ := he.items m'
      obtain ⟨hnew, hnodup⟩ := List.nodup_cons.1 hnodup
      have hnot : ¬ seen.contains kind = true := by
        simpa using hseen kind List.mem_cons_self
      refine gives_bind.2 ⟨q, n, hq n, gives_bind.2 ⟨name, n, hname n, ?_⟩⟩
      rw [hkind]
      dsimp only
      rw [if_neg hnot]
      refine gives_bind.2 ⟨m₁, n, hread n, ih hnodup ?_ ?_⟩
      · intro other hother hmem
        rcases List.mem_cons.1 hmem with rfl | hmem
        · exact hnew hother
        · exact hseen other (List.mem_cons_of_mem _ hother) hmem
      · intro other hother
        by_cases heq : other = kind
        · rw [heq]
          exact hsame
        · have hold := sameSection_of_gives_readSection (hread n) other heq
          exact hold.symm.trans (hothers other (by simp [heq, hother]))

/-- A section has been read for a kind, and it is the one that a manifest has in
the end. -/
structure Opened (d : Document) (m : ReadManifest) (e : Place × Place)
    (kind : TriggerKind) :
    Prop where
  name : ∃ q name n k n', Gives d n e.1.resolve q k ∧
    Gives d k (q.readScalar .key) name n' ∧
    TriggerKind.all.find? (·.sectionName == name) = some kind
  items : ∃ m₀ m₁ n n', Gives d n (readSection kind e.2 m₀) m₁ n' ∧
    SameSection kind m₁ m

/-- What it comes to that sections have been read one after the other. -/
theorem sections_of_gives {places : List (Place × Place)}
    {seen : List TriggerKind}
    (h : Gives d n (readSections places seen m) m' n') :
    ∃ kinds : List TriggerKind, kinds.Nodup ∧ (∀ kind ∈ kinds, kind ∉ seen) ∧
      (∀ kind, kind ∉ kinds → SameSection kind m m') ∧
      List.Forall₂ (Opened d m') places kinds := by
  induction places generalizing seen m n with
  | nil =>
      obtain ⟨rfl, -⟩ := gives_pure.1 h
      exact ⟨[], .nil, nofun, fun kind _ => by cases kind <;> rfl, .nil⟩
  | cons e places ih =>
      obtain ⟨key, value⟩ := e
      obtain ⟨q, k, hq, h⟩ := gives_bind.1 h
      obtain ⟨name, k', hname, h⟩ := gives_bind.1 h
      split at h
      · exact absurd h not_gives_throw
      · next kind hkind =>
          split at h
          · exact absurd h not_gives_throw
          · next hnew =>
              obtain ⟨m₁, k'', hread, h⟩ := gives_bind.1 h
              obtain ⟨kinds, hnodup, hseen, hothers, hall⟩ := ih h
              -- No later section is of this kind, so what was read here stays
              -- until the end.
              have hfresh : kind ∉ kinds :=
                fun hmem => hseen kind hmem List.mem_cons_self
              refine ⟨kind :: kinds, List.nodup_cons.2 ⟨hfresh, hnodup⟩, ?_, ?_,
                .cons ?_ hall⟩
              · intro other hother
                rcases List.mem_cons.1 hother with rfl | hother
                · simpa using hnew
                · exact fun hmem =>
                    hseen other hother (List.mem_cons_of_mem _ hmem)
              · intro other hother
                rw [List.mem_cons, not_or] at hother
                exact (sameSection_of_gives_readSection hread other
                  hother.1).trans (hothers other hother.2)
              · exact ⟨⟨q, name, n, k, k', hq, hname, hkind⟩, m, m₁, k',
                  k'', hread, hothers kind hfresh⟩

theorem sectionOf?_of_opened {e : Place × Place} (h : Opened d m e kind) :
    d.sectionOf? e.1.node = some kind := by
  obtain ⟨q, name, n, k, n', hq, hname, hkind⟩ := h.name
  rw [← hkind]
  exact sectionOf?_of_gives hq hname

theorem nodup_sectionKinds (h : Gives d n (read p) m n')
    (hp : p.node = d.root) :
    d.sectionKinds.Nodup := by
  obtain ⟨k, places, h, hplaces⟩ := Place.entriesOf_of_gives_readEntries h
  obtain ⟨kinds, hnodup, -, -, hall⟩ := sections_of_gives h
  have hkinds : d.sectionKinds = kinds := by
    rw [Document.sectionKinds, ← hp, ← hplaces, List.filterMap_map]
    clear h hplaces hnodup
    induction hall with
    | nil => rfl
    | cons he _ ih =>
        rw [← ih]
        exact List.filterMap_cons_some (sectionOf?_of_opened he)
  rw [hkinds]
  exact hnodup

theorem carries_readSections (hanchors : d.root.anchored = [])
    {places places' : List (Place × Place)}
    (hplaces :
      Reorders (fun e e' => e.1.Reordered d e'.1 ∧ e.2.Reordered d e'.2) places
        places') :
    Carries d d' (fun m => ∀ kind, ∀ ks ∈ m.unknownKeys kind, ks = []) Eq
      (readSections places [] default) (readSections places' [] default) := by
  intro n m n' h hknown
  obtain ⟨kinds, hnodup, -, hothers, hall⟩ := sections_of_gives h
  obtain ⟨between, hperm, hbetween⟩ := hplaces
  obtain ⟨kinds', hopened, hperm'⟩ := List.perm_comp_forall₂ hperm.symm hall
  refine ⟨m, rfl, gives_readSections (forall₂_comp hbetween.flip hopened ?_)
    (hperm'.nodup_iff.2 hnodup) (fun _ _ => List.not_mem_nil) ?_⟩
  · rintro e' e kind ⟨hkey, hvalue⟩ ⟨⟨q, name, n, k, k', hq, hname, hkind⟩,
      hitems⟩
    constructor
    · have hresolve : Carries d d' Any _ e.1.resolve e'.1.resolve :=
        Place.carries_resolve_self hanchors hkey
      have hscalar :
          Carries d d' Any Eq (e.1.readScalar .key) (e'.1.readScalar .key) :=
        Place.carries_readScalar hanchors hkey .key
      obtain ⟨q', ⟨⟨rfl, rfl⟩, -⟩, hq'⟩ := hresolve _ _ _ hq trivial
      obtain ⟨name', rfl, hname'⟩ := hscalar _ _ _ hname trivial
      exact ⟨_, name, hq', hname', hkind⟩
    · intro m'
      obtain ⟨m₀, m₁, k₀, k₁, hread, hsame⟩ := hitems
      have hnone : ∀ ks ∈ m₁.unknownKeys kind, ks = [] := by
        rw [hsame.unknownKeys]
        exact hknown kind
      have hsection : Carries d d' _ _ (readSection kind e.2 m₀)
          (readSection kind e'.2 m') :=
        carries_readSection hanchors hvalue m₀ m'
      obtain ⟨m₂, hsame', hread'⟩ := hsection _ _ _ hread hnone
      exact ⟨m₂, hsame'.symm.trans hsame, hread'⟩
  · exact fun kind hkind => hothers kind fun hmem =>
      hkind (hperm'.mem_iff.2 hmem)

theorem carries_read (hanchors : d.root.anchored = []) (hp : p.Reordered d p') :
    Carries d d' (fun m => ∀ kind, ∀ ks ∈ m.unknownKeys kind, ks = []) Eq
      (read p) (read p') :=
  Place.carries_readEntries hanchors hp fun _ _ => carries_readSections hanchors

end ReadManifest

/-! ## Written data -/

namespace Datum

variable {doc : Document}

theorem means_of_says_text {s : String} {n : Node} {v : Value}
    (h : Says (.text s) n) (hv : Means doc n v) : v = .atom (.text s) := by
  cases h with
  | @text s style mark hplain =>
      have hatom : Atom.ofScalar s style none = .ok (.text s) := by
        unfold Atom.ofScalar
        dsimp only
        split
        · next hstyle => rw [hplain hstyle]
        · rfl
      cases hv with
      | scalar h ha =>
          cases h
          rw [Yaml.Properties.none, hatom] at ha
          cases ha
          rfl
      | void h => cases h
      | sequence h => cases h
      | mapping h => cases h

theorem exists_of_saysEntries :
    ∀ (entries : List (String × Datum)) {nodes : List (Node × Node)},
    SaysEntries entries nodes → ∀ e ∈ nodes, ∃ key ∈ entries.map (·.1),
      Says (.text key) e.1
  | [], _, .nil, e, he => absurd he List.not_mem_nil
  | (key, d) :: entries, _, .cons hkey _ hentries, e, he => by
      rcases List.mem_cons.1 he with rfl | he
      · exact ⟨key, List.mem_cons_self, hkey⟩
      · obtain ⟨key', hmem, hkey'⟩ :=
          exists_of_saysEntries entries hentries e he
        exact ⟨key', List.mem_cons_of_mem _ hmem, hkey'⟩

theorem pairwise_of_saysEntries :
    ∀ (entries : List (String × Datum)) {nodes : List (Node × Node)},
    SaysEntries entries nodes → (entries.map (·.1)).Nodup →
      nodes.Pairwise fun a b => ∀ v, Means doc a.1 v → ¬ Means doc b.1 v
  | [], _, .nil, _ => .nil
  | (key, d) :: entries, _, .cons hkey _ hentries, h => by
      obtain ⟨hnew, h⟩ := List.nodup_cons.1 h
      refine .cons (fun e he v hv hv' => ?_)
        (pairwise_of_saysEntries entries hentries h)
      obtain ⟨key', hmem, hkey'⟩ := exists_of_saysEntries entries hentries e he
      obtain rfl := means_of_says_text hkey hv
      cases means_of_says_text hkey' hv'
      exact hnew hmem

mutual

/-- Data without repeated keys is said by nodes without repeated keys. -/
theorem keysDistinct_of_says :
    ∀ (d : Datum) {n : Node}, Says d n → d.KeysDistinct →
    doc.KeysDistinct n
  | .text _, _, .text _, _ => by
      intro entries h
      cases h
  | .flag _, _, .flag, _ => by
      intro entries h
      cases h
  | .list items, _, .list hitems, hkeys => by
      intro entries h
      cases h with
      | item hmem h =>
          exact keysDistinct_of_saysItems items hitems hkeys _ hmem entries h
  | .map entries, _, .map hentries, hkeys => by
      intro inner h
      have hinside := keysDistinct_of_saysEntries entries hentries hkeys.2
      cases h with
      | here => exact pairwise_of_saysEntries entries hentries hkeys.1
      | key hmem h => exact (hinside _ hmem).1 inner h
      | value hmem h => exact (hinside _ hmem).2 inner h
termination_by structural d => d

theorem keysDistinct_of_saysItems : ∀ (items : List Datum) {nodes : List Node},
    SaysItems items nodes → ItemKeysDistinct items → ∀ n ∈ nodes,
      doc.KeysDistinct n
  | [], _, .nil, _, n, hn => absurd hn List.not_mem_nil
  | d :: items, _, .cons hd hitems, hkeys, n, hn => by
      rcases List.mem_cons.1 hn with rfl | hn
      · exact keysDistinct_of_says d hd hkeys.1
      · exact keysDistinct_of_saysItems items hitems hkeys.2 n hn
termination_by structural items => items

theorem keysDistinct_of_saysEntries : ∀ (entries : List (String × Datum))
    {nodes : List (Node × Node)}, SaysEntries entries nodes →
    EntryKeysDistinct entries →
      ∀ e ∈ nodes, doc.KeysDistinct e.1 ∧ doc.KeysDistinct e.2
  | [], _, .nil, _, e, he => absurd he List.not_mem_nil
  | (key, d) :: entries, _, .cons hkey hd hentries, hkeys, e, he => by
      rcases List.mem_cons.1 he with rfl | he
      · refine ⟨?_, keysDistinct_of_says d hd hkeys.1⟩
        intro inner h
        cases hkey
        cases h
      · exact keysDistinct_of_saysEntries entries hentries hkeys.2 e he
termination_by structural entries => entries

end

mutual

/-- Nodes that say data have no anchors. -/
theorem anchored_of_says : ∀ (d : Datum) {n : Node}, Says d n → n.anchored = []
  | .text _, _, .text _ => rfl
  | .flag _, _, .flag => rfl
  | .list items, _, .list hitems => anchored_of_saysItems items hitems
  | .map entries, _, .map hentries => anchored_of_saysEntries entries hentries
termination_by structural d => d

theorem anchored_of_saysItems : ∀ (items : List Datum) {nodes : List Node},
    SaysItems items nodes → Node.anchoredItems nodes = []
  | [], _, .nil => rfl
  | d :: items, _, .cons hd hitems => by
      rw [Node.anchoredItems, anchored_of_says d hd,
        anchored_of_saysItems items hitems]
      rfl
termination_by structural items => items

theorem anchored_of_saysEntries : ∀ (entries : List (String × Datum))
    {nodes : List (Node × Node)}, SaysEntries entries nodes →
    Node.anchoredEntries nodes = []
  | [], _, .nil => rfl
  | (key, d) :: entries, _, .cons hkey hd hentries => by
      rw [Node.anchoredEntries, anchored_of_says d hd,
        anchored_of_saysEntries entries hentries]
      cases hkey
      rfl
termination_by structural entries => entries

end

end Datum

/-! ## Texts -/

namespace Yaml.Document

/-- A document that is whole and the only one of its text, without anchors and
with no key twice in a mapping. -/
structure IsPlain (d : Document) : Prop where
  whole : d.fault = none
  alone : d.hasNext = false
  anchors : d.root.anchored = []
  keys : d.KeysDistinct d.root

theorem isPlain_of_says {text : String} {root : Node} {d : Datum}
    (htext : Document.ofText text = ⟨root, none, false⟩) (hroot : d.Says root)
    (hkeys : d.KeysDistinct) : (Document.ofText text).IsPlain := by
  rw [htext]
  exact ⟨rfl, rfl, Datum.anchored_of_says d hroot,
    Datum.keysDistinct_of_says d hroot hkeys⟩

end Yaml.Document

namespace Manifest

variable {path path' text text' : String} {m : Manifest}

theorem ofText_eq_ok (h : ofText path text = .ok m) :
    ∃ r, (Document.ofText text).decode ReadManifest.read = .ok r ∧
    r.unknown? = none ∧ r.manifest = m := by
  unfold ofText at h
  split at h
  · cases h
  · next r hr =>
      split at h
      · cases h
      · next hunknown =>
          cases h
          exact ⟨r, hr, hunknown, rfl⟩

theorem ofText_of_reordered (hplain : (Document.ofText text).IsPlain)
    (hplain' : (Document.ofText text').IsPlain)
    (hroot : (Document.ofText text).root.Reordered (Document.ofText text').root)
    (h : ofText path text = .ok m) : ofText path' text' = .ok m := by
  obtain ⟨r, hdecode, hunknown, rfl⟩ := ofText_eq_ok h
  obtain ⟨n, hgives⟩ := Document.gives_of_decode hdecode
  have hread : Carries (Document.ofText text) (Document.ofText text') _ _
      (ReadManifest.read ⟨.root, Place.maxDepth, (Document.ofText text).root⟩)
      (ReadManifest.read
        ⟨.root, Place.maxDepth, (Document.ofText text').root⟩) :=
    ReadManifest.carries_read hplain.anchors ⟨rfl, hroot, hplain.keys⟩
  obtain ⟨_, rfl, hgives'⟩ :=
    hread _ _ _ hgives (ReadManifest.unknown?_eq_none hunknown)
  have hdecode' :=
    Document.decode_of_gives hplain'.whole hplain'.alone (hgives' 0)
  unfold ofText
  rw [hdecode']
  dsimp only
  rw [hunknown]

theorem nodup_of_ofText (h : ofText path text = .ok m) :
    (Document.ofText text).sectionKinds.Nodup ∧
    ∀ kind, ∀ n ∈ (Document.ofText text).sectionItems kind,
      ∀ name ∈ kind.entryKeys,
      ((Document.ofText text).keysOf n).count name ≤ 1 := by
  obtain ⟨r, hdecode, -, -⟩ := ofText_eq_ok h
  obtain ⟨k, hgives⟩ := Document.gives_of_decode hdecode
  refine ⟨ReadManifest.nodup_sectionKinds hgives rfl,
    fun kind n hn name hname => ?_⟩
  obtain ⟨-, hreads⟩ := ReadManifest.read_spec hgives rfl
  obtain ⟨x, -, hdeclares, -⟩ := Yaml.exists_of_forall₂ (hreads kind) hn
  obtain ⟨fields, hwrites, honce, -⟩ := hdeclares.written
  rw [Document.keysOf, hwrites.keys]
  exact honce name hname

/-- The order of keys does not matter: of two documents that differ in nothing
else one is accepted if the other is, as the same manifest, so that the same
files are made of it. And no key decides by its place which of two values
counts: a document that has a section twice, or an entry that has a key of its
pipeline or of its conditions twice, is refused. -/
theorem ofText_key_order (path text : String) :
    (∀ path' text', (Document.ofText text).IsPlain →
      (Document.ofText text').IsPlain →
      (Document.ofText text).root.Reordered (Document.ofText text').root →
      ∀ m, (ofText path text = .ok m ↔ ofText path' text' = .ok m) ∧
        (ofText path text = .ok m → ∀ settings stem,
          (ofText path' text').bind (·.files settings stem) =
          m.files settings stem)) ∧
    (¬ (Document.ofText text).sectionKinds.Nodup ∨
      (∃ kind, ∃ n ∈ (Document.ofText text).sectionItems kind,
        ∃ name ∈ kind.entryKeys,
        1 < ((Document.ofText text).keysOf n).count name) →
      ∃ message, ofText path text = .error (.manifest path message)) := by
  constructor
  · intro path' text' hplain hplain' hroot m
    have hto (h : ofText path text = .ok m) : ofText path' text' = .ok m :=
      ofText_of_reordered hplain hplain' hroot h
    refine ⟨⟨hto, ofText_of_reordered hplain' hplain hroot.symm⟩,
      fun h settings stem => ?_⟩
    rw [hto h]
    rfl
  · intro htwice
    cases h : ofText path text with
    | error e =>
        obtain ⟨message, rfl⟩ := ofText_error h
        exact ⟨message, rfl⟩
    | ok m =>
        obtain ⟨hsections, hkeys⟩ := nodup_of_ofText h
        rcases htwice with hsection | ⟨kind, n, hn, name, hname, hcount⟩
        · exact absurd hsections hsection
        · exact absurd (hkeys kind n hn name hname) (Nat.not_le_of_lt hcount)

/-- Fields of an entry as `key: value`. -/
def fieldNode (key value : String) (mark mark' : Mark) : Node × Node :=
  (.scalar key .plain .none mark, .scalar value .plain .none mark')

/-- A manifest that has one entry of two fields. -/
def rootOf (first second : Node × Node) : Node :=
  .mapping [(.scalar "push" .plain .none ⟨0, 0, 0⟩,
    .sequence [.mapping [first, second] true .none ⟨8, 1, 2⟩] true .none
      ⟨6, 1, 0⟩)]
    true .none ⟨0, 0, 0⟩

theorem reordered_rootOf {key key' value value' : String}
    {m₁ m₂ m₃ m₄ k₁ k₂ k₃ k₄ : Mark} :
    (rootOf (fieldNode key value m₁ m₂) (fieldNode key' value' m₃ m₄)).Reordered
      (rootOf (fieldNode key' value' k₁ k₂) (fieldNode key value k₃ k₄)) := by
  have hscalar (s : String) (mark mark' : Mark) :
      Node.Reordered (.scalar s .plain .none mark)
        (.scalar s .plain .none mark') :=
    .scalar s .plain rfl mark mark'
  refine .mapping true rfl _ _ (.refl _) (.cons (hscalar _ _ _) .nil) ?_
  refine .cons (.sequence true rfl _ _ (.cons ?_ .nil)) .nil
  exact .mapping true rfl _ _ (.swap _ _ _)
    (.cons (hscalar _ _ _) (.cons (hscalar _ _ _) .nil))
    (.cons (hscalar _ _ _) (.cons (hscalar _ _ _) .nil))

theorem isPlain_rootOf {text key key' value value' : String}
    {m₁ m₂ m₃ m₄ : Mark}
    (htext : Document.ofText text =
      ⟨rootOf (fieldNode key value m₁ m₂) (fieldNode key' value' m₃ m₄),
        none, false⟩) (hne : key ≠ key')
    (hplain : ∀ s ∈ ["push", key, value, key', value'],
      Atom.ofPlain s = .text s) :
    (Document.ofText text).IsPlain := by
  have htexts (s : String) (mark : Mark)
      (hs : s ∈ ["push", key, value, key', value']) :
      (Datum.text s).Says (.scalar s .plain .none mark) :=
    .text fun _ => hplain s hs
  have hentry :=
    Datum.SaysEntries.cons (htexts key m₁ (by simp)) (htexts value m₂ (by simp))
      (.cons (htexts key' m₃ (by simp)) (htexts value' m₄ (by simp)) .nil)
  refine Document.isPlain_of_says htext
    (.map (.cons (htexts "push" _ (by simp))
      (.list (.cons (.map hentry) .nil)) .nil)) ?_
  have hfields : [key, key'].Nodup := by simpa using hne
  exact ⟨by simp, ⟨⟨hfields, trivial, trivial, trivial⟩, trivial⟩, trivial⟩

/-- A section that is there twice. -/
def textWithTwoSections : String :=
  Datum.json (.map [("push", .list []), ("push", .list [])])

/-- An entry with two commands. -/
def textWithTwoCommands : String :=
  Datum.json (.map [("push", .list [.map [
    ("command", .text "a"), ("command", .text "b")]])])

set_option maxRecDepth 20000 in
/-- The keys of an entry in two orders, and keys that are there twice. -/
theorem ofText_key_order_swapped :
    let text := "push:\n- command: a\n  module: b\n"
    let text' := "push:\n- module: b\n  command: a\n"
    let sections := Document.ofText textWithTwoSections
    let commands := Document.ofText textWithTwoCommands
    (Document.ofText text).IsPlain ∧ (Document.ofText text').IsPlain ∧
      (Document.ofText text).root.Reordered (Document.ofText text').root ∧
      (∃ m, ofText "gha.yaml" text = .ok m ∧ ofText "gha.yaml" text' = .ok m) ∧
      ¬ sections.sectionKinds.Nodup ∧
      (∃ message, ofText "gha.yaml" textWithTwoSections =
        .error (.manifest "gha.yaml" message)) ∧
      (∃ n ∈ commands.sectionItems .push, ∃ name ∈ TriggerKind.entryKeys .push,
        1 < (commands.keysOf n).count name) ∧
      ∃ message, ofText "gha.yaml" textWithTwoCommands =
        .error (.manifest "gha.yaml" message) := by
  intro text text' sections commands
  have hsections : ¬ sections.sectionKinds.Nodup := by decide +kernel
  have hcommands : ∃ n ∈ commands.sectionItems .push,
      ∃ name ∈ TriggerKind.entryKeys .push,
        1 < (commands.keysOf n).count name := by decide +kernel
  have htext : Document.ofText text =
      ⟨rootOf (fieldNode "command" "a" ⟨8, 1, 2⟩ ⟨17, 1, 11⟩)
        (fieldNode "module" "b" ⟨21, 2, 2⟩ ⟨29, 2, 10⟩), none, false⟩ := by
    cbv
  have htext' : Document.ofText text' =
      ⟨rootOf (fieldNode "module" "b" ⟨8, 1, 2⟩ ⟨16, 1, 10⟩)
        (fieldNode "command" "a" ⟨20, 2, 2⟩ ⟨29, 2, 11⟩), none, false⟩ := by
    cbv
  have hplain := isPlain_rootOf htext (by decide) (by decide +kernel)
  have hplain' := isPlain_rootOf htext' (by decide) (by decide +kernel)
  have hroot :
      (Document.ofText text).root.Reordered (Document.ofText text').root := by
    rw [htext, htext']
    exact reordered_rootOf
  have hok : (ofText "gha.yaml" text).isOk = true := by
    unfold ofText
    rw [htext]
    decide +kernel
  cases h : ofText "gha.yaml" text with
  | error e =>
      rw [h] at hok
      cases hok
  | ok m =>
      have horder := (ofText_key_order "gha.yaml" text).1 "gha.yaml" text'
        hplain hplain' hroot m
      have htwice := (ofText_key_order "gha.yaml" textWithTwoSections).2
        (.inl hsections)
      obtain ⟨n, hn, name, hname, hcount⟩ := hcommands
      have hagain := (ofText_key_order "gha.yaml" textWithTwoCommands).2
        (.inr ⟨.push, n, hn, name, hname, hcount⟩)
      exact ⟨hplain, hplain', hroot, ⟨m, rfl, horder.1.1 h⟩, hsections, htwice,
        ⟨n, hn, name, hname, hcount⟩, hagain⟩

end Manifest

end DaggerWorkflows
