import DaggerWorkflows.Proofs.Correspondence
import DaggerWorkflows.Proofs.SortedMaps
import DaggerWorkflows.Proofs.WrittenRecords

/-!
# Records and the order of their fields

A record is read entry by entry, and it may as well be read in another order.
`Value.Reordered` relates values that differ in the order of the entries of
maps, at any depth; a reader that is given the one in place of the other reads
the same.

There are two steps to it. Entries that stay where they are may hold reordered
values: whoever reads a text, a truth value or a list of texts has met no map,
so nothing was reordered there at all (`Value.Rigid`). And entries may change
places: that every field can still be set is so because a step does not look at
the record (`Source.Steady`), and that the record is the same because what is
written for each field says what it is (`SetsFields.fieldIs`). Only inputs are
made from maps inside; they are kept sorted, so their order is lost anyway.
-/

namespace DaggerWorkflows

/-! ## Maps from lists in another order -/

namespace SortedMap

variable {β : Type} {entries entries' : List (String × β)}

theorem get?_foldl_insert (h : (entries.map (·.1)).Nodup) (map : SortedMap β)
    (key : String) :
    (entries.foldl (fun map e => map.insert e.1 e.2) map).get? key =
      (entries.lookup key).or (map.get? key) := by
  induction entries generalizing map with
  | nil => rfl
  | cons e entries ih =>
      rw [List.map_cons, List.nodup_cons] at h
      rw [List.foldl_cons, ih h.2, List.lookup_cons]
      by_cases hkey : key = e.1
      · subst hkey
        have hnone : entries.lookup e.1 = none := by
          rw [List.lookup_eq_none_iff]
          intro e' he'
          exact bne_iff_ne.2 fun heq => h.1 (heq ▸ List.mem_map_of_mem he')
        rw [hnone, get?_insert_self, beq_self_eq_true]
        rfl
      · rw [get?_insert_of_ne _ (Ne.symm hkey), beq_eq_false_iff_ne.2 hkey]

/-- It does not matter in which order entries with different keys are put into a
map. -/
theorem ofList_eq_of_perm (hperm : entries.Perm entries')
    (h : (entries.map (·.1)).Nodup) :
    ofList entries = ofList entries' := by
  refine ext_get? fun key => ?_
  rw [ofList, ofList, get?_foldl_insert h,
    get?_foldl_insert ((hperm.map _).nodup_iff.1 h), lookup_eq_of_perm hperm h]

end SortedMap

namespace Yaml.Value

/-! ## Values in another order -/

/-- Values without repeated keys that differ in the order of the entries of
maps. -/
inductive Reordered : Value → Value → Prop where
  | atom (a : Atom) : Reordered (.atom a) (.atom a)
  | sequence {items items' : List Value}
      (h : List.Forall₂ Reordered items items') :
      Reordered (.sequence items) (.sequence items')
  | map {entries between entries' : List (Value × Value)}
      (hdistinct : (entries.map (·.1)).Nodup) (hperm : entries.Perm between)
      (hkeys : List.Forall₂ Reordered (between.map (·.1)) (entries'.map (·.1)))
      (hvalues : List.Forall₂ Reordered (between.map (·.2))
        (entries'.map (·.2))) :
      Reordered (.map entries) (.map entries')

/-- The keys and the values of two entries differ in the order of the entries of
maps. -/
def EntryReordered (e e' : Value × Value) :
    Prop := e.1.Reordered e'.1 ∧ e.2.Reordered e'.2

/-- There is nothing in a value that could be reordered. -/
def Rigid (v : Value) : Prop := ∀ v', v.Reordered v' → v' = v

variable {v v' : Value} {β : Type}

theorem rigid_atom (a : Atom) : Rigid (.atom a) := by
  intro v' h
  cases h
  rfl

theorem rigid_sequence {items : List Value} (h : ∀ v ∈ items, v.Rigid) :
    Rigid (.sequence items) := by
  intro v' hv'
  cases hv' with
  | sequence hitems =>
      refine congrArg Value.sequence ?_
      induction hitems with
      | nil => rfl
      | cons hitem _ ih =>
          rw [h _ List.mem_cons_self _ hitem, ih fun v hv =>
            h v (List.mem_cons_of_mem _ hv)]

theorem IsText.rigid {s : String} (h : v.IsText s) : v.Rigid := by
  rw [IsText] at h
  rw [h]
  exact rigid_atom _

theorem IsFlag.rigid {b : Bool} (h : v.IsFlag b) : v.Rigid := by
  rw [IsFlag] at h
  rw [h]
  exact rigid_atom _

theorem IsTexts.rigid {items : List String} (h : v.IsTexts items) :
    v.Rigid := by
  rw [IsTexts] at h
  rw [h]
  refine rigid_sequence fun v hv => ?_
  obtain ⟨s, -, rfl⟩ := List.mem_map.1 hv
  exact rigid_atom _

theorem IsNullOr.rigid {R : Value → β → Prop} {b : Option β}
    (h : v.IsNullOr R b) (hR : ∀ b, R v b → v.Rigid) : v.Rigid := by
  cases b with
  | none =>
      rw [IsNullOr] at h
      rw [h]
      exact rigid_atom _
  | some b => exact hR b h.2

theorem rigid_of_readFieldName {names : List String} {found : Option String}
    (h : readFieldName names v = .ok found) : v.Rigid := by
  cases v with
  | atom a => exact rigid_atom a
  | sequence items => cases h
  | map entries => cases h

theorem FieldIs.unique {R : Value → β → Prop} {default b c : β}
    {o : Option Value} (h : FieldIs R default o b) (h' : FieldIs R default o c)
    (hR : ∀ v b c, R v b → R v c → b = c) : b = c := by
  cases o with
  | none => exact Eq.trans h (Eq.symm h')
  | some v => exact hR v b c h h'

end Yaml.Value

open Yaml (Complaint Source Value)
open Yaml.Value

namespace Yaml.Source

/-! ## Entries in another order -/

variable {ρ : Type} {names : List String}
  {set : String → Value → ρ → Except Complaint ρ}
  {entries entries' : List (Value × Value)} {seen : List String} {r r' : ρ}

/-- A way to set fields that minds neither what it sets them in nor the order
inside values. -/
structure Steady (names : List String)
    (set : String → Value → ρ → Except Complaint ρ) : Prop where
  any : ∀ name ∈ names, ∀ v r r' s, set name v r = .ok r' →
    ∃ s', set name v s = .ok s'
  reordered : ∀ name ∈ names,
    ∀ v v' r r', v.Reordered v' → set name v r = .ok r' → set name v' r = .ok r'

theorem mem_of_readFieldName {v : Value} {name : String}
    (h : readFieldName names v = .ok (some name)) : name ∈ names := by
  unfold readFieldName at h
  split at h
  · next s =>
      split at h
      · next hs =>
          cases h
          simpa using hs
      · cases h
  · split at h
    · exact List.mem_of_getElem? (Except.ok.inj h)
    · cases h
  · cases h

theorem foldFields_of_forall₂ (hset : Steady names set)
    (hentries : List.Forall₂ EntryReordered entries entries')
    (h : foldFields names set entries seen r = .ok r') :
    foldFields names set entries' seen r = .ok r' := by
  induction hentries generalizing seen r with
  | nil => exact h
  | @cons e e' _ _ he _ ih =>
      obtain ⟨key, value⟩ := e
      obtain ⟨key', value'⟩ := e'
      obtain ⟨hkey, hvalue⟩ := he
      obtain ⟨found, hfound, h⟩ := of_bind_ok h
      obtain rfl : key' = key := rigid_of_readFieldName hfound key' hkey
      have hname : readFieldName names key' = .ok found := hfound
      show (readFieldName names key' >>= _) = _
      rw [hname]
      cases found with
      | none =>
          obtain ⟨-, -, h⟩ := of_bind_ok h
          exact ih h
      | some name =>
          dsimp only at h
          split at h
          · cases h
          · next hnew =>
              obtain ⟨r₁, hr₁, h⟩ := of_bind_ok h
              have hr₁' := hset.reordered name (mem_of_readFieldName hname) _ _
                _ _ hvalue hr₁
              show (if seen.contains name = true then _ else _) = _
              rw [if_neg hnew]
              show (set name value' r >>= _) = _
              rw [hr₁']
              exact ih h

/-- Every key that has been passed names a field or is one for others. -/
theorem keys_of_foldFields (h : foldFields names set entries seen r = .ok r') :
    ∀ e ∈ entries, ∃ found, readFieldName names e.1 = .ok found := by
  induction entries generalizing seen r with
  | nil => exact nofun
  | cons e entries ih =>
      obtain ⟨found, hfound, h⟩ := of_bind_ok h
      intro e' he'
      rcases List.mem_cons.1 he' with rfl | he'
      · exact ⟨found, hfound⟩
      · cases found with
        | none =>
            obtain ⟨-, -, h⟩ := of_bind_ok h
            exact ih h e' he'
        | some name =>
            dsimp only at h
            split at h
            · cases h
            · obtain ⟨r₁, -, h⟩ := of_bind_ok h
              exact ih h e' he'

theorem exists_of_foldlM {fields : List (String × Value)}
    (h : fields.foldlM (fun r f => set f.1 f.2 r) r = .ok r') :
    ∀ f ∈ fields, ∃ a b, set f.1 f.2 a = .ok b := by
  induction fields generalizing r with
  | nil => exact nofun
  | cons f fields ih =>
      obtain ⟨r₁, hset, h⟩ := of_bind_ok h
      intro f' hf'
      rcases List.mem_cons.1 hf' with rfl | hf'
      · exact ⟨r, r₁, hset⟩
      · exact ih h f' hf'

/-- Fields are set if all keys can be read, no field comes twice, and each can
be set whatever it is set in. -/
theorem exists_foldFields
    (hkeys : ∀ e ∈ entries, ∃ found, readFieldName names e.1 = .ok found)
    (hnodup : ((namedFields names entries).map (·.1)).Nodup)
    (hseen : ∀ f ∈ namedFields names entries, f.1 ∉ seen)
    (hset : ∀ f ∈ namedFields names entries, ∀ r, ∃ r', set f.1 f.2 r = .ok r')
    (r : ρ) :
    ∃ r', foldFields names set entries seen r = .ok r' := by
  induction entries generalizing seen r with
  | nil => exact ⟨r, rfl⟩
  | cons e entries ih =>
      obtain ⟨key, value⟩ := e
      obtain ⟨found, hfound⟩ := hkeys (key, value) List.mem_cons_self
      have hrest :
          ∀ e ∈ entries, ∃ found, readFieldName names e.1 = .ok found :=
        fun e he => hkeys e (List.mem_cons_of_mem _ he)
      show ∃ r', (readFieldName names key >>= _) = _
      rw [hfound]
      cases found with
      | none =>
          rw [namedFields_cons_none hfound] at hnodup hseen hset
          exact ih hrest hnodup hseen hset r
      | some name =>
          rw [namedFields_cons_some hfound] at hnodup hseen hset
          rw [List.map_cons, List.nodup_cons] at hnodup
          obtain ⟨r₁, hr₁⟩ := hset (name, value) List.mem_cons_self r
          have hnew : ¬ seen.contains name = true := by
            simpa using hseen (name, value) List.mem_cons_self
          -- A later field is not this one, since no field comes twice.
          have hseen' : ∀ f ∈ namedFields names entries,
              f.1 ∉ name :: seen := by
            intro f hf hmem
            rcases List.mem_cons.1 hmem with heq | hmem
            · exact hnodup.1 (List.mem_map.2 ⟨f, hf, heq⟩)
            · exact hseen f (List.mem_cons_of_mem _ hf) hmem
          obtain ⟨r', hr'⟩ := ih hrest hnodup.2 hseen'
            (fun f hf => hset f (List.mem_cons_of_mem _ hf)) r₁
          refine ⟨r', ?_⟩
          show (if seen.contains name = true then _ else _) = _
          rw [if_neg hnew]
          show (set name value r >>= _) = _
          rw [hr₁]
          exact hr'

/-- Entries in another order set the same fields. -/
theorem foldFields_of_perm (hset : Steady names set)
    (hperm : entries.Perm entries')
    (h : foldFields names set entries [] r = .ok r') :
    (∃ r'', foldFields names set entries' [] r = .ok r'') ∧
      ∀ name, (namedFields names entries).lookup name =
        (namedFields names entries').lookup name := by
  obtain ⟨hfold, hnodup, -⟩ := foldFields_cases h
  have hfields :
      (namedFields names entries).Perm (namedFields names entries') :=
    hperm.filterMap _
  refine ⟨?_, lookup_eq_of_perm hfields hnodup⟩
  refine exists_foldFields ?_ ((hfields.map _).nodup_iff.1 hnodup)
    (fun _ _ => List.not_mem_nil) ?_ r
  · exact fun e he => keys_of_foldFields h e (hperm.mem_iff.2 he)
  · intro f hf s
    have hf := hfields.mem_iff.2 hf
    obtain ⟨a, b, hab⟩ := exists_of_foldlM hfold f hf
    exact hset.any f.1 (mem_of_mem_namedFields hf) _ _ _ s hab

end Yaml.Source

/-! ## Records as lists of fields -/

/-- What is read for a field does not depend on the order inside values. -/
def RecordField.Steady {ρ : Type} (f : RecordField ρ) : Prop :=
  ∀ v v' b, v.Reordered v' → f.read v = .ok b → f.read v' = .ok b

section

variable {ρ : Type} {β : Type} {read : Value → Except Complaint β}
  {name : String} {get : ρ → β} {put : β → ρ → ρ}

/-- Where a field is read only from what is rigid, there is no order to mind. -/
theorem RecordField.steady_of_rigid (h : ∀ v b, read v = .ok b → v.Rigid) :
    (RecordField.mk name read get put).Steady := by
  intro v v' b hv hb
  obtain rfl := h v b hb v' hv
  exact hb

end

namespace RecordField

variable {ρ : Type} {name : String}

theorem steady_text {get : ρ → String} {put : String → ρ → ρ} :
    (text name get put).Steady :=
  steady_of_rigid fun _ _ h => (isText_of_readText h).rigid

theorem steady_optionalText {get : ρ → Option String}
    {put : Option String → ρ → ρ} : (optionalText name get put).Steady :=
  steady_of_rigid fun _ _ h =>
    (isNullOr_of_readOptional (fun _ => isText_of_readText) h).rigid
      fun _ => IsText.rigid

theorem steady_optionalFlag {get : ρ → Option Bool}
    {put : Option Bool → ρ → ρ} : (optionalFlag name get put).Steady :=
  steady_of_rigid fun _ _ h =>
    (isNullOr_of_readOptional (fun _ => isFlag_of_readFlag) h).rigid
      fun _ => IsFlag.rigid

theorem steady_texts {get : ρ → List String} {put : List String → ρ → ρ} :
    (texts name get put).Steady :=
  steady_of_rigid fun _ _ h => (isTexts_of_readItems h).rigid

theorem steady_optionalTexts {get : ρ → Option (List String)}
    {put : Option (List String) → ρ → ρ} :
    (optionalTexts name get put).Steady :=
  steady_of_rigid fun _ _ h =>
    (isNullOr_of_readOptional (fun _ => isTexts_of_readItems) h).rigid
      fun _ => IsTexts.rigid

end RecordField

namespace SetsFields

variable {ρ : Type} {fields : List (RecordField ρ)} {names : List String}
  {set : String → Value → ρ → Except Complaint ρ}
  {entries entries' : List (Value × Value)} {r r' : ρ}

theorem steady (h : SetsFields fields names set)
    (hsteady : ∀ f ∈ fields, f.Steady) : Source.Steady names set where
  any := by
    intro name hname v r r' s hset
    obtain ⟨f, hf, rfl, b, hb, -⟩ := h.set_cases hname hset
    rw [h.set_eq f hf, hb]
    exact ⟨_, rfl⟩
  reordered := by
    intro name hname v v' r r' hv hset
    obtain ⟨f, hf, rfl, b, hb, rfl⟩ := h.set_cases hname hset
    rw [h.set_eq f hf, hsteady f hf v v' b hv hb]
    rfl

/-- A record is read the same from entries in another order: what is written for
its fields is the same, and that is all there is to it. -/
theorem foldFields_of_reorders (h : SetsFields fields names set)
    (hsteady : ∀ f ∈ fields, f.Steady)
    (hentries : Reorders EntryReordered entries entries')
    (hfold : Source.foldFields names set entries [] r = .ok r') :
    Source.foldFields names set entries' [] r = .ok r' := by
  have hset := h.steady hsteady
  obtain ⟨between, hperm, hall⟩ := hentries
  obtain ⟨⟨r'', hfold'⟩, hsame⟩ := Source.foldFields_of_perm hset hperm hfold
  obtain rfl : r' = r'' := by
    refine h.ext r' r'' fun f hf => ?_
    have hget := h.fieldIs hf (fun name _ => hsame name) hfold
    have hget' := h.fieldIs hf (fun _ _ => rfl) hfold'
    exact hget.unique hget' fun v b c hb hc => Except.ok.inj (hb.symm.trans hc)
  exact Source.foldFields_of_forall₂ hset hall hfold'

end SetsFields

/-! ## Records -/

section

variable {entries entries' : List (Value × Value)}

namespace PipelineSpec

theorem readFields_of_reorders {s : PipelineSpec}
    (hentries : Reorders EntryReordered entries entries')
    (h : readFields entries = Except.ok (ε := Complaint) s) :
    readFields entries' = Except.ok (ε := Complaint) s := by
  refine setsFields.foldFields_of_reorders ?_ hentries h
  simp [recordFields, RecordField.steady_text, RecordField.steady_optionalText,
    RecordField.steady_texts, RecordField.steady_optionalTexts]

end PipelineSpec

namespace PushConditions

theorem readFields_of_reorders {c : PushConditions}
    (hentries : Reorders EntryReordered entries entries')
    (h : readFields entries = Except.ok (ε := Complaint) c) :
    readFields entries' = Except.ok (ε := Complaint) c := by
  refine setsFields.foldFields_of_reorders ?_ hentries h
  simp [recordFields, RecordField.steady_texts]

end PushConditions

namespace PullRequestConditions

theorem readFields_of_reorders {c : PullRequestConditions}
    (hentries : Reorders EntryReordered entries entries')
    (h : readFields entries = Except.ok (ε := Complaint) c) :
    readFields entries' = Except.ok (ε := Complaint) c := by
  refine setsFields.foldFields_of_reorders ?_ hentries h
  simp [recordFields, RecordField.steady_texts]

end PullRequestConditions

namespace CommentConditions

theorem readFields_of_reorders {c : CommentConditions}
    (hentries : Reorders EntryReordered entries entries')
    (h : readFields entries = Except.ok (ε := Complaint) c) :
    readFields entries' = Except.ok (ε := Complaint) c := by
  refine setsFields.foldFields_of_reorders ?_ hentries h
  simp [recordFields, RecordField.steady_texts]

end CommentConditions

namespace DispatchInput

variable {input : DispatchInput} {v v' : Value}

theorem recordFields_steady : ∀ f ∈ recordFields, f.Steady := by
  simp only [recordFields, List.forall_mem_cons]
  refine ⟨?_, RecordField.steady_optionalFlag, RecordField.steady_optionalText,
    RecordField.steady_optionalText, by simp⟩
  refine RecordField.steady_of_rigid fun v b h => ?_
  obtain ⟨s, hs, -⟩ := of_map_ok h
  exact (isText_of_readText hs).rigid

theorem readFields_of_reorders
    (hentries : Reorders EntryReordered entries entries')
    (h : readFields entries = Except.ok (ε := Complaint) input) :
    readFields entries' = Except.ok (ε := Complaint) input := by
  obtain ⟨i, hi, h⟩ := of_bind_ok h
  have hi' :=
    setsFields.foldFields_of_reorders recordFields_steady hentries hi
  unfold readFields
  rw [hi']
  exact h

theorem forall₂_zipWith {names : List String} {items items' : List Value}
    (h : List.Forall₂ Value.Reordered items items') :
    List.Forall₂ EntryReordered
      (List.zipWith (fun name item => (.atom (.text name), item)) names items)
      (List.zipWith (fun name item => (.atom (.text name), item)) names
        items') := by
  induction names generalizing items items' with
  | nil => exact .nil
  | cons name names ih =>
      cases h with
      | nil => exact .nil
      | cons hitem hitems => exact .cons ⟨.atom _, hitem⟩ (ih hitems)

/-- An input is read the same in another order. One that is given as a sequence
has no order to lose, except inside its items, and those are rigid. -/
theorem read_of_reordered (hv : v.Reordered v')
    (h : read v = Except.ok (ε := Complaint) input) :
    read v' = Except.ok (ε := Complaint) input := by
  cases hv with
  | atom a => exact h
  | map hdistinct hperm hkeys hvalues =>
      exact readFields_of_reorders ⟨_, hperm, forall₂_pairs.2 ⟨hkeys, hvalues⟩⟩
        h
  | @sequence items items' hitems =>
      cases hitems with
      | nil => exact h
      | cons hitem hitems =>
          obtain ⟨input', hread, h⟩ := of_bind_ok h
          have hall := List.Forall₂.cons hitem hitems
          have hread' :=
            readFields_of_reorders ⟨_, .refl _, forall₂_zipWith hall⟩ hread
          show (Except.bind (readFields _) _ : Except Complaint DispatchInput) =
            _
          rw [hread', ← hall.length_eq]
          exact h

end DispatchInput

namespace DispatchConditions

variable {v v' : Value}

theorem readFields_perm_of_reordered
    {definitions : List (String × DispatchInput)} (hv : v.Reordered v')
    (h : Value.readFields DispatchInput.read v = .ok definitions) :
    ∃ definitions', Value.readFields DispatchInput.read v' = .ok definitions' ∧
      definitions.Perm definitions' ∧ (definitions.map (·.1)).Nodup := by
  cases hv with
  | atom a => cases h
  | sequence => cases h
  | @map entries between entries' hdistinct hperm hkeys hvalues =>
      have hall := forall₂_of_mapM_ok h
      obtain ⟨definitions', hbetween, hperm'⟩ :=
        List.perm_comp_forall₂ hperm.symm hall
      refine ⟨definitions', mapM_ok_of_forall₂ ?_, hperm'.symm, ?_⟩
      · refine forall₂_comp (forall₂_pairs.2 ⟨hkeys, hvalues⟩).flip hbetween ?_
        rintro ⟨key', value'⟩ ⟨key, value⟩ x ⟨hkey, hvalue⟩ hx
        obtain ⟨name, hname, hnamed⟩ := of_bind_ok hx
        obtain ⟨input, hinput, hpair⟩ := of_bind_ok hnamed
        -- What can be read as a name is an atom, and an atom has no other
        -- order.
        obtain rfl : key' = key := (isText_of_readText hname).rigid key' hkey
        have hinput' := DispatchInput.read_of_reordered hvalue hinput
        show (readText key' >>= fun key => _) = _
        rw [hname]
        show (DispatchInput.read value' >>= fun input => _) = _
        rw [hinput']
        exact hpair
      · have hkeys : entries.map (·.1) = definitions.map fun x =>
            .atom (.text x.1) := by
          rw [← List.forall₂_eq_eq_eq, List.forall₂_map_left_iff,
            List.forall₂_map_right_iff]
          refine hall.imp fun e x hx => ?_
          obtain ⟨name, hname, hx⟩ := of_bind_ok hx
          obtain ⟨input, -, hx⟩ := of_bind_ok hx
          cases hx
          exact isText_of_readText hname
        rw [hkeys] at hdistinct
        refine List.Nodup.of_map (fun name => (.atom (.text name) : Value)) ?_
        rwa [List.map_map]

theorem recordFields_steady : ∀ f ∈ recordFields, f.Steady := by
  simp only [recordFields, List.forall_mem_cons]
  refine ⟨fun v v' b hv h => ?_, by simp⟩
  obtain ⟨definitions, hread, rfl⟩ := of_map_ok h
  obtain ⟨definitions', hread', hperm, hnodup⟩ :=
    readFields_perm_of_reordered hv hread
  show SortedMap.ofList <$> Value.readFields DispatchInput.read v' = _
  rw [hread', SortedMap.ofList_eq_of_perm hperm hnodup]
  rfl

theorem readFields_of_reorders {c : DispatchConditions}
    (hentries : Reorders EntryReordered entries entries')
    (h : readFields entries = Except.ok (ε := Complaint) c) :
    readFields entries' = Except.ok (ε := Complaint) c :=
  setsFields.foldFields_of_reorders recordFields_steady hentries h

end DispatchConditions

end

end DaggerWorkflows
