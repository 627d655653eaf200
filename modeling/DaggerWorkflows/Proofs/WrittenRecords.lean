import DaggerWorkflows.Manifest.Records
import DaggerWorkflows.Proofs.Outcomes
import DaggerWorkflows.Yaml.Source.OfValue

/-!
# Records and what is written for their fields

A reader goes through the entries of a mapping and changes one field of a record
for each. What the record is in the end is told here field by field: it has what
is written for the field, or else what it had to begin with. That is shown once
(`SetsFields.fieldIs`) for whatever record is a list of fields (`RecordField`),
each with its reader, and needs of the record only that a step sets the field
it is for (`SetsFields`); `Source.foldFields_cases` says of all steps that they
are one for each field, and that no field is written twice.
-/

namespace DaggerWorkflows

open Yaml (Complaint Source Value)

namespace Yaml.Value

/-! ## What a value says -/

def IsText (v : Value) (s : String) : Prop := v = .atom (.text s)

def IsFlag (v : Value) (b : Bool) : Prop := v = .atom (.bool b)

def IsTexts (v : Value) (items : List String) : Prop :=
  v = .sequence (items.map fun s => .atom (.text s))

/-- A value is null for nothing, or else says something. -/
def IsNullOr {β : Type} (R : Value → β → Prop) (v : Value) : Option β → Prop
  | none => v = .atom .null
  | some b => v ≠ .atom .null ∧ R v b

variable {β : Type} {v : Value}

theorem isText_of_readText {s : String} (h : readText v = .ok s) :
    v.IsText s := by
  unfold readText at h
  split at h
  · cases h
    rfl
  · cases h

theorem isFlag_of_readFlag {b : Bool} (h : readFlag v = .ok b) :
    v.IsFlag b := by
  unfold readFlag at h
  split at h
  · cases h
    rfl
  · cases h

theorem isNullOr_of_readOptional {R : Value → β → Prop}
    {read : Value → Except Complaint β} {b : Option β}
    (hread : ∀ b, read v = .ok b → R v b) (h : readOptional read v = .ok b) :
    v.IsNullOr R b := by
  unfold readOptional at h
  split at h
  · cases h
    rfl
  · next hnull =>
      obtain ⟨b, hb, rfl⟩ := of_map_ok h
      exact ⟨hnull, hread b hb⟩

theorem isTexts_of_readItems {items : List String}
    (h : readItems readText v = .ok items) :
    v.IsTexts items := by
  unfold readItems at h
  split at h
  · next values =>
      have hall := forall₂_of_mapM_ok h
      refine congrArg Value.sequence ?_
      clear h
      induction hall with
      | nil => rfl
      | cons hs _ ih => rw [List.map_cons, ← ih, isText_of_readText hs]
  · cases h

/-! ## Fields -/

/-- A field is what is written for it, or else its default. -/
def FieldIs (R : Value → β → Prop) (default : β) : Option Value → β → Prop
  | none, b => b = default
  | some v, b => R v b

/-- The field that a key is for: it has the name or the position of the
field. -/
def named? (names : List String) : Value → Option String
  | .atom (.text s) => if s ∈ names then some s else none
  | .atom (.integer n) => if 0 ≤ n then names[n.toNat]? else none
  | _ => none

/-- What is written for the fields of a record. -/
def namedFields (names : List String) (entries : List (Value × Value)) :
    List (String × Value) :=
  entries.filterMap fun e => (named? names e.1).map (·, e.2)

theorem namedFields_zipWith {names names' : List String}
    (h : ∀ name ∈ names', name ∈ names) {items : List Value} :
    namedFields names
      (List.zipWith (fun name item => (.atom (.text name), item)) names'
        items) = names'.zip items := by
  induction names' generalizing items with
  | nil => rfl
  | cons name names' ih =>
      cases items with
      | nil => rfl
      | cons item items =>
          have hname : named? names (.atom (.text name)) = some name :=
            if_pos (h name (by simp))
          rw [List.zip_cons_cons, ← ih fun name hname =>
            h name (List.mem_cons_of_mem _ hname)]
          exact List.filterMap_cons_some (by rw [hname]; rfl)

theorem named?_of_readFieldName {names : List String} {found : Option String}
    (h : readFieldName names v = .ok found) : named? names v = found := by
  unfold readFieldName at h
  split at h
  · cases h
    simp [named?]
  · next n =>
      split at h
      · next hn =>
          cases h
          simp [named?, hn]
      · cases h
  · cases h

theorem namedFields_cons_none {names : List String} {key : Value}
    (h : readFieldName names key = .ok none) (entries : List (Value × Value)) :
    namedFields names ((key, v) :: entries) = namedFields names entries :=
  List.filterMap_cons_none (by rw [named?_of_readFieldName h]; rfl)

theorem namedFields_cons_some {names : List String} {key : Value}
    {name : String} (h : readFieldName names key = .ok (some name))
    (entries : List (Value × Value)) :
    namedFields names ((key, v) :: entries) =
      (name, v) :: namedFields names entries :=
  List.filterMap_cons_some (by rw [named?_of_readFieldName h]; rfl)

end Yaml.Value

open Yaml.Value

namespace Yaml.Source

variable {ρ : Type} {names : List String}
  {set : String → Value → ρ → Except Complaint ρ}

/-- Fields are set one after the other, and none of them twice. -/
theorem foldFields_cases {entries : List (Value × Value)} {seen : List String}
    {r r' : ρ} (h : foldFields names set entries seen r = .ok r') :
    (namedFields names entries).foldlM (fun r f => set f.1 f.2 r) r = .ok r' ∧
      ((namedFields names entries).map (·.1)).Nodup ∧
      ∀ f ∈ namedFields names entries, f.1 ∉ seen := by
  induction entries generalizing seen r with
  | nil => exact ⟨h, .nil, nofun⟩
  | cons e entries ih =>
      obtain ⟨key, value⟩ := e
      obtain ⟨found, hfound, h⟩ := of_bind_ok h
      cases found with
      | none =>
          rw [namedFields_cons_none hfound]
          obtain ⟨-, -, h⟩ := of_bind_ok h
          exact ih h
      | some name =>
          rw [namedFields_cons_some hfound]
          dsimp only at h
          split at h
          · cases h
          · next hnew =>
              obtain ⟨r₁, hset, h⟩ := of_bind_ok h
              obtain ⟨hfold, hnodup, hseen⟩ := ih h
              refine ⟨?_, ?_, fun f hf => ?_⟩
              · rw [List.foldlM_cons, hset]
                exact hfold
              · rw [List.map_cons, List.nodup_cons]
                refine ⟨fun hname => ?_, hnodup⟩
                obtain ⟨f, hf, rfl⟩ := List.mem_map.1 hname
                exact hseen f hf List.mem_cons_self
              · rcases List.mem_cons.1 hf with rfl | hf
                · simpa using hnew
                · exact fun hmem => hseen f hf (List.mem_cons_of_mem _ hmem)

theorem mem_of_mem_namedFields {entries : List (Value × Value)}
    {f : String × Value} (h : f ∈ namedFields names entries) : f.1 ∈ names := by
  obtain ⟨e, -, hf⟩ := List.mem_filterMap.1 h
  obtain ⟨name, hname, rfl⟩ := Option.map_eq_some_iff.1 hf
  unfold named? at hname
  split at hname
  · split at hname
    · next hs =>
        cases hname
        exact hs
    · cases hname
  · split at hname
    · exact List.mem_of_getElem? hname
    · cases hname
  · cases hname

end Yaml.Source

/-! ## Records as lists of fields -/

/-- A field of a record: how a value is read for it, and where it is in the
record. -/
structure RecordField (ρ : Type) where
  name : String
  {β : Type}
  read : Value → Except Complaint β
  get : ρ → β
  put : β → ρ → ρ

namespace RecordField

variable {ρ : Type}

def text (name : String) : (ρ → String) → (String → ρ → ρ) → RecordField ρ :=
  mk name readText

def optionalText (name : String) :
    (ρ → Option String) → (Option String → ρ → ρ) → RecordField ρ :=
  mk name (readOptional readText)

def optionalFlag (name : String) :
    (ρ → Option Bool) → (Option Bool → ρ → ρ) → RecordField ρ :=
  mk name (readOptional readFlag)

def texts (name : String) :
    (ρ → List String) → (List String → ρ → ρ) → RecordField ρ :=
  mk name (readItems readText)

def optionalTexts (name : String) :
    (ρ → Option (List String)) → (Option (List String) → ρ → ρ) →
      RecordField ρ :=
  mk name (readOptional (readItems readText))

end RecordField

/-- A record has these fields and no others, and a step sets the field it is
for to what is read for it. -/
structure SetsFields {ρ : Type} (fields : List (RecordField ρ))
    (names : List String) (set : String → Value → ρ → Except Complaint ρ) :
    Prop where
  names_eq : fields.map (·.name) = names
  set_eq : ∀ f ∈ fields, ∀ v r,
    set f.name v r = f.read v >>= fun b => .ok (f.put b r)
  get_put : ∀ f ∈ fields, ∀ b r, f.get (f.put b r) = b
  get_put_of_ne : ∀ f ∈ fields, ∀ g ∈ fields, f.name ≠ g.name →
    ∀ b r, g.get (f.put b r) = g.get r
  ext : ∀ r r', (∀ f ∈ fields, f.get r = f.get r') → r = r'

theorem Yaml.Value.FieldIs.imp {β : Type} {R S : Value → β → Prop}
    {default b : β} {o : Option Value} (h : FieldIs R default o b)
    (hRS : ∀ v b, R v b → S v b) : FieldIs S default o b := by
  cases o with
  | none => exact h
  | some v => exact hRS v b h

namespace SetsFields

variable {ρ : Type} {fields : List (RecordField ρ)} {names : List String}
  {set : String → Value → ρ → Except Complaint ρ} {f : RecordField ρ}
  {name : String} {v : Value} {r r' : ρ} {written : List (String × Value)}

theorem name_mem (h : SetsFields fields names set) (hf : f ∈ fields) :
    f.name ∈ names :=
  h.names_eq ▸ List.mem_map_of_mem hf

theorem set_cases (h : SetsFields fields names set) (hname : name ∈ names)
    (hset : set name v r = .ok r') :
    ∃ f ∈ fields, f.name = name ∧ ∃ b, f.read v = .ok b ∧ r' = f.put b r := by
  rw [← h.names_eq] at hname
  obtain ⟨f, hf, rfl⟩ := List.mem_map.1 hname
  rw [h.set_eq f hf] at hset
  obtain ⟨b, hb, hset⟩ := of_bind_ok hset
  cases hset
  exact ⟨f, hf, rfl, b, hb, rfl⟩

theorem get_cases (h : SetsFields fields names set) (hf : f ∈ fields)
    (hname : name ∈ names) (hset : set name v r = .ok r') :
    if name = f.name then f.read v = .ok (f.get r')
    else f.get r' = f.get r := by
  split
  · next heq =>
      subst heq
      rw [h.set_eq f hf] at hset
      obtain ⟨b, hb, hset⟩ := of_bind_ok hset
      cases hset
      rw [h.get_put f hf]
      exact hb
  · next hne =>
      obtain ⟨g, hg, rfl, b, -, rfl⟩ := h.set_cases hname hset
      exact h.get_put_of_ne g hg f hf hne b r

/-- A field for which nothing is written stays as it is. -/
theorem get_eq_of_foldlM (h : SetsFields fields names set) (hf : f ∈ fields)
    (hnames : ∀ w ∈ written, w.1 ∈ names) (hname : f.name ∉ written.map (·.1))
    (hfold : written.foldlM (fun r w => set w.1 w.2 r) r = .ok r') :
    f.get r' = f.get r := by
  induction written generalizing r with
  | nil =>
      cases hfold
      rfl
  | cons w written ih =>
      obtain ⟨r₁, hset, hfold⟩ := of_bind_ok hfold
      rw [List.forall_mem_cons] at hnames
      rw [List.map_cons, List.mem_cons, not_or] at hname
      have hfirst := h.get_cases hf hnames.1 hset
      rw [if_neg (Ne.symm hname.1)] at hfirst
      rw [ih hnames.2 hname.2 hfold, hfirst]

/-- A field has what is read for it, or else what it had. -/
theorem fieldIs_of_foldlM (h : SetsFields fields names set) (hf : f ∈ fields)
    (hnames : ∀ w ∈ written, w.1 ∈ names) (hnodup : (written.map (·.1)).Nodup)
    (hfold : written.foldlM (fun r w => set w.1 w.2 r) r = .ok r') :
    FieldIs (fun v b => f.read v = .ok b) (f.get r) (written.lookup f.name)
      (f.get r') := by
  induction written generalizing r with
  | nil =>
      cases hfold
      rfl
  | cons w written ih =>
      obtain ⟨name, value⟩ := w
      obtain ⟨r₁, hset, hfold⟩ := of_bind_ok hfold
      rw [List.forall_mem_cons] at hnames
      rw [List.map_cons, List.nodup_cons] at hnodup
      have hfirst := h.get_cases hf hnames.1 hset
      by_cases hname : name = f.name
      · rw [if_pos hname] at hfirst
        rw [hname, List.lookup_cons_self]
        show f.read value = .ok (f.get r')
        rw [h.get_eq_of_foldlM hf hnames.2 (hname ▸ hnodup.1) hfold]
        exact hfirst
      · rw [if_neg hname] at hfirst
        rw [List.lookup_cons, beq_eq_false_iff_ne.2 (Ne.symm hname), ← hfirst]
        exact ih hnames.2 hnodup.2 hfold

theorem fieldIs {entries : List (Value × Value)}
    (h : SetsFields fields names set) (hf : f ∈ fields)
    (hsame : ∀ name ∈ names,
      (namedFields names entries).lookup name = written.lookup name)
    (hfold : Source.foldFields names set entries [] r = .ok r') :
    FieldIs (fun v b => f.read v = .ok b) (f.get r) (written.lookup f.name)
      (f.get r') := by
  obtain ⟨hfold, hnodup, -⟩ := Source.foldFields_cases hfold
  rw [← hsame f.name (h.name_mem hf)]
  exact h.fieldIs_of_foldlM hf (fun _ => Source.mem_of_mem_namedFields) hnodup
    hfold

end SetsFields

/-! ## Records -/

section

variable {v : Value} {entries : List (Value × Value)}
  {fields : List (String × Value)}

namespace PipelineSpec

/-- A description of what is written for its fields. -/
structure IsWritten (fields : List (String × Value)) (s : PipelineSpec) :
    Prop where
  command : FieldIs IsText "" (fields.lookup "command") s.command
  module : FieldIs (IsNullOr IsText) none (fields.lookup "module") s.module
  runner : FieldIs (IsNullOr IsText) none (fields.lookup "runner") s.runner
  secrets : FieldIs IsTexts [] (fields.lookup "secrets") s.secrets
  sparseCheckout : FieldIs (IsNullOr IsTexts) none
    (fields.lookup "sparse-checkout") s.sparseCheckout

def recordFields : List (RecordField PipelineSpec) :=
  [.text "command" (·.command) fun x s => { s with command := x },
    .optionalText "module" (·.module) fun x s => { s with module := x },
    .optionalText "runner" (·.runner) fun x s => { s with runner := x },
    .texts "secrets" (·.secrets) fun x s => { s with secrets := x },
    .optionalTexts "sparse-checkout" (·.sparseCheckout)
      fun x s => { s with sparseCheckout := x }]

theorem setsFields : SetsFields recordFields fieldNames readField where
  names_eq := rfl
  set_eq := by
    simp only [recordFields, List.forall_mem_cons]
    exact ⟨fun _ _ => rfl, fun _ _ => rfl, fun _ _ => rfl, fun _ _ => rfl,
      fun _ _ => rfl, by simp⟩
  get_put := by
    simp [recordFields, RecordField.text, RecordField.optionalText,
      RecordField.texts, RecordField.optionalTexts]
  get_put_of_ne := by
    simp [recordFields, RecordField.text, RecordField.optionalText,
      RecordField.texts, RecordField.optionalTexts]
  ext := by
    simp only [recordFields, List.forall_mem_cons]
    rintro ⟨⟩ ⟨⟩ ⟨rfl, rfl, rfl, rfl, rfl, -⟩
    rfl

theorem isWritten_of_readFields {s : PipelineSpec}
    (hsame : ∀ name ∈ fieldNames,
      (namedFields fieldNames entries).lookup name = fields.lookup name)
    (h : readFields entries = Except.ok (ε := Complaint) s) :
    s.IsWritten fields := by
  have hall := fun f hf => setsFields.fieldIs (f := f) hf hsame h
  simp only [recordFields, List.forall_mem_cons] at hall
  obtain ⟨hcommand, hmodule, hrunner, hsecrets, hcheckout, -⟩ := hall
  exact
    { command := hcommand.imp fun _ _ => isText_of_readText
      module := hmodule.imp fun _ _ =>
        isNullOr_of_readOptional fun _ => isText_of_readText
      runner := hrunner.imp fun _ _ =>
        isNullOr_of_readOptional fun _ => isText_of_readText
      secrets := hsecrets.imp fun _ _ => isTexts_of_readItems
      sparseCheckout := hcheckout.imp fun _ _ =>
        isNullOr_of_readOptional fun _ => isTexts_of_readItems }

end PipelineSpec

/-! The conditions of push, pull request and comment are lists of texts. -/

namespace PushConditions

/-- Conditions on a push of what is written for their fields. -/
structure IsWritten (fields : List (String × Value)) (c : PushConditions) :
    Prop where
  branches : FieldIs IsTexts [] (fields.lookup "branches") c.branches
  tags : FieldIs IsTexts [] (fields.lookup "tags") c.tags
  paths : FieldIs IsTexts [] (fields.lookup "paths") c.paths

def recordFields : List (RecordField PushConditions) :=
  [.texts "branches" (·.branches) fun x c => { c with branches := x },
    .texts "tags" (·.tags) fun x c => { c with tags := x },
    .texts "paths" (·.paths) fun x c => { c with paths := x }]

theorem setsFields : SetsFields recordFields fieldNames readField where
  names_eq := rfl
  set_eq := by
    simp only [recordFields, List.forall_mem_cons]
    exact ⟨fun _ _ => rfl, fun _ _ => rfl, fun _ _ => rfl, by simp⟩
  get_put := by simp [recordFields, RecordField.texts]
  get_put_of_ne := by simp [recordFields, RecordField.texts]
  ext := by
    simp only [recordFields, List.forall_mem_cons]
    rintro ⟨⟩ ⟨⟩ ⟨rfl, rfl, rfl, -⟩
    rfl

theorem isWritten_of_readFields {c : PushConditions}
    (hsame : ∀ name ∈ fieldNames,
      (namedFields fieldNames entries).lookup name = fields.lookup name)
    (h : readFields entries = Except.ok (ε := Complaint) c) :
    c.IsWritten fields := by
  have hall := fun f hf => setsFields.fieldIs (f := f) hf hsame h
  simp only [recordFields, List.forall_mem_cons] at hall
  obtain ⟨hbranches, htags, hpaths, -⟩ := hall
  have htexts (v : Value) (x : List String) (hx : readItems readText v = .ok x) :
      v.IsTexts x := isTexts_of_readItems hx
  exact ⟨hbranches.imp htexts, htags.imp htexts, hpaths.imp htexts⟩

end PushConditions

namespace PullRequestConditions

/-- Conditions on a pull request of what is written for their fields. -/
structure IsWritten (fields : List (String × Value))
    (c : PullRequestConditions) :
    Prop where
  branches : FieldIs IsTexts [] (fields.lookup "branches") c.branches
  types : FieldIs IsTexts [] (fields.lookup "types") c.types
  paths : FieldIs IsTexts [] (fields.lookup "paths") c.paths

def recordFields : List (RecordField PullRequestConditions) :=
  [.texts "branches" (·.branches) fun x c => { c with branches := x },
    .texts "types" (·.types) fun x c => { c with types := x },
    .texts "paths" (·.paths) fun x c => { c with paths := x }]

theorem setsFields : SetsFields recordFields fieldNames readField where
  names_eq := rfl
  set_eq := by
    simp only [recordFields, List.forall_mem_cons]
    exact ⟨fun _ _ => rfl, fun _ _ => rfl, fun _ _ => rfl, by simp⟩
  get_put := by simp [recordFields, RecordField.texts]
  get_put_of_ne := by simp [recordFields, RecordField.texts]
  ext := by
    simp only [recordFields, List.forall_mem_cons]
    rintro ⟨⟩ ⟨⟩ ⟨rfl, rfl, rfl, -⟩
    rfl

theorem isWritten_of_readFields {c : PullRequestConditions}
    (hsame : ∀ name ∈ fieldNames,
      (namedFields fieldNames entries).lookup name = fields.lookup name)
    (h : readFields entries = Except.ok (ε := Complaint) c) :
    c.IsWritten fields := by
  have hall := fun f hf => setsFields.fieldIs (f := f) hf hsame h
  simp only [recordFields, List.forall_mem_cons] at hall
  obtain ⟨hbranches, htypes, hpaths, -⟩ := hall
  have htexts (v : Value) (x : List String) (hx : readItems readText v = .ok x) :
      v.IsTexts x := isTexts_of_readItems hx
  exact ⟨hbranches.imp htexts, htypes.imp htexts, hpaths.imp htexts⟩

end PullRequestConditions

namespace CommentConditions

/-- Conditions on a comment of what is written for their fields. -/
structure IsWritten (fields : List (String × Value)) (c : CommentConditions) :
    Prop where
  types : FieldIs IsTexts [] (fields.lookup "types") c.types

def recordFields : List (RecordField CommentConditions) :=
  [.texts "types" (·.types) fun x c => { c with types := x }]

theorem setsFields : SetsFields recordFields fieldNames readField where
  names_eq := rfl
  set_eq := by
    simp only [recordFields, List.forall_mem_cons]
    exact ⟨fun _ _ => rfl, by simp⟩
  get_put := by simp [recordFields, RecordField.texts]
  get_put_of_ne := by simp [recordFields, RecordField.texts]
  ext := by
    simp only [recordFields, List.forall_mem_cons]
    rintro ⟨⟩ ⟨⟩ ⟨rfl, -⟩
    rfl

theorem isWritten_of_readFields {c : CommentConditions}
    (hsame : ∀ name ∈ fieldNames,
      (namedFields fieldNames entries).lookup name = fields.lookup name)
    (h : readFields entries = Except.ok (ε := Complaint) c) :
    c.IsWritten fields := by
  have hall := fun f hf => setsFields.fieldIs (f := f) hf hsame h
  simp only [recordFields, List.forall_mem_cons] at hall
  obtain ⟨htypes, -⟩ := hall
  have htexts (v : Value) (x : List String) (hx : readItems readText v = .ok x) :
      v.IsTexts x := isTexts_of_readItems hx
  exact ⟨htypes.imp htexts⟩

end CommentConditions

/-- What is written for the fields of an input so far. -/
structure PartialInput.IsWritten (fields : List (String × Value))
    (i : PartialInput) : Prop where
  description : FieldIs (fun v x => ∃ s, x = some s ∧ v.IsText s) none
    (fields.lookup "description") i.description
  required : FieldIs (IsNullOr IsFlag) none (fields.lookup "required")
    i.required
  default : FieldIs (IsNullOr IsText) none (fields.lookup "default") i.default
  type : FieldIs (IsNullOr IsText) none (fields.lookup "type") i.type

namespace DispatchInput

/-- An input of what is written for its fields. The description has no
default. -/
structure IsWritten (fields : List (String × Value)) (i : DispatchInput) :
    Prop where
  description : ∃ v, fields.lookup "description" = some v ∧
    v.IsText i.description
  required : FieldIs (IsNullOr IsFlag) none (fields.lookup "required")
    i.required
  default : FieldIs (IsNullOr IsText) none (fields.lookup "default") i.default
  type : FieldIs (IsNullOr IsText) none (fields.lookup "type") i.type

/-- What a value has for the fields of an input: they may stand there by their
names or in their order. -/
def fieldsOf : Value → List (String × Value)
  | .map entries => namedFields fieldNames entries
  | .sequence items => fieldNames.zip items
  | _ => []

def recordFields : List (RecordField PartialInput) :=
  [.mk "description" (fun v => some <$> readText v) (·.description)
      fun x i => { i with description := x },
    .optionalFlag "required" (·.required) fun x i => { i with required := x },
    .optionalText "default" (·.default) fun x i => { i with default := x },
    .optionalText "type" (·.type) fun x i => { i with type := x }]

theorem setsFields : SetsFields recordFields fieldNames readField where
  names_eq := rfl
  set_eq := by
    simp only [recordFields, List.forall_mem_cons]
    refine ⟨fun v r => ?_, fun _ _ => rfl, fun _ _ => rfl, fun _ _ => rfl,
      by simp⟩
    show (readText v >>= fun x => _) = (some <$> readText v) >>= fun x => _
    rw [bind_map_left]
    rfl
  get_put := by
    simp [recordFields, RecordField.optionalText, RecordField.optionalFlag]
  get_put_of_ne := by
    simp [recordFields, RecordField.optionalText, RecordField.optionalFlag]
  ext := by
    simp only [recordFields, List.forall_mem_cons]
    rintro ⟨⟩ ⟨⟩ ⟨rfl, rfl, rfl, rfl, -⟩
    rfl

theorem isWritten_of_foldFields {i : PartialInput}
    (h : Source.foldFields fieldNames readField entries [] Inhabited.default =
      Except.ok (ε := Complaint) i) :
    i.IsWritten (namedFields fieldNames entries) := by
  have hall := fun f hf =>
    setsFields.fieldIs (f := f) hf (fun _ _ => rfl) h
  simp only [recordFields, List.forall_mem_cons] at hall
  obtain ⟨hdescription, hrequired, hdefault, htype, -⟩ := hall
  refine ⟨hdescription.imp fun v x hx => ?_, hrequired.imp fun _ _ => ?_,
    hdefault.imp fun _ _ => ?_, htype.imp fun _ _ => ?_⟩
  · obtain ⟨s, hs, rfl⟩ := of_map_ok hx
    exact ⟨s, rfl, isText_of_readText hs⟩
  · exact isNullOr_of_readOptional fun _ => isFlag_of_readFlag
  · exact isNullOr_of_readOptional fun _ => isText_of_readText
  · exact isNullOr_of_readOptional fun _ => isText_of_readText

theorem isWritten_of_readFields {input : DispatchInput}
    (h : readFields entries = Except.ok (ε := Complaint) input) :
    input.IsWritten (namedFields fieldNames entries) := by
  obtain ⟨i, hi, h⟩ := of_bind_ok h
  obtain ⟨hdescription, hrequired, hdefault, htype⟩ :=
    isWritten_of_foldFields hi
  split at h
  · next description hsome =>
      cases h
      refine ⟨?_, hrequired, hdefault, htype⟩
      rw [hsome] at hdescription
      cases hvalue : (namedFields fieldNames entries).lookup "description" with
      | none =>
          rw [hvalue] at hdescription
          cases hdescription
      | some v =>
          rw [hvalue] at hdescription
          obtain ⟨s, hs, hv⟩ := hdescription
          cases hs
          exact ⟨v, rfl, hv⟩
  · cases h

theorem isWritten_of_read {input : DispatchInput}
    (h : read v = Except.ok (ε := Complaint) input) :
    input.IsWritten (fieldsOf v) := by
  cases v with
  | atom a => cases h
  | map entries => exact isWritten_of_readFields h
  | sequence items =>
      cases items with
      | nil => cases h
      | cons item items =>
          obtain ⟨i, hi, h⟩ := of_bind_ok h
          split at h
          · cases h
          · cases h
            have hwritten := isWritten_of_readFields hi
            rw [namedFields_zipWith fun _ => id] at hwritten
            exact hwritten

end DispatchInput

namespace DispatchConditions

/-- Inputs of what is written for them; of two inputs of one name the latter
counts. -/
def IsInputs (v : Value) (inputs : SortedMap DispatchInput) : Prop :=
  ∃ entries definitions, v = .map entries ∧
    List.Forall₂
      (fun e x => e.1.IsText x.1 ∧ x.2.IsWritten (DispatchInput.fieldsOf e.2))
      entries definitions ∧
    inputs = .ofList definitions

/-- Conditions on a start by hand of what is written for their fields. -/
structure IsWritten (fields : List (String × Value)) (c : DispatchConditions) :
    Prop where
  inputs : FieldIs IsInputs .empty (fields.lookup "inputs") c.inputs

theorem isInputs_of_readFields {definitions : List (String × DispatchInput)}
    (h : Value.readFields DispatchInput.read v = .ok definitions) :
    IsInputs v (.ofList definitions) := by
  unfold Value.readFields at h
  split at h
  · next entries =>
      refine ⟨entries, definitions, rfl, (forall₂_of_mapM_ok h).imp fun e x h =>
        ?_, rfl⟩
      obtain ⟨key, hkey, h⟩ := of_bind_ok h
      obtain ⟨input, hinput, h⟩ := of_bind_ok h
      cases h
      exact ⟨isText_of_readText hkey, DispatchInput.isWritten_of_read hinput⟩
  · cases h

def recordFields : List (RecordField DispatchConditions) :=
  [.mk "inputs" (fun v => .ofList <$> Value.readFields DispatchInput.read v)
    (·.inputs) fun x c => { c with inputs := x }]

theorem setsFields : SetsFields recordFields fieldNames readField where
  names_eq := rfl
  set_eq := by
    simp only [recordFields, List.forall_mem_cons]
    refine ⟨fun v r => ?_, by simp⟩
    show (Value.readFields DispatchInput.read v >>= fun x => _) =
      (SortedMap.ofList <$> Value.readFields DispatchInput.read v) >>=
        fun x => _
    rw [bind_map_left]
    rfl
  get_put := by simp [recordFields]
  get_put_of_ne := by simp [recordFields]
  ext := by
    simp only [recordFields, List.forall_mem_cons]
    rintro ⟨⟩ ⟨⟩ ⟨rfl, -⟩
    rfl

theorem isWritten_of_readFields {c : DispatchConditions}
    (hsame : ∀ name ∈ fieldNames,
      (namedFields fieldNames entries).lookup name = fields.lookup name)
    (h : readFields entries = Except.ok (ε := Complaint) c) :
    c.IsWritten fields := by
  have hall := fun f hf => setsFields.fieldIs (f := f) hf hsame h
  simp only [recordFields, List.forall_mem_cons] at hall
  refine ⟨hall.1.imp fun v x hx => ?_⟩
  obtain ⟨definitions, hread, rfl⟩ := of_map_ok hx
  exact isInputs_of_readFields hread

end DispatchConditions

/-- Conditions of what is written for their fields. -/
def Conditions.IsWritten (fields : List (String × Value)) : Conditions → Prop
  | .push c => c.IsWritten fields
  | .pullRequest c => c.IsWritten fields
  | .dispatch c => c.IsWritten fields
  | .issueComment c => c.IsWritten fields

end

end DaggerWorkflows
