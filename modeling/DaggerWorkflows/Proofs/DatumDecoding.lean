import DaggerWorkflows.Manifest.Records
import DaggerWorkflows.Proofs.DatumValue
import DaggerWorkflows.Workflow.Datum

/-!
# Records of written data

Reading a record from the node of a map goes through the entries of the map and
sets one field for each. `Sets` follows that on the data: what the record is
before and after the entries. Members that are left out when they are empty set
nothing, so a record is read back when it starts out with these fields empty.
-/

namespace DaggerWorkflows

open Yaml (Atom Decoding Document Mark Node Path Place Properties Source Wanted)
open Yaml.Decoding
open Datum (Says SaysItems SaysEntries)

variable {doc : Document} {count : Nat} {p : Place} {β ρ : Type}

namespace Yaml.Place

theorem gives_resolve_of_says {d : Datum} (h : Says d p.node) :
    Gives doc count p.resolve p count := by
  refine gives_resolve ?_ ?_ <;> cases hnode : p.node <;> rw [hnode] at h <;>
    cases h <;> simp [Node.IsReference]

/-- The text of a node that says one. -/
theorem gives_readScalar {s : String} {wanted : Wanted}
    (h : Says (.text s) p.node) :
    Gives doc count (p.readScalar wanted) s count := by
  refine gives_bind.2 ⟨p, count, gives_resolve_of_says h, ?_⟩
  cases hnode : p.node <;> rw [hnode] at h <;> cases h
  exact gives_pure.2 ⟨rfl, rfl⟩

/-- The truth value of a node that says one. -/
theorem gives_readFlag {b : Bool} (h : Says (.flag b) p.node) :
    Gives doc count p.readFlag b count := by
  refine gives_bind.2 ⟨p, count, gives_resolve_of_says h, ?_⟩
  cases hnode : p.node <;> rw [hnode] at h <;> cases h
  cases b <;> exact gives_pure.2 ⟨rfl, rfl⟩

/-- A text that means itself is no way to write null. -/
theorem isNull_of_ofPlain {s : String} (h : Atom.ofPlain s = .text s) :
    (s.isEmpty || Atom.isNullWord s) = false := by
  cases hnull : s.isEmpty || Atom.isNullWord s with
  | false => rfl
  | true =>
      rw [Atom.ofPlain, if_pos hnull] at h
      cases h

/-- No data is written as null, so what is read is there. -/
theorem gives_readOptional {d : Datum} {read : Place → Decoding β} {b : β}
    (h : Says d p.node) (hread : Gives doc count (read p) b count) :
    Gives doc count (p.readOptional read) (some b) count := by
  have hsome : Gives doc count (some <$> read p) (some b) count :=
    gives_map.2 ⟨b, hread, rfl⟩
  refine gives_bind.2 ⟨p, count, gives_resolve_of_says h, ?_⟩
  cases hnode : p.node <;> rw [hnode] at h <;> cases h
  case scalar.text style properties hplain =>
    cases style with
    | plain =>
        simp only [Properties.none, isNull_of_ofPlain (hplain rfl),
          Bool.false_eq_true, if_false]
        exact hsome
    | _ => exact hsome
  case scalar.flag b =>
    have hnull : ((String.ofList (Datum.yamlFlag b)).isEmpty ||
        Atom.isNullWord (String.ofList (Datum.yamlFlag b))) = false := by
      cases b <;> decide
    simp only [Properties.none, hnull, Bool.false_eq_true, if_false]
    exact hsome
  all_goals exact hsome

theorem gives_inner (mark : Mark) (hdepth : 0 < p.depth) :
    Gives doc count (p.inner mark) (p.depth - 1) count := by
  unfold inner
  cases hp : p.depth with
  | zero => omega
  | succ k => exact gives_pure.2 ⟨rfl, rfl⟩

/-- Nodes that say the items of a list are read one after the other. -/
theorem gives_mapM_items {α : Type} {items : List α} {f : α → Datum}
    {nodes : List Node} {read : Node × Nat → Decoding α} {start : Nat}
    (hread :
      ∀ a ∈ items, ∀ n i, Says (f a) n → Gives doc count (read (n, i)) a count)
    (h : SaysItems (items.map f) nodes) :
    Gives doc count ((nodes.zipIdx start).mapM read) items count := by
  induction items generalizing nodes start with
  | nil =>
      cases h
      exact gives_pure.2 ⟨rfl, rfl⟩
  | cons a items ih =>
      cases h with
      | cons ha hitems =>
          exact gives_mapM_cons (hread a (by simp) _ _ ha)
            (ih (fun b hb => hread b (by simp [hb])) hitems)

/-- The items of a node that says a list. -/
theorem gives_readItems {α : Type} {items : List α} {f : α → Datum}
    {read : Place → Decoding α} (h : Says (.list (items.map f)) p.node)
    (hdepth : 0 < p.depth)
    (hread :
      ∀ a ∈ items, ∀ q : Place, Says (f a) q.node → q.depth = p.depth - 1 →
      Gives doc count (read q) a count) :
    Gives doc count (p.readItems read) items count := by
  refine gives_bind.2 ⟨p, count, gives_resolve_of_says h, ?_⟩
  cases hnode : p.node <;> rw [hnode] at h <;> cases h
  case sequence.list nodes mark hitems =>
    refine gives_locate.2
      (gives_bind.2 ⟨p.depth - 1, count, gives_inner mark hdepth, ?_⟩)
    exact gives_mapM_items (fun a ha n i hn => hread a ha _ hn rfl) hitems

/-- The places of the keys and values of a mapping. -/
def entryPlaces (path : Path) (depth : Nat) (nodes : List (Node × Node)) :
    List (Place × Place) :=
  nodes.map fun (key, value) =>
    (⟨path, depth, key⟩, ⟨valuePath path key, depth, value⟩)

/-- The entries of a node that says a map. -/
theorem gives_readEntries {entries : List (String × Datum)} {wanted : Wanted}
    {read : List (Place × Place) → Decoding β} {b : β}
    (h : Says (.map entries) p.node) (hdepth : 0 < p.depth)
    (hread : ∀ nodes, SaysEntries entries nodes →
      Gives doc count (read (entryPlaces p.path (p.depth - 1) nodes)) b count) :
    Gives doc count (p.readEntries wanted read) b count := by
  refine gives_bind.2 ⟨p, count, gives_resolve_of_says h, ?_⟩
  cases hnode : p.node <;> rw [hnode] at h <;> cases h
  case mapping.map nodes mark hentries =>
    exact gives_locate.2
      (gives_bind.2 ⟨p.depth - 1, count, gives_inner mark hdepth,
      hread nodes hentries⟩)

/-- The entries of a node that says a map of things of one kind. -/
theorem gives_readFields {α : Type} {items : List (String × α)} {f : α → Datum}
    {read : Place → Decoding α}
    (h : Says (.map (items.map fun e => (e.1, f e.2))) p.node)
    (hdepth : 0 < p.depth)
    (hread :
      ∀ e ∈ items, ∀ q : Place, Says (f e.2) q.node → q.depth = p.depth - 1 →
      Gives doc count (read q) e.2 count) :
    Gives doc count (p.readFields read) items count := by
  refine gives_readEntries h hdepth fun nodes hnodes => ?_
  generalize p.depth - 1 = depth at hread
  clear h hdepth
  induction items generalizing nodes with
  | nil =>
      cases hnodes
      exact gives_pure.2 ⟨rfl, rfl⟩
  | cons e items ih =>
      cases hnodes with
      | cons hkey hd hentries =>
          refine gives_mapM_cons ?_ (ih _ hentries fun a ha =>
            hread a (by simp [ha]))
          exact gives_bind.2 ⟨e.1, count, gives_readScalar hkey,
            gives_bind.2 ⟨e.2, count, hread e (by simp) _ hd rfl,
              gives_pure.2 ⟨rfl, rfl⟩⟩⟩

end Yaml.Place

/-! ## Fields -/

/-- Setting one field for each of the entries, at places so deep, turns one
record into another. -/
inductive Sets (doc : Document) (count depth : Nat)
    (set : String → Place → ρ → Decoding ρ) :
    List (String × Datum) → ρ → ρ → Prop where
  | nil {r : ρ} : Sets doc count depth set [] r r
  | cons {key : String} {d : Datum} {entries : List (String × Datum)}
      {r r₁ r₂ : ρ}
      (h : ∀ p : Place, Says d p.node → p.depth = depth →
        Gives doc count (set key p r) r₁ count)
      (hs : Sets doc count depth set entries r₁ r₂) :
      Sets doc count depth set ((key, d) :: entries) r r₂

variable {depth : Nat} {set : String → Place → ρ → Decoding ρ} {r r₁ r₂ : ρ}
  {as bs entries : List (String × Datum)} {key : String}

theorem Sets.append (h : Sets doc count depth set as r r₁)
    (hs : Sets doc count depth set bs r₁ r₂) :
    Sets doc count depth set (as ++ bs) r r₂ := by
  induction h with
  | nil => exact hs
  | cons h _ ih => exact .cons h (ih hs)

theorem Sets.single {d : Datum}
    (h : ∀ p : Place, Says d p.node → p.depth = depth →
      Gives doc count (set key p r) r₁ count) :
    Sets doc count depth set [(key, d)] r r₁ :=
  .cons h .nil

/-- A member that is left out if it holds an empty list, for a field that is
empty before. -/
theorem sets_textsMember (update : List String → ρ) {items : List String}
    (h : ∀ p : Place, Gives doc count (Source.texts p) items count →
      Gives doc count (set key p (update [])) (update items) count)
    (hdepth : 0 < depth) :
    Sets doc count depth set (textsMember key items) (update [])
      (update items) := by
  unfold textsMember
  cases items with
  | nil => exact .nil
  | cons item items =>
      refine .single fun p hp hpdepth => h p ?_
      exact Yaml.Place.gives_readItems (f := .text) hp (by omega)
        fun s _ q hq _ => Yaml.Place.gives_readScalar hq

/-- A member that is left out if it is absent, for a field that is absent
before. -/
theorem sets_optionMember {α : Type} (update : Option α → ρ)
    (read : Place → Decoding α) {f : α → Datum} {x : Option α}
    (hread : ∀ (a : α) (p : Place), Says (f a) p.node →
      Gives doc count (read p) a count)
    (h : ∀ p : Place, Gives doc count (p.readOptional read) x count →
      Gives doc count (set key p (update none)) (update x) count) :
    Sets doc count depth set (optionMember key f x) (update none)
      (update x) := by
  cases x with
  | none => exact .nil
  | some a =>
      exact .single fun p hp _ =>
        h p (Yaml.Place.gives_readOptional hp (hread a p hp))

/-- Fields are set for entries in the order of the fields, each of which has at
most one. -/
theorem gives_foldFields {names seen : List String} {nodes : List (Node × Node)}
    {path : Path} (hnodes : SaysEntries entries nodes)
    (hkeys : (entries.map (·.1)).Nodup) (hnames : ∀ e ∈ entries, e.1 ∈ names)
    (hseen : ∀ e ∈ entries, e.1 ∉ seen)
    (h : Sets doc count depth set entries r r₁) :
    Gives doc count
      (Source.foldFields names set (Yaml.Place.entryPlaces path depth nodes)
        seen r) r₁ count := by
  induction h generalizing nodes seen with
  | nil =>
      cases hnodes
      exact gives_pure.2 ⟨rfl, rfl⟩
  | @cons key d entries r r₁ r₂ h hs ih =>
      cases hnodes with
      | @cons _ _ k n _ nodes hkey hd hentries =>
          rw [List.map_cons, List.nodup_cons] at hkeys
          obtain ⟨hnew, hkeys⟩ := hkeys
          have hname : Gives doc count
            (Source.fieldName names (⟨path, depth, k⟩ : Place)) (some key)
              count := by
            refine gives_bind.2 ⟨key, count, Yaml.Place.gives_readScalar hkey,
              gives_pure.2 ⟨?_, rfl⟩⟩
            simpa using hnames (key, d) (by simp)
          have hseen' : ∀ e ∈ entries, e.1 ∉ key :: seen := fun e he => by
            rw [List.mem_cons, not_or]
            refine ⟨?_, hseen e (by simp [he])⟩
            rintro rfl
            exact hnew (List.mem_map.2 ⟨e, he, rfl⟩)
          have hrest :=
            ih hentries hkeys (fun e he => hnames e (by simp [he])) hseen'
          have hfresh : seen.contains key = false := by
            simpa using hseen (key, d) (by simp)
          refine gives_bind.2 ⟨some key, count, hname, ?_⟩
          simp only [hfresh, Bool.false_eq_true, if_false]
          exact gives_bind.2 ⟨r₁, count, h _ hd rfl, hrest⟩

/-- A record is read from the entries of a map that stand in the order of its
fields. -/
theorem gives_record {names : List String} {title : String}
    {read : List (Place × Place) → Decoding β} {b : β}
    (hp : Says (.map entries) p.node) (hdepth : 0 < p.depth)
    (hnames : names.Nodup) (hkeys : (entries.map (·.1)).Sublist names)
    (h : Sets doc count (p.depth - 1) set entries r r₁)
    (hread : ∀ places,
      Gives doc count (Source.foldFields names set places [] r) r₁ count →
      Gives doc count (read places) b count) :
    Gives doc count (Source.record title names read p) b count :=
  Yaml.Place.gives_readEntries hp hdepth fun _ hnodes => hread _ <|
    gives_foldFields hnodes (hnames.sublist hkeys)
      (fun e he => hkeys.subset (List.mem_map.2 ⟨e, he, rfl⟩)) (by simp) h

end DaggerWorkflows
