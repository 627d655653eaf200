import DaggerWorkflows.Datum.Yaml
import DaggerWorkflows.Proofs.ScalarTokens

/-!
# The characters of written data

Whatever the data, its YAML text has only characters that need no escape. So a
reader takes in the whole text, and finds the line breaks where the writer has
put them.
-/

namespace DaggerWorkflows

namespace Datum

namespace Scalar

theorem isPrintable_of_needsEscapes {cs : List Char}
    (h : needsEscapes cs = false) :
    ∀ c ∈ cs, isPrintable c = true := by
  simp only [needsEscapes, Bool.or_eq_false_iff, List.any_eq_false] at h
  exact fun c hc => by simpa using h.1 c hc

theorem isPrintable_of_mem_pad {n : Nat} {c : Char} (h : c ∈ pad n) :
    isPrintable c = true := by
  rw [(List.mem_replicate.1 h).2]
  rfl

theorem isPrintable_of_mem_singleQuoted {column : Nat} {atStart : Bool}
    {cs : List Char} (hcs : ∀ c ∈ cs, isPrintable c = true) :
    ∀ c ∈ singleQuoted column atStart cs, isPrintable c = true := by
  have hpad : ∀ atStart : Bool, ∀ c ∈ (if atStart then pad column else []),
      isPrintable c = true := by
    intro atStart c hc
    cases atStart with
    | false => simp at hc
    | true => exact isPrintable_of_mem_pad hc
  induction cs generalizing atStart with
  | nil =>
      intro c hc
      rcases List.mem_append.1 hc with hc | hc
      · exact hpad _ c hc
      · rw [List.mem_singleton.1 hc]
        rfl
  | cons d cs ih =>
      have hd := hcs d (by simp)
      have ih : ∀ atStart, ∀ c ∈ singleQuoted column atStart cs,
          isPrintable c = true :=
        fun _ => ih fun c hc => hcs c (by simp [hc])
      intro c hc
      rw [singleQuoted] at hc
      split at hc
      · rcases List.mem_cons.1 hc with rfl | hc
        · exact hd
        · exact ih _ c hc
      · rcases List.mem_append.1 hc with hc | hc
        · rcases List.mem_append.1 hc with hc | hc
          · exact hpad _ c hc
          · split at hc
            · obtain rfl : c = '\'' := by simpa using hc
              rfl
            · rwa [List.mem_singleton.1 hc]
        · exact ih _ c hc

theorem isPrintable_of_mem_lines {column : Nat} {atStart : Bool}
    {cs : List Char} (hcs : ∀ c ∈ cs, isPrintable c = true) :
    ∀ c ∈ lines column atStart cs, isPrintable c = true := by
  induction cs generalizing atStart with
  | nil => simp [lines]
  | cons d cs ih =>
      have hd := hcs d (by simp)
      have ih : ∀ atStart, ∀ c ∈ lines column atStart cs,
          isPrintable c = true :=
        fun _ => ih fun c hc => hcs c (by simp [hc])
      intro c hc
      rw [lines] at hc
      split at hc
      · rcases List.mem_cons.1 hc with rfl | hc
        · exact hd
        · exact ih _ c hc
      · rcases List.mem_append.1 hc with hc | hc
        · split at hc
          · exact isPrintable_of_mem_pad hc
          · simp at hc
        · rcases List.mem_cons.1 hc with rfl | hc
          · exact hd
          · exact ih _ c hc

theorem isPrintable_of_mem_hexDigits {width n : Nat} {c : Char}
    (h : c ∈ hexDigits width n) :
    isPrintable c = true := by
  have hdigit : ∀ d : Fin 16, isPrintable (Nat.digitChar d).toUpper = true := by
    decide
  induction width generalizing n with
  | zero => simp [hexDigits] at h
  | succ width ih =>
      rcases List.mem_append.1 h with h | h
      · exact ih h
      · rw [List.mem_singleton.1 h]
        exact hdigit ⟨n % 16, Nat.mod_lt n (by decide)⟩

theorem isPrintable_of_mem_escaped {c d : Char} (h : d ∈ escaped c) :
    isPrintable d = true := by
  have hletter : ∀ e : Char, isPrintable e = true → d ∈ ['\\', e] →
      isPrintable d = true := by
    intro e he hd
    rcases List.mem_cons.1 hd with rfl | hd
    · rfl
    · rwa [List.mem_singleton.1 hd]
  have hdigits : ∀ (e : Char) (width n : Nat), isPrintable e = true →
      d ∈ '\\' :: e :: hexDigits width n → isPrintable d = true := by
    intro e width n he hd
    rcases List.mem_cons.1 hd with rfl | hd
    · rfl
    · rcases List.mem_cons.1 hd with rfl | hd
      · exact he
      · exact isPrintable_of_mem_hexDigits hd
  unfold escaped at h
  split at h
  · next hprint =>
      simp only [Bool.and_eq_true] at hprint
      rw [List.mem_singleton.1 h]
      exact hprint.1.1.1
  · split at h
    case h_15 =>
      split at h
      · exact hdigits 'x' _ _ rfl h
      · split at h
        · exact hdigits 'u' _ _ rfl h
        · exact hdigits 'U' _ _ rfl h
    all_goals exact hletter _ rfl h

theorem isPrintable_of_mem_header {cs : List Char} :
    ∀ c ∈ header cs, isPrintable c = true := by
  rw [Yaml.BlockScalar.header_eq]
  cases Yaml.BlockScalar.needsHint cs <;>
    cases Yaml.BlockScalar.chompingOf cs <;>
    exact List.all_eq_true.1 (by decide)

/-- Whatever its style, a scalar is written with characters that need no
escape. -/
theorem isPrintable_of_mem_render {column : Nat} {s : String} :
    ∀ c ∈ render column s, isPrintable c = true := by
  have hsuits := suits_style s
  have hquote : isPrintable '\'' = true ∧ isPrintable '"' = true ∧
      isPrintable '\n' = true :=
    ⟨rfl, rfl, rfl⟩
  intro c hc
  unfold render at hc
  cases hstyle : style s with
  | plain =>
      rw [hstyle] at hsuits
      simp only [hstyle] at hc
      have := hsuits.1
      simp only [allowsPlain, Bool.not_eq_true', Bool.or_eq_false_iff] at this
      exact isPrintable_of_needsEscapes this.1.1.1 c hc
  | single =>
      rw [hstyle] at hsuits
      simp only [hstyle] at hc
      have := hsuits.1
      simp only [allowsSingle, Bool.not_eq_true', Bool.or_eq_false_iff] at this
      rcases List.mem_cons.1 hc with rfl | hc
      · exact hquote.1
      · exact isPrintable_of_mem_singleQuoted
          (isPrintable_of_needsEscapes this.1) c hc
  | double =>
      simp only [hstyle, List.mem_append, List.mem_cons, List.mem_flatMap,
        List.not_mem_nil, or_false] at hc
      rcases hc with (rfl | ⟨d, -, hc⟩) | rfl
      · exact hquote.2.1
      · exact isPrintable_of_mem_escaped hc
      · exact hquote.2.1
  | literal =>
      rw [hstyle] at hsuits
      simp only [hstyle] at hc
      have := hsuits.1
      simp only [allowsLiteral, Bool.not_eq_true', Bool.or_eq_false_iff] at this
      rcases List.mem_append.1 hc with hc | hc
      · exact isPrintable_of_mem_header c hc
      · rcases List.mem_cons.1 hc with rfl | hc
        · exact hquote.2.2
        · exact isPrintable_of_mem_lines (isPrintable_of_needsEscapes this.1) c
            hc

theorem isPrintable_of_mem_endLine {cs : List Char}
    (hcs : ∀ c ∈ cs, isPrintable c = true) :
    ∀ c ∈ endLine cs, isPrintable c = true := by
  intro c hc
  unfold endLine at hc
  split at hc
  · exact hcs c hc
  · rcases List.mem_append.1 hc with hc | hc
    · exact hcs c hc
    · rw [List.mem_singleton.1 hc]
      rfl

end Scalar

theorem isPrintable_of_mem_yamlFlag {b : Bool} :
    ∀ c ∈ yamlFlag b, Scalar.isPrintable c = true := by
  cases b <;> exact List.all_eq_true.1 (by decide)

mutual

theorem isPrintable_of_mem_yamlAfter :
    ∀ (d : Datum) {column : Nat} {short : Bool},
    ∀ c ∈ d.yamlAfter column short, Scalar.isPrintable c = true
  | text s, column, short => by
      simpa [yamlAfter, show Scalar.isPrintable ' ' = true from rfl]
        using Scalar.isPrintable_of_mem_endLine Scalar.isPrintable_of_mem_render
  | flag b, column, short => by
      simp only [yamlAfter, List.forall_mem_cons, List.forall_mem_append]
      exact ⟨⟨rfl, isPrintable_of_mem_yamlFlag⟩, rfl, by simp⟩
  | list [], column, short => by
      simp only [yamlAfter]
      exact List.all_eq_true.1 (by decide)
  | map [], column, short => by
      simp only [yamlAfter]
      exact List.all_eq_true.1 (by decide)
  | list (d :: items), column, short => by
      have hitems : ∀ column padded, ∀ c ∈ yamlItems column padded (d :: items),
          Scalar.isPrintable c = true :=
            fun _ _ => isPrintable_of_mem_yamlItems (d :: items)
      cases short <;>
        simp only [yamlAfter, if_true, Bool.false_eq_true, if_false,
        List.forall_mem_cons]
      · exact ⟨rfl, hitems _ _⟩
      · exact ⟨rfl, hitems _ _⟩
  | map (e :: entries), column, short => by
      have hentries : ∀ column padded,
        ∀ c ∈ yamlEntries column padded (e :: entries),
          Scalar.isPrintable c = true :=
            fun _ _ => isPrintable_of_mem_yamlEntries (e :: entries)
      cases short <;>
        simp only [yamlAfter, if_true, Bool.false_eq_true, if_false,
        List.forall_mem_cons]
      · exact ⟨rfl, hentries _ _⟩
      · exact ⟨rfl, hentries _ _⟩
termination_by structural d => d

theorem isPrintable_of_mem_yamlItems :
    ∀ (items : List Datum) {column : Nat} {padded : Bool},
    ∀ c ∈ yamlItems column padded items, Scalar.isPrintable c = true
  | [], column, padded => by simp [yamlItems]
  | d :: items, column, padded => by
      have hpad : ∀ c ∈ (if padded then Scalar.pad column else []),
          Scalar.isPrintable c = true := by
        cases padded
        · simp
        · exact fun c => Scalar.isPrintable_of_mem_pad
      simp only [yamlItems, List.forall_mem_append, List.forall_mem_cons]
      exact ⟨⟨hpad, rfl, isPrintable_of_mem_yamlAfter d⟩,
        isPrintable_of_mem_yamlItems items⟩
termination_by structural items => items

theorem isPrintable_of_mem_yamlEntries :
    ∀ (entries : List (String × Datum)) {column : Nat}
    {padded : Bool}, ∀ c ∈ yamlEntries column padded entries,
      Scalar.isPrintable c = true
  | [], column, padded => by simp [yamlEntries]
  | (key, d) :: entries, column, padded => by
      have hpad : ∀ c ∈ (if padded then Scalar.pad column else []),
          Scalar.isPrintable c = true := by
        cases padded
        · simp
        · exact fun c => Scalar.isPrintable_of_mem_pad
      have hvalue : ∀ short, ∀ c ∈ d.yamlAfter column short,
          Scalar.isPrintable c = true :=
        fun _ => isPrintable_of_mem_yamlAfter d
      have hkey : ∀ c ∈ Scalar.render column key, Scalar.isPrintable c = true :=
        Scalar.isPrintable_of_mem_render
      simp only [yamlEntries, List.forall_mem_append]
      refine ⟨⟨hpad, ?_⟩, isPrintable_of_mem_yamlEntries entries⟩
      split
      · simp only [List.forall_mem_append, List.forall_mem_cons]
        exact ⟨hkey, rfl, hvalue true⟩
      · simp only [List.forall_mem_append, List.forall_mem_cons]
        exact ⟨⟨⟨rfl, rfl, Scalar.isPrintable_of_mem_endLine hkey⟩,
          fun c => Scalar.isPrintable_of_mem_pad⟩, rfl, hvalue false⟩
termination_by structural entries => entries

end

theorem isReadable_of_isPrintable {cs : List Char}
    (h : ∀ c ∈ cs, Scalar.isPrintable c = true) :
    Yaml.IsReadable cs := by
  intro c hc
  have hreturn := Scalar.ne_of_isPrintable (h c hc) (d := '\r') (by decide)
  have hnext := Scalar.ne_of_isPrintable (h c hc) (d := '\u0085') (by decide)
  exact ⟨Scalar.isAllowed_of_isPrintable (h c hc), by
    simp [Yaml.Glyph.isMadeUniform, hreturn, hnext]⟩

end Datum

end DaggerWorkflows
