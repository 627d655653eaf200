import DaggerWorkflows.Proofs.PathComponents
import DaggerWorkflows.Trigger

/-!
# No two workflows have one path

The name of a workflow's file is a stem that the user chooses, the kind of the
trigger, its number and the format. The stem may be anything: it may hold
slashes and dots, and it may start at the root and so leave the directory of
workflows altogether. None of that matters for telling files apart, because
kind and number come last and have no slash in them.
-/

namespace DaggerWorkflows

/-- The end of the name of a workflow's file, which does not depend on the
stem. -/
def TriggerKind.numberedName (kind : TriggerKind) (index : Nat)
    (format : OutputFormat) : String :=
  kind.discriminator ++ "-" ++ Nat.repr index ++ "." ++ format.extension

namespace TriggerKind

theorem filename_eq (kind : TriggerKind) (stem : String) (index : Nat)
    (format : OutputFormat) :
    kind.filename stem index format = stem ++
      kind.numberedName index format := by
  simp only [filename, numberedName, String.append_assoc]
  rfl

theorem toList_numberedName (kind : TriggerKind) (index : Nat)
    (format : OutputFormat) :
    (kind.numberedName index format).toList =
      kind.discriminator.toList ++
        '-' :: (Nat.toDigits 10 index ++ '.' :: format.extension.toList) := by
  simp [numberedName]

theorem not_slash_mem_digits (n : Nat) : '/' ∉ Nat.toDigits 10 n := fun h =>
  absurd (Nat.isDigit_of_mem_toDigits (by decide) (by decide) h) (by decide)

theorem toDigits_inj {m n : Nat} (h : Nat.toDigits 10 m = Nat.toDigits 10 n) :
    m = n := by
  have := congrArg (Nat.ofDigitChars 10 · 0) h
  simpa using this

theorem numberedName_isTail (kind : TriggerKind) (index : Nat)
    (format : OutputFormat) :
    FilePath.IsTail (kind.numberedName index format) where
  slash := by
    rw [toList_numberedName]
    have hdigits := not_slash_mem_digits index
    cases kind <;> cases format <;>
      simp [discriminator, OutputFormat.extension, hdigits]
  long := by
    rw [toList_numberedName]
    cases kind <;> simp [discriminator]

/-- Kind and number can be read off the end of the name. Only two kinds begin
alike, and they differ in their second letters. -/
theorem numberedName_inj {kind kind' : TriggerKind} {index index' : Nat}
    {format : OutputFormat}
    (h : kind.numberedName index format = kind'.numberedName index' format) :
    kind = kind' ∧ index = index' := by
  have hlist := congrArg String.toList h
  rw [toList_numberedName, toList_numberedName] at hlist
  have hdigits : Nat.toDigits 10 index = Nat.toDigits 10 index' →
    index = index' := toDigits_inj
  cases kind <;> cases kind' <;> simp_all [discriminator]

end TriggerKind

/-- The path of a workflow's file. -/
def workflowPath (kind : TriggerKind) (stem : String) (index : Nat)
    (format : OutputFormat) :
    String :=
  FilePath.join workflowsDirectory (kind.filename stem index format)

/-- Whatever the stem is, a file belongs to one kind and one number. -/
theorem workflowPath_components_inj {kind kind' : TriggerKind} {stem : String}
    {index index' : Nat} {format : OutputFormat}
    (h : FilePath.components (workflowPath kind stem index format) =
      FilePath.components (workflowPath kind' stem index' format)) :
    kind = kind' ∧ index = index' := by
  obtain ⟨start, hstart⟩ := FilePath.join_append workflowsDirectory stem
  have ha := TriggerKind.numberedName_isTail kind index format
  have hb := TriggerKind.numberedName_isTail kind' index' format
  rw [workflowPath, workflowPath, TriggerKind.filename_eq,
    TriggerKind.filename_eq, hstart _ ha, hstart _ hb] at h
  exact TriggerKind.numberedName_inj (FilePath.components_append_inj ha hb h)

end DaggerWorkflows
