import DaggerWorkflows.Proofs.Noninterference
import DaggerWorkflows.Proofs.WorkflowShape

/-!
# Expressions that no secret can forge

The value of a secret is an expression with the name of the secret in it, so a
name with the marks of an expression in it could end one expression and start
another. What is let through as a name has none of these marks. In the
environment of a command each declared secret therefore stands for one
expression and nothing else (`isExpression_secretExpression`), whatever it is
called; only the name of the command's own variable is taken before any secret.
-/

namespace DaggerWorkflows

/-- A text that is one expression and nothing besides: it opens once, it closes
once, and what it stands for is between the two. -/
structure ContextKey.IsExpression (text stands : String) : Prop where
  opens : (Text.restsBehind "$\x7b\x7b" text).length = 1
  closes : (Text.restsBehind "\x7d\x7d" text).length = 1
  between : ∃ inside, text = "$\x7b\x7b" ++ inside ++ "\x7d\x7d" ∧
    Text.trim inside = stands

namespace Text

/-- Of the characters of ASCII only a space and what comes before it are
blank. -/
theorem toNat_of_isBlank {c : Char} (h : isBlank c = true) :
    c.toNat ≤ 32 ∨ 128 ≤ c.toNat := by
  have hle : ∀ {a b : Char}, a ≤ b → a.toNat ≤ b.toNat := fun h => h
  simp only [isBlank, Bool.or_eq_true, Bool.and_eq_true, decide_eq_true_eq,
    beq_iff_eq, or_assoc] at h
  rcases h with h | rfl | rfl | rfl | rfl | h | rfl | rfl | rfl | rfl | rfl
  · exact .inl (Nat.le_trans (hle h.2) (by decide))
  · decide
  · decide
  · decide
  · decide
  · exact .inr (Nat.le_trans (by decide) (hle h.1))
  all_goals decide

/-- Spaces around a text are all that is trimmed if the text itself has no
blanks at its ends. -/
theorem trim_spaces {text : String} {first last : Char}
    (hhead : text.toList.head? = some first)
    (hlast : text.toList.getLast? = some last) (hfirst : isBlank first = false)
    (hend : isBlank last = false) : trim (" " ++ text ++ " ") = text := by
  have hspace : isBlank ' ' = true := rfl
  obtain ⟨rest, hrest⟩ := List.head?_eq_some_iff.1 hhead
  obtain ⟨before, hbefore⟩ := List.getLast?_eq_some_iff.1 hlast
  have hleft : (' ' :: text.toList ++ [' ']).dropWhile isBlank = text.toList ++
      [' '] := by
    rw [hrest]
    simp [hspace, hfirst]
  have hright : (text.toList ++ [' ']).reverse.dropWhile isBlank =
      text.toList.reverse := by
    rw [hbefore]
    simp [hspace, hend]
  have hlist : (" " ++ text ++ " ").toList = ' ' :: text.toList ++ [' '] := by
    simp
  rw [trim, trimList, hlist, hleft, hright, List.reverse_reverse,
    String.ofList_toList]

end Text

namespace SecretName

/-- The characters of names. -/
def IsNameChar (c : Char) : Prop :=
  ('A' ≤ c ∧ c ≤ 'Z') ∨ ('a' ≤ c ∧ c ≤ 'z') ∨ ('0' ≤ c ∧ c ≤ '9') ∨ c = '_'

theorem isNameChar_iff {c : Char} :
    IsNameChar c ↔ c.isAlphanum = true ∨ c = '_' := by
  have halphanum : c.isAlphanum = (decide ('A' ≤ c ∧ c ≤ 'Z') ||
      (decide ('a' ≤ c) && decide (c ≤ 'z')) ||
        (decide ('0' ≤ c) && decide (c ≤ '9'))) := rfl
  simp only [halphanum, IsNameChar, Bool.or_eq_true, Bool.and_eq_true,
    decide_eq_true_eq, or_assoc]

theorem isName_iff {name : String} :
    IsName name ↔ name ≠ "" ∧ ∀ c ∈ name.toList, IsNameChar c := by
  simp only [IsName, isNameChar_iff]

theorem IsNameChar.toNat {c : Char} (h : IsNameChar c) :
    48 ≤ c.toNat ∧ c.toNat ≤ 122 := by
  have hle : ∀ {a b : Char}, a ≤ b → a.toNat ≤ b.toNat := fun h => h
  rcases h with h | h | h | rfl
  · exact ⟨Nat.le_trans (by decide) (hle h.1),
      Nat.le_trans (hle h.2) (by decide)⟩
  · exact ⟨Nat.le_trans (by decide) (hle h.1),
      Nat.le_trans (hle h.2) (by decide)⟩
  · exact ⟨Nat.le_trans (by decide) (hle h.1),
      Nat.le_trans (hle h.2) (by decide)⟩
  · decide

theorem IsNameChar.isBlank {c : Char} (h : IsNameChar c) :
    Text.isBlank c = false := by
  by_contra hblank
  have hblank := Text.toNat_of_isBlank (Bool.not_eq_false _ ▸ hblank)
  have hname := h.toNat
  omega

theorem check_ok_iff {names : List String} :
    (check names).result = .ok () ↔ ∀ name ∈ names, IsName name := by
  rw [check_result, ← firstInvalid?_eq_none]
  cases firstInvalid? names <;> simp

theorem check_error_iff {names : List String} {name : String} :
    (check names).result = .error (.invalidSecretName name) ↔
      ∃ before after, names = before ++ name :: after ∧
      (∀ n ∈ before, IsName n) ∧ ¬ IsName name := by
  have hfirst : (check names).result = .error (.invalidSecretName name) ↔
      firstInvalid? names = some name := by
    rw [check_result]
    cases firstInvalid? names <;> simp
  rw [hfirst, firstInvalid?_eq, List.find?_eq_some_iff_append]
  simp only [decide_eq_true_eq, Bool.not_eq_true', decide_eq_false_iff_not,
    not_not]
  constructor
  · rintro ⟨hname, before, after, hnames, hbefore⟩
    exact ⟨before, after, hnames, hbefore, hname⟩
  · rintro ⟨before, after, hnames, hbefore, hname⟩
    exact ⟨hname, before, after, hnames, hbefore⟩

end SecretName

namespace Pipeline

variable {p : Pipeline} {scripts : ScriptSource}

/-- The expression that stands for a secret is one expression, whatever the
secret is called. -/
theorem isExpression_secretExpression {name : String}
    (h : SecretName.IsName name) :
    ContextKey.IsExpression (secretExpression name) ("secrets." ++ name) := by
  obtain ⟨hne, hchars⟩ := SecretName.isName_iff.1 h
  have hmark : ∀ c : Char, c.toNat < 48 ∨ 122 < c.toNat → c ∉ name.toList := by
    intro c hc hmem
    have := (hchars c hmem).toNat
    omega
  have hopens : secretExpression name =
      "$\x7b\x7b" ++ (" secrets." ++ name ++ " \x7d\x7d") := by
    simp [secretExpression, ContextKey.expressionOf, ← String.toList_inj]
  have hcloses : secretExpression name =
      ("$\x7b\x7b secrets." ++ name ++ " ") ++ "\x7d\x7d" := by
    simp [secretExpression, ContextKey.expressionOf, ← String.toList_inj]
  refine ⟨?_, ?_, " " ++ ("secrets." ++ name) ++ " ", ?_, ?_⟩
  · have hdollar := hmark '$' (by decide)
    rw [hopens, Text.restsBehind_self_append (c := '$') rfl (by decide)
      (by simp [hdollar])]
    rfl
  · have hbrace := hmark '\x7d' (by decide)
    rw [hcloses, Text.restsBehind_append (c := '\x7d') rfl (by simp [hbrace])]
    decide +kernel
  · simp [secretExpression, ContextKey.expressionOf, ← String.toList_inj]
  · have hnil : name.toList ≠ [] := by simpa using hne
    have hblank := (hchars _ (List.getLast_mem hnil)).isBlank
    have hfirst : ("secrets." ++ name).toList.head? = some 's' := by simp
    have hlast : ("secrets." ++ name).toList.getLast? =
        some (name.toList.getLast hnil) := by
      rw [String.toList_append, List.getLast?_append_of_ne_nil _ hnil,
        List.getLast?_eq_some_getLast hnil]
    exact Text.trim_spaces hfirst hlast rfl hblank

/-- A declared secret has a variable of its own, unless the command has it. -/
theorem get?_execEnvironment_secret {name : String} (h : name ∈ p.secrets)
    (hcommand : name ≠ "COMMAND") :
    p.execEnvironment.values.get? name = some (secretExpression name) := by
  have hne : (name == "COMMAND") = false := beq_eq_false_iff_ne.2 hcommand
  rw [execEnvironment, StepEnvironment.get?_addAll]
  unfold execVariables
  simp only [List.lookup_append, lookup_map_self, if_pos h, List.lookup_cons,
    hne, List.lookup_nil]
  rfl

end Pipeline

/-- A list of names passes if each of them is written in letters, digits and
underscores of ASCII and is not empty; otherwise the first that is not is told
of as it stands. So wherever the command of a workflow runs, the variable of
each declared secret is one expression for that secret, and no name can make it
more than that. -/
theorem SecretName.check_unforgeable :
    (∀ names, (check names).result = .ok () ↔
      ∀ name ∈ names, name ≠ "" ∧ ∀ c ∈ name.toList, IsNameChar c) ∧
    (∀ names name, (check names).result = .error (.invalidSecretName name) ↔
      ∃ before after, names = before ++ name :: after ∧
        (∀ n ∈ before, n ≠ "" ∧ ∀ c ∈ n.toList, IsNameChar c) ∧
        ¬ (name ≠ "" ∧ ∀ c ∈ name.toList, IsNameChar c)) ∧
    ∀ (p : Pipeline) (scripts : ScriptSource) (w : Workflow),
      (p.workflowWith scripts).result = .ok w →
      ∃ job step, w.jobs.entries = [("dagger", job)] ∧
        job.steps.filter (·.id = some "exec") = [step] ∧
        ∀ s ∈ p.secrets, s ≠ "COMMAND" → ∃ value, step.env.get? s = some value ∧
          ContextKey.IsExpression value ("secrets." ++ s) := by
  refine ⟨fun names => ?_, fun names name => ?_, fun p scripts w hw => ?_⟩
  · simp only [check_ok_iff, isName_iff]
  · simp only [check_error_iff, isName_iff]
  · obtain ⟨⟨⟩, hcheck, -⟩ := Traced.exists_of_bind_ok hw
    obtain ⟨steps, hsteps, rfl⟩ := Pipeline.workflowWith_ok hw
    obtain ⟨step, hstep, henv⟩ := Pipeline.filter_exec_steps hsteps
    refine ⟨_, step, rfl, hstep, fun s hs hcommand => ?_⟩
    refine ⟨Pipeline.secretExpression s, ?_, ?_⟩
    · rw [henv]
      exact Pipeline.get?_execEnvironment_secret hs hcommand
    · exact Pipeline.isExpression_secretExpression (check_ok_iff.1 hcheck s hs)

/-- A name that would end one expression and start another, after one that is
fine; and secrets with the names of the command's variable and of a context
key. -/
theorem SecretName.check_unforgeable_forged :
    (check ["OK", "X \x7d\x7d$\x7b\x7b github.token", "TOKEN\n"]).result =
        .error (.invalidSecretName "X \x7d\x7d$\x7b\x7b github.token") ∧
      ∃ (p : Pipeline) (w : Workflow) (job : Job) (step : Step)
        (value : String),
        p.secrets = ["COMMAND", "GITHUB_SHA"] ∧ p.workflow.result = .ok w ∧
        w.jobs.entries = [("dagger", job)] ∧
        job.steps.filter (·.id = some "exec") = [step] ∧
        step.env.get? "GITHUB_SHA" = some value ∧
        ContextKey.IsExpression value "secrets.GITHUB_SHA" := by
  obtain ⟨-, hrejects, hexpressions⟩ := check_unforgeable
  refine ⟨?_, ?_⟩
  · refine (hrejects _ _).2 ⟨["OK"], ["TOKEN\n"], rfl, ?_, ?_⟩
    · simp only [← isName_iff]
      decide +kernel
    · rw [← isName_iff]
      decide +kernel
  · let p : Pipeline :=
      ⟨"build", none, ["COMMAND", "GITHUB_SHA"], none, .default, by
        decide +kernel⟩
    obtain ⟨steps, hw⟩ := p.workflow_result
    have hnames : SecretName.firstInvalid? p.secrets = none := by decide +kernel
    rw [hnames] at hw
    obtain ⟨job, step, hjob, hstep, hvalues⟩ :=
      hexpressions p Script.bundled _ hw
    have hmem : "GITHUB_SHA" ∈ p.secrets :=
      List.mem_cons_of_mem _ List.mem_cons_self
    obtain ⟨value, hget, hvalue⟩ := hvalues "GITHUB_SHA" hmem (by decide)
    exact ⟨p, _, job, step, value, rfl, hw, hjob, hstep, hget, hvalue⟩

end DaggerWorkflows
