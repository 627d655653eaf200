import DaggerWorkflows.Proofs.OptionWords

/-!
# Options that all commands share

A command line that is accepted is a row of options, the name of a command, and
another row of options (`Line`). Nothing but the two rows decides whether it is
accepted (`ofWords_line_ok_iff`). An option that all commands share has its text
from the second row, or from the first, or from the environment. It may move
from one row to the other: each row lacks it once then, and a row that lacks an
option has the environment looked at, even if the other row has the option.
-/

namespace DaggerWorkflows.CommandLine

open Occurrence

/-- The commands that run. -/
inductive Task where
  | generate
  | check
deriving DecidableEq, Repr

namespace Task

def name : Task → CommandName
  | generate => .generate
  | check => .check

/-- Where the words behind the name stand. -/
def scope : Task → Scope
  | generate => .generate
  | check => .check

/-- The command with these values of its options. -/
def command : Task → Given → Command
  | generate => Command.generating
  | check => Command.checking

theorem name_injective : Function.Injective name := by
  intro t t' h
  cases t <;> cases t' <;> first | rfl | cases h

/-- Commands have no commands of their own. -/
theorem command?_ne_some (t : Task) (word : String) (c : CommandName) :
    t.scope.command? word ≠ some c := by
  cases t <;> exact nofun

theorem shared_subset_options (t : Task) : Opt.shared ⊆ t.scope.options := by
  cases t <;> decide

/-- Shared options are no matter of the command. -/
theorem command_congr (t : Task) {g h : Given}
    (heq : ∀ o, o ∉ Opt.shared → g o = h o) :
    t.command g = t.command h := by
  cases t with
  | generate =>
      simp only [command, Command.generating, heq .stem (by decide),
        heq .output (by decide), heq .stdout (by decide)]
  | check =>
      simp only [command, Command.checking, heq .repo (by decide),
        heq .concurrency (by decide),
        heq .timeout (by decide), heq .baseImage (by decide)]

end Task

/-- The same words behind the name of a command. -/
def Occurrence.behind (x : Occurrence .program) (t : Task) :
    Occurrence t.scope :=
  { x with known := t.shared_subset_options x.known }

/-- A command line with a command that runs. -/
structure Line where
  before : List (Occurrence .program)
  task : Task
  after : List (Occurrence task.scope)
  /-- Two dashes end the words. -/
  closed : Bool

namespace Line

/-- The words behind the name of the command. -/
def rest (l : Line) :
    List String := rowWords l.after ++ if l.closed then ["--"] else []

def words (l : Line) :
    List String := rowWords l.before ++ l.task.name.name :: l.rest

/-- The text that an option has, with what stands behind the name of the command
first. -/
def text? (l : Line) (o : Opt) : Option String :=
  (Occurrence.text? l.after o).or (Occurrence.text? l.before o)

/-- Both rows of options are accepted. -/
def Accepted (l : Line) (env : Environment) : Prop :=
  Accepts env l.before ∧ Accepts env l.after

/-- The values of the options that all commands share. -/
def given (l : Line) (env : Environment) : Given :=
  (Occurrence.given l.after).orElse
    ((Occurrence.given l.before).orElse env.given)

/-- What the line says if it is accepted. -/
def invocation (l : Line) (env : Environment) : Invocation :=
  .ofGiven (l.task.command (Occurrence.given l.after)) (l.given env)

end Line

/-! ## Reading a line -/

namespace Invocation

theorem ofScopes_ok_iff {env : Environment} {before : Progress} {s : Scope}
    {command : Given → Command} {rest : List String} {inv : Invocation} :
    ofScopes env before s command rest = .ok inv ↔
      ∃ after next own outer, Progress.words s rest .start = .ok (after, next) ∧
        after.finish env = .ok own ∧ before.finish env = .ok outer ∧
        inv = ofGiven (command own) (own.orElse (outer.orElse env.given)) := by
  constructor
  · intro h
    obtain ⟨⟨after, next⟩, hwords, h⟩ := of_bind_ok h
    obtain ⟨own, hown, h⟩ := of_bind_ok h
    obtain ⟨outer, houter, h⟩ := of_bind_ok h
    cases h
    exact ⟨after, next, own, outer, hwords, hown, houter, rfl⟩
  · rintro ⟨after, next, own, outer, hwords, hown, houter, rfl⟩
    rw [ofScopes, hwords]
    change (after.finish env >>= _) = _
    rw [hown]
    change (before.finish env >>= _) = _
    rw [houter]
    rfl

/-- What is accepted names a command that runs. -/
theorem ofWords_ok_iff {env : Environment} {ws : List String}
    {inv : Invocation} :
    ofWords env ws = .ok inv ↔
      ∃ before, ∃ t : Task, ∃ rest,
        Progress.words .program ws .start = .ok (before, some (t.name, rest)) ∧
        ofScopes env before t.scope t.command rest = .ok inv := by
  constructor
  · intro h
    obtain ⟨⟨before, next⟩, hwords, h⟩ := of_bind_ok h
    split at h
    · next heq =>
        cases heq
        exact ⟨before, .generate, _, hwords, h⟩
    · next heq =>
        cases heq
        exact ⟨before, .check, _, hwords, h⟩
    · cases h
    · obtain ⟨_, -, h⟩ := of_bind_ok h
      cases h
  · rintro ⟨before, t, rest, hwords, hscopes⟩
    rw [ofWords, hwords]
    cases t <;> exact hscopes

/-- A line is accepted if its rows of options are. -/
theorem ofWords_line_ok_iff {env : Environment} {l : Line} {inv : Invocation} :
    ofWords env l.words = .ok inv ↔ l.Accepted env ∧
    inv = l.invocation env := by
  have hcommand : Scope.program.command? l.task.name.name =
      some l.task.name := by
    cases l.task <;> rfl
  have hend : l.task.scope.Ends none (if l.closed then ["--"] else []) := by
    cases l.closed
    · exact .out
    · exact .closed
  obtain ⟨r, hbefore, hr⟩ :=
    Progress.exists_reading l.before (.command hcommand l.rest)
  obtain ⟨r', hafter, hr'⟩ := Progress.exists_reading l.after hend
  rw [ofWords_ok_iff]
  constructor
  · rintro ⟨before, t, rest, hwords, hscopes⟩
    obtain ⟨p, hp, heq⟩ := of_bind_ok (hbefore.symm.trans hwords)
    simp only [Except.ok.injEq, Prod.mk.injEq, Option.some.injEq] at heq
    obtain ⟨rfl, ht, rfl⟩ := heq
    obtain rfl := Task.name_injective ht
    obtain ⟨after, next, own, outer, hwords', hown, houter, rfl⟩ :=
      ofScopes_ok_iff.1 hscopes
    obtain ⟨p', hp', heq'⟩ := of_bind_ok (hafter.symm.trans hwords')
    cases heq'
    obtain ⟨haccepts, rfl⟩ := (hr env outer).1 (by rw [hp]; exact houter)
    obtain ⟨haccepts', rfl⟩ := (hr' env own).1 (by rw [hp']; exact hown)
    exact ⟨⟨haccepts, haccepts'⟩, rfl⟩
  · rintro ⟨⟨haccepts, haccepts'⟩, rfl⟩
    obtain ⟨p, hp, houter⟩ := of_bind_ok ((hr env _).2 ⟨haccepts, rfl⟩)
    obtain ⟨p', hp', hown⟩ := of_bind_ok ((hr' env _).2 ⟨haccepts', rfl⟩)
    refine ⟨p, l.task, l.rest, ?_,
      ofScopes_ok_iff.2 ⟨p', none, _, _, ?_, hown, houter, rfl⟩⟩
    · rw [Line.words, hbefore, hp]
      rfl
    · rw [Line.rest, hafter, hp']
      rfl

/-- Everything that is accepted is a line. -/
theorem exists_line {env : Environment} {ws : List String} {inv : Invocation}
    (h : ofWords env ws = .ok inv) : ∃ l : Line, l.words = ws := by
  obtain ⟨before, t, rest, hwords, hscopes⟩ := ofWords_ok_iff.1 h
  obtain ⟨after, next, own, outer, hwords', hown, houter, -⟩ :=
    ofScopes_ok_iff.1 hscopes
  obtain ⟨q, hq, -⟩ := of_bind_ok houter
  obtain ⟨q', hq', -⟩ := of_bind_ok hown
  obtain ⟨row, tail, htail, rfl⟩ := Progress.exists_row hwords hq rfl
  obtain ⟨row', tail', htail', rfl⟩ := Progress.exists_row hwords' hq' rfl
  cases htail with
  | @command word _ hword _ =>
      obtain rfl := Scope.name_of_command? hword
      cases htail' with
      | out => exact ⟨⟨row, t, row', false⟩, rfl⟩
      | closed => exact ⟨⟨row, t, row', true⟩, rfl⟩
      | command hword' rest => exact absurd hword' (t.command?_ne_some _ _)

end Invocation

/-! ## Where the text of an option comes from -/

namespace Occurrence

variable {s : Scope}

/-- The value of an option in a row is that of its text. -/
theorem reads_of_text? {row : List (Occurrence s)}
    (h : ∀ x ∈ row, x.opt.Reads x.text) {o : Opt} {t : String}
    (ht : text? row o = some t) : o.Reads t := by
  obtain ⟨x, hx, rfl, rfl⟩ := exists_of_text? ht
  exact h x hx

theorem given_or {row : List (Occurrence s)} (h : ∀ x ∈ row, x.opt.Reads x.text)
    {o : Opt} {source : Option String} :
    (given row o).or (source.bind fun t => (o.read t).toOption) =
      ((text? row o).or source).bind fun t => (o.read t).toOption := by
  rw [given]
  cases ht : text? row o with
  | none => simp
  | some t =>
      obtain ⟨value, hvalue⟩ := reads_of_text? h ht
      simp [hvalue, Except.toOption]

end Occurrence

namespace Line

/-- The text that an option has, or that stands in for it. -/
def source? (l : Line) (env : Environment) (o : Opt) : Option String :=
  (l.text? o).or (env.text? o)

variable {l : Line} {env : Environment}

theorem Accepted.reads (h : l.Accepted env) {o : Opt} (ho : o ∈ Opt.shared)
    {t : String} (ht : l.source? env o = some t) : o.Reads t := by
  rw [source?, text?, Option.or_assoc, Option.or_eq_some_iff,
    Option.or_eq_some_iff] at ht
  obtain hafter | ⟨hnone, hbefore | ⟨-, henv⟩⟩ := ht
  · exact reads_of_text? h.2.reads hafter
  · exact reads_of_text? h.1.reads hbefore
  · exact h.2.environment o ho (text?_eq_none_iff.1 hnone) t henv

/-- Looking for a value goes where looking for a text goes. -/
theorem Accepted.given_eq (h : l.Accepted env) (o : Opt) :
    l.given env o = (l.source? env o).bind fun t => (o.read t).toOption := by
  rw [source?, text?, Option.or_assoc, ← given_or h.2.reads,
    ← given_or h.1.reads]
  rfl

/-- What a line says about the options that all commands share, if it is
accepted. -/
structure Resolves (l : Line) (env : Environment) (inv : Invocation) :
    Prop where
  manifest : inv.manifest = ((l.text? .manifest).or (env "GHA_MANIFEST")).getD
    "gha.yaml"
  level : some inv.level = LogLevel.ofName? ((l.text? .level).getD "warn")
  logFormat : some inv.logFormat =
    LogFormat.ofName? ((l.text? .logFormat).getD "compact")
  logFilter : inv.logFilter = l.text? .logFilter
  publicToken :
    inv.settings.publicToken =
      (l.text? .publicToken).or (env "DAGGER_PUBLIC_TOKEN")
  daggerVersion :
    inv.settings.daggerVersion = (l.text? .daggerVersion).or
      (env "GHA_DAGGER_VERSION")
  noTraces : inv.settings.noTraces = (l.text? .noTraces).isSome
  stopEngine : inv.settings.stopEngine = (l.text? .stopEngine).isSome
  asJson : inv.settings.asJson = (l.text? .asJson).isSome
  runner : inv.settings.runner = (l.text? .runner).or (env "GHA_RUNNER")

theorem source?_of_environmentName? {o : Opt} (h : o.environmentName? = none) :
    l.source? env o = l.text? o := by
  have hnone : env.text? o = none := by
    rw [Environment.text?, h]
    rfl
  rw [source?, hnone, Option.or_none]

/-- A flag is set where it stands. -/
theorem Accepted.isSome_given (h : l.Accepted env) {o : Opt}
    (ho : o ∈ Opt.shared) (hname : o.environmentName? = none) :
    (l.given env o).isSome = (l.text? o).isSome := by
  rw [h.given_eq, source?_of_environmentName? hname]
  cases ht : l.text? o with
  | none => rfl
  | some t =>
      obtain ⟨value, hvalue⟩ :=
        h.reads ho ((source?_of_environmentName? hname).trans ht)
      simp [hvalue, Except.toOption]

theorem Accepted.resolves (h : l.Accepted env) :
    l.Resolves env (l.invocation env) where
  manifest := by
    change (l.given env .manifest).getD _ = (l.source? env .manifest).getD _
    rw [h.given_eq]
    cases ht : l.source? env .manifest with
    | none => rfl
    | some t =>
        obtain ⟨path, hpath⟩ := h.reads (by decide) ht
        rw [Option.bind_some, hpath]
        exact Opt.eq_of_readPath hpath
  level := by
    change some ((l.given env .level).getD _) = _
    rw [h.given_eq, ← source?_of_environmentName? rfl]
    cases ht : l.source? env .level with
    | none => rfl
    | some t =>
        obtain ⟨level, hlevel⟩ := h.reads (by decide) ht
        rw [Option.bind_some, hlevel]
        exact (eq_some_of_elim_ok hlevel).symm
  logFormat := by
    change some ((l.given env .logFormat).getD _) = _
    rw [h.given_eq, ← source?_of_environmentName? rfl]
    cases ht : l.source? env .logFormat with
    | none => rfl
    | some t =>
        obtain ⟨format, hformat⟩ := h.reads (by decide) ht
        rw [Option.bind_some, hformat]
        exact (eq_some_of_elim_ok hformat).symm
  logFilter := by
    rw [← source?_of_environmentName? rfl]
    exact (h.given_eq .logFilter).trans (Option.bind_fun_some _)
  publicToken := (h.given_eq .publicToken).trans (Option.bind_fun_some _)
  daggerVersion := (h.given_eq .daggerVersion).trans (Option.bind_fun_some _)
  noTraces := h.isSome_given (by decide) rfl
  stopEngine := h.isSome_given (by decide) rfl
  asJson := h.isSome_given (by decide) rfl
  runner := (h.given_eq .runner).trans (Option.bind_fun_some _)

end Line

/-! ## Moving an option -/

namespace Occurrence

variable {s : Scope} {row row' before after : List (Occurrence s)}
  {x : Occurrence s}

theorem text?_insert (h : ∀ y ∈ before ++ after, y.opt ≠ x.opt) (o : Opt) :
    text? (before ++ x :: after) o =
      if o = x.opt then some x.text else text? (before ++ after) o := by
  have happend : ∀ row', text? (before ++ row') o =
      (text? before o).or (text? row' o) := by
    simp [text?, List.find?_append, Option.map_or]
  rw [happend, happend]
  split
  · next ho =>
      subst ho
      have hnone : text? before x.opt = none :=
        text?_eq_none_iff.2 fun y hy => h y (List.mem_append_left after hy)
      rw [hnone, text?_cons_self, Option.none_or]
  · next ho => rw [text?_cons_of_ne (Ne.symm ho)]

/-- The order of a row is no matter. -/
theorem Accepts.perm {env : Environment} (h : Accepts env row)
    (hperm : row.Perm row') :
    Accepts env row' where
  once := (hperm.map opt).nodup_iff.1 h.once
  reads x hx := h.reads x (hperm.mem_iff.2 hx)
  environment o ho hnot := h.environment o ho fun x hx =>
    hnot x (hperm.mem_iff.1 hx)

/-- With one more option the environment no longer has to have a value of it. -/
theorem accepts_cons_iff {env : Environment} (h : ∀ y ∈ row, y.opt ≠ x.opt)
    (hx : x.opt ∈ Opt.shared) :
    Accepts env (x :: row) ∧ env.Reads x.opt ↔ Accepts env row ∧
    x.opt.Reads x.text := by
  constructor
  · rintro ⟨⟨honce, hreads, henv⟩, hread⟩
    obtain ⟨hxreads, hreads⟩ := List.forall_mem_cons.1 hreads
    refine ⟨⟨(List.nodup_cons.1 honce).2, hreads, fun o ho hnot => ?_⟩, hxreads⟩
    rcases eq_or_ne x.opt o with rfl | hne
    · exact hread
    · exact henv o ho (List.forall_mem_cons.2 ⟨hne, hnot⟩)
  · rintro ⟨⟨honce, hreads, henv⟩, hxreads⟩
    refine ⟨⟨?_, List.forall_mem_cons.2 ⟨hxreads, hreads⟩, fun o ho hnot => ?_⟩,
      henv x.opt hx h⟩
    · exact List.nodup_cons.2 ⟨notMem_opts_iff.2 h, honce⟩
    · exact henv o ho (List.forall_mem_cons.1 hnot).2

/-- The same for an option at any place of the row. -/
theorem accepts_insert_iff {env : Environment}
    (h : ∀ y ∈ before ++ after, y.opt ≠ x.opt) (hx : x.opt ∈ Opt.shared) :
    Accepts env (before ++ x :: after) ∧ env.Reads x.opt ↔
      Accepts env (before ++ after) ∧ x.opt.Reads x.text := by
  rw [← accepts_cons_iff h hx]
  exact and_congr_left'
    ⟨fun h => h.perm List.perm_middle, fun h => h.perm List.perm_middle.symm⟩

end Occurrence

namespace Line

variable {env : Environment} {x : Occurrence .program}
  {pre post : List (Occurrence .program)} {t : Task}
  {as bs : List (Occurrence t.scope)}

/-- An option that stands nowhere else is accepted before the name of the
command if and only if it is accepted behind it. -/
theorem accepts_move_iff (hbefore : ∀ y ∈ pre ++ post, y.opt ≠ x.opt)
    (hafter : ∀ y ∈ as ++ bs, y.opt ≠ x.opt) :
    Accepts env (pre ++ x :: post) ∧ Accepts env (as ++ bs) ↔
      Accepts env (pre ++ post) ∧ Accepts env (as ++ x.behind t :: bs) := by
  have hx : x.opt ∈ Opt.shared := x.known
  have hout : Accepts env (pre ++ x :: post) ∧ _ ↔ _ :=
    accepts_insert_iff hbefore hx
  have hin : Accepts env (as ++ x.behind t :: bs) ∧ _ ↔ _ :=
    accepts_insert_iff hafter hx
  -- One of the rows lacks the option either way, so the environment has a value
  -- of it.
  constructor
  · rintro ⟨hwith, hwithout⟩
    obtain ⟨haccepts, hreads⟩ :=
      hout.1 ⟨hwith, hwithout.environment _ hx hafter⟩
    exact ⟨haccepts, (hin.2 ⟨hwithout, hreads⟩).1⟩
  · rintro ⟨hwithout, hwith⟩
    obtain ⟨haccepts, hreads⟩ :=
      hin.1 ⟨hwith, hwithout.environment _ hx hbefore⟩
    exact ⟨(hout.2 ⟨hwithout, hreads⟩).1, haccepts⟩

theorem invocation_move (hbefore : ∀ y ∈ pre ++ post, y.opt ≠ x.opt)
    (hafter : ∀ y ∈ as ++ bs, y.opt ≠ x.opt) (closed : Bool) :
    invocation ⟨pre ++ x :: post, t, as ++ bs, closed⟩ env =
      invocation ⟨pre ++ post, t, as ++ x.behind t :: bs, closed⟩ env := by
  have hout := text?_insert hbefore
  have hin : ∀ o, Occurrence.text? (as ++ x.behind t :: bs) o =
      if o = x.opt then some x.text else Occurrence.text? (as ++ bs) o :=
    text?_insert (x := x.behind t) hafter
  have hcommand : t.command (Occurrence.given (as ++ bs)) =
      t.command (Occurrence.given (as ++ x.behind t :: bs)) := by
    refine t.command_congr fun o ho => ?_
    have hne : o ≠ x.opt := fun heq => ho (heq ▸ x.known)
    rw [Occurrence.given, Occurrence.given, hin, if_neg hne]
  have hgiven : given ⟨pre ++ x :: post, t, as ++ bs, closed⟩ env =
      given ⟨pre ++ post, t, as ++ x.behind t :: bs, closed⟩ env := by
    funext o
    simp only [given, Given.orElse_apply, Occurrence.given, hout, hin]
    split
    · next ho =>
        have hnone : Occurrence.text? (pre ++ post) o = none :=
          text?_eq_none_iff.2 (ho ▸ hbefore)
        have hnone' : Occurrence.text? (as ++ bs) o = none :=
          text?_eq_none_iff.2 (ho ▸ hafter)
        rw [hnone, hnone']
        simp
    · rfl
  rw [invocation, invocation, hgiven]
  exact congrArg (Invocation.ofGiven · _) hcommand

end Line

/-- A line is accepted if its rows of options are, and nothing that is no line
is. Each option that all commands share then has the text that it is given
behind the name of the command, or before it, or else in its environment
variable, or else its default; an empty text is a text. Where it is given once,
it may be given on either side of the name. -/
theorem Invocation.ofWords_shared_options (env : Environment) :
    (∀ l : Line, (∃ inv, ofWords env l.words = .ok inv) ↔ l.Accepted env) ∧
    (∀ ws inv, ofWords env ws = .ok inv →
      (∃ l : Line, l.words = ws) ∧ ∀ l : Line, l.words = ws →
      l.Resolves env inv) ∧
    ∀ (x : Occurrence .program) (pre post : List (Occurrence .program))
      (t : Task) (as bs : List (Occurrence t.scope)) (closed : Bool),
      (∀ y ∈ pre ++ post, y.opt ≠ x.opt) → (∀ y ∈ as ++ bs, y.opt ≠ x.opt) →
      (ofWords env
        (Line.words ⟨pre ++ x :: post, t, as ++ bs, closed⟩)).toOption =
        (ofWords env
          (Line.words ⟨pre ++ post, t, as ++ x.behind t :: bs,
            closed⟩)).toOption := by
  refine ⟨fun l => ?_, fun ws inv h => ⟨exists_line h, ?_⟩,
    fun x pre post t as bs closed hbefore hafter => ?_⟩
  · simp only [ofWords_line_ok_iff, exists_eq_right]
  · rintro l rfl
    obtain ⟨haccepted, rfl⟩ := ofWords_line_ok_iff.1 h
    exact haccepted.resolves
  · have hiff :
      ∀ inv, ofWords env (Line.words ⟨pre ++ x :: post, t, as ++ bs, closed⟩) =
        .ok inv ↔
        ofWords env
          (Line.words ⟨pre ++ post, t, as ++ x.behind t :: bs, closed⟩) =
            .ok inv := by
      intro inv
      rw [ofWords_line_ok_iff, ofWords_line_ok_iff,
        Line.invocation_move hbefore hafter]
      exact and_congr_left' (Line.accepts_move_iff hbefore hafter)
    exact toOption_eq_of_ok_iff hiff

/-- An empty runner before the name of the command stands in front of the
environment's, and so it does behind the name. -/
theorem Invocation.ofWords_shared_options_runner :
    ∃ (env : Environment) (inv : Invocation), env "GHA_RUNNER" = some "small" ∧
      ofWords env ["--runner", "", "generate"] = .ok inv ∧
      inv.settings.runner = some "" ∧
      (ofWords env ["generate", "--runner", ""]).toOption = some inv := by
  let env : Environment :=
    fun name => if name = "GHA_RUNNER" then some "small" else none
  let x : Occurrence .program :=
    ⟨.runner, "", ["--runner", ""], by decide, .behind (.long rfl) rfl⟩
  obtain ⟨-, hresolves, hmove⟩ := ofWords_shared_options env
  have hwords : ofWords env ["--runner", "", "generate"] =
      .ok (Line.invocation ⟨[x], .generate, [], false⟩ env) := rfl
  have hrunner :=
    ((hresolves _ _ hwords).2 ⟨[x], .generate, [], false⟩ rfl).runner
  have hsame := hmove x [] [] .generate [] [] false (List.forall_mem_nil _)
    (List.forall_mem_nil _)
  have hmoved : Line.words ⟨[], .generate, [x.behind .generate], false⟩ =
      ["generate", "--runner", ""] := rfl
  have hstands : Line.text? ⟨[x], .generate, [], false⟩ .runner = some "" := rfl
  rw [hstands] at hrunner
  refine ⟨env, _, rfl, hwords, hrunner, ?_⟩
  rw [← hmoved]
  exact hsame.symm.trans (congrArg Except.toOption hwords)

end DaggerWorkflows.CommandLine
