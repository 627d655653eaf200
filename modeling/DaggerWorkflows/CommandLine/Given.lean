import DaggerWorkflows.CommandLine.Opt

/-!
# Values that options have been given

An assignment of values to some of the options. Each option is looked up in the
words behind the name of the command, then in those before it, then in the
environment.
-/

namespace DaggerWorkflows.CommandLine

/-- A value for each option that has one. -/
def Given : Type := (o : Opt) → Option o.Value

namespace Given

/-- No option has a value. -/
def empty : Given := fun _ => none

/-- Give an option a value. -/
def set (g : Given) (o : Opt) (value : o.Value) : Given := fun p =>
  if h : p = o then some (h ▸ value) else g p

/-- The values of one assignment and, where it has none, those of another. -/
def orElse (g h : Given) : Given := fun o => (g o).or (h o)

@[simp] theorem set_self (g : Given) (o : Opt) (value : o.Value) :
    g.set o value o = some value := by
  simp [set]

theorem set_of_ne (g : Given) {o p : Opt} (value : o.Value) (h : p ≠ o) :
    g.set o value p = g p := by
  simp [set, h]

@[simp] theorem empty_apply (o : Opt) : empty o = none := rfl

@[simp] theorem orElse_apply (g h : Given) (o : Opt) :
    g.orElse h o = (g o).or (h o) := rfl

end Given

/-- The values of environment variables by their names. -/
def Environment : Type := String → Option String

namespace Environment

/-- The text that stands in for an option. -/
def text? (env : Environment) (o : Opt) :
    Option String := o.environmentName?.bind env

/-- The values that stand in for options. -/
def given (env : Environment) : Given := fun o =>
  (env.text? o).bind fun text => (o.read text).toOption

/-- Whether the environment says nothing about any option. -/
def isSilent (env : Environment) :
    Bool := Opt.shared.all fun o => (env.text? o).isNone

/-- The first of the options without a value whose variable has no value of
theirs. -/
def fault? (env : Environment) (g : Given) : Option (Opt × ValueFault) :=
  Opt.shared.findSome? fun o =>
    if (g o).isSome then none
    else
      match (env.text? o).map o.read with
      | some (.error e) => some (o, e)
      | _ => none

end Environment

end DaggerWorkflows.CommandLine
