/-!
# Settings

Settings apply to every generated workflow. Each pipeline has a copy of them in
which only the runner may differ. A text left empty stands for its default.
-/

namespace DaggerWorkflows

/-- Settings of all generated workflows. -/
structure Settings where
  /-- A token of the build service that may be read by anyone. -/
  publicToken : Option String
  /-- The version of the build tool that workflows install. -/
  daggerVersion : String
  /-- Send no traces to the build service. -/
  noTraces : Bool
  /-- Stop the build engine at the end of a workflow. -/
  stopEngine : Bool
  /-- Write workflows as JSON, not as YAML. -/
  asJson : Bool
  /-- The label of the machine that workflows run on. -/
  runner : String
deriving DecidableEq, Repr

namespace Settings

/-- The runner of workflows that name none. -/
def defaultRunner : String := "ubuntu-latest"

/-- The version of the build tool where none is named. -/
def defaultVersion : String := "latest"

/-- Settings with every default. -/
def default :
    Settings := ⟨none, defaultVersion, false, false, false, defaultRunner⟩

instance : Inhabited Settings := ⟨default⟩

/-- A text, or its default if it is empty. -/
def orDefault (text fallback : String) :
    String := if text.isEmpty then fallback else text

/-- Set the token; an empty one is no token. -/
def withPublicToken (s : Settings) (token : String) : Settings :=
  { s with publicToken := if token.isEmpty then none else some token }

/-- Set the version of the build tool. -/
def withDaggerVersion (s : Settings) (version : String) : Settings :=
  { s with daggerVersion := orDefault version defaultVersion }

/-- Set the runner. -/
def withRunner (s : Settings) (runner : String) : Settings :=
  { s with runner := orDefault runner defaultRunner }

/-- Send no traces. -/
def withoutTraces (s : Settings) : Settings := { s with noTraces := true }

/-- Stop the engine at the end. -/
def withStopEngine (s : Settings) : Settings := { s with stopEngine := true }

/-- Write JSON. -/
def withJson (s : Settings) : Settings := { s with asJson := true }

/-- Replace empty texts by their defaults. -/
def normalized (s : Settings) : Settings :=
  ((s.withRunner s.runner).withDaggerVersion s.daggerVersion).withPublicToken
    (s.publicToken.getD "")

/-- The copy for a pipeline that may name a runner of its own. -/
def forRunner (s : Settings) (runner : Option String) : Settings :=
  match runner.filter (!·.isEmpty) with
  | some runner => { s.normalized with runner }
  | none => s.normalized

end Settings

/-- Settings as given on a command line, where each may be left out. -/
structure SettingsChoice where
  publicToken : Option String
  daggerVersion : Option String
  noTraces : Bool
  stopEngine : Bool
  asJson : Bool
  runner : Option String
deriving DecidableEq, Repr

namespace SettingsChoice

/-- The settings that a choice stands for. -/
def settings (c : SettingsChoice) : Settings :=
  let s := Settings.default
  let s := c.publicToken.elim s s.withPublicToken
  let s := c.daggerVersion.elim s s.withDaggerVersion
  let s := c.runner.elim s s.withRunner
  { s with
    noTraces := c.noTraces, stopEngine := c.stopEngine, asJson := c.asJson }

end SettingsChoice

end DaggerWorkflows
