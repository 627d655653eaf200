import DaggerWorkflows.Error

/-!
# Scripts

Every step of a workflow that is not an action runs a script. The scripts are
part of the program, so a workflow needs no files besides itself; a compiler
may be given others to use in their place.
-/

namespace DaggerWorkflows

/-- A source of scripts: their bodies by name. -/
structure ScriptSource where
  entries : List (String × String)
deriving DecidableEq, Repr

namespace ScriptSource

/-- The body of a script. -/
def find (source : ScriptSource) (name : String) : Except Error String :=
  match source.entries.find? (·.1 == name) with
  | some (_, body) => .ok body
  | none => .error (.scriptUnavailable name)

end ScriptSource

namespace Script

/-- The name of the script that installs the build tool, in the version that the
environment names. -/
def installDagger : String := "install-dagger"

/-- The name of the script that starts the engine before it is needed. -/
def warmEngine : String := "warm-engine"

/-- The name of the script that runs the command and keeps what it prints. -/
def exec : String := "exec"

/-- The name of the script that stops the engine. -/
def stopEngine : String := "stop-engine"

/-- Installs the build tool, in the version that the environment names. -/
def installDaggerBody : List String := [
  "#!/usr/bin/env bash",
  "# Install the dagger CLI into /usr/local/bin.",
  "# DAGGER_VERSION selects the release; \"latest\" installs the newest one.",
  "set -euo pipefail",
  "",
  "if [ \"$\x7bDAGGER_VERSION:-latest\x7d\" = \"latest\" ]; then",
  "  unset DAGGER_VERSION",
  "fi",
  "",
  "curl -fsSL https://dl.dagger.io/dagger/install.sh \\",
  "  | BIN_DIR=/usr/local/bin sudo -E sh",
  "",
  "dagger version"]

/-- Starts the engine before it is needed. -/
def warmEngineBody : List String := [
  "#!/usr/bin/env bash",
  "# Start the engine ahead of the real call so its startup is not billed to it.",
  "set -euo pipefail",
  "",
  "dagger core version"]

/-- Runs the command and keeps what it prints. -/
def execBody : List String := [
  "#!/usr/bin/env bash",
  "# Run $COMMAND, tee its output to the job log and expose it as step outputs.",
  "set -uo pipefail",
  "",
  "if [ -n \"$\x7bDAGGER_MODULE:-\x7d\" ]; then",
  "  export DAGGER_MODULE",
  "fi",
  "",
  "stdout_file=$(mktemp)",
  "stderr_file=$(mktemp)",
  "trap 'rm -f \"$stdout_file\" \"$stderr_file\"' EXIT",
  "",
  "# Both tees are pipeline members, so they have exited once this line returns.",
  "exec 4>&1",
  "\x7b bash -c \"$COMMAND\" 2>&3 3>&- | tee \"$stdout_file\" 3>&-; \x7d 3>&1 1>&4 | tee \"$stderr_file\" >&2",
  "status=$?",
  "exec 4>&-",
  "",
  "# Values are newline-terminated so the closing delimiter sits on its own line.",
  "emit() \x7b",
  "  printf '%s<<%s\\n' \"$1\" \"$delimiter\"",
  "  printf '%s\\n' \"$(cat \"$2\")\"",
  "  printf '%s\\n' \"$delimiter\"",
  "\x7d",
  "",
  "delimiter=\"gha_$(date +%s%N)\"",
  "\x7b",
  "  emit stdout \"$stdout_file\"",
  "  emit stderr \"$stderr_file\"",
  "\x7d >> \"$\x7bGITHUB_OUTPUT:-/dev/null\x7d\"",
  "",
  "\x7b",
  "  echo '## dagger call'",
  "  echo '```'",
  "  echo \"$COMMAND\"",
  "  echo '```'",
  "\x7d >> \"$\x7bGITHUB_STEP_SUMMARY:-/dev/null\x7d\"",
  "",
  "exit \"$status\""]

/-- Stops the engine. -/
def stopEngineBody : List String := [
  "#!/usr/bin/env bash",
  "# Stop the engine container so the runner can shut down cleanly.",
  "set -euo pipefail",
  "",
  "containers=$(docker ps --filter name=\"^dagger-engine-*\" -q)",
  "if [ -n \"$containers\" ]; then",
  "  # shellcheck disable=SC2086",
  "  docker stop -t 300 $containers",
  "fi"]

/-- A text of lines, each of which is ended. -/
def ofLines (lines : List String) :
    String := String.join (lines.map (· ++ "\n"))

/-- The scripts that are part of the program. -/
def bundled : ScriptSource := ⟨[
  (installDagger, ofLines installDaggerBody),
  (warmEngine, ofLines warmEngineBody),
  (exec, ofLines execBody),
  (stopEngine, ofLines stopEngineBody)]⟩

end Script

end DaggerWorkflows
