/-!
# Context keys

The build service knows things about each run: who started it, for which
commit, and so on. A workflow reads them by expressions; the scripts of a
workflow read them from environment variables that hold those expressions.
-/

namespace DaggerWorkflows

/-- A thing known about a run, and what it is. -/
structure ContextKey where
  key : String
  description : String
deriving DecidableEq, Repr

namespace ContextKey

/-- An expression that stands for a value until the workflow runs. -/
def expressionOf (name : String) : String := "$\x7b\x7b " ++ name ++ " \x7d\x7d"

/-- The variable that holds the value. -/
def envName (k : ContextKey) : String := "GITHUB_" ++ k.key.map Char.toUpper

/-- The expression that stands for the value. -/
def expression (k : ContextKey) : String := expressionOf ("github." ++ k.key)

/-- All keys, in the order they are documented in. -/
def all : List ContextKey := [
  ⟨"action", "Name of the running action, or the id of a step"⟩,
  ⟨"action_path", "Path where an action is located (composite actions only)"⟩,
  ⟨"action_ref", "Ref of the action being executed"⟩,
  ⟨"action_repository",
    "Owner and repository name of the action being executed"⟩,
  ⟨"action_status", "Current result of the composite action"⟩,
  ⟨"actor", "User that triggered the initial workflow run"⟩,
  ⟨"actor_id", "Account ID of the user that triggered the initial run"⟩,
  ⟨"api_url", "URL of the GitHub REST API"⟩,
  ⟨"base_ref", "Target branch of the pull request"⟩,
  ⟨"env",
    "Path of the file that sets environment variables from workflow commands"⟩,
  ⟨"event_name", "Name of the event that triggered the workflow run"⟩,
  ⟨"event_path", "Path of the file holding the full event webhook payload"⟩,
  ⟨"graphql_url", "URL of the GitHub GraphQL API"⟩,
  ⟨"head_ref", "Source branch of the pull request"⟩,
  ⟨"job", "job_id of the current job"⟩,
  ⟨"path",
    "Path of the file that sets system PATH variables from workflow commands"⟩,
  ⟨"ref", "Fully-formed ref of the branch or tag that triggered the run"⟩,
  ⟨"ref_name", "Short ref name of the branch or tag that triggered the run"⟩,
  ⟨"ref_protected", "Whether branch protections are configured for the ref"⟩,
  ⟨"ref_type", "Type of ref that triggered the run: branch or tag"⟩,
  ⟨"repository", "Owner and repository name"⟩,
  ⟨"repository_id", "ID of the repository"⟩,
  ⟨"repository_owner", "Repository owner's username"⟩,
  ⟨"repository_owner_id", "Repository owner's account ID"⟩,
  ⟨"repositoryUrl", "Git URL of the repository"⟩,
  ⟨"retention_days", "Days workflow run logs and artifacts are kept"⟩,
  ⟨"run_id", "Unique number of each workflow run within a repository"⟩,
  ⟨"run_number", "Unique number of each run of a particular workflow"⟩,
  ⟨"run_attempt", "Unique number of each attempt of a particular workflow run"⟩,
  ⟨"secret_source", "Source of a secret used in a workflow"⟩,
  ⟨"server_url", "URL of the GitHub server"⟩,
  ⟨"sha", "Commit SHA that triggered the workflow"⟩,
  ⟨"token", "Token to authenticate on behalf of the installed GitHub App"⟩,
  ⟨"triggering_actor", "User that initiated the workflow run"⟩,
  ⟨"workflow", "Name of the workflow"⟩,
  ⟨"workflow_ref", "Ref path to the workflow"⟩,
  ⟨"workflow_sha", "Commit SHA of the workflow file"⟩,
  ⟨"workspace", "Default working directory on the runner for steps"⟩]

end ContextKey

end DaggerWorkflows
