import DaggerWorkflows.SortedMap

/-!
# Conditions

What has to hold for an event to start a workflow. Each kind of event has
conditions of its own; a list left empty asks for nothing.
-/

namespace DaggerWorkflows

/-- Conditions on a push. -/
structure PushConditions where
  branches : List String
  tags : List String
  paths : List String
deriving DecidableEq, Repr, Inhabited

/-- Conditions on what happens to a pull request. -/
structure PullRequestConditions where
  /-- The branches that requests are made to. -/
  branches : List String
  /-- What is done with the request. -/
  types : List String
  paths : List String
deriving DecidableEq, Repr, Inhabited

/-- A value that is asked for when a workflow is started by hand. -/
structure DispatchInput where
  description : String
  required : Option Bool
  default : Option String
  type : Option String
deriving DecidableEq, Repr, Inhabited

/-- What is asked for when a workflow is started by hand. -/
structure DispatchConditions where
  inputs : SortedMap DispatchInput
deriving DecidableEq, Repr, Inhabited

/-- Conditions on a comment. -/
structure CommentConditions where
  /-- What is done with the comment. -/
  types : List String
deriving DecidableEq, Repr, Inhabited

/-- The kinds of events. -/
inductive TriggerKind where
  | push
  | pullRequest
  | dispatch
  | issueComment
deriving DecidableEq, Repr

/-- An event of one kind with its conditions. -/
inductive Conditions where
  | push (conditions : PushConditions)
  | pullRequest (conditions : PullRequestConditions)
  | dispatch (conditions : DispatchConditions)
  | issueComment (conditions : CommentConditions)
deriving DecidableEq, Repr

namespace TriggerKind

/-- All kinds, in the order that workflows are generated and checked in. -/
def all : List TriggerKind := [push, pullRequest, dispatch, issueComment]

/-- The kind as the name of a file has it. -/
def discriminator : TriggerKind → String
  | push => "push"
  | pullRequest => "pr"
  | dispatch => "dispatch"
  | issueComment => "issue-comment"

/-- The section of a manifest that declares triggers of the kind. -/
def sectionName : TriggerKind → String
  | push => "push"
  | pullRequest => "pull_request"
  | dispatch => "dispatch"
  | issueComment => "issue_comment"

end TriggerKind

/-- The kind of event that conditions are about. -/
def Conditions.kind : Conditions → TriggerKind
  | push _ => .push
  | pullRequest _ => .pullRequest
  | dispatch _ => .dispatch
  | issueComment _ => .issueComment

end DaggerWorkflows
