import DaggerWorkflows.CommandLine
import DaggerWorkflows.CommandLine.Given
import DaggerWorkflows.CommandLine.Opt
import DaggerWorkflows.CommandLine.Progress
import DaggerWorkflows.CommandLine.Scope
import DaggerWorkflows.CommandLine.Stop
import DaggerWorkflows.CommandLine.Word
import DaggerWorkflows.Container
import DaggerWorkflows.ContextKey
import DaggerWorkflows.Datum
import DaggerWorkflows.Datum.Json
import DaggerWorkflows.Datum.Scalar
import DaggerWorkflows.Datum.Yaml
import DaggerWorkflows.Error
import DaggerWorkflows.Event
import DaggerWorkflows.FilePath
import DaggerWorkflows.FileSystem
import DaggerWorkflows.FileTree
import DaggerWorkflows.FileTree.Write
import DaggerWorkflows.Generate
import DaggerWorkflows.LogFilter
import DaggerWorkflows.LogFilter.Pattern
import DaggerWorkflows.LogLevel
import DaggerWorkflows.Main
import DaggerWorkflows.Manifest
import DaggerWorkflows.Manifest.OfText
import DaggerWorkflows.Manifest.Records
import DaggerWorkflows.Number.Digits
import DaggerWorkflows.Number.Double
import DaggerWorkflows.OrderedMap
import DaggerWorkflows.Pipeline
import DaggerWorkflows.Pipeline.Check
import DaggerWorkflows.Pipeline.Compile
import DaggerWorkflows.Pipeline.Spec
import DaggerWorkflows.Program
import DaggerWorkflows.Registry
import DaggerWorkflows.Registry.Check
import DaggerWorkflows.Schedule
import DaggerWorkflows.Script
import DaggerWorkflows.SecretName
import DaggerWorkflows.Settings
import DaggerWorkflows.Shell
import DaggerWorkflows.SortedMap
import DaggerWorkflows.Text.Alphanumeric
import DaggerWorkflows.Text.Blank
import DaggerWorkflows.Text.Quoted
import DaggerWorkflows.Text.Ranges
import DaggerWorkflows.Text.Split
import DaggerWorkflows.Text.Unprintable
import DaggerWorkflows.Traced
import DaggerWorkflows.Trigger
import DaggerWorkflows.Workflow
import DaggerWorkflows.Workflow.Conditions
import DaggerWorkflows.Workflow.Datum
import DaggerWorkflows.Yaml.Atom
import DaggerWorkflows.Yaml.Complaint
import DaggerWorkflows.Yaml.Directive
import DaggerWorkflows.Yaml.Fault
import DaggerWorkflows.Yaml.Glyph
import DaggerWorkflows.Yaml.Horizon
import DaggerWorkflows.Yaml.Mark
import DaggerWorkflows.Yaml.Node
import DaggerWorkflows.Yaml.Node.OfTokens
import DaggerWorkflows.Yaml.Path
import DaggerWorkflows.Yaml.Scalar.Block
import DaggerWorkflows.Yaml.Scalar.Fold
import DaggerWorkflows.Yaml.Scalar.Plain
import DaggerWorkflows.Yaml.Scalar.Quoted
import DaggerWorkflows.Yaml.Source
import DaggerWorkflows.Yaml.Source.OfNode
import DaggerWorkflows.Yaml.Source.OfValue
import DaggerWorkflows.Yaml.Tag
import DaggerWorkflows.Yaml.Token
import DaggerWorkflows.Yaml.Token.Lexer
import DaggerWorkflows.Yaml.Token.OfText
import DaggerWorkflows.Yaml.Value
import DaggerWorkflows.Proofs.PathComponents
import DaggerWorkflows.Proofs.WorkflowPath
import DaggerWorkflows.Proofs.CompiledWorkflow
import DaggerWorkflows.Proofs.RegistryFiles
import DaggerWorkflows.Proofs.ManifestFiles
import DaggerWorkflows.Proofs.ScheduleInvariant
import DaggerWorkflows.Proofs.CheckVerdict
import DaggerWorkflows.Proofs.CheckDispatch
import DaggerWorkflows.Proofs.CheckTimes
import DaggerWorkflows.Proofs.RegistryHistory
import DaggerWorkflows.Proofs.CheckedFiles
import DaggerWorkflows.Proofs.CheckInterruption
import DaggerWorkflows.Proofs.ManifestKeys
import DaggerWorkflows.Proofs.CheckScript
import DaggerWorkflows.Proofs.WorkflowRoundTrip
import DaggerWorkflows.Proofs.NormalSettings
import DaggerWorkflows.Proofs.CheckExitCode
import DaggerWorkflows.Proofs.TreeWriting
import DaggerWorkflows.Proofs.WorkflowPlace
import DaggerWorkflows.Proofs.RunEffects
import DaggerWorkflows.Proofs.Noninterference
import DaggerWorkflows.Proofs.TreeInsertion
import DaggerWorkflows.Proofs.OutputModes
import DaggerWorkflows.Proofs.ManifestOrder
import DaggerWorkflows.Proofs.SecretExpressions
import DaggerWorkflows.Proofs.SharedOptions
