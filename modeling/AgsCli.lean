import AgsCli.Library.OrderedMap
import AgsCli.Library.Checks
import AgsCli.Library.Runs
import AgsCli.Library.Events
import AgsCli.Protocol.Json
import AgsCli.Protocol.JsonText
import AgsCli.Protocol.Catalogue
import AgsCli.Protocol.Error
import AgsCli.Protocol.Workflow
import AgsCli.Protocol.Request
import AgsCli.Support.Strings
import AgsCli.Workflow.NestedPath
import AgsCli.Workflow.JsonPath
import AgsCli.Workflow.AutoDerive
import AgsCli.Workflow.LocalActions
import AgsCli.Workflow.Compile
import AgsCli.Workflow.Context
import AgsCli.Workflow.Resolve
import AgsCli.Workflow.NestedMerge
import AgsCli.Workflow.Assemble
import AgsCli.Workflow.ReviewPlan
import AgsCli.Workflow.RunInputs
import AgsCli.Workflow.DryRun
import AgsCli.Workflow.NeededInputs
import AgsCli.Workflow.Executor
import AgsCli.Workflow.ExecutorFacts
import AgsCli.Workflow.NoInputRuns
import AgsCli.Workflow.RunLifecycle
import AgsCli.Workflow.BindingReads
import AgsCli.Workflow.DryRunConsistency
import AgsCli.Workflow.InputGathering
import AgsCli.Workflow.StepReferences
import AgsCli.Tunnel.Frame
import AgsCli.Tunnel.Wire
import AgsCli.Tunnel.Rpc
import AgsCli.Tunnel.RpcCorrelation
import AgsCli.Tunnel.IdGenerator
import AgsCli.Tunnel.Session
import AgsCli.Tunnel.Teardown
import AgsCli.Tunnel.PumpStart
import AgsCli.Tunnel.Codec
import AgsCli.Library.Templates
import AgsCli.Library.HashMaps
import AgsCli.Library.Grouping
import AgsCli.Dispatch.Http
import AgsCli.Dispatch.Pagination
import AgsCli.Dispatch.PageAggregation
import AgsCli.Dispatch.Path
import AgsCli.Dispatch.Execute
import AgsCli.Dispatch.WireParameters
import AgsCli.Catalogue.OpenApi
import AgsCli.Catalogue.BodyFields
import AgsCli.Catalogue.ParsedSchema
import AgsCli.Catalogue.Lossless
import AgsCli.Config.RoundTrip
import AgsCli.Config.LostUpdate
import AgsCli.Auth.ProfileIsolation
import AgsCli.Auth.Session
import AgsCli.Auth.SessionRaces
import AgsCli.Auth.RefreshRotation
import AgsCli.Auth.SessionGaps
import AgsCli.Dispatch.PageRequests
import AgsCli.Library.UrlPaths
import AgsCli.Dispatch.PathShape
import AgsCli.Dispatch.Preview
import AgsCli.Invocation.ExplicitBody
import AgsCli.Workflow.ExternalStore
import AgsCli.Upload.Reassembly
import AgsCli.Telemetry.Redaction
import AgsCli.Update.InstallLock
import AgsCli.Update.Rollback
import AgsCli.Workflow.TemplatePieces
import AgsCli.Workflow.ShellCommands
import AgsCli.Workflow.PathLanguage
import AgsCli.Workflow.PathGrammar
import AgsCli.Workflow.InputOrder
import AgsCli.Workflow.BindingRoots
import AgsCli.Tunnel.Heartbeat
import AgsCli.Dispatch.PageMergers
import AgsCli.Dispatch.Classify
import AgsCli.Dispatch.SeparatorDrift
import AgsCli.Dispatch.Shape
import AgsCli.Dispatch.ListTables
import AgsCli.Workflow.LocalInputs
import AgsCli.Support.TerminalText
import AgsCli.Config.RawUpdate
import AgsCli.Upload.Directory
import AgsCli.Upload.Entrypoint
import AgsCli.Auth.Logout
import AgsCli.Auth.RefreshChain
import AgsCli.Workflow.SubPaths
import AgsCli.Workflow.BindingCollisions
import AgsCli.Workflow.NestedWrites
import AgsCli.Workflow.PlanRows
import AgsCli.Workflow.ReviewedRequest
import AgsCli.Telemetry.Identity
import AgsCli.Telemetry.InputFields
import AgsCli.Workflow.Options
import AgsCli.Workflow.OptionRows
import AgsCli.Library.Rounding
import AgsCli.Support.Numerals
import AgsCli.Invocation.FlagValues
import AgsCli.Extend.CsmApi
import AgsCli.Extend.ConfigLists
import AgsCli.Extend.AppWait
import AgsCli.Library.TextBuffer
import AgsCli.Terminal.RawEditor
import AgsCli.Extend.Permissions
import AgsCli.Extend.Checklist
import AgsCli.Library.Calendar
import AgsCli.Support.Timestamps
import AgsCli.Support.LooseStamps
import AgsCli.Support.Rfc3339
import AgsCli.Library.FileTrees
import AgsCli.Extend.SourcePath
import AgsCli.Support.DisplayText
import AgsCli.Support.DisplayTextFacts
import AgsCli.Invocation.HelpTree
import AgsCli.Terminal.BodyShapes
import AgsCli.Terminal.JsonEditor
import AgsCli.Support.CivilDates
import AgsCli.Workflow.MergeLens
import AgsCli.Library.Orbits
import AgsCli.Tunnel.StreamIds
import AgsCli.Library.TreePaths
import AgsCli.Terminal.TreeEditor
import AgsCli.Terminal.Forms
import AgsCli.Terminal.UntouchedForms
import AgsCli.Invocation.Flags
import AgsCli.Invocation.CommandLine
import AgsCli.Invocation.ParameterFlags
import AgsCli.Invocation.SettableFlags
import AgsCli.Tunnel.StreamBytes
import AgsCli.Tunnel.StreamSteps
import AgsCli.Tunnel.LinkedSessions
