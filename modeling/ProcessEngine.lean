import ProcessEngine.Arithmetic
import ProcessEngine.Text.Blank
import ProcessEngine.Text.Unprintable
import ProcessEngine.Text.Quoted
import ProcessEngine.Number.Dyadic
import ProcessEngine.Number.Shortest
import ProcessEngine.Number.Notation
import ProcessEngine.Keyed
import ProcessEngine.Json.Basic
import ProcessEngine.Json.Printer
import ProcessEngine.Json.Written
import ProcessEngine.Json.Reader
import ProcessEngine.Json.Decode
import ProcessEngine.Expr.Basic
import ProcessEngine.Expr.Message
import ProcessEngine.Expr.Reader
import ProcessEngine.Expr.Eval
import ProcessEngine.Scope
import ProcessEngine.Time.Instant
import ProcessEngine.Time.Duration
import ProcessEngine.Markup.Entity
import ProcessEngine.Markup.Token
import ProcessEngine.Markup.Attribute
import ProcessEngine.Diagram.Basic
import ProcessEngine.Diagram.Outline
import ProcessEngine.Key
import ProcessEngine.MachineId
import ProcessEngine.Activity
import ProcessEngine.Task.Matcher
import ProcessEngine.Task.Handler
import ProcessEngine.Instance.Basic
import ProcessEngine.Audit.Basic
import ProcessEngine.Audit.Codec
import ProcessEngine.Error
import ProcessEngine.Interpreter.Run
import ProcessEngine.Interpreter.Flow
import ProcessEngine.Interpreter.Job
import ProcessEngine.Interpreter.Event
import ProcessEngine.Interpreter.Gateway
import ProcessEngine.Interpreter.Drain
import ProcessEngine.Codec.Sha256
import ProcessEngine.Codec.Base64
import ProcessEngine.Codec.Bits
import ProcessEngine.Codec.PrefixCode
import ProcessEngine.Codec.Deflate
import ProcessEngine.Codec.StoredBlocks
import ProcessEngine.Engine.Basic
import ProcessEngine.Engine.Summary
import ProcessEngine.Snapshot.Basic
import ProcessEngine.Snapshot.Source
import ProcessEngine.Snapshot.Codec
import ProcessEngine.Snapshot.Restore
import ProcessEngine.Yaml.Cursor
import ProcessEngine.Yaml.Scalar
import ProcessEngine.Yaml.Token
import ProcessEngine.Yaml.Layout
import ProcessEngine.Yaml.Node
import ProcessEngine.Settings
import ProcessEngine.Proofs.ActivityFrame
import ProcessEngine.Proofs.VisitMoves
import ProcessEngine.Proofs.DrainSteps
import ProcessEngine.Proofs.RunGrowth
import ProcessEngine.Proofs.ArenaSoundness
import ProcessEngine.Proofs.EngineOperations
import ProcessEngine.Proofs.EngineSoundness
import ProcessEngine.Proofs.SnapshotRelinking
import ProcessEngine.Proofs.EngineReachability
import ProcessEngine.Proofs.InstanceHistory
import ProcessEngine.Proofs.ArenaBounds
import ProcessEngine.Proofs.MessageLedger
import ProcessEngine.Proofs.RaceResolution
import ProcessEngine.Proofs.InstanceCompletion
import ProcessEngine.Proofs.RaceBranches
import ProcessEngine.Proofs.WaitLedger
import ProcessEngine.Proofs.RaceWinners
import ProcessEngine.Proofs.ResumedRuns
import ProcessEngine.Proofs.QuietRuns
import ProcessEngine.Proofs.RunRelations
import ProcessEngine.Proofs.InstanceProgress
import ProcessEngine.Proofs.WakeUps
import ProcessEngine.Proofs.FlowGraph
import ProcessEngine.Proofs.VisitReports
import ProcessEngine.Proofs.RunSupply
import ProcessEngine.Proofs.RunTermination
import ProcessEngine.Proofs.AuditTrails
import ProcessEngine.Proofs.TokenBalance
import ProcessEngine.Proofs.ArrivalSegments
import ProcessEngine.Proofs.ParallelJoins
import ProcessEngine.Proofs.HomedActivities
import ProcessEngine.Proofs.RecastRuns
import ProcessEngine.Proofs.RecastEngines
import ProcessEngine.Proofs.RestoredEngines
import ProcessEngine.Proofs.RestoreStability
import ProcessEngine.Proofs.AcceptedSnapshots
import ProcessEngine.Proofs.KeyOrder
import ProcessEngine.Proofs.DefinitionVersions
import ProcessEngine.Proofs.InstanceEnds
import ProcessEngine.Proofs.MoreCommands
import ProcessEngine.Proofs.TwinInstances
import ProcessEngine.Proofs.TwinRuns
import ProcessEngine.Proofs.MessageOrder
import ProcessEngine.Proofs.ForeignOperations
import ProcessEngine.Proofs.InstanceIsolation
import ProcessEngine.Proofs.WrittenExpressions
import ProcessEngine.Proofs.ExpressionTokens
import ProcessEngine.Proofs.ReadExpressions
import ProcessEngine.Proofs.ElementErrors
import ProcessEngine.Proofs.MarkupPieces
import ProcessEngine.Proofs.OutlineSteps
import ProcessEngine.Proofs.TagSpellings
import ProcessEngine.Proofs.OutlineReadings
import ProcessEngine.Proofs.FlowTargets
import ProcessEngine.Proofs.MappingOutcomes
import ProcessEngine.Proofs.JobOutcomes
import ProcessEngine.Proofs.EventOutputs
import ProcessEngine.Proofs.FloatRange
import ProcessEngine.Proofs.ExactArithmetic
import ProcessEngine.Proofs.ExclusiveChoices
import ProcessEngine.Proofs.RacePriority
import ProcessEngine.Proofs.JoblessElements
import ProcessEngine.Proofs.JobCommands
import ProcessEngine.Proofs.JobHistories
import ProcessEngine.Proofs.KeySources
import ProcessEngine.Proofs.WrittenDurations
import ProcessEngine.Proofs.HandlerPriority
import ProcessEngine.Proofs.CommentedTexts
import ProcessEngine.Proofs.InstanceStates
import ProcessEngine.Proofs.ArenaRepresentation
