import ReviewQuorum.Calendar
import ReviewQuorum.ChangeRequest
import ReviewQuorum.Command
import ReviewQuorum.CommandLine
import ReviewQuorum.CommandLine.Arguments
import ReviewQuorum.Dict
import ReviewQuorum.Document
import ReviewQuorum.Failure
import ReviewQuorum.Forge
import ReviewQuorum.Gate
import ReviewQuorum.Grammar
import ReviewQuorum.Invocation
import ReviewQuorum.Json
import ReviewQuorum.Json.Magnitude
import ReviewQuorum.Json.Printer
import ReviewQuorum.Json.Reader
import ReviewQuorum.Ledger
import ReviewQuorum.Main
import ReviewQuorum.Marker
import ReviewQuorum.Memory
import ReviewQuorum.Moment
import ReviewQuorum.Pass
import ReviewQuorum.Permission
import ReviewQuorum.Plan
import ReviewQuorum.Policy
import ReviewQuorum.Policy.Digest
import ReviewQuorum.Program
import ReviewQuorum.Readiness
import ReviewQuorum.Reconciler
import ReviewQuorum.Reply
import ReviewQuorum.Request
import ReviewQuorum.Retry
import ReviewQuorum.Review
import ReviewQuorum.Role
import ReviewQuorum.RoleMap
import ReviewQuorum.Round
import ReviewQuorum.Settings
import ReviewQuorum.Sha256
import ReviewQuorum.Text.Blank
import ReviewQuorum.Text.Decimal
import ReviewQuorum.Text.Double
import ReviewQuorum.Text.Hex
import ReviewQuorum.Timestamp.Text
import ReviewQuorum.Toml
import ReviewQuorum.Toml.Decode
import ReviewQuorum.Toml.Reader
import ReviewQuorum.Toml.Scalar
import ReviewQuorum.Wire
import ReviewQuorum.Wire.Command
import ReviewQuorum.Wire.Ledger
import ReviewQuorum.Wire.Readiness
import ReviewQuorum.Wire.Report
import ReviewQuorum.Wire.Settings
import ReviewQuorum.Wire.Snapshot
import ReviewQuorum.Worker
import ReviewQuorum.World
import ReviewQuorum.Proofs.PolicyOrder
import ReviewQuorum.Proofs.Replay
import ReviewQuorum.Proofs.ReadinessOrder
import ReviewQuorum.Proofs.Markers
import ReviewQuorum.Proofs.Course
import ReviewQuorum.Proofs.Growth
import ReviewQuorum.Proofs.Wording
import ReviewQuorum.Proofs.ReplyMarkers
import ReviewQuorum.Proofs.MarkerScan
import ReviewQuorum.Proofs.PassCourse
import ReviewQuorum.Proofs.Run
import ReviewQuorum.Proofs.Answering
import ReviewQuorum.Proofs.AuthorRun
import ReviewQuorum.Proofs.LatestReview
import ReviewQuorum.Proofs.Milestones
import ReviewQuorum.Proofs.SolePass
import ReviewQuorum.Proofs.GateAnswer
import ReviewQuorum.Proofs.Unmarked
import ReviewQuorum.Proofs.Resumption
import ReviewQuorum.Proofs.Interleaving
import ReviewQuorum.Proofs.Supersession
import ReviewQuorum.Proofs.PastRulings
import ReviewQuorum.Proofs.ListingOrder
import ReviewQuorum.Proofs.Intactness
import ReviewQuorum.Proofs.Exclusion
import ReviewQuorum.Proofs.IdleCommands
import ReviewQuorum.Proofs.PolicyShape
import ReviewQuorum.Proofs.ReadyLabel
import ReviewQuorum.Proofs.CivilCalendar
import ReviewQuorum.Proofs.Decimals
import ReviewQuorum.Proofs.JsonText
import ReviewQuorum.Proofs.TimestampText
import ReviewQuorum.Proofs.Records
import ReviewQuorum.Proofs.WireForms
import ReviewQuorum.Proofs.PassingFailures
import ReviewQuorum.Proofs.Independence
import ReviewQuorum.Proofs.ReadinessGrowth
import ReviewQuorum.Proofs.BotText
import ReviewQuorum.Proofs.OwnRulings
import ReviewQuorum.Proofs.Since
import ReviewQuorum.Proofs.ClosedForm
import ReviewQuorum.Proofs.Spacing
import ReviewQuorum.Proofs.CommandGrammar
import ReviewQuorum.Proofs.PollSet
import ReviewQuorum.Proofs.RequestPermission
import ReviewQuorum.Proofs.TallyCount
import ReviewQuorum.Proofs.Shortfall
import ReviewQuorum.Proofs.ReplyLines
import ReviewQuorum.Proofs.Confirmation
import ReviewQuorum.Proofs.NewComments
import ReviewQuorum.Proofs.RulingChain
import ReviewQuorum.Proofs.RetryCourse
import ReviewQuorum.Proofs.MovedDescription
import ReviewQuorum.Proofs.PolicyDigest
import ReviewQuorum.Proofs.ResolvedRoles
import ReviewQuorum.Proofs.PassTurns
import ReviewQuorum.Proofs.RoundEnd
import ReviewQuorum.Proofs.WorkerCount
