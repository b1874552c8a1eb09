import Tiqora.Foundation.Machine
import Tiqora.Foundation.Guarded
import Tiqora.Foundation.Text
import Tiqora.Foundation.Scan
import Tiqora.Foundation.KeySets
import Tiqora.Foundation.Counting
import Tiqora.Foundation.Sorting
import Tiqora.Foundation.Tables
import Tiqora.Foundation.Reach
import Tiqora.Approvals.Contract
import Tiqora.Approvals.Rules
import Tiqora.Approvals.Resolve
import Tiqora.Approvals.Request
import Tiqora.Approvals.Engine
import Tiqora.Approvals.Service
import Tiqora.Approvals.Sweep
import Tiqora.Approvals.Runs
import Tiqora.Approvals.Evolution
import Tiqora.Approvals.Inversion
import Tiqora.Approvals.Activation
import Tiqora.Approvals.Progress
import Tiqora.Approvals.Safety
import Tiqora.Approvals.Votes
import Tiqora.Approvals.Steadiness
import Tiqora.Approvals.Timers
import Tiqora.Approvals.Pauses
import Tiqora.Znuny.CounterAdd
import Tiqora.Znuny.CounterChain
import Tiqora.Znuny.CounterUnique
import Tiqora.Znuny.WorkingTime
import Tiqora.Znuny.WorkingSeconds
import Tiqora.Domain.Quoting
import Tiqora.Znuny.Followup
import Tiqora.Znuny.SubjectRoundTrip
import Tiqora.Jobs.Runner
import Tiqora.Jobs.Ledger
import Tiqora.Jobs.QueueSafety
import Tiqora.Reporting.Follower
import Tiqora.Reporting.GapList
import Tiqora.Reporting.Coverage
import Tiqora.Reporting.Steps
import Tiqora.Reporting.NoLoss
import Tiqora.Reporting.HistoryEvents
import Tiqora.Reporting.EventChains
import Tiqora.Reporting.Facts
import Tiqora.Reporting.SlaFigures
import Tiqora.Reporting.Dirty
import Tiqora.Permissions.Engine
import Tiqora.Permissions.Agreement
import Tiqora.Identity.ScimGroups
import Tiqora.Identity.RoleSync
import Tiqora.Identity.RoleSyncKept
import Tiqora.Itsm.ChangeImpact
import Tiqora.Itsm.ImpactCurrent
import Tiqora.Itsm.ChangePhases
import Tiqora.Itsm.ChangeTransitions
import Tiqora.Itsm.ChangeOutcomes
import Tiqora.Itsm.ChangeApproved
import Tiqora.Itsm.ChangeGoverned
import Tiqora.Cmdb.Links
import Tiqora.Cmdb.Propagation
import Tiqora.Cmdb.Service
import Tiqora.Cmdb.Derived
import Tiqora.Cmdb.DerivedKept
import Tiqora.Cmdb.FullRecompute
import Tiqora.Ai.RunLock
import Tiqora.Webchat.Session
import Tiqora.Webchat.Transcript
import Tiqora.Webchat.TranscriptKept
import Tiqora.Webchat.Conversation
import Tiqora.Webchat.Stream
import Tiqora.Webchat.StreamKept
import Tiqora.Webchat.Capacity
import Tiqora.Webchat.CapacityKept
import Tiqora.Webchat.BotTurn
import Tiqora.Webchat.BotTurnKept
import Tiqora.Worker.SearchFeed
import Tiqora.Worker.SearchFeedKept
import Tiqora.Plugins.Restart
import Tiqora.Plugins.RestartWatch
import Tiqora.Plugins.RestartKept
import Tiqora.Plugins.RestartTurns
import Tiqora.Foundation.Kleene
import Tiqora.Foundation.Like
import Tiqora.Foundation.Civil
import Tiqora.Filters.Catalog
import Tiqora.Filters.Predicates
import Tiqora.Filters.Meaning
import Tiqora.Filters.Reports
import Tiqora.Filters.Tickets
import Tiqora.Filters.TicketMeaning
import Tiqora.Filters.Selection
import Tiqora.Calendar.Moments
import Tiqora.Calendar.Recurrence
import Tiqora.Calendar.Coverage
import Tiqora.Calendar.MonthDays
import Tiqora.Gdpr.Retention
import Tiqora.Gdpr.RetentionKept
import Tiqora.Foundation.Expiring
import Tiqora.Foundation.Regex
import Tiqora.Totp.Service
import Tiqora.Totp.Timesteps
import Tiqora.Totp.Factor
import Tiqora.Reporting.Backfill
import Tiqora.Reporting.BackfillKept
import Tiqora.Ai.AutoWorker
import Tiqora.Ai.OutboxDrained
import Tiqora.Ai.ParkedReplies
import Tiqora.Ai.Pii
import Tiqora.Ai.PiiReversible
import Tiqora.Util.Cron
import Tiqora.Reporting.Recurrence
import Tiqora.Reporting.RecurrenceExact
import Tiqora.Plugins.GapTracker
import Tiqora.Domain.TicketAcl
import Tiqora.Domain.TicketAclFilter
import Tiqora.Process.Conditions
import Tiqora.Process.ConditionsMeaning
import Tiqora.Foundation.Commuting
import Tiqora.Znuny.XmlHash
import Tiqora.Znuny.XmlHashExact
import Tiqora.Foundation.Place
import Tiqora.Znuny.PerlData
import Tiqora.Znuny.PerlDataTokens
import Tiqora.Znuny.PerlDataExact
import Tiqora.Identity.Mapping
import Tiqora.Identity.MappingConverges
import Tiqora.Identity.ScimPatch
import Tiqora.Identity.ScimPatchSequential
import Tiqora.Foundation.Worklist
import Tiqora.Itsm.ServiceState
import Tiqora.Reporting.Snapshots
import Tiqora.Reporting.SnapshotReplay
import Tiqora.Foundation.JsonString
import Tiqora.Identity.ScimError
import Tiqora.Identity.ScimFilter
import Tiqora.Identity.ScimGroupList
import Tiqora.Identity.ScimFilterAnswered
import Tiqora.Itsm.Freezes
import Tiqora.Itsm.FreezesComplete
import Tiqora.Foundation.Decimal
import Tiqora.Cmdb.Definition
import Tiqora.Cmdb.Values
import Tiqora.Cmdb.ValuesCoerce
import Tiqora.Cmdb.ValuesAgain
import Tiqora.Cmdb.ValuesIdempotent
import Tiqora.Cmdb.AffectedSet
import Tiqora.Foundation.Replace
import Tiqora.Gi.Redact
import Tiqora.Gi.Conditions
import Tiqora.Gi.ConditionsMeaning
import Tiqora.Foundation.Dicts
import Tiqora.Itsm.ZnunyFormat.Limits
import Tiqora.Itsm.ZnunyFormat.XmlData
import Tiqora.Itsm.ZnunyFormat.XmlDataScalars
import Tiqora.Itsm.ZnunyFormat.XmlDataRoundTrip
import Tiqora.Itsm.ZnunyFormat.XmlDataSurvives
import Tiqora.Itsm.ZnunyFormat.Stringified
import Tiqora.Itsm.ZnunyFormat.StringifiedRoundTrip
import Tiqora.Itsm.ZnunyFormat.StringifiedMerges
import Tiqora.Domain.Vcard
import Tiqora.Domain.VcardLines
import Tiqora.Domain.VcardRoundTrip
import Tiqora.Domain.VcardImported
import Tiqora.Gdpr.ValueMapper
import Tiqora.Gdpr.Anonymize
import Tiqora.Gdpr.AnonymizeUsers
import Tiqora.Gdpr.AnonymizeRuns
import Tiqora.Gdpr.AnonymizeApart
import Tiqora.Gdpr.AnonymizeResumed
import Tiqora.Foundation.Layers
import Tiqora.Itsm.LinkGraph
import Tiqora.Itsm.LinkGraphWalk
import Tiqora.Itsm.LinkGraphExact
import Tiqora.Domain.DynamicFieldValues
import Tiqora.Domain.DynamicFieldKept
import Tiqora.Webchat.Hub
import Tiqora.Webchat.HubKept
import Tiqora.Foundation.Bisect
import Tiqora.Reporting.TzSegments
import Tiqora.Foundation.Periods
import Tiqora.Reporting.TimeWindows
import Tiqora.Reporting.StockDates
import Tiqora.Dashboard.Layout
import Tiqora.Dashboard.Store
import Tiqora.Dashboard.StoreKept
import Tiqora.Dashboard.TemplateRuns
import Tiqora.Webchat.RateLimit
import Tiqora.Gi.ErrorHandling
import Tiqora.Gi.RetryChain
import Tiqora.Gi.RetryChainSends
import Tiqora.Gi.RetryChainSafe
import Tiqora.Reporting.Scheduler
import Tiqora.Reporting.SchedulerKept
import Tiqora.Reporting.SchedulerSafe
import Tiqora.Process.Engine
import Tiqora.Process.EngineRows
import Tiqora.Process.EnginePath
