import JobSuspension.Audit.Entry
import JobSuspension.Audit.Family
import JobSuspension.Audit.Level
import JobSuspension.Audit.Operation
import JobSuspension.Audit.Query
import JobSuspension.Calendar
import JobSuspension.Codec.Atoms
import JobSuspension.Codec.Audit
import JobSuspension.Codec.Job
import JobSuspension.Codec.ProcessInstance
import JobSuspension.Codec.Selection
import JobSuspension.Duration
import JobSuspension.Engine.Call
import JobSuspension.Engine.Command
import JobSuspension.Engine.Journal
import JobSuspension.Engine.StateChange
import JobSuspension.Engine.Stores
import JobSuspension.Engine.Table
import JobSuspension.Engine.Timers
import JobSuspension.Error
import JobSuspension.Instant.Basic
import JobSuspension.Instant.Text
import JobSuspension.Job
import JobSuspension.JobDefinition
import JobSuspension.Json.Number
import JobSuspension.Json.Printer
import JobSuspension.Json.Reader
import JobSuspension.Json.Record
import JobSuspension.Json.Value
import JobSuspension.Main
import JobSuspension.ProcessInstance
import JobSuspension.Seed
import JobSuspension.Selection
import JobSuspension.Suspension
import JobSuspension.Text.Blank
import JobSuspension.Text.Decimal
import JobSuspension.TimerConfiguration
import JobSuspension.Transition
import JobSuspension.Worker.Settings
import JobSuspension.Proofs.Records
import JobSuspension.Proofs.Acquisition
import JobSuspension.Proofs.Atomicity
import JobSuspension.Proofs.Configuration
import JobSuspension.Proofs.DateOrder
import JobSuspension.Proofs.LastWriter
import JobSuspension.Proofs.Outcomes
import JobSuspension.Proofs.Settlement
import JobSuspension.Proofs.Runs
import JobSuspension.Proofs.RetryAccount
import JobSuspension.Proofs.AuditTrail
import JobSuspension.Proofs.Indifference
import JobSuspension.Proofs.Lookups
import JobSuspension.Proofs.Clocks
import JobSuspension.Proofs.Starts
import JobSuspension.Proofs.Draining
import JobSuspension.Proofs.Fairness
import JobSuspension.Proofs.Faults
import JobSuspension.Proofs.Interruption
import JobSuspension.Proofs.Representation
import JobSuspension.Proofs.PendingActions
import JobSuspension.Proofs.Cascade
import JobSuspension.Proofs.Submissions
import JobSuspension.Proofs.LogHistory
import JobSuspension.Proofs.DayNumbers
import JobSuspension.Proofs.InstantSpelling
import JobSuspension.Proofs.InstantText
import JobSuspension.Proofs.RecordText
import JobSuspension.Proofs.DueTimers
import JobSuspension.Proofs.Polling
import JobSuspension.Proofs.RetryWindow
import JobSuspension.Proofs.ConfigurationText
import JobSuspension.Proofs.LogPages
import JobSuspension.Proofs.Seeding
import JobSuspension.Proofs.RetryRange
import JobSuspension.Proofs.SeedText
import JobSuspension.Proofs.Owners
import JobSuspension.Proofs.Blanks
import JobSuspension.Proofs.SelectorPaths
import JobSuspension.Proofs.Numerals
import JobSuspension.Proofs.AcceptedSettings
import JobSuspension.Proofs.MadeDefinitions
