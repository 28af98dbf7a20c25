import Bass.Interaction.Prog
import Bass.Interaction.Wp
import Bass.Interaction.Act
import Bass.Interaction.Pool
import Bass.Interaction.Serial
import Bass.Interaction.Trace
import Bass.Interaction.Credits
import Bass.Interaction.Lockstep
import Bass.Data.Table
import Bass.Data.Regex
import Bass.Data.Matching
import Bass.Data.Substitution
import Bass.Data.Base64
import Bass.Data.Unicode
import Bass.Models
import Bass.Redaction
import Bass.Store
import Bass.Policy
import Bass.Runtime
import Bass.World
import Bass.Agent
import Bass.Workflow
import Bass.Graph
import Bass.Services
import Bass.Interface
import Bass.StorePostgres
import Bass.Canonical
import Bass.Schedule
import Bass.Sessions
import Bass.Rollout
import Bass.Api
import Bass.Auth
import Bass.Ruleset
import Bass.Providers
import Bass.Serialization
import Bass.Tools
import Bass.ExampleRun
import Bass.Http
import Bass.Proof.StoreLemmas
import Bass.Proof.StepInvariant
import Bass.Proof.Outline
import Bass.Proof.StepCalls
import Bass.Proof.EngineInvariant
import Bass.Proof.RequestInvariant
import Bass.Proof.Visits
import Bass.Proof.Revisits
import Bass.Proof.Cancellation
import Bass.Proof.Deduplication
import Bass.Proof.Mediation
import Bass.Proof.Failures
import Bass.Proof.Isolation
import Bass.Proof.Stores
import Bass.Proof.Sessions
import Bass.Proof.Accounting
import Bass.Proof.Billing
import Bass.Proof.Replay
import Bass.Proof.Bill
import Bass.Proof.Charges
import Bass.Proof.Recording
import Bass.Proof.Ceiling
import Bass.Proof.StepLimit
import Bass.Proof.Passages
import Bass.Proof.Pinning
import Bass.Proof.Redrive
import Bass.Proof.Announcement
import Bass.Proof.Noninterference
import Bass.Proof.Atomicity
import Bass.Proof.Decisions
import Bass.Proof.NotFound
import Bass.Proof.ConcurrentFires
import Bass.Proof.ConcurrentTicks
import Bass.Proof.Keys
import Bass.Proof.Gates
import Bass.Proof.Executions
import Bass.Proof.Effects
import Bass.Proof.Postings
import Bass.Proof.SharedEngine
import Bass.Proof.LedgerKeys
import Bass.Proof.Secrets
import Bass.Proof.Columns
import Bass.Proof.Compensation
import Bass.Proof.RateLimits
import Bass.Proof.ConcurrentLimits
import Bass.Proof.Breaker
import Bass.Proof.Scrubbing
import Bass.Proof.Migrations
import Bass.Proof.ConcurrentMigrations
import Bass.Proof.Policies
import Bass.Proof.Amounts
import Bass.Proof.Ticks
import Bass.Proof.CronMatching
import Bass.Proof.CronErrors
import Bass.Proof.Retries
import Bass.Proof.Requests
import Bass.Proof.Abandoned
import Bass.Proof.Tokens
import Bass.Proof.Credentials
import Bass.Proof.Conversation
import Bass.Proof.FrontDoor
import Bass.Proof.LargeEntries
import Bass.Proof.AuditTrail
import Bass.Proof.Lifecycle
import Bass.Proof.Spending
import Bass.Proof.Throttle
import Bass.Proof.Refinement
import Bass.Proof.Triage
