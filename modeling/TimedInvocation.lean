import TimedInvocation.Layers.Builder
import TimedInvocation.Log.Filter
import TimedInvocation.Machine
import TimedInvocation.Proofs.ArgumentTypes
import TimedInvocation.Proofs.Bodies
import TimedInvocation.Proofs.Composition
import TimedInvocation.Proofs.Conduct
import TimedInvocation.Proofs.Consultation
import TimedInvocation.Proofs.Course
import TimedInvocation.Proofs.Duration.Grammar
import TimedInvocation.Proofs.Duration.Length
import TimedInvocation.Proofs.Enforcement
import TimedInvocation.Proofs.Ensemble
import TimedInvocation.Proofs.Interleaving
import TimedInvocation.Proofs.Invocation
import TimedInvocation.Proofs.Layers.Files
import TimedInvocation.Proofs.Layers.Precedence
import TimedInvocation.Proofs.Learning
import TimedInvocation.Proofs.Legs
import TimedInvocation.Proofs.Log.Lines
import TimedInvocation.Proofs.Moves
import TimedInvocation.Proofs.Ownership
import TimedInvocation.Proofs.Promptness
import TimedInvocation.Proofs.Registries
import TimedInvocation.Proofs.Resolution
import TimedInvocation.Proofs.Runs
import TimedInvocation.Proofs.Schedule
import TimedInvocation.Proofs.Store.Agreement
import TimedInvocation.Proofs.Store.Ancestry
import TimedInvocation.Proofs.Store.Cleanups
import TimedInvocation.Proofs.Store.Closing
import TimedInvocation.Proofs.Store.Computation
import TimedInvocation.Proofs.Store.Contention
import TimedInvocation.Proofs.Store.Exceptions
import TimedInvocation.Proofs.Store.Frame
import TimedInvocation.Proofs.Store.Growth
import TimedInvocation.Proofs.Store.Handover
import TimedInvocation.Proofs.Store.History
import TimedInvocation.Proofs.Store.Isolation
import TimedInvocation.Proofs.Store.Leaks
import TimedInvocation.Proofs.Store.Ledger
import TimedInvocation.Proofs.Store.Lineage
import TimedInvocation.Proofs.Store.Places
import TimedInvocation.Proofs.Store.Races
import TimedInvocation.Proofs.Store.Refusal
import TimedInvocation.Proofs.Store.Reporting
import TimedInvocation.Proofs.Store.Sequential
import TimedInvocation.Proofs.Store.Soundness
import TimedInvocation.Proofs.Store.Stations
import TimedInvocation.Proofs.Store.Teardown
import TimedInvocation.Proofs.Supervision
import TimedInvocation.Proofs.Tales
import TimedInvocation.Proofs.Transcripts
import TimedInvocation.Proofs.Tree.EffectiveTimeout
import TimedInvocation.Proofs.Tree.Errands
import TimedInvocation.Proofs.Tree.OneConfiguration
import TimedInvocation.Proofs.Tree.Phases
import TimedInvocation.Proofs.UniqueIds
import TimedInvocation.Proofs.Visibility
import TimedInvocation.Proofs.Workforce
import TimedInvocation.Script
import TimedInvocation.Settings
