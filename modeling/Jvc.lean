import Jvc.Lib.Program
import Jvc.Lib.Interleaving
import Jvc.Lib.Words
import Jvc.Lib.Effects
import Jvc.Lib.Ascii
import Jvc.Lib.Lines
import Jvc.Lib.Utf8
import Jvc.Recovery.Receipt
import Jvc.World
import Jvc.Configuration
import Jvc.Policy.Boundaries
import Jvc.Policy.Canonical
import Jvc.Recovery.Store
import Jvc.Recovery.Journal
import Jvc.Recovery.Settling
import Jvc.Recovery.View
import Jvc.Recovery.Scan
import Jvc.Recovery.Frame
import Jvc.Recovery.Rules
import Jvc.Recovery.Reads
import Jvc.Recovery.Lineage
import Jvc.Recovery.Reconcile
import Jvc.Recovery.Supersede
import Jvc.Recovery.Writing
import Jvc.Recovery.Undoing
import Jvc.Recovery.Deciding
import Jvc.Recovery.Trace
import Jvc.Recovery.Chain
import Jvc.Recovery.Sources
import Jvc.Recovery.Succession
import Jvc.Recovery.Shape
import Jvc.Recovery.Ready
import Jvc.Recovery.Latest
import Jvc.Recovery.Convergence
import Jvc.Recovery.Report
import Jvc.Recovery.Survival
import Jvc.Recovery.Interrupted
import Jvc.Recovery.Calm
import Jvc.Recovery.Saved
import Jvc.Recovery.Partway
import Jvc.Execution.Executor
import Jvc.Execution.Sections
import Jvc.Execution.Locking
import Jvc.Execution.Calls
import Jvc.Execution.Restart
import Jvc.Execution.Ends
import Jvc.Execution.History
import Jvc.Execution.Outside
import Jvc.Execution.Resolution
import Jvc.Execution.Reversible
import Jvc.Execution.Reversal
import Jvc.Execution.Interrupted
import Jvc.Execution.Concurrent
import Jvc.Execution.Preimages
import Jvc.Execution.Retry
import Jvc.Execution.Contained
import Jvc.Routing.Registry
import Jvc.Routing.Query
import Jvc.Routing.Agreement
import Jvc.Routing.Matching
import Jvc.Policy.Guard
import Jvc.Policy.Certificate
import Jvc.Continuity.State
import Jvc.Continuity.Ledger
import Jvc.Continuity.Calls
import Jvc.Continuity.Sections
import Jvc.Continuity.Runs
import Jvc.Continuity.Drift
import Jvc.Continuity.Cut
import Jvc.Git.Audit
import Jvc.Git.Calls
import Jvc.Git.Commands
import Jvc.Git.Ownership
import Jvc.Git.Bounded
import Jvc.Git.Capture
import Jvc.Git.Exact
import Jvc.Git.Switch
import Jvc.Git.Status
import Jvc.Git.Attributes
import Jvc.Git.Selection
import Jvc.Git.Config
import Jvc.Lib.Base64
import Jvc.Lib.Schema
import Jvc.Lib.Traverse
import Jvc.Policy.Capability
import Jvc.Policy.Authority
import Jvc.Policy.Consumption
import Jvc.Execution.Held
import Jvc.Execution.Runner
import Jvc.Policy.Respelling
import Jvc.Policy.Classifiers
import Jvc.Contracts.Contract
import Jvc.Contracts.Grammar
import Jvc.Contracts.Schema
import Jvc.Contracts.Checks
import Jvc.Routing.Loading
import Jvc.Policy.Prewrite
import Jvc.Policy.Manifest
import Jvc.Policy.Lifecycle
import Jvc.Policy.Verification
