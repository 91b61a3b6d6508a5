import Nigrains.Machine
import Nigrains.Protocol
import Nigrains.Nesting
import Nigrains.Refinement
import Nigrains.Lifecycle
import Nigrains.Publication
import Nigrains.Eviction
import Nigrains.Outcome
import Nigrains.Bound
import Nigrains.Timers
import Nigrains.Leaving
import Nigrains.Emptying
import Nigrains.Deadlines
import Nigrains.Isolation
import Nigrains.Retrying
import Nigrains.Transparency
import Nigrains.Reminders
import Nigrains.Scanning
import Nigrains.Cancelling
import Nigrains.Occurrences
import Nigrains.Postponing
import Nigrains.Recovery
import Nigrains.Handles
import Nigrains.Noticing
import Nigrains.Ring
import Nigrains.Disruption
import Nigrains.Leases
import Nigrains.Prefixes
import Nigrains.Http
import Nigrains.Readiness
import Nigrains.Scopes
import Nigrains.Accounting
import Nigrains.Tethers
import Nigrains.Waking
import Nigrains.Network
import Nigrains.Placement
import Nigrains.Crossing
import Nigrains.Limits
import Nigrains.Firing
import Nigrains.Exclusion
import Nigrains.Conformance
import Nigrains.Counting
import Nigrains.Pools
import Nigrains.Failures
import Nigrains.Endpoint
import Nigrains.Refusing
import Nigrains.Absorbing
import Nigrains.Sweeping
import Nigrains.Rounds
import Nigrains.Lru
import Nigrains.Caching
import Nigrains.Views
import Nigrains.Roster
import Nigrains.Mediation
import Nigrains.Waiting
import Nigrains.Overshoot
import Nigrains.Pacing
import Nigrains.Relaying
import Nigrains.References
import Nigrains.Bursts
import Nigrains.Aging
import Nigrains.Stories
import Nigrains.Background
import Nigrains.Blocks
import Nigrains.Executions
