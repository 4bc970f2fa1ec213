import SolQueue.Lib.Checked
import SolQueue.Lib.Bytes
import SolQueue.Lib.Utf8
import SolQueue.Lib.LittleEndian
import SolQueue.Lib.Base58
import SolQueue.Lib.Doubles
import SolQueue.Lib.Borsh
import SolQueue.Lib.Formats
import SolQueue.Lib.Records
import SolQueue.Lib.Tally
import SolQueue.Lib.Counters
import SolQueue.Lib.Indexed
import SolQueue.Lib.Machine
import SolQueue.Lib.Replay
import SolQueue.Lib.Symmetry
import SolQueue.Lib.Reorder
import SolQueue.Lib.Refinement
import SolQueue.Lib.Footprint
import SolQueue.Lib.Delivery
import SolQueue.Lib.Progress
import SolQueue.Errors
import SolQueue.Events
import SolQueue.State
import SolQueue.Accounts
import SolQueue.Instructions
import SolQueue.Program
import SolQueue.Effects
import SolQueue.Invariants
import SolQueue.Lifecycle
import SolQueue.Lease
import SolQueue.Timestamps
import SolQueue.Deactivation
import SolQueue.Administration
import SolQueue.CircuitBreaker
import SolQueue.Isolation
import SolQueue.Addressing
import SolQueue.Producers
import SolQueue.Retries
import SolQueue.RetryBudget
import SolQueue.Bookkeeping
import SolQueue.Numbering
import SolQueue.Ordering
import SolQueue.Conservation
import SolQueue.WorkerStats
import SolQueue.Assignments
import SolQueue.SuccessConditions
import SolQueue.Custody
import SolQueue.ResultBuffer
import SolQueue.QueueNames
import SolQueue.OrderIndependence
import SolQueue.Replica
import SolQueue.AuditTrail
import SolQueue.Clients
import SolQueue.StoredFields
import SolQueue.Encoding
import SolQueue.AddressBytes
import SolQueue.AccountData
import SolQueue.Dashboard
import SolQueue.JobDisplay
import SolQueue.QueueDisplay
import SolQueue.PendingCounts
import SolQueue.Specification
import SolQueue.Representation
import SolQueue.Correctness
import SolQueue.Scheduling
import SolQueue.Delivery
import SolQueue.Draining
import SolQueue.Rent
import SolQueue.Contention
import SolQueue.Outsiders
import SolQueue.Listings
import SolQueue.Wire
import SolQueue.EventLog
import SolQueue.CommandLine
import SolQueue.JobReports
import SolQueue.Storage
