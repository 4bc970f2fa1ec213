import Mathlib.Tactic.Common

/-!
# Events

What a committed instruction leaves behind besides the accounts: the events it emits and the
accounts it has funded or emptied.
-/

namespace SolQueue

/-- The events emitted by the handlers. -/
inductive Event (Pubkey : Type) where
  /-- Emitted when a new job is enqueued. -/
  | jobEnqueued (queue job : Pubkey) (seq : UInt64) (jobType : String) (priority : UInt8)
      (creator : Pubkey) (timestamp : Int64)
  /-- Emitted when a worker claims a job. -/
  | jobClaimed (job : Pubkey) (seq : UInt64) (worker : Pubkey) (timestamp : Int64)
  /-- Emitted when a job completes successfully. -/
  | jobCompleted (job : Pubkey) (seq : UInt64) (worker : Pubkey) (durationSecs : Int64)
      (timestamp : Int64)
  /-- Emitted when a job fails, to be retried or permanently. -/
  | jobFailed (job : Pubkey) (seq : UInt64) (worker : Pubkey) (retryCount : UInt8)
      (permanent : Bool) (timestamp : Int64)
  /-- Emitted when a stale Processing job is expired. -/
  | jobExpired (job : Pubkey) (seq : UInt64) (previousWorker : Pubkey) (timestamp : Int64)
  /-- Emitted when a queue is created, paused or unpaused. -/
  | queuePauseToggled (queue : Pubkey) (isPaused : Bool) (authority : Pubkey) (timestamp : Int64)
  /-- Emitted when a worker is registered. -/
  | workerRegistered (queue worker : Pubkey) (timestamp : Int64)
  /-- Emitted when a worker is deactivated by the queue authority. -/
  | workerDeactivated (queue worker authority : Pubkey) (timestamp : Int64)
  deriving DecidableEq

/-- Lamports moved by an instruction to fund or to empty an account. -/
inductive Transfer (Pubkey : Type) where
  /-- `init`: `payer` funds the rent of a new account of `space` bytes. -/
  | rent (payer account : Pubkey) (space : ℕ)
  /-- `close`: all lamports of `account` go to `destination`. -/
  | close (account destination : Pubkey)
  deriving DecidableEq

/-- What a committed instruction leaves behind besides the accounts. -/
structure Outcome (Pubkey : Type) where
  events : List (Event Pubkey)
  transfers : List (Transfer Pubkey)
  deriving DecidableEq

end SolQueue
