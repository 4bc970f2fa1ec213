import Mathlib.Tactic.Common

/-!
# Errors

The custom errors of the program and the ways an instruction can end without committing.
-/

namespace SolQueue

/-- The custom errors of the program. -/
inductive SolQueueError where
  | queuePaused
  | queueNameTooLong
  | jobTypeTooLong
  | payloadTooLarge
  | jobNotPending
  | jobNotProcessing
  | wrongWorker
  | jobAlreadyFinished
  | workerNotRegistered
  | workerDeactivated
  | workerAlreadyRegistered
  | jobNotExpired
  | cannotExpireNonProcessingJob
  | unauthorized
  | invalidQueue
  | resultTooLarge
  deriving DecidableEq, Repr

/-- Why an instruction is rejected. Every case leaves the accounts as they were: the runtime
reverts a transaction that returns an error or aborts. -/
inductive Error where
  /-- The account passed is not an initialised account of the program. -/
  | accountNotInitialized
  /-- The account passed is an account of the program of another type. -/
  | accountDiscriminatorMismatch
  /-- The address passed is not the one derived from the seeds. -/
  | constraintSeeds
  /-- `init` on an address that already holds an account. -/
  | accountAlreadyInUse
  /-- `find_program_address` aborts: a seed is too long, or no bump gives an address. -/
  | noProgramAddress
  /-- Arithmetic aborts: the build profile enables overflow checks. -/
  | overflow
  /-- One of the program's own errors. -/
  | program (e : SolQueueError)
  deriving DecidableEq, Repr

end SolQueue
