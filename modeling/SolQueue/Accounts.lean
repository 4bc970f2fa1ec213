import SolQueue.Lib.Tally
import SolQueue.State

/-!
# Addresses, accounts and account constraints

Program-derived addresses are computed outside the program, so the model takes them as a
parameter: a `Derivation` packages the two address functions with what the program relies on.
`Derivation.free` is an instance, over keys that remember how they were derived.

A `Ledger` holds all accounts owned by the program, one finite map per account type, which stands
for the 8-byte discriminator. An address holds at most one account: `Derivation.initAccount`
refuses every address that is in use. Foreign accounts and lamports are left out.

* `Ledger.loadQueueConfig`, `Ledger.loadWorkerRegistry`, `Ledger.loadJob` read typed accounts.
* `Derivation.checkSeeds` is the `seeds, bump = account.bump` constraint.
* `QueueAt`, `RegistryAt`, `JobAt`: an account is loaded and passes its constraints.
* `Fresh`: an address is derived from its seeds and free.
-/

namespace SolQueue

open Checked

/-! ## Addresses -/

/-- The seeds of the program's addresses: `["queue", queue_name]`,
`["job", queue_name, seq.to_le_bytes()]` and `["worker", queue_name, worker]`. -/
inductive Seeds (Pubkey : Type) where
  | queue (queueName : List UInt8)
  | job (queueName : List UInt8) (seq : UInt64)
  | worker (queueName : List UInt8) (worker : Pubkey)
  deriving DecidableEq

/-- The queue name all three seed layouts start from. -/
def Seeds.queueName {Pubkey : Type} : Seeds Pubkey → List UInt8
  | .queue name | .job name _ | .worker name _ => name

/-- The address functions of the runtime and what the program relies on: a found address is the
one created from the same seeds and its bump, distinct seeds or bumps give distinct addresses, a
seed has at most 32 bytes, and for such seeds an address is found.

Distinct addresses are an idealization. The runtime hashes the seeds to 32 bytes and relies on no
collision being found; no map of all seeds to 32-byte keys is injective. `Key` is a type of keys
that has such a map. -/
structure Derivation (Pubkey : Type) where
  /-- `create_program_address` on the seeds followed by a bump. -/
  createProgramAddress : Seeds Pubkey → UInt8 → Option Pubkey
  /-- `find_program_address`: the canonical address of the seeds and its bump. -/
  findProgramAddress : Seeds Pubkey → Option (Pubkey × UInt8)
  create_of_find : ∀ {s k b}, findProgramAddress s = some (k, b) →
    createProgramAddress s b = some k
  create_injective : ∀ {s s' b b' k}, createProgramAddress s b = some k →
    createProgramAddress s' b' = some k → s = s' ∧ b = b'
  length_le_of_create : ∀ {s b k}, createProgramAddress s b = some k → s.queueName.length ≤ 32
  find_of_length_le : ∀ {s}, s.queueName.length ≤ 32 → ∃ r, findProgramAddress s = some r

/-- Keys that remember how they were derived. -/
inductive Key where
  | wallet (n : ℕ)
  | queue (queueName : List UInt8) (bump : UInt8)
  | job (queueName : List UInt8) (seq : UInt64) (bump : UInt8)
  | worker (queueName : List UInt8) (worker : Key) (bump : UInt8)
  deriving DecidableEq

/-- The default key is a wallet. -/
instance : Inhabited Key := ⟨.wallet 0⟩

/-- The key that remembers `s` and `b`. -/
def Key.ofSeeds : Seeds Key → UInt8 → Key
  | .queue name, b => .queue name b
  | .job name seq, b => .job name seq b
  | .worker name w, b => .worker name w b

theorem Key.ofSeeds_injective {s s' : Seeds Key} {b b' : UInt8}
    (h : Key.ofSeeds s b = Key.ofSeeds s' b') : s = s' ∧ b = b' := by
  cases s <;> cases s' <;> simp_all [Key.ofSeeds]

/-- Address derivation over keys that remember how they were derived: every bump gives an address
and `find_program_address` returns the first bump it tries. -/
def Derivation.free : Derivation Key where
  createProgramAddress s b :=
    if s.queueName.length ≤ 32 then some (Key.ofSeeds s b) else none
  findProgramAddress s :=
    if s.queueName.length ≤ 32 then some (Key.ofSeeds s 255, 255) else none
  create_of_find {s k b} h := by
    split_ifs at h ⊢
    simp only [Option.some.injEq, Prod.mk.injEq] at h
    obtain ⟨rfl, rfl⟩ := h
    rfl
  create_injective {s s' b b' k} h h' := by
    -- both seeds fit, or nothing would have been created
    split_ifs at h h'
    exact Key.ofSeeds_injective (Option.some.inj (h.trans h'.symm))
  length_le_of_create {s b k} h := by
    split_ifs at h
    assumption
  find_of_length_le {s} h := ⟨_, if_pos h⟩

namespace Derivation

variable {Pubkey : Type} (D : Derivation Pubkey) {s s' : Seeds Pubkey} {k : Pubkey} {b b' : UInt8}

/-- Two seeds with the same canonical address are equal. -/
theorem find_injective (h : D.findProgramAddress s = some (k, b))
    (h' : D.findProgramAddress s' = some (k, b')) : s = s' :=
  (D.create_injective (D.create_of_find h) (D.create_of_find h')).1

/-- An address with a canonical derivation is created from no other seeds or bump. -/
theorem find_of_create (h : D.findProgramAddress s = some (k, b))
    (h' : D.createProgramAddress s' b' = some k) : s' = s ∧ b' = b :=
  D.create_injective h' (D.create_of_find h)

end Derivation

/-! ## The accounts of the program -/

/-- All accounts owned by the program, one finite map per account type. -/
structure Ledger (Pubkey : Type) where
  queueConfigs : Finmap fun _ : Pubkey => QueueConfig Pubkey
  workerRegistries : Finmap fun _ : Pubkey => WorkerRegistry Pubkey
  jobs : Finmap fun _ : Pubkey => Job Pubkey

/-- The ledger of a program that has just been deployed. -/
def Ledger.empty {Pubkey : Type} : Ledger Pubkey := ⟨∅, ∅, ∅⟩

variable {Pubkey : Type} [DecidableEq Pubkey]

namespace Ledger

variable (σ : Ledger Pubkey)

/-- The address `k` holds an account of the program. -/
def Owned (k : Pubkey) : Prop :=
  k ∈ σ.queueConfigs ∨ k ∈ σ.workerRegistries ∨ k ∈ σ.jobs

/-- Whether an address holds an account of the program is decidable. -/
instance (k : Pubkey) : Decidable (σ.Owned k) := by
  unfold Owned
  infer_instance

/-- Load the account at `k` as one of the accounts of `m`. -/
def load {T : Type} (m : Finmap fun _ : Pubkey => T) (k : Pubkey) : Except Error T :=
  match m.lookup k with
  | some account => .ok account
  | none =>
    if σ.Owned k then .error .accountDiscriminatorMismatch else .error .accountNotInitialized

/-- `Account<'info, QueueConfig>`. -/
def loadQueueConfig (k : Pubkey) : Except Error (QueueConfig Pubkey) :=
  σ.load σ.queueConfigs k

/-- `Account<'info, WorkerRegistry>`. -/
def loadWorkerRegistry (k : Pubkey) : Except Error (WorkerRegistry Pubkey) :=
  σ.load σ.workerRegistries k

/-- `Account<'info, Job>`. -/
def loadJob (k : Pubkey) : Except Error (Job Pubkey) :=
  σ.load σ.jobs k

variable {σ}

theorem load_eq_ok {T : Type} {m : Finmap fun _ : Pubkey => T} {k : Pubkey} {t : T} :
    σ.load m k = .ok t ↔ m.lookup k = some t := by
  unfold load
  split
  next account h => simp [h]
  next h => split_ifs <;> simp [h]

@[simp]
theorem loadQueueConfig_eq_ok {k : Pubkey} {q : QueueConfig Pubkey} :
    σ.loadQueueConfig k = .ok q ↔ σ.queueConfigs.lookup k = some q :=
  load_eq_ok

@[simp]
theorem loadWorkerRegistry_eq_ok {k : Pubkey} {r : WorkerRegistry Pubkey} :
    σ.loadWorkerRegistry k = .ok r ↔ σ.workerRegistries.lookup k = some r :=
  load_eq_ok

@[simp]
theorem loadJob_eq_ok {k : Pubkey} {j : Job Pubkey} :
    σ.loadJob k = .ok j ↔ σ.jobs.lookup k = some j :=
  load_eq_ok

/-- A free address holds no account of any type. -/
theorem lookup_eq_none_of_not_owned {k : Pubkey} (h : ¬σ.Owned k) :
    σ.queueConfigs.lookup k = none ∧ σ.workerRegistries.lookup k = none ∧
      σ.jobs.lookup k = none := by
  simpa [Owned, Finmap.lookup_eq_none] using h

end Ledger

/-! ## Account constraints -/

namespace Derivation

variable (D : Derivation Pubkey) (σ : Ledger Pubkey)

/-- `seeds = s, bump = bump`: the address passed is the one created from the seeds and the bump
stored in the account. -/
def checkSeeds (s : Seeds Pubkey) (bump : UInt8) (k : Pubkey) : Except Error Unit :=
  require (D.createProgramAddress s bump = some k) .constraintSeeds

/-- `init, seeds = s, bump`: the address passed is the canonical one and holds no account yet.
Returns its bump. -/
def initAccount (s : Seeds Pubkey) (k : Pubkey) : Except Error UInt8 := do
  match D.findProgramAddress s with
  | none => .error .noProgramAddress
  | some (address, bump) =>
    require (k = address) .constraintSeeds
    -- the system program creates no account where there is one
    require (¬σ.Owned k) .accountAlreadyInUse
    return bump

end Derivation

/-- The address `k` is canonical for the seeds `s`, with bump `b`, and holds no account. -/
structure Fresh (D : Derivation Pubkey) (σ : Ledger Pubkey) (s : Seeds Pubkey) (k : Pubkey)
    (b : UInt8) : Prop where
  find : D.findProgramAddress s = some (k, b)
  free : ¬σ.Owned k

/-- The queue account `q` at `k` is loaded and derived from the name `n`. -/
structure QueueAt (D : Derivation Pubkey) (σ : Ledger Pubkey) (n : String) (k : Pubkey)
    (q : QueueConfig Pubkey) : Prop where
  lookup : σ.queueConfigs.lookup k = some q
  seeds : D.createProgramAddress (.queue n.asBytes) q.bump = some k

/-- The registry `r` at `k` is loaded, derived from the name `n` and the key `w`, and belongs to
the queue at `queueKey`. -/
structure RegistryAt (D : Derivation Pubkey) (σ : Ledger Pubkey) (n : String)
    (w queueKey k : Pubkey) (r : WorkerRegistry Pubkey) : Prop where
  lookup : σ.workerRegistries.lookup k = some r
  seeds : D.createProgramAddress (.worker n.asBytes w) r.bump = some k
  queue : r.queue = queueKey

/-- The job `j` at `k` is loaded, derived from the name `n` and the number `seq`, and belongs to
the queue at `queueKey`. -/
structure JobAt (D : Derivation Pubkey) (σ : Ledger Pubkey) (n : String) (seq : UInt64)
    (queueKey k : Pubkey) (j : Job Pubkey) : Prop where
  lookup : σ.jobs.lookup k = some j
  seeds : D.createProgramAddress (.job n.asBytes seq) j.bump = some k
  queue : j.queue = queueKey

namespace Derivation

variable {D : Derivation Pubkey} {σ : Ledger Pubkey}

@[simp]
theorem checkSeeds_eq_ok {s : Seeds Pubkey} {b : UInt8} {k : Pubkey} {u : Unit} :
    D.checkSeeds s b k = .ok u ↔ D.createProgramAddress s b = some k :=
  require_eq_ok

@[simp]
theorem initAccount_eq_ok {s : Seeds Pubkey} {k : Pubkey} {b : UInt8} :
    D.initAccount σ s k = .ok b ↔ Fresh D σ s k b := by
  unfold initAccount
  split
  next h =>
    refine ⟨fun h' => (nomatch h'), fun h' => ?_⟩
    cases h.symm.trans h'.find
  next address bump h =>
    simp only [Except.bind_eq_ok, require_eq_ok, Except.pure_eq_ok, exists_const]
    constructor
    · rintro ⟨rfl, hfree, rfl⟩
      exact ⟨h, hfree⟩
    · rintro ⟨hfind, hfree⟩
      cases h.symm.trans hfind
      exact ⟨rfl, hfree, rfl⟩

end Derivation

end SolQueue
