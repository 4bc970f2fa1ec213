import SolQueue.Lib.Footprint
import SolQueue.Isolation

/-!
# Calls scheduled by their account locks

Every instruction declares its accounts, and which of them it writes, in its accounts structure. The
runtime locks them and executes calls whose locks do not conflict in parallel. It may: an
instruction reads no account it does not list and writes none it does not list as writable.

* `Instruction.accountMetas`: the declared accounts, in the order of the accounts structures.
* `Call.Conflicts`: one call writes an account that the other lists.
* `execute_congr`, `Step.keeps`, `program_footprint`: the declarations cover what the program does.
* `block_serializable`: a block of calls that do not conflict has one outcome, in every order.
-/

namespace SolQueue

open Except

/-! ## Declared accounts -/

/-- An account as an instruction declares it. -/
structure AccountMeta (Pubkey : Type) where
  key : Pubkey
  isSigner : Bool
  isWritable : Bool

/-- A signer that may be debited or credited: `#[account(mut)] Signer`. -/
def AccountMeta.payer {Pubkey : Type} (key : Pubkey) : AccountMeta Pubkey := ⟨key, true, true⟩

/-- An account that is created, changed or closed. -/
def AccountMeta.writable {Pubkey : Type} (key : Pubkey) : AccountMeta Pubkey := ⟨key, false, true⟩

/-- An account that is only looked at. -/
def AccountMeta.readonly {Pubkey : Type} (key : Pubkey) : AccountMeta Pubkey := ⟨key, false, false⟩

open AccountMeta

variable {Pubkey : Type}

/-- The accounts of an instruction. The system program, which is listed where an account is created
and never writable, is left out. -/
def Instruction.accountMetas : Instruction Pubkey → List (AccountMeta Pubkey)
  | .initializeQueue ctx _ => [payer ctx.authority, writable ctx.queueConfig]
  | .setQueuePaused ctx _ _ => [payer ctx.authority, writable ctx.queueConfig]
  | .registerWorker ctx _ =>
    [payer ctx.authority, readonly ctx.queueConfig, readonly ctx.worker,
      writable ctx.workerRegistry]
  | .deactivateWorker ctx _ =>
    [payer ctx.authority, readonly ctx.queueConfig, readonly ctx.worker,
      writable ctx.workerRegistry]
  | .enqueueJob ctx _ _ _ => [payer ctx.creator, writable ctx.queueConfig, writable ctx.job]
  -- a claim moves no counter of the queue
  | .claimJob ctx _ _ =>
    [payer ctx.worker, readonly ctx.queueConfig, writable ctx.workerRegistry, writable ctx.job]
  | .completeJob ctx _ _ _ | .failJob ctx _ _ _ =>
    [payer ctx.worker, writable ctx.queueConfig, writable ctx.workerRegistry, writable ctx.job]
  | .expireJob ctx _ _ => [⟨ctx.caller, true, false⟩, readonly ctx.queueConfig, writable ctx.job]
  | .closeJob ctx _ _ => [payer ctx.creator, readonly ctx.queueConfig, writable ctx.job]

/-- The call lists the account `k`. -/
def Call.Lists (c : Call Pubkey) (k : Pubkey) : Prop :=
  ∃ m ∈ c.instruction.accountMetas, m.key = k

/-- The call lists the account `k` as writable. -/
def Call.Writes (c : Call Pubkey) (k : Pubkey) : Prop :=
  ∃ m ∈ c.instruction.accountMetas, m.key = k ∧ m.isWritable = true

/-- The locks of two calls conflict: one writes an account that the other lists. -/
def Call.Conflicts (c d : Call Pubkey) : Prop :=
  ∃ m ∈ c.instruction.accountMetas, ∃ m' ∈ d.instruction.accountMetas,
    m.key = m'.key ∧ (m.isWritable = true ∨ m'.isWritable = true)

/-- Whether two calls conflict is decidable. -/
instance [DecidableEq Pubkey] (c d : Call Pubkey) : Decidable (c.Conflicts d) := by
  unfold Call.Conflicts
  infer_instance

/-- Calls whose locks do not conflict write nothing the other lists. -/
theorem compatible_of_not_conflicts {c d : Call Pubkey} (h : ¬c.Conflicts d) :
    Machine.Compatible Call.Lists Call.Writes c d := by
  intro k
  constructor
  · rintro ⟨m, hm, rfl, hwritable⟩ ⟨m', hm', hkey⟩
    exact h ⟨m, hm, m', hm', hkey.symm, .inl hwritable⟩
  · rintro ⟨m', hm', rfl, hwritable⟩ ⟨m, hm, hkey⟩
    exact h ⟨m, hm, m', hm', hkey, .inr hwritable⟩

/-! ## What a call reads -/

variable [DecidableEq Pubkey]

section Reads

variable {D : Derivation Pubkey} {σ τ : Ledger Pubkey} {k : Pubkey}

namespace SameAt

theorem owned_iff (h : SameAt k σ τ) : σ.Owned k ↔ τ.Owned k := by
  have hmem {T : Type} {m m' : Finmap fun _ : Pubkey => T} (heq : m.lookup k = m'.lookup k) :
      k ∈ m ↔ k ∈ m' := by
    rw [← Finmap.lookup_isSome, ← Finmap.lookup_isSome, heq]
  rw [Ledger.Owned, Ledger.Owned, hmem h.queueConfig, hmem h.workerRegistry, hmem h.job]

theorem load_eq (h : SameAt k σ τ) {T : Type} {m m' : Finmap fun _ : Pubkey => T}
    (heq : m.lookup k = m'.lookup k) : σ.load m k = τ.load m' k := by
  simp only [Ledger.load, heq, h.owned_iff]

theorem loadQueueConfig (h : SameAt k σ τ) : σ.loadQueueConfig k = τ.loadQueueConfig k :=
  h.load_eq h.queueConfig

theorem loadWorkerRegistry (h : SameAt k σ τ) :
    σ.loadWorkerRegistry k = τ.loadWorkerRegistry k :=
  h.load_eq h.workerRegistry

theorem loadJob (h : SameAt k σ τ) : σ.loadJob k = τ.loadJob k :=
  h.load_eq h.job

theorem initAccount (h : SameAt k σ τ) {s : Seeds Pubkey} :
    D.initAccount σ s k = D.initAccount τ s k := by
  simp only [Derivation.initAccount, h.owned_iff]

variable {x : Pubkey}

/-- Writing the same queue keeps the agreement. -/
theorem insertQueue (h : SameAt k σ τ) {q : QueueConfig Pubkey} :
    SameAt k { σ with queueConfigs := σ.queueConfigs.insert x q }
      { τ with queueConfigs := τ.queueConfigs.insert x q } :=
  ⟨Finmap.lookup_insert_congr h.queueConfig, h.workerRegistry, h.job⟩

/-- Writing the same registry keeps the agreement. -/
theorem insertRegistry (h : SameAt k σ τ) {r : WorkerRegistry Pubkey} :
    SameAt k { σ with workerRegistries := σ.workerRegistries.insert x r }
      { τ with workerRegistries := τ.workerRegistries.insert x r } :=
  ⟨h.queueConfig, Finmap.lookup_insert_congr h.workerRegistry, h.job⟩

/-- Writing the same job keeps the agreement. -/
theorem insertJob (h : SameAt k σ τ) {j : Job Pubkey} :
    SameAt k { σ with jobs := σ.jobs.insert x j } { τ with jobs := τ.jobs.insert x j } :=
  ⟨h.queueConfig, h.workerRegistry, Finmap.lookup_insert_congr h.job⟩

/-- Erasing the same job keeps the agreement. -/
theorem eraseJob (h : SameAt k σ τ) :
    SameAt k { σ with jobs := σ.jobs.erase x } { τ with jobs := τ.jobs.erase x } :=
  ⟨h.queueConfig, h.workerRegistry, Finmap.lookup_erase_congr h.job⟩

end SameAt

end Reads

section Calls

variable [Inhabited Pubkey] {D : Derivation Pubkey} {σ σ' τ : Ledger Pubkey} {c : Call Pubkey}
  {o : Outcome Pubkey} {k : Pubkey}

/-- The ledgers agree on the accounts of a list. -/
def SameOn (keys : Pubkey → Prop) (σ τ : Ledger Pubkey) : Prop :=
  ∀ k, keys k → SameAt k σ τ

/-- Where two ledgers agree on the accounts a call lists, the call ends alike in both: with the same
error, or with the same outcome and ledgers that agree on these accounts. -/
theorem execute_congr (h : SameOn c.Lists σ τ) :
    Agree Eq (fun r r' => SameOn c.Lists r.1 r'.1 ∧ r.2 = r'.2) (execute D σ c)
      (execute D τ c) := by
  obtain ⟨now, instruction⟩ := c
  have written {x : Pubkey} (hx : writable x ∈ instruction.accountMetas) : SameAt x σ τ :=
    h x ⟨_, hx, rfl⟩
  have looked {x : Pubkey} (hx : readonly x ∈ instruction.accountMetas) : SameAt x σ τ :=
    h x ⟨_, hx, rfl⟩
  -- once the accounts are loaded alike, the handlers compute the same and write the same
  cases instruction with
  | initializeQueue ctx params =>
    have hq : SameAt ctx.queueConfig σ τ := written (by simp [Instruction.accountMetas])
    simp only [execute, initializeQueue, hq.initAccount]
    refine .bind_same fun b => .bind_same fun r => .pure ?_
    exact ⟨fun k hk => (h k hk).insertQueue, rfl⟩
  | setQueuePaused ctx n pause =>
    have hq : SameAt ctx.queueConfig σ τ := written (by simp [Instruction.accountMetas])
    simp only [execute, setQueuePaused, PauseQueue.tryAccounts, hq.loadQueueConfig]
    refine .bind_same fun q => .pure ?_
    exact ⟨fun k hk => (h k hk).insertQueue, rfl⟩
  | registerWorker ctx n =>
    have hq : SameAt ctx.queueConfig σ τ := looked (by simp [Instruction.accountMetas])
    have hr : SameAt ctx.workerRegistry σ τ := written (by simp [Instruction.accountMetas])
    simp only [execute, registerWorker, RegisterWorker.tryAccounts, hq.loadQueueConfig,
      hr.initAccount]
    refine .bind_same fun b => .pure ?_
    exact ⟨fun k hk => (h k hk).insertRegistry, rfl⟩
  | deactivateWorker ctx n =>
    have hq : SameAt ctx.queueConfig σ τ := looked (by simp [Instruction.accountMetas])
    have hr : SameAt ctx.workerRegistry σ τ := written (by simp [Instruction.accountMetas])
    simp only [execute, deactivateWorker, DeactivateWorker.tryAccounts, hq.loadQueueConfig,
      hr.loadWorkerRegistry]
    refine .bind_same fun r => .pure ?_
    exact ⟨fun k hk => (h k hk).insertRegistry, rfl⟩
  | enqueueJob ctx n s params =>
    have hq : SameAt ctx.queueConfig σ τ := written (by simp [Instruction.accountMetas])
    have hj : SameAt ctx.job σ τ := written (by simp [Instruction.accountMetas])
    simp only [execute, enqueueJob, EnqueueJob.tryAccounts, hq.loadQueueConfig, hj.initAccount]
    refine .bind_same fun r => .bind_same fun r' => .pure ?_
    exact ⟨fun k hk => (h k hk).insertQueue.insertJob, rfl⟩
  | claimJob ctx n s =>
    have hq : SameAt ctx.queueConfig σ τ := looked (by simp [Instruction.accountMetas])
    have hr : SameAt ctx.workerRegistry σ τ := written (by simp [Instruction.accountMetas])
    have hj : SameAt ctx.job σ τ := written (by simp [Instruction.accountMetas])
    simp only [execute, claimJob, WorkerJob.tryAccounts, hq.loadQueueConfig,
      hr.loadWorkerRegistry, hj.loadJob]
    refine .bind_same fun r => .bind_same fun r' => .pure ?_
    exact ⟨fun k hk => (h k hk).insertRegistry.insertJob, rfl⟩
  | completeJob ctx n s params =>
    have hq : SameAt ctx.queueConfig σ τ := written (by simp [Instruction.accountMetas])
    have hr : SameAt ctx.workerRegistry σ τ := written (by simp [Instruction.accountMetas])
    have hj : SameAt ctx.job σ τ := written (by simp [Instruction.accountMetas])
    simp only [execute, completeJob, WorkerJob.tryAccounts, hq.loadQueueConfig,
      hr.loadWorkerRegistry, hj.loadJob]
    refine .bind_same fun r => .bind_same fun r' => .pure ?_
    exact ⟨fun k hk => (h k hk).insertQueue.insertRegistry.insertJob, rfl⟩
  | failJob ctx n s params =>
    have hq : SameAt ctx.queueConfig σ τ := written (by simp [Instruction.accountMetas])
    have hr : SameAt ctx.workerRegistry σ τ := written (by simp [Instruction.accountMetas])
    have hj : SameAt ctx.job σ τ := written (by simp [Instruction.accountMetas])
    simp only [execute, failJob, WorkerJob.tryAccounts, hq.loadQueueConfig,
      hr.loadWorkerRegistry, hj.loadJob]
    refine .bind_same fun r => .bind_same fun r' => .pure ?_
    exact ⟨fun k hk => (h k hk).insertQueue.insertRegistry.insertJob, rfl⟩
  | expireJob ctx n s =>
    have hq : SameAt ctx.queueConfig σ τ := looked (by simp [Instruction.accountMetas])
    have hj : SameAt ctx.job σ τ := written (by simp [Instruction.accountMetas])
    simp only [execute, expireJob, ExpireJob.tryAccounts, hq.loadQueueConfig, hj.loadJob]
    refine .bind_same fun r => .bind_same fun r' => .pure ?_
    exact ⟨fun k hk => (h k hk).insertJob, rfl⟩
  | closeJob ctx n s =>
    have hq : SameAt ctx.queueConfig σ τ := looked (by simp [Instruction.accountMetas])
    have hj : SameAt ctx.job σ τ := written (by simp [Instruction.accountMetas])
    simp only [execute, closeJob, CloseJob.tryAccounts, hq.loadQueueConfig, hj.loadJob]
    refine .bind_same fun j => .pure ?_
    exact ⟨fun k hk => (h k hk).eraseJob, rfl⟩

/-! ## What a call writes -/

/-- A committed call keeps every account it does not list as one that is created, changed or
closed. -/
theorem Step.keeps_of_notMem (h : Step D σ c σ' o)
    (hk : writable k ∉ c.instruction.accountMetas) : SameAt k σ σ' := by
  -- whatever a step inserts or erases is listed as writable
  have hne {x : Pubkey} (hx : writable x ∈ c.instruction.accountMetas) : k ≠ x := by
    rintro rfl
    exact hk hx
  have hinsert {T : Type} {m : Finmap fun _ : Pubkey => T} {x : Pubkey} {t : T}
      (hx : writable x ∈ c.instruction.accountMetas) : m.lookup k = (m.insert x t).lookup k :=
    (Finmap.lookup_insert_of_ne m (hne hx)).symm
  cases h with
  | initializeQueue | setQueuePaused =>
    exact ⟨hinsert (by simp [Instruction.accountMetas]), rfl, rfl⟩
  | registerWorker | deactivateWorker =>
    exact ⟨rfl, hinsert (by simp [Instruction.accountMetas]), rfl⟩
  | enqueueJob =>
    exact ⟨hinsert (by simp [Instruction.accountMetas]), rfl,
      hinsert (by simp [Instruction.accountMetas])⟩
  | claimJob | failJobRetry =>
    exact ⟨rfl, hinsert (by simp [Instruction.accountMetas]),
      hinsert (by simp [Instruction.accountMetas])⟩
  | completeJob | failJobPermanent =>
    exact ⟨hinsert (by simp [Instruction.accountMetas]),
      hinsert (by simp [Instruction.accountMetas]), hinsert (by simp [Instruction.accountMetas])⟩
  | expireJob => exact ⟨rfl, rfl, hinsert (by simp [Instruction.accountMetas])⟩
  | closeJob =>
    exact ⟨rfl, rfl, (Finmap.lookup_erase_ne (hne (by simp [Instruction.accountMetas]))).symm⟩

/-- A committed call keeps every account it does not list as writable. -/
theorem Step.keeps (h : Step D σ c σ' o) (hk : ¬c.Writes k) : SameAt k σ σ' :=
  h.keeps_of_notMem fun hmem => hk ⟨_, hmem, rfl, rfl⟩

omit [DecidableEq Pubkey] [Inhabited Pubkey] in
/-- Ledgers that agree everywhere are equal. -/
theorem Ledger.ext_sameAt [DecidableEq Pubkey] (h : ∀ k, SameAt k σ τ) : σ = τ := by
  obtain ⟨queueConfigs, workerRegistries, jobs⟩ := σ
  obtain ⟨queueConfigs', workerRegistries', jobs'⟩ := τ
  -- a map is what is found in it
  obtain rfl : queueConfigs = queueConfigs' := Finmap.ext_lookup fun k => (h k).queueConfig
  obtain rfl : workerRegistries = workerRegistries' :=
    Finmap.ext_lookup fun k => (h k).workerRegistry
  obtain rfl : jobs = jobs' := Finmap.ext_lookup fun k => (h k).job
  rfl

/-- The declared accounts cover what the program reads and writes. -/
theorem program_footprint : (program D).Footprint SameAt Call.Lists Call.Writes where
  ext h := Ledger.ext_sameAt h
  equiv _ :=
    { refl _ := ⟨rfl, rfl, rfl⟩
      symm h := ⟨h.queueConfig.symm, h.workerRegistry.symm, h.job.symm⟩
      trans h h' := ⟨h.queueConfig.trans h'.queueConfig,
        h.workerRegistry.trans h'.workerRegistry, h.job.trans h'.job⟩ }
  reads_of_writes := fun ⟨m, hm, hkey, _⟩ => ⟨m, hm, hkey⟩
  frame hstep hk := (execute_eq_ok.mp hstep).keeps hk
  congr h := execute_congr h

/-- A block of calls whose locks do not conflict, made in any ledger and executed in any order,
leads to one ledger and answers every call, with its outcome or its error, as if it were the only
one. That ledger holds at every account what the call that lists it would alone leave there, and
keeps the accounts no call writes. -/
theorem block_serializable (σ : Ledger Pubkey) {block block' : List (Call Pubkey)}
    (hblock : block.Pairwise fun c d => ¬c.Conflicts d) (hperm : block.Perm block') :
    (program D).runFrom σ block' = (program D).runFrom σ block ∧
      (∀ pre c post, block' = pre ++ c :: post →
        (program D).answer ((program D).runFrom σ pre) c = (program D).answer σ c) ∧
      (∀ c ∈ block, ∀ k, c.Lists k →
        SameAt k ((program D).next σ c) ((program D).runFrom σ block')) ∧
      ∀ k, (∀ c ∈ block, ¬c.Writes k) → SameAt k σ ((program D).runFrom σ block') := by
  have hfootprint : (program D).Footprint SameAt Call.Lists Call.Writes := program_footprint
  have hcompatible : block.Pairwise (Machine.Compatible Call.Lists Call.Writes) :=
    hblock.imp compatible_of_not_conflicts
  -- the other order has the same pairs of calls
  have hcompatible' : block'.Pairwise (Machine.Compatible Call.Lists Call.Writes) :=
    (hperm.pairwise_iff Machine.Compatible.symm).mp hcompatible
  refine ⟨(hfootprint.runFrom_perm hcompatible hperm).symm, ?_, ?_, ?_⟩
  -- the answers, the accounts that are listed, and those that are not written
  · rintro pre c post rfl
    exact hfootprint.answer_eq hcompatible'
  · intro c hc k hk
    exact hfootprint.same_next hcompatible' (hperm.mem_iff.mp hc) hk
  · intro k hk
    exact hfootprint.runFrom_frame fun c hc => hk c (hperm.mem_iff.mpr hc)

end Calls

/-! ## A block of claims -/

/-- Two workers who claim the two jobs of a queue. -/
def Sample.claims : List (Call Key) :=
  [Sample.claim 2 Sample.worker 0, Sample.claim 2 (.wallet 4) 1]

/-- Their claims lock the queue for reading only, so they do not conflict. -/
theorem block_serializable_claims :
    let σ := (program Derivation.free).run [Sample.create 3 60, Sample.register Sample.worker,
      Sample.register (.wallet 4), Sample.enqueue Sample.producer 0 none,
      Sample.enqueue Sample.producer 1 none]
    (program Derivation.free).runFrom σ Sample.claims.reverse =
      (program Derivation.free).runFrom σ Sample.claims :=
  (block_serializable _ (by decide +kernel) (List.reverse_perm Sample.claims).symm).1

end SolQueue
