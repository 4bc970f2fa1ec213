import SolQueue.Lib.Indexed
import SolQueue.Lib.Refinement
import SolQueue.Isolation
import SolQueue.Specification

/-!
# The ledger holds a store

What the store has under a name, under a name and a key, or under a name and a slot is found at the
address derived from them, in the form the program stores it.

* `StoresQueue`, `StoresWorker`, `StoresJob`: the stored forms.
* `Represents`: the ledger holds the store.
* `Represents.loadQueue`, `Represents.initJob`, ...: reading both agrees.
* `Represents.setQueue`, `Represents.setJob`, ...: writing both preserves it.
-/

namespace SolQueue

open Checked Except

variable {Pubkey : Type} [DecidableEq Pubkey]

/-! ## Derived addresses -/

/-- The address derived from seeds, if they fit. -/
def Derivation.addressOf (D : Derivation Pubkey) (s : Seeds Pubkey) : Option Pubkey :=
  (D.findProgramAddress s).map (·.1)

/-- The bump of the address derived from seeds. -/
def Derivation.bumpOf (D : Derivation Pubkey) (s : Seeds Pubkey) : Option UInt8 :=
  (D.findProgramAddress s).map (·.2)

namespace Derivation

variable {D : Derivation Pubkey} {s s' : Seeds Pubkey} {k : Pubkey} {b : UInt8}

omit [DecidableEq Pubkey] in
theorem addressOf_eq_some :
    D.addressOf s = some k ↔ ∃ b, D.findProgramAddress s = some (k, b) := by
  simp [addressOf]

omit [DecidableEq Pubkey] in
/-- Seeds that fit have an address. -/
theorem exists_addressOf (h : s.queueName.length ≤ 32) : ∃ k, D.addressOf s = some k := by
  obtain ⟨⟨k, b⟩, hfind⟩ := D.find_of_length_le h
  exact ⟨k, addressOf_eq_some.mpr ⟨b, hfind⟩⟩

omit [DecidableEq Pubkey] in
theorem find_of_addressOf (h : D.addressOf s = some k) (hb : D.bumpOf s = some b) :
    D.findProgramAddress s = some (k, b) := by
  obtain ⟨b', hfind⟩ := addressOf_eq_some.mp h
  simp only [bumpOf, hfind, Option.map_some, Option.some.injEq] at hb
  rw [hfind, hb]

omit [DecidableEq Pubkey] in
theorem addressOf_injective (h : D.addressOf s = some k) (h' : D.addressOf s' = some k) :
    s = s' := by
  obtain ⟨b, hb⟩ := addressOf_eq_some.mp h
  obtain ⟨b', hb'⟩ := addressOf_eq_some.mp h'
  exact D.find_injective hb hb'

/-- An account at the derived address that stores its bump passes the `seeds` constraint. -/
theorem checkSeeds_of_addressOf (h : D.addressOf s = some k) (hb : D.bumpOf s = some b) :
    D.checkSeeds s b k = .ok () :=
  checkSeeds_eq_ok.mpr (D.create_of_find (find_of_addressOf h hb))

omit [DecidableEq Pubkey] in
theorem length_le_of_addressOf (h : D.addressOf s = some k) : s.queueName.length ≤ 32 := by
  obtain ⟨b, hb⟩ := addressOf_eq_some.mp h
  exact D.length_le_of_create (D.create_of_find hb)

end Derivation

/-! ## The seeds of a name -/

namespace Spec.QueueName

/-- The seeds of the account that stores the queue `n`. -/
def queueSeeds (n : QueueName) : Seeds Pubkey := .queue n.1.asBytes

/-- The seeds of the account that stores the registry of a worker on a queue. -/
def workerSeeds (i : QueueName × Pubkey) : Seeds Pubkey := .worker i.1.1.asBytes i.2

/-- The seeds of the account that stores the job of a queue under a number. -/
def jobSeeds (i : QueueName × UInt64) : Seeds Pubkey := .job i.1.1.asBytes i.2

end Spec.QueueName

open Spec.QueueName (queueSeeds workerSeeds jobSeeds)

section Seeds

variable {D : Derivation Pubkey} {k : Pubkey}

omit [DecidableEq Pubkey] in
theorem queueSeeds_injective (n n' : Spec.QueueName) (k : Pubkey)
    (h : D.addressOf (queueSeeds n) = some k) (h' : D.addressOf (queueSeeds n') = some k) :
    n = n' :=
  Subtype.ext (String.asBytes_injective (Seeds.queue.inj (Derivation.addressOf_injective h h')))

omit [DecidableEq Pubkey] in
theorem workerSeeds_injective (i i' : Spec.QueueName × Pubkey) (k : Pubkey)
    (h : D.addressOf (workerSeeds i) = some k) (h' : D.addressOf (workerSeeds i') = some k) :
    i = i' := by
  obtain ⟨hname, hkey⟩ := Seeds.worker.inj (Derivation.addressOf_injective h h')
  exact Prod.ext (Subtype.ext (String.asBytes_injective hname)) hkey

omit [DecidableEq Pubkey] in
theorem jobSeeds_injective (i i' : Spec.QueueName × UInt64) (k : Pubkey)
    (h : D.addressOf (jobSeeds i) = some k) (h' : D.addressOf (jobSeeds i') = some k) :
    i = i' := by
  obtain ⟨hname, hslot⟩ := Seeds.job.inj (Derivation.addressOf_injective h h')
  exact Prod.ext (Subtype.ext (String.asBytes_injective hname)) hslot

end Seeds

/-! ## The stored form of a store -/

/-- The stored form of a queue. -/
structure StoresQueue (D : Derivation Pubkey) (n : Spec.QueueName) (queue : Spec.Queue Pubkey)
    (q : QueueConfig Pubkey) : Prop where
  bump : D.bumpOf (queueSeeds n) = some q.bump
  name : q.queueName = zeroPadded 32 n.1.asBytes
  authority : q.authority = queue.authority
  paused : q.isPaused = queue.paused
  maxRetries : q.maxRetries.toNat = queue.maxRetries
  timeout : q.jobTimeoutSecs.toInt = queue.timeout
  next : q.nextJobSeq.toNat = queue.enqueued
  enqueued : q.totalEnqueued.toNat = queue.enqueued
  completed : q.totalCompleted.toNat = queue.completed
  failed : q.totalFailed.toNat = queue.failed

/-- The stored form of a worker. -/
structure StoresWorker (D : Derivation Pubkey) (i : Spec.QueueName × Pubkey) (worker : Spec.Worker)
    (r : WorkerRegistry Pubkey) : Prop where
  bump : D.bumpOf (workerSeeds i) = some r.bump
  queue : D.addressOf (queueSeeds i.1) = some r.queue
  key : r.worker = i.2
  registered : r.registeredAt.toInt = worker.registered
  active : r.isActive = worker.active
  claimed : r.jobsClaimed.toNat = worker.claimed
  completed : r.jobsCompleted.toNat = worker.completed
  failed : r.jobsFailed.toNat = worker.failed

/-- The stored form of a stage: a status, a holder, and the times of the claim and of the end. -/
inductive StoresStage : Spec.Stage Pubkey → JobStatus → Option Pubkey → Option Int64 →
    Option Int64 → Prop where
  | pending : StoresStage .pending .pending none none none
  | processing {w : Pubkey} {t : Int64} :
      StoresStage (.processing w t.toInt) .processing (some w) (some t) none
  | completed {w : Pubkey} {t t' : Int64} :
      StoresStage (.completed w t.toInt t'.toInt) .completed (some w) (some t) (some t')
  | failed {w : Pubkey} {t t' : Int64} :
      StoresStage (.failed w t.toInt t'.toInt) .failed (some w) (some t) (some t')

omit [DecidableEq Pubkey] in
/-- The status tells whether a job is Pending. -/
theorem StoresStage.pending_iff {stage : Spec.Stage Pubkey} {status : JobStatus}
    {w : Option Pubkey} {t t' : Option Int64} (h : StoresStage stage status w t t') :
    status = .pending ↔ stage = .pending := by
  cases h <;> simp

omit [DecidableEq Pubkey] in
/-- The status tells whether a job is finished. -/
theorem StoresStage.finished_iff {stage : Spec.Stage Pubkey} {status : JobStatus}
    {w : Option Pubkey} {t t' : Option Int64} (h : StoresStage stage status w t t') :
    status = .completed ∨ status = .failed ↔ stage.Finished := by
  cases h <;> simp [Spec.Stage.Finished]

omit [DecidableEq Pubkey] in
/-- A Pending job has not ended. -/
theorem StoresStage.completedAt_of_pending {stage : Spec.Stage Pubkey} {status : JobStatus}
    {w : Option Pubkey} {t t' : Option Int64} (h : StoresStage stage status w t t')
    (hpending : status = .pending) : t' = none := by
  cases h with
  | pending => rfl
  | processing | completed | failed => cases hpending

omit [DecidableEq Pubkey] in
/-- The status tells whether a job has a holder. -/
theorem StoresStage.holder_agrees {stage : Spec.Stage Pubkey} {status : JobStatus}
    {w : Option Pubkey} {t t' : Option Int64} (h : StoresStage stage status w t t')
    {e : SolQueueError} :
    Agree Eq (fun _ p => ∃ started : Int64, stage = .processing p.1 p.2 ∧ status = .processing ∧
        w = some p.1 ∧ t = some started ∧ t' = none ∧ started.toInt = p.2)
      (require (status = .processing) (.program e)) (stage.holder e) := by
  cases h with
  | processing => exact .ok ⟨_, rfl, rfl, rfl, rfl, rfl, rfl⟩
  | pending | completed | failed => exact .error rfl

/-- The stored form of a job. -/
structure StoresJob (D : Derivation Pubkey) (i : Spec.QueueName × UInt64) (job : Spec.Job Pubkey)
    (j : Job Pubkey) : Prop where
  bump : D.bumpOf (jobSeeds i) = some j.bump
  queue : D.addressOf (queueSeeds i.1) = some j.queue
  number : j.seq.toNat = job.number
  creator : j.creator = job.creator
  jobType : j.jobType = zeroPadded 32 job.jobType.asBytes
  payload : j.payload = zeroPadded 512 job.payload
  priority : j.priority = job.priority
  maxRetries : j.maxRetries.toNat = job.maxRetries
  enqueued : j.enqueuedAt.toInt = job.enqueued
  stage : StoresStage job.stage j.status j.assignedWorker j.startedAt j.completedAt
  failures : j.retryCount.toNat = job.failures
  result : j.result = zeroPadded 128 job.result
  resultLen : j.resultLen.toNat = job.result.length

/-- The ledger holds the store, everything at the address derived from what it is called. -/
structure Represents (D : Derivation Pubkey) (S : Spec.Store Pubkey) (σ : Ledger Pubkey) :
    Prop where
  queues : Finmap.Stores (fun n => D.addressOf (queueSeeds n)) (StoresQueue D) S.queues
    σ.queueConfigs
  workers : Finmap.Stores (fun i => D.addressOf (workerSeeds i)) (StoresWorker D) S.workers
    σ.workerRegistries
  jobs : Finmap.Stores (fun i => D.addressOf (jobSeeds i)) (StoresJob D) S.jobs σ.jobs

/-! ## Reading the ledger and the store -/

section Reading

variable {D : Derivation Pubkey} {S : Spec.Store Pubkey} {σ : Ledger Pubkey} {n : Spec.QueueName}
  {k w a : Pubkey} {s : UInt64}

/-- An account is loaded exactly when the store has what it stands for. -/
theorem load_agrees {α T : Type} {m : Finmap fun _ : Pubkey => T} {R : α → T → Prop}
    {entry : Option α} (hrel : Option.Rel R entry (m.lookup k))
    (hfree : m.lookup k = none → ¬σ.Owned k) :
    Agree Eq (fun t a => R a t) (σ.load m k) (Spec.find entry) := by
  unfold Ledger.load
  generalize hentry : m.lookup k = account at hrel
  cases hrel with
  | some value => exact .ok value
  | none =>
    simp only [if_neg (hfree hentry)]
    exact .error rfl

/-- An account is created exactly when the store has nothing it would stand for. -/
theorem initAccount_agrees {α : Type} {seeds : Seeds Pubkey} {entry : Option α}
    (hk : D.addressOf seeds = some k) (hfree : ¬σ.Owned k ↔ entry.isNone = true) :
    Agree Eq (fun b _ => D.bumpOf seeds = some b) (D.initAccount σ seeds k)
      (Spec.vacant entry) := by
  obtain ⟨b, hfind⟩ := Derivation.addressOf_eq_some.mp hk
  have hb : D.bumpOf seeds = some b := by rw [Derivation.bumpOf, hfind, Option.map_some]
  -- taken on both sides, or free on both
  by_cases howned : σ.Owned k
  · have hvacant : ¬entry.isNone = true := fun h => hfree.mpr h howned
    simp only [Derivation.initAccount, hfind, Spec.vacant, require, ↓reduceIte, howned, hvacant,
      not_true_eq_false]
    exact .error rfl
  · have hvacant : entry.isNone = true := hfree.mp howned
    simp only [Derivation.initAccount, hfind, Spec.vacant, require, ↓reduceIte, howned, hvacant,
      not_false_eq_true]
    exact .ok hb

/-- The maps of the ledger that an address derived from these seeds can be found in. -/
def Seeds.OwnedIn (σ : Ledger Pubkey) (k : Pubkey) : Seeds Pubkey → Prop
  | .queue _ => k ∈ σ.queueConfigs
  | .worker _ _ => k ∈ σ.workerRegistries
  | .job _ _ => k ∈ σ.jobs

/-- A derived address holds nothing but an account of the kind it is derived for. -/
theorem Addressed.owned_iff (h : Addressed D σ) {seeds : Seeds Pubkey}
    (hk : D.addressOf seeds = some k) : σ.Owned k ↔ seeds.OwnedIn σ k := by
  obtain ⟨b, hb⟩ := Derivation.addressOf_eq_some.mp hk
  constructor
  · -- whatever is found there was derived from the same seeds
    rintro (hqueue | hregistry | hjob)
    · obtain ⟨q, hq⟩ := Finmap.mem_iff.mp hqueue
      obtain ⟨m, hm⟩ := h.queue k q hq
      rwa [D.find_injective hb hm]
    · obtain ⟨r, hr⟩ := Finmap.mem_iff.mp hregistry
      obtain ⟨m, _, hm, -⟩ := h.registry k r hr
      rwa [D.find_injective hb hm]
    · obtain ⟨j, hj⟩ := Finmap.mem_iff.mp hjob
      obtain ⟨m, s, _, hm, -⟩ := h.job k j hj
      rwa [D.find_injective hb hm]
  · intro howned
    cases seeds with
    | queue => exact .inl howned
    | worker => exact .inr (.inl howned)
    | job => exact .inr (.inr howned)

/-- A stored map has an entry exactly where the function does. -/
theorem not_mem_iff_isNone {ι α T : Type} {address : ι → Option Pubkey} {R : ι → α → T → Prop}
    {f : ι → Option α} {m : Finmap fun _ : Pubkey => T} (h : Finmap.Stores address R f m) {i : ι}
    (hk : address i = some k) : k ∉ m ↔ (f i).isNone = true := by
  have hrel := h i k hk
  rw [← Finmap.lookup_eq_none]
  generalize m.lookup k = account at hrel
  generalize f i = entry at hrel
  cases hrel <;> simp

namespace Represents

theorem loadQueue (h : Represents D S σ) (haddr : Addressed D σ)
    (hk : D.addressOf (queueSeeds n) = some k) :
    Agree Eq (fun q queue => StoresQueue D n queue q) (σ.loadQueueConfig k)
      (Spec.find (S.queues n)) :=
  load_agrees (h.queues n k hk) fun hnone =>
    (haddr.owned_iff hk).not.mpr (Finmap.lookup_eq_none.mp hnone)

theorem loadWorker (h : Represents D S σ) (haddr : Addressed D σ) {x : Pubkey}
    (hx : D.addressOf (workerSeeds (n, w)) = some x) :
    Agree Eq (fun r worker => StoresWorker D (n, w) worker r) (σ.loadWorkerRegistry x)
      (Spec.find (S.workers (n, w))) :=
  load_agrees (h.workers (n, w) x hx) fun hnone =>
    (haddr.owned_iff hx).not.mpr (Finmap.lookup_eq_none.mp hnone)

theorem loadJob (h : Represents D S σ) (haddr : Addressed D σ)
    (ha : D.addressOf (jobSeeds (n, s)) = some a) :
    Agree Eq (fun j job => StoresJob D (n, s) job j) (σ.loadJob a)
      (Spec.find (S.jobs (n, s))) :=
  load_agrees (h.jobs (n, s) a ha) fun hnone =>
    (haddr.owned_iff ha).not.mpr (Finmap.lookup_eq_none.mp hnone)

theorem initQueue (h : Represents D S σ) (haddr : Addressed D σ)
    (hk : D.addressOf (queueSeeds n) = some k) :
    Agree Eq (fun b _ => D.bumpOf (queueSeeds n) = some b) (D.initAccount σ (queueSeeds n) k)
      (Spec.vacant (S.queues n)) :=
  initAccount_agrees hk ((haddr.owned_iff hk).not.trans (not_mem_iff_isNone h.queues hk))

theorem initWorker (h : Represents D S σ) (haddr : Addressed D σ) {x : Pubkey}
    (hx : D.addressOf (workerSeeds (n, w)) = some x) :
    Agree Eq (fun b _ => D.bumpOf (workerSeeds (n, w)) = some b)
      (D.initAccount σ (workerSeeds (n, w)) x) (Spec.vacant (S.workers (n, w))) :=
  initAccount_agrees hx ((haddr.owned_iff hx).not.trans (not_mem_iff_isNone h.workers hx))

theorem initJob (h : Represents D S σ) (haddr : Addressed D σ)
    (ha : D.addressOf (jobSeeds (n, s)) = some a) :
    Agree Eq (fun b _ => D.bumpOf (jobSeeds (n, s)) = some b)
      (D.initAccount σ (jobSeeds (n, s)) a) (Spec.vacant (S.jobs (n, s))) :=
  initAccount_agrees ha ((haddr.owned_iff ha).not.trans (not_mem_iff_isNone h.jobs ha))

/-! ## Writing the ledger and the store -/

theorem setQueue (h : Represents D S σ) (hk : D.addressOf (queueSeeds n) = some k)
    {queue : Spec.Queue Pubkey} {q : QueueConfig Pubkey} (hq : StoresQueue D n queue q) :
    Represents D (S.setQueue n queue) { σ with queueConfigs := σ.queueConfigs.insert k q } :=
  ⟨h.queues.insert queueSeeds_injective hk hq, h.workers, h.jobs⟩

theorem setWorker (h : Represents D S σ) {x : Pubkey}
    (hx : D.addressOf (workerSeeds (n, w)) = some x) {worker : Spec.Worker}
    {r : WorkerRegistry Pubkey} (hr : StoresWorker D (n, w) worker r) :
    Represents D (S.setWorker n w worker)
      { σ with workerRegistries := σ.workerRegistries.insert x r } :=
  ⟨h.queues, h.workers.insert workerSeeds_injective hx hr, h.jobs⟩

theorem setJob (h : Represents D S σ) (ha : D.addressOf (jobSeeds (n, s)) = some a)
    {job : Spec.Job Pubkey} {j : Job Pubkey} (hj : StoresJob D (n, s) job j) :
    Represents D (S.setJob n s (some job)) { σ with jobs := σ.jobs.insert a j } :=
  ⟨h.queues, h.workers, h.jobs.insert jobSeeds_injective ha hj⟩

theorem eraseJob (h : Represents D S σ) (ha : D.addressOf (jobSeeds (n, s)) = some a) :
    Represents D (S.setJob n s none) { σ with jobs := σ.jobs.erase a } :=
  ⟨h.queues, h.workers, h.jobs.erase jobSeeds_injective ha⟩

end Represents

/-! ## Arithmetic -/

omit [DecidableEq Pubkey] in
/-- Checked arithmetic on words of `w` bits is counting. -/
theorem add_agrees {α : Type} [MachineInt α] {toNat : α → ℕ} {a b : α} {w m : ℕ}
    (hword : (∃ c, toNat c = m + 1) ↔ m + 1 < 2 ^ w)
    (hadd : ∀ c, add Error.overflow a b = .ok c ↔ toNat c = m + 1) :
    Agree Eq (fun c i => toNat c = m + 1 ∧ i = m + 1) (add Error.overflow a b)
      (Spec.count w (m + 1)) := by
  unfold Spec.count require
  split_ifs with hlt
  -- in range the word is there and the addition gives it
  · obtain ⟨c, hc⟩ := hword.mpr hlt
    rw [(hadd c).mpr hc]
    exact .ok ⟨hc, rfl⟩
  -- out of range no word is the sum
  · have herror : add Error.overflow a b = .error .overflow :=
      narrow_eq_error fun c hc => hlt (hword.mp ⟨c, (hadd c).mp (add_eq_ok.mpr hc)⟩)
    rw [herror]
    exact .error rfl

omit [DecidableEq Pubkey] in
theorem add_agrees_uint64 {a : UInt64} {m : ℕ} (h : a.toNat = m) :
    Agree Eq (fun c i => c.toNat = m + 1 ∧ i = m + 1) (add Error.overflow a 1)
      (Spec.count 64 (m + 1)) := by
  subst h
  exact add_agrees exists_toNat_eq_uint64 fun _ => add_eq_ok_uint64

omit [DecidableEq Pubkey] in
theorem add_agrees_uint8 {a : UInt8} {m : ℕ} (h : a.toNat = m) :
    Agree Eq (fun c i => c.toNat = m + 1 ∧ i = m + 1) (add Error.overflow a 1)
      (Spec.count 8 (m + 1)) := by
  subst h
  exact add_agrees exists_toNat_eq_uint8 fun _ => add_eq_ok_uint8

omit [DecidableEq Pubkey] in
/-- An exact `i64` value is a time in range. -/
theorem narrow_agrees_int64 {t : ℤ} :
    Agree Eq (fun (c : Int64) i => c.toInt = t ∧ i = t) (narrow Error.overflow t)
      (Spec.instant t) := by
  unfold Spec.instant require
  split_ifs with hrange
  -- an exact value in range is a word, and one out of range is none
  · obtain ⟨c, hc⟩ := exists_toInt_eq_int64.mpr hrange
    rw [narrow_eq_ok.mpr hc]
    exact .ok ⟨hc, rfl⟩
  · rw [narrow_eq_error fun c hc => hrange (exists_toInt_eq_int64.mp ⟨c, hc⟩)]
    exact .error rfl

end Reading

end SolQueue
