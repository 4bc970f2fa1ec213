import SolQueue.Conservation
import SolQueue.Dashboard

/-!
# Pending jobs on the two dashboards

The dashboard in the browser counts the jobs it has read, by their status. The one on the command
line subtracts the counters of the queue, which leaves the jobs that are not finished. A job that is
being processed is one of those, but is not pending.

* `cliPending`, `webPending`: the two figures.
* `Listing`: a list of the live jobs of a queue, as they are shown.
* `webCount_eq`: the browser shows how many live jobs have a status.
* `cliPending_eq_iff`: the command line shows how many are pending if none is being processed.
-/

namespace SolQueue

/-! ## The two figures -/

/-- The counters in the clients are big numbers. `toNumber` is limited to 53 bits, and throws past
them. -/
structure BigNumber where
  toNumber : UInt64 → Option ℤ
  toNumber_of_lt : ∀ {x : UInt64}, x.toNat < 2 ^ 53 → toNumber x = some (x.toNat : ℤ)
  toNumber_of_le : ∀ {x : UInt64}, 2 ^ 53 ≤ x.toNat → toNumber x = none

/-- Big numbers as they are. -/
def BigNumber.limited : BigNumber where
  toNumber x := if x.toNat < 2 ^ 53 then some (x.toNat : ℤ) else none
  toNumber_of_lt h := if_pos h
  toNumber_of_le h := if_neg h.not_gt

variable {Pubkey : Type}

/-- What the `dashboard` command prints under `Pending`: nothing if a counter is too large. -/
def cliPending (B : BigNumber) (queue : QueueConfig Pubkey) : Option ℤ := do
  let totalEnqueued ← B.toNumber queue.totalEnqueued
  let totalCompleted ← B.toNumber queue.totalCompleted
  let totalFailed ← B.toNumber queue.totalFailed
  -- each difference is a double
  return toNumber (toNumber (totalEnqueued - totalCompleted) - totalFailed)

/-- Counters of 53 bits are subtracted exactly. -/
theorem cliPending_of_lt (B : BigNumber) {q : QueueConfig Pubkey} {n : ℕ}
    (hsum : q.totalCompleted.toNat + q.totalFailed.toNat + n = q.totalEnqueued.toNat)
    (hlt : q.totalEnqueued.toNat < 2 ^ 53) : cliPending B q = some (n : ℤ) := by
  have hcompleted : q.totalCompleted.toNat < 2 ^ 53 := by omega
  have hfailed : q.totalFailed.toNat < 2 ^ 53 := by omega
  have hunfinished : (q.totalEnqueued.toNat : ℤ) - q.totalCompleted.toNat =
      ((q.totalFailed.toNat + n : ℕ) : ℤ) := by omega
  have hpending : ((q.totalFailed.toNat + n : ℕ) : ℤ) - q.totalFailed.toNat = n := by omega
  rw [cliPending, B.toNumber_of_lt hlt, B.toNumber_of_lt hcompleted, B.toNumber_of_lt hfailed]
  simp only [Option.bind_eq_bind, Option.bind_some, Option.pure_def]
  rw [hunfinished, toNumber_natCast (by omega), hpending, toNumber_natCast (by omega)]

/-- Nothing is printed for a queue with more jobs. -/
theorem cliPending_of_le (B : BigNumber) {q : QueueConfig Pubkey}
    (hle : 2 ^ 53 ≤ q.totalEnqueued.toNat) : cliPending B q = none := by
  rw [cliPending, B.toNumber_of_le hle]
  rfl

/-- How many of the jobs read have a status. -/
def webCount (jobs : List JobItem) (status : JobStatus) : ℕ :=
  (jobs.filter fun j => j.status = status).length

theorem webCount_cons {item : JobItem} {jobs : List JobItem} {status : JobStatus} :
    webCount (item :: jobs) status =
      (if item.status = status then 1 else 0) + webCount jobs status := by
  rw [webCount, webCount, List.filter_cons]
  by_cases h : item.status = status
  · simp [h, Nat.add_comm]
  · simp [h]

/-- What the browser shows under `Pending`. -/
def webPending (jobs : List JobItem) : ℕ :=
  webCount jobs .pending

/-! ## What is counted -/

variable [DecidableEq Pubkey]

/-- The number of live jobs of the queue at `k` with a status. -/
def Ledger.liveIn (σ : Ledger Pubkey) (k : Pubkey) (status : JobStatus) : ℕ :=
  Finmap.tally (fun _ j => if j.queue = k ∧ j.status = status then 1 else 0) σ.jobs

/-- The live jobs of the queue at `k` and how they are shown: each job once, with its status. -/
structure Listing (σ : Ledger Pubkey) (k : Pubkey) (addresses : List Pubkey)
    (items : List JobItem) : Prop where
  nodup : addresses.Nodup
  complete : ∀ a j, σ.jobs.lookup a = some j → j.queue = k → a ∈ addresses
  shown : List.Forall₂ (fun a item => ∃ j, σ.jobs.lookup a = some j ∧ j.queue = k ∧
    item.status = j.status) addresses items

variable {σ : Ledger Pubkey} {k : Pubkey} {addresses : List Pubkey} {items : List JobItem}

/-- An unfinished job is pending or being processed. -/
theorem Ledger.unfinished_eq :
    σ.unfinished k = σ.liveIn k .pending + σ.liveIn k .processing := by
  rw [unfinished, liveIn, liveIn, ← Finmap.tally_add]
  refine Finmap.tally_congr fun a j _ => ?_
  cases hstatus : j.status <;> by_cases hqueue : j.queue = k <;>
    simp [Job.Unfinished, hstatus, hqueue]

/-- No live job has a status if none is counted. -/
theorem Ledger.liveIn_eq_zero_iff {status : JobStatus} :
    σ.liveIn k status = 0 ↔
      ∀ a j, σ.jobs.lookup a = some j → j.queue = k → j.status ≠ status := by
  simp [liveIn, Finmap.tally_eq_zero_iff]

/-- The browser shows how many live jobs of the queue have a status. -/
theorem webCount_eq (h : Listing σ k addresses items) (status : JobStatus) :
    webCount items status = σ.liveIn k status := by
  obtain ⟨hnodup, hcomplete, hshown⟩ := h
  have hmissed : ∀ a j, σ.jobs.lookup a = some j → a ∉ addresses →
      (if j.queue = k ∧ j.status = status then 1 else 0) = 0 :=
    fun a j hj ha => if_neg fun h => ha (hcomplete a j hj h.1)
  rw [Ledger.liveIn, Finmap.tally_eq_sum hnodup hmissed]
  clear hnodup hcomplete hmissed
  -- item by item
  induction hshown with
  | nil => rfl
  | cons hitem _ ih =>
    obtain ⟨j, hj, hqueue, hstatus⟩ := hitem
    rw [webCount_cons, ih, List.map_cons, List.sum_cons, hj, Finmap.weigh_some, hstatus]
    simp only [hqueue, true_and]

/-! ## When the figures agree -/

variable [Inhabited Pubkey] {D : Derivation Pubkey}

/-- In every run, both dashboards show how many live jobs of a queue are pending, exactly if none
is being processed and the counters of the queue are numbers of 53 bits. -/
theorem cliPending_eq_iff (B : BigNumber) (calls : List (Call Pubkey)) {q : QueueConfig Pubkey}
    (hq : ((program D).run calls).queueConfigs.lookup k = some q)
    (hitems : Listing ((program D).run calls) k addresses items) :
    cliPending B q = some (((program D).run calls).liveIn k .pending : ℤ) ∧
        webPending items = ((program D).run calls).liveIn k .pending ↔
      q.totalEnqueued.toNat < 2 ^ 53 ∧
        ∀ a j, ((program D).run calls).jobs.lookup a = some j → j.queue = k →
          j.status ≠ .processing := by
  have hsum := totalEnqueued_of_run calls hq
  have hweb : webPending items = _ := webCount_eq hitems .pending
  rw [← Ledger.liveIn_eq_zero_iff, and_iff_left hweb]
  by_cases hlt : q.totalEnqueued.toNat < 2 ^ 53
  · rw [cliPending_of_lt B hsum hlt, Ledger.unfinished_eq, Option.some.injEq, Nat.cast_inj,
      and_iff_right hlt]
    omega
  · rw [cliPending_of_le B (not_lt.mp hlt)]
    exact iff_of_false (Option.some_ne_none _).symm fun h => hlt h.1

/-- The sample job as the browser shows it, with the given status. -/
def Sample.shown (status : JobStatus) : JobItem where
  pubkey := "job"
  seq := 0
  jobType := "email"
  status := status
  priority := 1
  retryCount := 0
  maxRetries := 2
  assignedWorker := none
  creator := "producer"
  enqueuedAt := 1
  completedAt := none
  result := ""

/-- The sample job is listed whenever it is the only one. -/
theorem Sample.listing {calls : List (Call Key)} {status : JobStatus}
    (hkeys : ((program Derivation.free).run calls).jobs.keys = {job 0})
    (hjob : (((program Derivation.free).run calls).jobs.lookup (job 0)).map
      (fun j => (j.queue, j.status)) = some (queue, status)) :
    Listing ((program Derivation.free).run calls) queue [job 0] [shown status] where
  nodup := List.nodup_singleton _
  complete a j hj _ := by
    have hmem : a ∈ ((program Derivation.free).run calls).jobs.keys :=
      Finmap.mem_keys.mpr (Finmap.mem_of_lookup_eq_some hj)
    rw [hkeys, Finset.mem_singleton] at hmem
    exact List.mem_singleton.mpr hmem
  shown := by
    obtain ⟨j, hj, hfields⟩ := Option.map_eq_some_iff.mp hjob
    obtain ⟨hqueue, hstatus⟩ := Prod.mk.inj hfields
    exact .cons ⟨j, hj, hqueue, hstatus.symm⟩ .nil

/-- Right after the sample job is enqueued the figures agree. -/
theorem cliPending_eq_iff_enqueued :
    ∃ q, ((program Derivation.free).run (Sample.day.take 3)).queueConfigs.lookup Sample.queue =
        some q ∧
      cliPending .limited q = some (((program Derivation.free).run
        (Sample.day.take 3)).liveIn Sample.queue .pending : ℤ) ∧
      webPending [Sample.shown .pending] =
        ((program Derivation.free).run (Sample.day.take 3)).liveIn Sample.queue .pending := by
  have hjob : (((program Derivation.free).run (Sample.day.take 3)).jobs.lookup
      (Sample.job 0)).map (fun j => (j.queue, j.status)) = some (Sample.queue, .pending) := by
    decide +kernel
  have hkeys : ((program Derivation.free).run (Sample.day.take 3)).jobs.keys = {Sample.job 0} := by
    decide +kernel
  have hlookup : (((program Derivation.free).run (Sample.day.take 3)).queueConfigs.lookup
      Sample.queue).map (fun q => q.totalEnqueued) = some 1 := by
    decide +kernel
  obtain ⟨q, hq, henqueued⟩ := Option.map_eq_some_iff.mp hlookup
  have hlisting := Sample.listing hkeys hjob
  refine ⟨q, hq, (cliPending_eq_iff .limited _ hq hlisting).mpr ⟨?_, ?_⟩⟩
  · rw [henqueued]
    decide
  · intro a j hj hqueue
    obtain rfl := List.mem_singleton.mp (hlisting.complete a j hj hqueue)
    rw [hj] at hjob
    rw [(Prod.mk.inj (Option.some.inj hjob)).2]
    decide

/-- Once the sample job is claimed, the command line still prints one pending job. -/
theorem cliPending_ne_of_claimed :
    ¬∀ (B : BigNumber) (calls : List (Call Key)) (k : Key) (q : QueueConfig Key)
      (addresses : List Key) (items : List JobItem),
      ((program Derivation.free).run calls).queueConfigs.lookup k = some q →
        Listing ((program Derivation.free).run calls) k addresses items →
        cliPending B q = some (((program Derivation.free).run calls).liveIn k .pending : ℤ) ∧
          webPending items = ((program Derivation.free).run calls).liveIn k .pending := by
  intro h
  have hlookup : (((program Derivation.free).run (Sample.day.take 4)).queueConfigs.lookup
      Sample.queue).map (cliPending .limited) = some (some 1) := by
    decide +kernel
  obtain ⟨q, hq, hprinted⟩ := Option.map_eq_some_iff.mp hlookup
  have hjob : (((program Derivation.free).run (Sample.day.take 4)).jobs.lookup
      (Sample.job 0)).map (fun j => (j.queue, j.status)) = some (Sample.queue, .processing) := by
    decide +kernel
  have hkeys : ((program Derivation.free).run (Sample.day.take 4)).jobs.keys = {Sample.job 0} := by
    decide +kernel
  have hlisting := Sample.listing hkeys hjob
  obtain ⟨hcli, hweb⟩ := h .limited _ _ q _ _ hq hlisting
  rw [hprinted, ← hweb] at hcli
  cases hcli

end SolQueue
