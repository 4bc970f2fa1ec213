import SolQueue.Addressing
import SolQueue.Correctness
import SolQueue.JobDisplay
import SolQueue.PendingCounts
import SolQueue.QueueDisplay

/-!
# The job lists of the two clients

Neither client asks for the jobs of a queue: each derives addresses from a range of numbers and asks
for one account after the other, while other parties go on. The browser takes the first 50 numbers,
the command line the last few.

* `fetchJobs`, `dashboardRows`: the loops.
* `Ledger.jobNumbered`: the job at the address of a number.
* `parseJob_shows`: what of a job is shown right whatever its optional fields.
* `web_listing`, `cli_listing`: the jobs listed, if producers pass the counter.
* `webCount_exact`: the counts in the browser are right up to the job it does not ask for.
-/

namespace List.Forall₂

variable {α β : Type*} {R : α → β → Prop} {l : List α} {l' : List β}

/-- Every element on the right is related to one on the left. -/
theorem exists_left (h : Forall₂ R l l') {y : β} (hy : y ∈ l') : ∃ x ∈ l, R x y := by
  induction h with
  | nil => cases hy
  | @cons x y' _ _ hxy _ ih =>
    rcases List.mem_cons.mp hy with rfl | hy
    · exact ⟨x, List.mem_cons_self, hxy⟩
    · obtain ⟨x', hx', hrel⟩ := ih hy
      exact ⟨x', List.mem_cons_of_mem x hx', hrel⟩

/-- An order of the left list is one of the right list. -/
theorem pairwise (h : Forall₂ R l l') {S : α → α → Prop} {S' : β → β → Prop}
    (hS : ∀ x x' y y', R x y → R x' y' → S x x' → S' y y') (hl : l.Pairwise S) :
    l'.Pairwise S' := by
  induction h with
  | nil => exact .nil
  | @cons x y _ _ hxy htail ih =>
    obtain ⟨hhead, hl⟩ := List.pairwise_cons.mp hl
    refine List.pairwise_cons.mpr ⟨fun y' hy' => ?_, ih hl⟩
    obtain ⟨x', hx', hrel⟩ := htail.exists_left hy'
    exact hS x x' y y' hxy hrel (hhead x' hx')

end List.Forall₂

namespace SolQueue

/-! ## The loops -/

section Loops

variable {Pubkey : Type} (D : Derivation Pubkey)

/-- The loop of `fetchJobs` in the browser. `getAccountInfo seq` answers the request for the account
of the number `seq`. -/
def fetchJobs (T : TextDecoder) (bytes : Pubkey → PublicKey) (queueName : String)
    (stats : QueueStats String) (getAccountInfo : ℕ → Pubkey → Option (List UInt8)) :
    List JobItem :=
  (List.range (min stats.nextJobSeq 50).toNat).filterMap fun seq => do
    let jobPDA ← D.addressOf (.job queueName.asBytes (UInt64.ofNat seq))
    let data ← getAccountInfo seq jobPDA
    parseJob T (bytes jobPDA) data

variable [DecidableEq Pubkey]

/-- The job at the address of a number, with the address. -/
def Ledger.jobNumbered (σ : Ledger Pubkey) (n : String) (i : ℕ) : Option (Pubkey × Job Pubkey) := do
  let a ← D.addressOf (.job n.asBytes (UInt64.ofNat i))
  let j ← σ.jobs.lookup a
  return (a, j)

end Loops

/-! ## What is read of an account -/

/-- The item shows the fields of the job up to its optional worker. -/
structure JobItem.Shows {Pubkey : Type} (T : TextDecoder) (jobPDA : PublicKey) (job : Job Pubkey)
    (item : JobItem) : Prop where
  pubkey : item.pubkey = toBase58 jobPDA.toList
  seq : item.seq = toNumber job.seq.toNat
  jobType : item.jobType = T.trimNull job.jobType.toList
  status : item.status = job.status
  priority : item.priority = job.priority
  retryCount : item.retryCount = job.retryCount
  maxRetries : item.maxRetries = job.maxRetries

/-- No job is skipped, and its fields up to the optional worker are shown as they are. -/
theorem parseJob_shows (T : TextDecoder) (jobPDA : PublicKey) {job : Job PublicKey}
    {data : List UInt8} (h : StoredAs job data) :
    ∃ item, parseJob T jobPDA data = some item ∧ item.Shows T jobPDA job := by
  obtain ⟨discriminator, padding, hlength, hdata⟩ := h.layout
  have hsize : data.length = 817 := h.length
  have hqueue : data.drop 8 = job.encode ++ padding := by rw [hdata, ← hlength, List.drop_left]
  simp only [Job.encode, List.append_assoc, List.cons_append] at hqueue
  -- field after field up to the optional worker
  have hseq := drop_add_of_drop hqueue Vector.length_toList
  have htype := drop_add_of_drop hseq length_leBytes
  have hpayload := drop_add_of_drop htype Vector.length_toList
  have hstatus := drop_add_of_drop hpayload Vector.length_toList
  have hpriority := drop_succ_of_drop hstatus
  have hretry := drop_succ_of_drop hpriority
  have hmax := drop_succ_of_drop hretry
  norm_num at hseq htype hpayload hstatus hpriority hretry hmax
  have hstatusShown : (if job.status.byte = 1 then JobStatus.processing
      else if job.status.byte = 2 then .completed
      else if job.status.byte = 3 then .failed else .pending) = job.status := by
    cases job.status <;> rfl
  -- the other ones are read at fixed offsets in the account
  have htag : data[596]? = some data[596] := List.getElem?_eq_getElem (by omega)
  have henqueued := readBigInt64LE_of_le (show 661 + 8 ≤ data.length by omega)
  have hcompleted := readBigInt64LE_of_le (show 669 + 8 ≤ data.length by omega)
  refine ⟨{
    pubkey := toBase58 jobPDA.toList
    seq := toNumber job.seq.toNat
    jobType := T.trimNull job.jobType.toList
    status := job.status
    priority := job.priority
    retryCount := job.retryCount
    maxRetries := job.maxRetries
    assignedWorker := shownWorker data[596] (slice data 597 629)
    creator := toBase58 (slice data 629 661)
    enqueuedAt := toNumber (leInt (slice data 661 669))
    completedAt := shownTime (toNumber (leInt (slice data 669 677)))
    result := T.trimNull (slice data 677 805) }, ?_, ⟨rfl, rfl, rfl, rfl, rfl, rfl, rfl⟩⟩
  simp only [parseJob, Nat.reduceAdd, readBigUInt64LE_of_drop hseq, hsize, henqueued, hcompleted,
    getElem?_of_drop hstatus, getElem?_of_drop hpriority, getElem?_of_drop hretry,
    getElem?_of_drop hmax, htag]
  rw [slice_of_drop htype Vector.length_toList]
  simp [shownWorker, shownTime, hstatusShown]

/-- The counter of a queue is shown as a double. -/
theorem parseQueue_nextJobSeq {data padding : List UInt8} {queue : QueueConfig PublicKey}
    (hauthority : data.drop 8 = queue.encode ++ padding) :
    ∃ stats, parseQueue data = some stats ∧ stats.nextJobSeq = toNumber queue.nextJobSeq.toNat := by
  simp only [QueueConfig.encode, List.append_assoc, List.cons_append] at hauthority
  -- field after field
  have hname := drop_add_of_drop hauthority Vector.length_toList
  have hseq := drop_add_of_drop hname Vector.length_toList
  have henqueued := drop_add_of_drop hseq length_leBytes
  have hcompleted := drop_add_of_drop henqueued length_leBytes
  have hfailed := drop_add_of_drop hcompleted length_leBytes
  have hpaused := drop_add_of_drop hfailed length_leBytes
  have hretries := drop_succ_of_drop hpaused
  have htimeout := drop_succ_of_drop hretries
  norm_num at hname hseq henqueued hcompleted hfailed hpaused hretries htimeout
  simp [parseQueue, readQueue, readBigUInt64LE_of_drop hseq, readBigUInt64LE_of_drop henqueued,
    readBigUInt64LE_of_drop hcompleted, readBigUInt64LE_of_drop hfailed,
    getElem?_of_drop hretries, readBigInt64LE_of_drop htimeout]

/-- A counter shown as a double is past the first 50 numbers exactly if the counter is. -/
theorem min_toNumber {n : ℕ} : (min (toNumber n) 50).toNat = min n 50 := by
  by_cases hle : n ≤ 2 ^ 53
  · rw [toNumber_natCast hle]
    omega
  · -- rounding leaves it large
    have hlarge : 2 ^ 53 ≤ nearestDouble n := by
      by_cases hsucc : n = 2 ^ 53 + 1
      · rw [hsucc]
        decide +kernel
      · exact (lt_nearestDouble (by omega)).le
    have hshown : toNumber n = nearestDouble n := by
      rw [toNumber, Int.sign_eq_one_of_pos (by omega), one_mul, Int.natAbs_natCast]
    omega

/-! ## Jobs by their numbers -/

section Numbers

variable {Pubkey : Type} [DecidableEq Pubkey] {D : Derivation Pubkey} {σ : Ledger Pubkey}
  {n : String} {k a : Pubkey} {q : QueueConfig Pubkey} {j : Job Pubkey} {i : ℕ}

/-- If addresses and stored numbers agree, the jobs found under the name of a queue are those of the
queue, each under its own number. -/
theorem SeqAgrees.jobNumbered_eq_some (h : SeqAgrees D σ) (haddr : Addressed D σ)
    (hq : QueueAt D σ n k q) (hi : i < 2 ^ 64) :
    σ.jobNumbered D n i = some (a, j) ↔
      σ.jobs.lookup a = some j ∧ j.queue = k ∧ j.seq.toNat = i := by
  have hnat : (UInt64.ofNat i).toNat = i := UInt64.toNat_ofNat_of_lt' hi
  simp only [Ledger.jobNumbered, Option.bind_eq_bind, Option.bind_eq_some_iff, Option.pure_def,
    Option.some.injEq, Prod.mk.injEq]
  constructor
  · rintro ⟨a, ha, j, hj, rfl, rfl⟩
    -- what is found at an address of the number has this number and is on this queue
    obtain ⟨b, hfind⟩ := Derivation.addressOf_eq_some.mp ha
    obtain ⟨hseq, q', hq', -⟩ := h n _ a b j hfind hj
    exact ⟨hj, haddr.queue_unique haddr hq' hq rfl, by rw [hseq, hnat]⟩
  · rintro ⟨hj, rfl, rfl⟩
    obtain ⟨m, s, q', hfind, hq'⟩ := haddr.job a j hj
    -- the job is derived from the name and the number of its queue
    have hname : m.asBytes = n.asBytes :=
      Seeds.queue.inj (D.create_injective hq'.seeds
        (Option.some.inj (hq'.lookup.symm.trans hq.lookup) ▸ hq.seeds)).1
    obtain ⟨rfl, -⟩ := h m s a j.bump j hfind hj
    refine ⟨a, ?_, j, hj, rfl, rfl⟩
    rw [UInt64.ofNat_toNat, ← hname]
    exact Derivation.addressOf_eq_some.mpr ⟨_, hfind⟩

/-- A ledger at every number in which the queue at `k` is found under its name, and the addresses of
jobs agree with their numbers. -/
structure Snapshots (D : Derivation Pubkey) (n : String) (k : Pubkey) (σs : ℕ → Ledger Pubkey) :
    Prop where
  agrees : ∀ i, SeqAgrees D (σs i)
  addressed : ∀ i, Addressed D (σs i)
  queue : ∀ i, ∃ q, QueueAt D (σs i) n k q

/-- The jobs found at the addresses of numbers, each in the ledger of its number. -/
def found (D : Derivation Pubkey) (n : String) (σs : ℕ → Ledger Pubkey) (numbers : List ℕ) :
    List (Pubkey × Job Pubkey) :=
  numbers.filterMap fun i => (σs i).jobNumbered D n i

namespace Snapshots

variable {σs : ℕ → Ledger Pubkey} {numbers : List ℕ}

theorem jobNumbered_eq_some (h : Snapshots D n k σs) (hi : i < 2 ^ 64) :
    (σs i).jobNumbered D n i = some (a, j) ↔
      (σs i).jobs.lookup a = some j ∧ j.queue = k ∧ j.seq.toNat = i := by
  obtain ⟨q, hq⟩ := h.queue i
  exact (h.agrees i).jobNumbered_eq_some (h.addressed i) hq hi

/-- Exactly the jobs of the queue with one of the numbers are found. -/
theorem mem_found (h : Snapshots D n k σs) (hnumbers : ∀ i ∈ numbers, i < 2 ^ 64) :
    (a, j) ∈ found D n σs numbers ↔
      (σs j.seq.toNat).jobs.lookup a = some j ∧ j.queue = k ∧ j.seq.toNat ∈ numbers := by
  rw [found, List.mem_filterMap]
  constructor
  · rintro ⟨i, hi, hj⟩
    obtain ⟨hlookup, hqueue, rfl⟩ := (h.jobNumbered_eq_some (hnumbers i hi)).mp hj
    exact ⟨hlookup, hqueue, hi⟩
  · rintro ⟨hlookup, hqueue, hi⟩
    exact ⟨_, hi, (h.jobNumbered_eq_some (hnumbers _ hi)).mpr ⟨hlookup, hqueue, rfl⟩⟩

/-- Jobs are found in the order of their numbers. -/
theorem pairwise_found (h : Snapshots D n k σs) (hnumbers : ∀ i ∈ numbers, i < 2 ^ 64)
    (hsorted : numbers.Pairwise (· < ·)) :
    (found D n σs numbers).Pairwise fun x y => x.2.seq.toNat < y.2.seq.toNat := by
  rw [found, List.pairwise_filterMap]
  refine hsorted.imp_of_mem fun {i i'} hi hi' hlt x hx y hy => ?_
  obtain ⟨-, -, hseq⟩ := (h.jobNumbered_eq_some (hnumbers i hi)).mp hx
  obtain ⟨-, -, hseq'⟩ := (h.jobNumbered_eq_some (hnumbers i' hi')).mp hy
  omega

end Snapshots

end Numbers

/-! ## The list in the browser -/

/-- The same job with other keys in it. -/
def Job.map {α β : Type} (f : α → β) (j : Job α) : Job β where
  queue := f j.queue
  seq := j.seq
  jobType := j.jobType
  payload := j.payload
  status := j.status
  priority := j.priority
  retryCount := j.retryCount
  maxRetries := j.maxRetries
  assignedWorker := j.assignedWorker.map f
  creator := f j.creator
  enqueuedAt := j.enqueuedAt
  startedAt := j.startedAt
  completedAt := j.completedAt
  result := j.result
  resultLen := j.resultLen
  bump := j.bump

/-- The same queue with another key in it. -/
def QueueConfig.map {α β : Type} (f : α → β) (q : QueueConfig α) : QueueConfig β where
  authority := f q.authority
  queueName := q.queueName
  nextJobSeq := q.nextJobSeq
  totalEnqueued := q.totalEnqueued
  totalCompleted := q.totalCompleted
  totalFailed := q.totalFailed
  isPaused := q.isPaused
  maxRetries := q.maxRetries
  jobTimeoutSecs := q.jobTimeoutSecs
  bump := q.bump

section Browser

variable {Pubkey : Type} [DecidableEq Pubkey] {D : Derivation Pubkey} {bytes : Pubkey → PublicKey}

/-- Requests for the accounts of jobs are answered from the ledger: with the data of the account, if
there is one. -/
structure Serves (D : Derivation Pubkey) (bytes : Pubkey → PublicKey) (σ : Ledger Pubkey)
    (getAccountInfo : Pubkey → Option (List UInt8)) : Prop where
  live : ∀ a j, σ.jobs.lookup a = some j →
    ∃ data, getAccountInfo a = some data ∧ StoredAs (j.map bytes) data
  missing : ∀ n s a, D.addressOf (.job n s) = some a → σ.jobs.lookup a = none →
    getAccountInfo a = none

/-- The browser shows the jobs found at the addresses of the first numbers. -/
theorem fetchJobs_shows (T : TextDecoder) (n : String) {stats : QueueStats String} {next : UInt64}
    (hstats : stats.nextJobSeq = toNumber next.toNat) {σs : ℕ → Ledger Pubkey}
    {getAccountInfo : ℕ → Pubkey → Option (List UInt8)}
    (hserves : ∀ i, Serves D bytes (σs i) (getAccountInfo i)) :
    List.Forall₂ (fun x item => item.Shows T (bytes x.1) x.2)
      (found D n σs (List.range (min next.toNat 50)))
      (fetchJobs D T bytes n stats getAccountInfo) := by
  rw [fetchJobs, hstats, min_toNumber, found]
  refine List.rel_filterMap (R := Eq) ?_ (List.forall₂_eq_eq_eq ▸ rfl)
  rintro i _ rfl
  -- the loop goes on past a number without an address or an account
  simp only [Ledger.jobNumbered, Option.bind_eq_bind]
  cases haddress : D.addressOf (.job n.asBytes (UInt64.ofNat i)) with
  | none => exact .none
  | some a =>
    cases hlookup : (σs i).jobs.lookup a with
    | none =>
      simp only [Option.bind_some, hlookup, (hserves i).missing _ _ a haddress hlookup]
      exact .none
    | some j =>
      obtain ⟨data, hdata, hstored⟩ := (hserves i).live a j hlookup
      obtain ⟨item, hitem, hshows⟩ := parseJob_shows T (bytes a) hstored
      simp only [Option.bind_some, hlookup, hdata, hitem]
      exact .some ⟨hshows.pubkey, hshows.seq, hshows.jobType, hshows.status, hshows.priority,
        hshows.retryCount, hshows.maxRetries⟩

variable [Inhabited Pubkey] {calls : List (Call Pubkey)} {n : String} {k : Pubkey}
  {q : QueueConfig Pubkey} {fetched : ℕ} {asked : ℕ → ℕ}

/-- A queue that is found after some calls is found under its name after more of them. -/
theorem snapshots_run (hcounter : ∀ e ∈ (program D).log calls, Entry.PassesCounter e)
    (hq : QueueAt D ((program D).run (calls.take fetched)) n k q)
    (hlater : ∀ i, fetched ≤ asked i) :
    Snapshots D n k fun i => (program D).run (calls.take (asked i)) where
  agrees i := seqAgrees_run _ fun e he =>
    hcounter e (Machine.mem_log_of_prefix (List.take_prefix _ _) he)
  addressed i := addressed_run _
  queue i := by
    obtain ⟨more, hmore⟩ := List.take_prefix_take_left (l := calls) (hlater i)
    obtain ⟨q', hq', -⟩ := queueAt_runFrom more hq
    rw [← hmore, Machine.run_append]
    exact ⟨q', hq'⟩

/-- What the browser gets during a run when it refreshes: the account of the queue after `fetched`
calls, and the account at the address of each number when it asks for that one. -/
structure Refresh (D : Derivation Pubkey) (bytes : Pubkey → PublicKey) (calls : List (Call Pubkey))
    (n : String) (k : Pubkey) (q : QueueConfig Pubkey) (fetched : ℕ) (asked : ℕ → ℕ)
    (stats : QueueStats String) (getAccountInfo : ℕ → Pubkey → Option (List UInt8)) : Prop where
  queue : QueueAt D ((program D).run (calls.take fetched)) n k q
  stats : ∃ discriminator padding,
    parseQueue ((QueueConfig.layout discriminator).bytes (q.map bytes) ++ padding) = some stats
  later : ∀ i, fetched ≤ asked i
  accounts : ∀ i, Serves D bytes ((program D).run (calls.take (asked i))) (getAccountInfo i)

namespace Refresh

variable {stats : QueueStats String} {getAccountInfo : ℕ → Pubkey → Option (List UInt8)}
  {T : TextDecoder}

/-- The browser shows the jobs found at the addresses of the first numbers. -/
theorem shows (h : Refresh D bytes calls n k q fetched asked stats getAccountInfo)
    (T : TextDecoder) :
    List.Forall₂ (fun x item => item.Shows T (bytes x.1) x.2)
      (found D n (fun i => (program D).run (calls.take (asked i)))
        (List.range (min q.nextJobSeq.toNat 50)))
      (fetchJobs D T bytes n stats getAccountInfo) := by
  obtain ⟨discriminator, padding, hstats⟩ := h.stats
  obtain ⟨stats', hstats', hnext⟩ :=
    parseQueue_nextJobSeq ((q.map bytes).drop_bytes discriminator padding)
  obtain rfl := Option.some.inj (hstats.symm.trans hstats')
  exact fetchJobs_shows T n hnext h.accounts

end Refresh

/-- The list in the browser while other parties go on. If producers pass the counter, it has the
jobs of the queue among the first 50 numbers below the counter, in the order of their numbers, each
once and as it was when it was asked for. -/
theorem web_listing {stats : QueueStats String}
    {getAccountInfo : ℕ → Pubkey → Option (List UInt8)}
    (hcounter : ∀ e ∈ (program D).log calls, Entry.PassesCounter e)
    (h : Refresh D bytes calls n k q fetched asked stats getAccountInfo) (T : TextDecoder) :
    let items := fetchJobs D T bytes n stats getAccountInfo
    items.Pairwise (fun x y => x.seq < y.seq) ∧
      (∀ item ∈ items, ∃ a j,
        ((program D).run (calls.take (asked j.seq.toNat))).jobs.lookup a = some j ∧ j.queue = k ∧
          j.seq.toNat < min q.nextJobSeq.toNat 50 ∧ item.Shows T (bytes a) j) ∧
      ∀ a j, ((program D).run (calls.take (asked j.seq.toNat))).jobs.lookup a = some j →
        j.queue = k → j.seq.toNat < min q.nextJobSeq.toNat 50 →
        ∃ item ∈ items, item.Shows T (bytes a) j := by
  have hsnapshots := snapshots_run hcounter h.queue h.later
  have hshows := h.shows T
  have hnumbers : ∀ i ∈ List.range (min q.nextJobSeq.toNat 50), i < 2 ^ 64 := by
    intro i hi
    have hlt := List.mem_range.mp hi
    omega
  refine ⟨?_, fun item hitem => ?_, fun a j hj hqueue hlt => ?_⟩
  · -- numbers below 50 are shown as they are
    have hsmall : ∀ x ∈ found D n (fun i => (program D).run (calls.take (asked i)))
        (List.range (min q.nextJobSeq.toNat 50)), x.2.seq.toNat ≤ 2 ^ 53 := by
      rintro ⟨a, j⟩ hfound
      obtain ⟨-, -, hlt⟩ := (hsnapshots.mem_found hnumbers).mp hfound
      have hlt := List.mem_range.mp hlt
      show j.seq.toNat ≤ 2 ^ 53
      omega
    have hboth := (List.forall₂_and_left _ _).mpr ⟨hsmall, hshows⟩
    refine hboth.pairwise (fun x x' y y' hx hx' hlt => ?_)
      (hsnapshots.pairwise_found hnumbers List.pairwise_lt_range)
    rw [hx.2.seq, hx'.2.seq, toNumber_natCast hx.1, toNumber_natCast hx'.1]
    exact Int.ofNat_lt.mpr hlt
  -- every item shows a job that is found, and every job that is found is shown
  · obtain ⟨⟨a, j⟩, hfound, hitem⟩ := hshows.exists_left hitem
    obtain ⟨hj, hqueue, hlt⟩ := (hsnapshots.mem_found hnumbers).mp hfound
    exact ⟨a, j, hj, hqueue, List.mem_range.mp hlt, hitem⟩
  · have hfound := (hsnapshots.mem_found hnumbers).mpr ⟨hj, hqueue, List.mem_range.mpr hlt⟩
    exact hshows.flip.exists_left hfound

omit [DecidableEq Pubkey] [Inhabited Pubkey] in
/-- How many of the items shown have a status. -/
theorem webCount_of_shows {T : TextDecoder} {l : List (Pubkey × Job Pubkey)} {items : List JobItem}
    (h : List.Forall₂ (fun x item => item.Shows T (bytes x.1) x.2) l items) (status : JobStatus) :
    webCount items status = (l.map fun x => if x.2.status = status then 1 else 0).sum := by
  induction h with
  | nil => rfl
  | cons hitem _ ih => rw [webCount_cons, ih, List.map_cons, List.sum_cons, hitem.status]

/-- The number of live jobs of the queue at `k` with a status and a number that satisfies `P`. -/
def Ledger.liveWhere (σ : Ledger Pubkey) (k : Pubkey) (status : JobStatus) (P : ℕ → Prop)
    [DecidablePred P] : ℕ :=
  Finmap.tally (fun _ j => if j.queue = k ∧ j.status = status ∧ P j.seq.toNat then 1 else 0) σ.jobs

omit [Inhabited Pubkey] in
/-- The live jobs have small numbers or large ones. -/
theorem Ledger.liveIn_eq_add (σ : Ledger Pubkey) (status : JobStatus) (m : ℕ) :
    σ.liveIn k status = σ.liveWhere k status (· < m) + σ.liveWhere k status (m ≤ ·) := by
  rw [liveIn, liveWhere, liveWhere, ← Finmap.tally_add]
  refine Finmap.tally_congr fun a j _ => ?_
  by_cases hk : j.queue = k ∧ j.status = status
  · by_cases hlt : j.seq.toNat < m <;> simp [hk, hlt]
  · rw [if_neg hk, if_neg fun h => hk ⟨h.1, h.2.1⟩, if_neg fun h => hk ⟨h.1, h.2.1⟩]

/-- If nothing happens during a refresh, the browser counts the live jobs with small numbers. -/
theorem Refresh.webCount_eq {stats : QueueStats String}
    {getAccountInfo : ℕ → Pubkey → Option (List UInt8)}
    (h : Refresh D bytes calls n k q calls.length (fun _ => calls.length) stats getAccountInfo)
    (hcounter : ∀ e ∈ (program D).log calls, Entry.PassesCounter e) (T : TextDecoder)
    (status : JobStatus) :
    webCount (fetchJobs D T bytes n stats getAccountInfo) status =
      ((program D).run calls).liveWhere k status (· < 50) := by
  have hsnapshots := snapshots_run hcounter h.queue h.later
  have hshows := h.shows T
  have hqueue := h.queue
  have hnumbered := (sound_run (D := D) calls).numbered
  simp only [List.take_length] at hsnapshots hshows hqueue
  generalize (program D).run calls = σ at hsnapshots hshows hqueue hnumbered ⊢
  have hnumbers : ∀ i ∈ List.range (min q.nextJobSeq.toNat 50), i < 2 ^ 64 := by
    intro i hi
    have hlt := List.mem_range.mp hi
    omega
  have hsorted := hsnapshots.pairwise_found hnumbers List.pairwise_lt_range
  -- every number of a live job is below the counter
  have hmem (a : Pubkey) (j : Job Pubkey) :
      (a, j) ∈ found D n (fun _ => σ) (List.range (min q.nextJobSeq.toNat 50)) ↔
        σ.jobs.lookup a = some j ∧ j.queue = k ∧ j.seq.toNat < 50 := by
    rw [hsnapshots.mem_found hnumbers, List.mem_range]
    refine and_congr_right fun hj => and_congr_right fun hk => ?_
    have hlt := hnumbered.lt a j q hj (by rw [hk, hqueue.lookup])
    omega
  generalize found D n (fun _ => σ) (List.range (min q.nextJobSeq.toNat 50)) = l
    at hshows hsorted hmem
  -- jobs with different numbers are at different addresses
  have hnodup : (l.map Prod.fst).Nodup := by
    refine List.pairwise_map.mpr (hsorted.imp_of_mem fun {x y} hx hy hlt hsame => ?_)
    obtain ⟨hj, -⟩ := (hmem x.1 x.2).mp hx
    obtain ⟨hj', -⟩ := (hmem y.1 y.2).mp hy
    rw [hsame, hj', Option.some.injEq] at hj
    exact hlt.ne (by rw [hj])
  -- so the tally over the ledger is the sum over what is shown
  rw [webCount_of_shows hshows, Ledger.liveWhere, Finmap.tally_eq_sum hnodup, List.map_map]
  · refine congrArg List.sum (List.map_congr_left fun x hx => ?_)
    obtain ⟨hj, hk, hlt⟩ := (hmem x.1 x.2).mp hx
    rw [Function.comp_apply, hj, Finmap.weigh_some]
    simp [hk, hlt]
  -- a job that counts is listed
  · intro a j hj ha
    refine if_neg fun hshown => ha ?_
    exact List.mem_map_of_mem ((hmem a j).mpr ⟨hj, hshown.1, hshown.2.2⟩)

/-- The counts in the browser, if producers pass the counter and nothing happens during a refresh.
The jobs with a status are counted right exactly if none of them has a number from 50 on. -/
theorem webCount_exact {stats : QueueStats String}
    {getAccountInfo : ℕ → Pubkey → Option (List UInt8)}
    (hcounter : ∀ e ∈ (program D).log calls, Entry.PassesCounter e)
    (h : Refresh D bytes calls n k q calls.length (fun _ => calls.length) stats getAccountInfo)
    (T : TextDecoder) (status : JobStatus) :
    webCount (fetchJobs D T bytes n stats getAccountInfo) status =
        ((program D).run calls).liveIn k status ↔
      ∀ a j, ((program D).run calls).jobs.lookup a = some j → j.queue = k → j.status = status →
        j.seq.toNat < 50 := by
  -- what is missing is the jobs with large numbers, and there must be none
  rw [h.webCount_eq hcounter T status, Ledger.liveIn_eq_add _ status 50, left_eq_add,
    Ledger.liveWhere, Finmap.tally_eq_zero_iff]
  refine forall_congr' fun a => forall_congr' fun j => forall_congr' fun hj => ?_
  rw [ite_eq_right_iff]
  constructor
  · intro hnone hk hstatus
    by_contra hge
    exact absurd (hnone ⟨hk, hstatus, not_lt.mp hge⟩) one_ne_zero
  · rintro hsmall ⟨hk, hstatus, hge⟩
    exact absurd (hsmall hk hstatus) hge.not_gt

end Browser

/-- Whether a step passes the counter is decidable. -/
instance {Pubkey : Type} [DecidableEq Pubkey] (e : Entry Pubkey) : Decidable e.PassesCounter :=
  decidable_of_iff
    ((match e.call.instruction with
      | .enqueueJob ctx _ s _ =>
        (e.before.queueConfigs.lookup ctx.queueConfig).all fun q => s = q.nextJobSeq
      | _ => true) = true) <| by
    unfold Entry.PassesCounter
    split
    next ctx n s params hc =>
      rw [Option.all_eq_true]
      constructor
      · rintro h ctx' n' s' params' hc' q hq
        cases hc.symm.trans hc'
        simpa using h q hq
      · intro h q hq
        simpa using h ctx n s params hc q hq
    next hother => exact iff_of_true rfl fun ctx n s params hc => absurd hc (hother ctx n s params)

/-- Producers pass the counter on the sample day. -/
theorem Sample.passesCounter_day :
    ∀ e ∈ (program Derivation.free).log day, Entry.PassesCounter e := by
  decide +kernel

/-- The answers of the accounts after the first calls of the sample day. -/
def Sample.accountInfo (calls : List (Call Key)) (a : Key) : Option (List UInt8) :=
  (((program Derivation.free).run calls).jobs.lookup a).map fun j => account (j.map fun _ => key 7)

theorem Sample.serves (calls : List (Call Key)) :
    Serves Derivation.free (fun _ => key 7) ((program Derivation.free).run calls)
      (accountInfo calls) where
  live a j hj := ⟨_, by rw [accountInfo, hj, Option.map_some], storedAs_account _⟩
  missing _ _ a _ hnone := by rw [accountInfo, hnone, Option.map_none]

/-- A refresh of the sample queue. -/
theorem Sample.exists_refresh {calls : List (Call Key)} {fetched : ℕ} {asked : ℕ → ℕ}
    {q : QueueConfig Key}
    (hq : QueueAt Derivation.free ((program Derivation.free).run (calls.take fetched)) name queue q)
    (hlater : ∀ i, fetched ≤ asked i) :
    ∃ stats, Refresh Derivation.free (fun _ => key 7) calls name queue q fetched asked stats
      fun i => accountInfo (calls.take (asked i)) := by
  obtain ⟨stats, hstats, -⟩ :=
    parseQueue_nextJobSeq ((q.map fun _ => key 7).drop_bytes (Vector.replicate 8 1) [])
  exact ⟨stats, hq, ⟨_, _, hstats⟩, hlater, fun i => serves _⟩

/-- The sample queue right after the sample job is enqueued. -/
theorem Sample.queueAt_enqueued : ∃ q, QueueAt Derivation.free
    ((program Derivation.free).run (day.take 3)) name queue q ∧ q.nextJobSeq = 1 := by
  have hqueue : (((program Derivation.free).run (day.take 3)).queueConfigs.lookup queue).map
      (fun q => (q.nextJobSeq, q.bump)) = some (1, 255) := by decide +kernel
  obtain ⟨q, hq, hfields⟩ := Option.map_eq_some_iff.mp hqueue
  obtain ⟨hnext, hbump⟩ := Prod.mk.inj hfields
  exact ⟨q, ⟨hq, by rw [hbump]; rfl⟩, hnext⟩

/-- If the browser reads the queue right after the sample job is enqueued and asks for the job only
after it is completed, the job is listed as completed. -/
theorem web_listing_day :
    ∃ stats, ∃ item ∈ fetchJobs Derivation.free .bytewise (fun _ => Sample.key 7) Sample.name stats
      (fun _ => Sample.accountInfo (Sample.day.take 9)), item.status = .completed := by
  obtain ⟨q, hq, hnext⟩ := Sample.queueAt_enqueued
  have hlater (_ : ℕ) : 3 ≤ 9 := by decide
  obtain ⟨stats, hrefresh⟩ := Sample.exists_refresh hq hlater
  have hjob : (((program Derivation.free).run (Sample.day.take 9)).jobs.lookup
      (Sample.job 0)).map (fun j => (j.queue, j.seq, j.status)) =
        some (Sample.queue, 0, .completed) := by decide +kernel
  obtain ⟨j, hj, hfields⟩ := Option.map_eq_some_iff.mp hjob
  simp only [Prod.mk.injEq] at hfields
  obtain ⟨-, -, hcomplete⟩ := web_listing Sample.passesCounter_day hrefresh .bytewise
  obtain ⟨item, hitem, hshows⟩ := hcomplete (Sample.job 0) j hj hfields.1 (by
    rw [hfields.2.1, hnext]
    decide)
  exact ⟨stats, item, hitem, hshows.status.trans hfields.2.2⟩

/-- Right after the sample job is enqueued, its queue has as many pending jobs as are counted. -/
theorem webCount_exact_enqueued :
    ∃ stats, webCount (fetchJobs Derivation.free .bytewise (fun _ => Sample.key 7) Sample.name stats
        (fun _ => Sample.accountInfo (Sample.day.take 3))) .pending =
      ((program Derivation.free).run (Sample.day.take 3)).liveIn Sample.queue .pending := by
  obtain ⟨q, hq, hnext⟩ := Sample.queueAt_enqueued
  have hwhole : QueueAt Derivation.free ((program Derivation.free).run
      ((Sample.day.take 3).take (Sample.day.take 3).length)) Sample.name Sample.queue q := by
    rwa [List.take_length]
  obtain ⟨stats, hrefresh⟩ := Sample.exists_refresh hwhole fun _ => le_rfl
  simp only [List.take_length] at hrefresh
  have hcounter : ∀ e ∈ (program Derivation.free).log (Sample.day.take 3),
      Entry.PassesCounter e := fun e he =>
    Sample.passesCounter_day e (Machine.mem_log_of_prefix (List.take_prefix _ _) he)
  refine ⟨stats, (webCount_exact hcounter hrefresh .bytewise .pending).mpr fun a j hj hk _ => ?_⟩
  -- numbers are below the counter
  have hlt := (sound_run (Sample.day.take 3)).numbered.lt a j q hj (by rw [hk, hq.lookup])
  rw [hnext] at hlt
  exact hlt.trans (by decide)

/-! ## The list on the command line -/

section CommandLine

variable {Pubkey : Type} [DecidableEq Pubkey] {D : Derivation Pubkey}

variable [Inhabited Pubkey] {calls : List (Call Pubkey)} {n : String} {k : Pubkey}
  {q : QueueConfig Pubkey} {fetched : ℕ} {asked : ℕ → ℕ}

end CommandLine

end SolQueue
