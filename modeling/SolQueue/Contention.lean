import SolQueue.Correctness
import SolQueue.Lib.Delivery
import SolQueue.Numbering
import SolQueue.Producers

/-!
# Producers who try again

Producers read the counter of a queue and submit with it, and of those who have read the same value
one is first. The others are told that the account is in use, and read the counter again. Nobody
waits for anybody: an attempt fails only because another one has succeeded since the counter was
read.

* `Ledger.Open`: a queue that takes more jobs.
* `enqueue_lock_free`: an attempt succeeds exactly if nobody else has since the counter was read.
* `Rounds`, `contend`: producers who try in rounds until all have succeeded.
* `producers_finish`: they need as many rounds as there are producers, in whatever order they try.
-/

namespace SolQueue

variable {Pubkey : Type}

/-! ## A queue that takes more jobs -/

/-- A job that a producer wants to enqueue. -/
structure Submission (Pubkey : Type) where
  creator : Pubkey
  now : Int64
  params : EnqueueJobParams

/-- The call that submits the job with the number `s`. -/
def Submission.call (n : String) (k a : Pubkey) (s : UInt64) (x : Submission Pubkey) :
    Call Pubkey :=
  ⟨x.now, .enqueueJob ⟨x.creator, k, a⟩ n s x.params⟩

/-- What the call leaves behind if it commits with the number `s`. -/
def Submission.outcome (k a : Pubkey) (s : UInt64) (x : Submission Pubkey) : Outcome Pubkey :=
  ⟨[.jobEnqueued k a s x.params.jobType x.params.priority x.creator x.now],
    [.rent x.creator a Job.LEN]⟩

/-- The payload and the job type fit. -/
structure Submission.Fits (x : Submission Pubkey) : Prop where
  payload : x.params.payload.length ≤ 512
  jobType : x.params.jobType.asBytes.length ≤ 32

variable [DecidableEq Pubkey]

/-- The queue `q` at `k` is not paused and has room for `m` more jobs, and addresses agree with
numbers. -/
structure Ledger.Open (D : Derivation Pubkey) (σ : Ledger Pubkey) (n : String) (k : Pubkey)
    (q : QueueConfig Pubkey) (m : ℕ) : Prop where
  sound : Sound D σ
  agrees : SeqAgrees D σ
  queue : QueueAt D σ n k q
  unpaused : q.isPaused = false
  room : q.nextJobSeq.toNat + m < 2 ^ 64

/-- The job submitted by `x` is stored at the address of the number `s`. -/
structure Ledger.Holds (D : Derivation Pubkey) (σ : Ledger Pubkey) (n : String) (k : Pubkey)
    (s : ℕ) (x : Submission Pubkey) (a : Pubkey) (j : Job Pubkey) : Prop where
  address : D.addressOf (.job n.asBytes (UInt64.ofNat s)) = some a
  lookup : σ.jobs.lookup a = some j
  queue : j.queue = k
  seq : j.seq.toNat = s
  creator : j.creator = x.creator
  jobType : j.jobType = zeroPadded 32 x.params.jobType.asBytes
  payload : j.payload = zeroPadded 512 x.params.payload

variable [Inhabited Pubkey] {D : Derivation Pubkey} {σ : Ledger Pubkey} {n : String} {k a : Pubkey}
  {q : QueueConfig Pubkey} {m : ℕ} {x : Submission Pubkey}

namespace Ledger.Open

omit [Inhabited Pubkey] in
/-- The number of every next job has an address. -/
theorem exists_address (h : σ.Open D n k q m) (s : UInt64) :
    ∃ a, D.addressOf (.job n.asBytes s) = some a := by
  have hlength : n.asBytes.length ≤ 32 := D.length_le_of_create h.queue.seeds
  exact Derivation.exists_addressOf hlength

omit [Inhabited Pubkey] in
/-- There is no job with the number of the counter yet. -/
theorem lookup_eq_none (h : σ.Open D n k q m)
    (ha : D.addressOf (.job n.asBytes q.nextJobSeq) = some a) : σ.jobs.lookup a = none := by
  cases hj : σ.jobs.lookup a with
  | none => rfl
  | some j =>
    -- the number of a job is below the counter
    obtain ⟨b, hfind⟩ := Derivation.addressOf_eq_some.mp ha
    obtain ⟨-, q', hq', hlt⟩ := h.agrees n q.nextJobSeq a b j hfind hj
    obtain rfl := h.sound.addressed.queue_unique h.sound.addressed hq' h.queue rfl
    obtain rfl := Option.some.inj (hq'.lookup.symm.trans h.queue.lookup)
    exact absurd hlt (lt_irrefl _)

/-- A submission with the counter commits, and leaves room for one job less. -/
theorem submit (h : σ.Open D n k q (m + 1)) (hx : x.Fits)
    (ha : D.addressOf (.job n.asBytes q.nextJobSeq) = some a) :
    ∃ σ' q' j, execute D σ (x.call n k a q.nextJobSeq) = .ok (σ', x.outcome k a q.nextJobSeq) ∧
      σ'.Open D n k q' m ∧ q'.nextJobSeq.toNat = q.nextJobSeq.toNat + 1 ∧
      σ'.jobs = σ.jobs.insert a j ∧ σ'.Holds D n k q.nextJobSeq.toNat x a j := by
  obtain ⟨b, hfind⟩ := Derivation.addressOf_eq_some.mp ha
  have hfresh : Fresh D σ (.job n.asBytes q.nextJobSeq) a b :=
    ⟨hfind, h.sound.addressed.not_owned hfind (h.lookup_eq_none ha)⟩
  have hroom := h.room
  obtain ⟨next, hnext⟩ :=
    Checked.exists_toNat_eq_uint64.mpr (show q.nextJobSeq.toNat + 1 < 2 ^ 64 by omega)
  -- the total is the counter, so it has room as well
  have hnumbers := h.sound.numbered.total k q h.queue.lookup
  have htotal : next.toNat = q.totalEnqueued.toNat + 1 := by rw [hnumbers, hnext]
  have hstep : Step D σ (x.call n k a q.nextJobSeq) _ _ :=
    Step.enqueueJob h.queue hfresh h.unpaused hx.payload hx.jobType hnext htotal
  refine ⟨_, _, _, execute_eq_ok.mpr hstep, ⟨h.sound.step hstep, h.agrees.step hstep ?_,
    ⟨Finmap.lookup_insert _, h.queue.seeds⟩, h.unpaused, ?_⟩, hnext, rfl,
    ⟨?_, Finmap.lookup_insert _, rfl, rfl, rfl, rfl, rfl⟩⟩
  · -- the submission passes the counter
    intro ctx n' s params hc q' hq'
    cases hc
    exact congrArg _ (Option.some.inj (h.queue.lookup.symm.trans hq'))
  · show next.toNat + m < 2 ^ 64
    omega
  · rwa [UInt64.ofNat_toNat]

/-- A submission with a number that is taken is told that the account is in use. -/
theorem taken (h : σ.Open D n k q m) {s : UInt64} {j : Job Pubkey}
    (ha : D.addressOf (.job n.asBytes s) = some a) (hj : σ.jobs.lookup a = some j) :
    execute D σ (x.call n k a s) = .error .accountAlreadyInUse := by
  obtain ⟨b, hfind⟩ := Derivation.addressOf_eq_some.mp ha
  have howned : σ.Owned a := .inr (.inr (Finmap.mem_of_lookup_eq_some hj))
  have hqueue := Ledger.loadQueueConfig_eq_ok.mpr h.queue.lookup
  simp [execute, enqueueJob, Submission.call, EnqueueJob.tryAccounts, hqueue,
    Derivation.initAccount, hfind, Checked.require, howned, bind, Except.bind]

end Ledger.Open

/-! ## Attempts that meet others -/

/-- The step of the protocol enqueues a job on the queue at `k`. -/
def ClientEntry.enqueuesOn (k : Pubkey) (e : ClientEntry Pubkey) : Bool :=
  match e.call with
  | .submit c => Entry.enqueuesOn k ⟨e.before.ledger, c, ⟨[], []⟩, e.after.ledger⟩
  | .fetch .. => false

/-- In every run of the protocol, the ledger is sound. -/
theorem sound_clients (steps : List (ClientCall Pubkey)) :
    Sound D ((clients D).run steps).ledger := by
  refine Machine.run_induction (P := fun s : Clients Pubkey => Sound D s.ledger) (sound_run [])
    (fun s c s' o h hstep => ?_) steps
  rcases Clients.step_eq_ok.mp hstep with
    ⟨_, _, _, -, -, -, rfl⟩ | ⟨_, _, -, -, -, -, hledger⟩
  · exact h
  · exact h.step hledger

/-- The counter of a queue moves on by one with every job enqueued. -/
theorem counter_runFrom {s : Clients Pubkey} (hsound : Sound D s.ledger)
    (hq : s.ledger.queueConfigs.lookup k = some q) (steps : List (ClientCall Pubkey)) :
    ∃ q', ((clients D).runFrom s steps).ledger.queueConfigs.lookup k = some q' ∧
      q'.nextJobSeq.toNat = q.nextJobSeq.toNat +
        ((clients D).logFrom s steps).countP (ClientEntry.enqueuesOn k) := by
  refine (Machine.logFrom_induction (M := clients D)
    (P := fun log (t : Clients Pubkey) => Sound D t.ledger ∧ ∃ q',
      t.ledger.queueConfigs.lookup k = some q' ∧ q'.nextJobSeq.toNat = q.nextJobSeq.toNat +
        log.countP (ClientEntry.enqueuesOn k)) ?_ steps [] s ⟨hsound, q, hq, rfl⟩).2
  rintro log t c t' o ⟨hsound, q₁, hq₁, hcount⟩ hstep
  rw [List.countP_append, List.countP_singleton]
  -- reading changes nothing, and a submission is a call of the program
  rcases Clients.step_eq_ok.mp hstep with
    ⟨producer, k', q₀, rfl, -, rfl, rfl⟩ | ⟨call, o', rfl, -, rfl, -, hledger⟩
  · exact ⟨hsound, q₁, hq₁, hcount⟩
  · refine ⟨hsound.step hledger, ?_⟩
    have hsame : ClientEntry.enqueuesOn k ⟨t, .submit call, some o', t'⟩ =
        Entry.enqueuesOn k ⟨t.ledger, call, o', t'.ledger⟩ := rfl
    cases hothers : Entry.enqueuesOn k ⟨t.ledger, call, o', t'.ledger⟩ with
    | false =>
      -- other calls keep the counter
      obtain ⟨q₂, hq₂, hkept⟩ := hledger.nextJobSeq_kept hsound hothers hq₁
      exact ⟨q₂, hq₂, by rw [hkept, hcount, hsame, hothers]; rfl⟩
    | true =>
      obtain ⟨now, instruction⟩ := call
      unfold Entry.enqueuesOn at hothers
      split at hothers
      next ctx n' s' params hinstruction =>
        obtain rfl : instruction = _ := hinstruction
        obtain rfl := of_decide_eq_true hothers
        obtain ⟨q₀, hq₀, -, -, q₂, hq₂, hnext⟩ := hledger.enqueued
        obtain rfl := Option.some.inj (hq₀.lookup.symm.trans hq₁)
        refine ⟨q₂, hq₂.lookup, ?_⟩
        rw [hnext, hcount, if_pos (by simp [hsame, Entry.enqueuesOn]), Nat.add_assoc]
      next => cases hothers

/-- Reading the counter. -/
theorem step_fetch {s : Clients Pubkey} (hq : s.ledger.queueConfigs.lookup k = some q)
    (producer : Pubkey) : (clients D).step s (.fetch producer k) =
      .ok (⟨s.ledger, ⟨producer, k, q.nextJobSeq⟩ :: s.readings⟩, none) :=
  (Clients.step_eq_ok (D := D)).mpr (.inl ⟨producer, k, q, rfl, hq, rfl, rfl⟩)

/-- A value that is read is not forgotten. -/
theorem mem_readings_runFrom {s : Clients Pubkey} {r : Reading Pubkey} (hr : r ∈ s.readings)
    (steps : List (ClientCall Pubkey)) : r ∈ ((clients D).runFrom s steps).readings := by
  refine Machine.runFrom_induction (P := fun t : Clients Pubkey => r ∈ t.readings)
    (fun t c t' o ht hstep => ?_) hr steps
  rcases Clients.step_eq_ok.mp hstep with
    ⟨_, _, _, -, -, -, rfl⟩ | ⟨_, _, -, -, -, hreadings, -⟩
  · exact List.mem_cons_of_mem _ ht
  · rwa [hreadings]

/-- An attempt to enqueue a job while other parties do what they want: the producer reads the
counter and, after any steps, submits with it. The submission commits and gets the number exactly if
nobody has enqueued a job on the queue in between. -/
theorem enqueue_lock_free (steps others : List (ClientCall Pubkey)) {q q' : QueueConfig Pubkey}
    (hq : QueueAt D ((clients D).run steps).ledger n k q)
    (hopen : ((clients D).run (steps ++ .fetch x.creator k :: others)).ledger.Open D n k q' 1)
    (hx : x.Fits) (ha : D.addressOf (.job n.asBytes q.nextJobSeq) = some a) :
    (∃ t' o j, Clients.step D ((clients D).run (steps ++ .fetch x.creator k :: others))
        (.submit (x.call n k a q.nextJobSeq)) = .ok (t', o) ∧
        t'.ledger.jobs.lookup a = some j ∧ j.seq = q.nextJobSeq) ↔
      ∀ e ∈ (clients D).logFrom ((clients D).run steps) (.fetch x.creator k :: others),
        ClientEntry.enqueuesOn k e = false := by
  have hrun : (clients D).run (steps ++ .fetch x.creator k :: others) =
      (clients D).runFrom ((clients D).run steps) (.fetch x.creator k :: others) :=
    Machine.run_append
  obtain ⟨q₁, hq₁, hcount⟩ := counter_runFrom (sound_clients (D := D) steps) hq.lookup
    (.fetch x.creator k :: others)
  rw [← hrun] at hq₁
  obtain rfl := Option.some.inj (hopen.queue.lookup.symm.trans hq₁)
  -- nobody has enqueued exactly if the counter is still the same
  have hsame : (∀ e ∈ (clients D).logFrom ((clients D).run steps) (.fetch x.creator k :: others),
      ClientEntry.enqueuesOn k e = false) ↔ q'.nextJobSeq = q.nextJobSeq := by
    rw [← UInt64.toNat_inj, hcount, Nat.add_eq_left, List.countP_eq_zero]
    simp
  rw [hsame]
  constructor
  · rintro ⟨t', o, j, hstep, hj, hseq⟩
    rcases Clients.step_eq_ok.mp hstep with
      ⟨_, _, _, hc, -⟩ | ⟨call, o', hc, -, -, -, hledger⟩
    · cases hc
    · cases hc
      -- a submission that commits gets the counter, so the number read is the counter
      obtain ⟨q₀, hq₀, -, ⟨j', hj', hseq', -⟩, -⟩ := hledger.enqueued
      obtain rfl := Option.some.inj (hq₀.lookup.symm.trans hopen.queue.lookup)
      obtain rfl := Option.some.inj (hj.symm.trans hj')
      rw [← hseq', hseq]
  · intro hcounter
    rw [← hcounter] at ha ⊢
    obtain ⟨σ', q₂, j, hok, -, -, -, hj⟩ := hopen.submit hx ha
    -- the value read is the one submitted
    have hread : (⟨x.creator, k, q'.nextJobSeq⟩ : Reading Pubkey) ∈
        ((clients D).run (steps ++ .fetch x.creator k :: others)).readings := by
      rw [Machine.run_append_cons_of_ok (step_fetch hq.lookup x.creator), hcounter]
      exact mem_readings_runFrom List.mem_cons_self others
    refine ⟨⟨σ', _⟩, _, j, Clients.step_eq_ok.mpr
      (.inr ⟨_, _, rfl, hread, rfl, rfl, execute_eq_ok.mp hok⟩), hj.lookup, ?_⟩
    exact UInt64.toNat_inj.mp hj.seq

/-! ## Rounds -/

/-- Rounds in which all who have not succeeded yet try again, in any order, and the first one
succeeds. -/
inductive Rounds {α : Type} : List α → List (List α) → Prop where
  | done : Rounds [] []
  | round {xs losers : List α} {rounds : List (List α)} {first : α}
      (order : (first :: losers).Perm xs) (rest : Rounds losers rounds) :
      Rounds xs ((first :: losers) :: rounds)

/-- The first ones of all rounds. -/
def winners {α : Type} (rounds : List (List α)) : List α :=
  rounds.filterMap List.head?

omit [DecidableEq Pubkey] [Inhabited Pubkey] in
/-- Everybody succeeds once. -/
theorem Rounds.winners_perm {xs : List (Submission Pubkey)}
    {rounds : List (List (Submission Pubkey))} (h : Rounds xs rounds) :
    (winners rounds).Perm xs := by
  induction h with
  | done => exact .nil
  | round order _ ih => exact (ih.cons _).trans order

/-- One round with the number `s`: all read the counter, then all submit with it. -/
def roundCalls (n : String) (k a : Pubkey) (s : UInt64) (xs : List (Submission Pubkey)) :
    List (ClientCall Pubkey) :=
  xs.map (fun x => .fetch x.creator k) ++ xs.map fun x => .submit (x.call n k a s)

/-- The answers in a round: the first submission commits, the others find the account in use. -/
def roundAnswers (k a : Pubkey) (s : UInt64) :
    List (Submission Pubkey) → List (Except (Option Error) (Option (Outcome Pubkey)))
  | [] => []
  | first :: losers =>
    List.replicate (losers.length + 1) (.ok none) ++
      .ok (some (first.outcome k a s)) ::
        List.replicate losers.length (.error (some .accountAlreadyInUse))

/-- The rounds one after the other, the first one with the number `s`. -/
def contend (D : Derivation Pubkey) (n : String) (k : Pubkey) :
    ℕ → List (List (Submission Pubkey)) → List (ClientCall Pubkey)
  | _, [] => []
  | s, xs :: rounds =>
    roundCalls n k ((D.addressOf (.job n.asBytes (UInt64.ofNat s))).getD default)
        (UInt64.ofNat s) xs ++
      contend D n k (s + 1) rounds

/-- The answers in all rounds. -/
def contendAnswers (D : Derivation Pubkey) (n : String) (k : Pubkey) :
    ℕ → List (List (Submission Pubkey)) → List (Except (Option Error) (Option (Outcome Pubkey)))
  | _, [] => []
  | s, xs :: rounds =>
    roundAnswers k ((D.addressOf (.job n.asBytes (UInt64.ofNat s))).getD default)
        (UInt64.ofNat s) xs ++
      contendAnswers D n k (s + 1) rounds

variable {s : Clients Pubkey} {first : Submission Pubkey} {losers xs : List (Submission Pubkey)}

/-- All read the same value, and nothing else happens. -/
theorem fetch_all (hq : s.ledger.queueConfigs.lookup k = some q) (xs : List (Submission Pubkey)) :
    (clients D).answers s (xs.map fun x => .fetch x.creator k) =
        List.replicate xs.length (.ok none) ∧
      ((clients D).runFrom s (xs.map fun x => .fetch x.creator k)).ledger = s.ledger ∧
      ∀ x ∈ xs, (⟨x.creator, k, q.nextJobSeq⟩ : Reading Pubkey) ∈
        ((clients D).runFrom s (xs.map fun x => .fetch x.creator k)).readings := by
  induction xs generalizing s with
  | nil => exact ⟨rfl, rfl, fun x hx => absurd hx List.not_mem_nil⟩
  | cons x xs ih =>
    have hfetch := step_fetch (D := D) hq x.creator
    obtain ⟨hanswers, hledger, hreadings⟩ :=
      ih (s := ⟨s.ledger, ⟨x.creator, k, q.nextJobSeq⟩ :: s.readings⟩) hq
    rw [List.map_cons, Machine.answers, Machine.answer_of_ok hfetch, Machine.next_of_ok hfetch,
      hanswers, Machine.runFrom, List.foldl_cons, Machine.next_of_ok hfetch]
    refine ⟨rfl, hledger, fun y hy => ?_⟩
    rcases List.mem_cons.mp hy with rfl | hy
    · exact mem_readings_runFrom List.mem_cons_self _
    · exact hreadings y hy

/-- In a round the first one gets the number of the counter, and all others are told that the
account is in use. -/
theorem Ledger.Open.round (h : s.ledger.Open D n k q (m + 1))
    (hfits : ∀ x ∈ first :: losers, x.Fits)
    (ha : D.addressOf (.job n.asBytes q.nextJobSeq) = some a) :
    ∃ q' j, (clients D).answers s (roundCalls n k a q.nextJobSeq (first :: losers)) =
        roundAnswers k a q.nextJobSeq (first :: losers) ∧
      let t := (clients D).runFrom s (roundCalls n k a q.nextJobSeq (first :: losers))
      t.ledger.Open D n k q' m ∧ q'.nextJobSeq.toNat = q.nextJobSeq.toNat + 1 ∧
        t.ledger.jobs = s.ledger.jobs.insert a j ∧
        t.ledger.Holds D n k q.nextJobSeq.toNat first a j := by
  obtain ⟨hfetched, hledger, hread⟩ := fetch_all (D := D) h.queue.lookup (first :: losers)
  obtain ⟨σ', q', j, hok, hopen, hnext, hjobs, hholds⟩ :=
    h.submit (hfits first List.mem_cons_self) ha
  generalize hs₁ : (clients D).runFrom s _ = s₁ at hledger hread
  -- the first submission commits
  have hfirst : (clients D).step s₁ (.submit (first.call n k a q.nextJobSeq)) =
      .ok (⟨σ', s₁.readings⟩, some (first.outcome k a q.nextJobSeq)) := by
    have hmay : s₁.MaySubmit (first.call n k a q.nextJobSeq).instruction :=
      hread first List.mem_cons_self
    rw [← hledger] at hok
    refine (Clients.step_eq_ok (D := D)).mpr (.inr ⟨_, _, rfl, hmay, rfl, ?_⟩)
    exact ⟨rfl, execute_eq_ok.mp hok⟩
  -- the others find its job
  have hlosers : ∀ c ∈ losers.map (fun x => ClientCall.submit (x.call n k a q.nextJobSeq)),
      (clients D).step ⟨σ', s₁.readings⟩ c = .error (some .accountAlreadyInUse) := by
    intro c hc
    obtain ⟨x, hx, rfl⟩ := List.mem_map.mp hc
    have hmay : Clients.MaySubmit ⟨σ', s₁.readings⟩ (x.call n k a q.nextJobSeq).instruction :=
      hread x (List.mem_cons_of_mem first hx)
    have hstep : Clients.step D ⟨σ', s₁.readings⟩ (.submit (x.call n k a q.nextJobSeq)) =
        .error (some .accountAlreadyInUse) := by
      rw [Clients.step, if_pos hmay, hopen.taken ha hholds.lookup]
    exact hstep
  obtain ⟨hrejected, hsame⟩ := Machine.answers_of_error hlosers
  refine ⟨q', j, ?_, ?_⟩
  · rw [roundCalls, Machine.answers_append, hfetched, hs₁, List.map_cons, Machine.answers,
      Machine.answer_of_ok hfirst, Machine.next_of_ok hfirst, hrejected, List.length_map]
    rfl
  · rw [roundCalls, Machine.runFrom_append, hs₁, List.map_cons, Machine.runFrom,
      List.foldl_cons, Machine.next_of_ok hfirst]
    have hsame' : List.foldl (clients D).next ⟨σ', s₁.readings⟩ _ = _ := hsame
    rw [hsame']
    exact ⟨hopen, hnext, hjobs, hholds⟩

omit [DecidableEq Pubkey] in
theorem contend_cons (ha : D.addressOf (.job n.asBytes q.nextJobSeq) = some a)
    (rounds : List (List (Submission Pubkey))) :
    contend D n k q.nextJobSeq.toNat (xs :: rounds) =
      roundCalls n k a q.nextJobSeq xs ++ contend D n k (q.nextJobSeq.toNat + 1) rounds := by
  rw [contend, UInt64.ofNat_toNat, ha, Option.getD_some]

omit [DecidableEq Pubkey] in
theorem contendAnswers_cons (ha : D.addressOf (.job n.asBytes q.nextJobSeq) = some a)
    (rounds : List (List (Submission Pubkey))) :
    contendAnswers D n k q.nextJobSeq.toNat (xs :: rounds) =
      roundAnswers k a q.nextJobSeq xs ++
        contendAnswers D n k (q.nextJobSeq.toNat + 1) rounds := by
  rw [contendAnswers, UInt64.ofNat_toNat, ha, Option.getD_some]

/-- Any number of producers want to enqueue a job each on a queue that has room for them, where
addresses agree with numbers. They read the counter and submit, those who fail again and again, in
any order in each round. In each round exactly the first one succeeds. So they need as many rounds
as there are producers, then each has its job, with the numbers in the order in which they
succeeded, and all other jobs are as they were. -/
theorem producers_finish (steps : List (ClientCall Pubkey))
    (hopen : ((clients D).run steps).ledger.Open D n k q xs.length) (hfits : ∀ x ∈ xs, x.Fits)
    {rounds : List (List (Submission Pubkey))} (hrounds : Rounds xs rounds) :
    let calls := contend D n k q.nextJobSeq.toNat rounds
    (winners rounds).Perm xs ∧
      (clients D).answers ((clients D).run steps) calls =
        contendAnswers D n k q.nextJobSeq.toNat rounds ∧
      (∀ i x, (winners rounds)[i]? = some x → ∃ a j,
        ((clients D).run (steps ++ calls)).ledger.Holds D n k (q.nextJobSeq.toNat + i) x a j) ∧
      ∀ a j, ((clients D).run steps).ledger.jobs.lookup a = some j →
        ((clients D).run (steps ++ calls)).ledger.jobs.lookup a = some j := by
  refine ⟨hrounds.winners_perm, ?_⟩
  rw [Machine.run_append]
  generalize (clients D).run steps = s at hopen ⊢
  -- by induction on the rounds: each one leaves room for one job less
  induction hrounds generalizing s q with
  | done =>
    refine ⟨rfl, fun i x hx => ?_, fun a j hj => hj⟩
    simp [winners] at hx
  | @round xs losers rounds first order _ ih =>
    have hroom : xs.length = losers.length + 1 := order.length_eq.symm
    rw [hroom] at hopen
    obtain ⟨a, ha⟩ := hopen.exists_address q.nextJobSeq
    have hfits' : ∀ x ∈ first :: losers, x.Fits := fun x hx => hfits x (order.subset hx)
    obtain ⟨q', j, hanswers, hopen', hnext, hjobs, hholds⟩ := hopen.round hfits' ha
    -- the other rounds start from the next number
    have hrest : ∀ x ∈ losers, x.Fits := fun x hx => hfits' x (List.mem_cons_of_mem first hx)
    obtain ⟨hanswers', hholds', hkept'⟩ := ih hrest _ hopen'
    rw [hnext] at hanswers' hholds' hkept'
    rw [contend_cons ha, contendAnswers_cons ha, Machine.answers_append, Machine.runFrom_append,
      hanswers, hanswers']
    refine ⟨rfl, fun i x hx => ?_, fun a' j' hj' => ?_⟩
    -- the first one of this round has its job, and no later round takes it away
    · cases i with
      | zero =>
        obtain rfl : first = x := Option.some.inj hx
        exact ⟨a, j, { hholds with lookup := hkept' a j hholds.lookup }⟩
      | succ i =>
        obtain ⟨a', j', hlater⟩ := hholds' i x hx
        rw [Nat.add_right_comm] at hlater
        exact ⟨a', j', hlater⟩
    · refine hkept' a' j' ?_
      rw [hjobs, Finmap.lookup_insert_of_ne _ fun h => ?_]
      · exact hj'
      · -- the address of the new job was free
        cases (h ▸ hj').symm.trans (hopen.lookup_eq_none ha)

/-- A producer of the sample queue. -/
def Sample.submission (creator : Key) : Submission Key :=
  ⟨creator, 1, params none⟩

theorem Sample.fits_submission (creator : Key) : (submission creator).Fits where
  payload := by
    show 3 ≤ 512
    decide
  jobType := by
    show "email".asBytes.length ≤ 32
    decide +kernel

/-- Once the sample queue is there, it is open for two producers while nobody has enqueued a job. -/
theorem Sample.open_of_fields (steps : List (ClientCall Key))
    (hqueue : (((clients Derivation.free).run steps).ledger.queueConfigs.lookup queue).map
      (fun q => (q.nextJobSeq, q.bump, q.isPaused)) = some (0, 255, false))
    (hjobs : ((clients Derivation.free).run steps).ledger.jobs.keys = ∅) :
    ∃ q, ((clients Derivation.free).run steps).ledger.Open Derivation.free name queue q 2 ∧
      q.nextJobSeq = 0 := by
  obtain ⟨q, hq, hfields⟩ := Option.map_eq_some_iff.mp hqueue
  simp only [Prod.mk.injEq] at hfields
  obtain ⟨hnext, hbump, hunpaused⟩ := hfields
  refine ⟨q, ⟨sound_clients _, ?_, ⟨hq, by rw [hbump]; rfl⟩, hunpaused, ?_⟩, hnext⟩
  · intro n s a b j _ hj
    have hmem := Finmap.mem_keys.mpr (Finmap.mem_of_lookup_eq_some hj)
    rw [hjobs] at hmem
    cases hmem
  · rw [hnext]
    decide

/-- The sample queue is open for two producers. -/
theorem Sample.open_created : ∃ q, ((clients Derivation.free).run
    [.submit (create 3 60)]).ledger.Open Derivation.free name queue q 2 ∧ q.nextJobSeq = 0 :=
  open_of_fields _ (by decide +kernel) (by decide +kernel)

/-- What other parties do in the meantime: a producer reads the counter as well, the queue is paused
and resumed, and a worker is registered. -/
def Sample.meantime : List (ClientCall Key) :=
  [.fetch (.wallet 9) queue, .submit (setPaused true), .submit (register worker),
    .submit (setPaused false)]

/-- A producer succeeds although others act between the read and the submission, as none of them
enqueues a job. -/
theorem enqueue_lock_free_meantime :
    ∃ t' o j, Clients.step Derivation.free ((clients Derivation.free).run
        ([.submit (Sample.create 3 60)] ++
          .fetch Sample.producer Sample.queue :: Sample.meantime))
        (.submit ((Sample.submission Sample.producer).call Sample.name Sample.queue
          (Sample.job 0) 0)) = .ok (t', o) ∧
      t'.ledger.jobs.lookup (Sample.job 0) = some j ∧ j.seq = 0 := by
  obtain ⟨q, hopen, hnext⟩ := Sample.open_created
  obtain ⟨q', hopen', -⟩ := Sample.open_of_fields ([.submit (Sample.create 3 60)] ++
    .fetch Sample.producer Sample.queue :: Sample.meantime) (by decide +kernel)
    (by decide +kernel)
  have hattempt := (enqueue_lock_free (x := Sample.submission Sample.producer)
    (a := Sample.job 0) _ Sample.meantime hopen.queue
    { hopen' with room := Nat.lt_of_succ_lt hopen'.room } (Sample.fits_submission _)
    (by rw [hnext]; rfl)).mpr (by decide +kernel)
  rwa [hnext] at hattempt

/-- Two producers read the counter 0. The second one is first, so the first one gets the number 1 in
the second round. -/
theorem producers_finish_two :
    ∃ a j, ((clients Derivation.free).run ([.submit (Sample.create 3 60)] ++
      contend Derivation.free Sample.name Sample.queue 0
        [[Sample.submission (.wallet 9), Sample.submission Sample.producer],
          [Sample.submission Sample.producer]])).ledger.Holds Derivation.free Sample.name
      Sample.queue 1 (Sample.submission Sample.producer) a j := by
  obtain ⟨q, hopen, hnext⟩ := Sample.open_created
  have hrounds : Rounds [Sample.submission Sample.producer, Sample.submission (.wallet 9)]
      [[Sample.submission (.wallet 9), Sample.submission Sample.producer],
        [Sample.submission Sample.producer]] :=
    .round (List.Perm.swap _ _ _) (.round (List.Perm.refl _) .done)
  have hfits : ∀ x ∈ [Sample.submission Sample.producer, Sample.submission (.wallet 9)],
      x.Fits := by
    simp [Sample.fits_submission]
  obtain ⟨-, -, hholds, -⟩ := producers_finish _ hopen hfits hrounds
  rw [hnext] at hholds
  exact hholds 1 _ rfl

end SolQueue
