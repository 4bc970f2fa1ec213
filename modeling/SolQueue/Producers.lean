import SolQueue.Addressing

/-!
# The enqueue protocol of the clients

The client's `enqueue` command reads `nextJobSeq` from the queue and then submits `enqueueJob` with
the value it read. Between the two, any party may make any calls, among them other producers doing
the same.

* `ClientCall`, `Clients`, `clients`: the protocol, over the program's own step function.
* `Clients.Honest`: what holds in every state of the protocol.
* `submission_iff_counter`: a submission that commits gets the number submitted, at an address never
  used before, exactly when the counter still is the value read.
-/

namespace SolQueue

variable {Pubkey : Type} [DecidableEq Pubkey]

/-- What the parties do: read the counter of a queue, or make a call to the program. -/
inductive ClientCall (Pubkey : Type) where
  | fetch (producer queueConfig : Pubkey)
  | submit (c : Call Pubkey)

/-- The counter of a queue as a producer has read it. -/
structure Reading (Pubkey : Type) where
  producer : Pubkey
  queueConfig : Pubkey
  seq : UInt64
  deriving DecidableEq

/-- The ledger, and what the producers have read from it so far. -/
structure Clients (Pubkey : Type) where
  ledger : Ledger Pubkey
  readings : List (Reading Pubkey)

/-- An `enqueueJob` call is submitted only with a value its signer has read; all other calls are
submitted freely. -/
def Clients.MaySubmit (s : Clients Pubkey) : Instruction Pubkey → Prop
  | .enqueueJob ctx _ seq _ => ⟨ctx.creator, ctx.queueConfig, seq⟩ ∈ s.readings
  | _ => True

/-- Whether a client may submit an instruction is decidable. -/
instance (s : Clients Pubkey) (i : Instruction Pubkey) : Decidable (s.MaySubmit i) := by
  unfold Clients.MaySubmit
  split <;> infer_instance

variable [Inhabited Pubkey]

/-- One step of one party. The error is `none` for a call that no honest party submits. -/
def Clients.step (D : Derivation Pubkey) (s : Clients Pubkey) :
    ClientCall Pubkey → Except (Option Error) (Clients Pubkey × Option (Outcome Pubkey))
  | .fetch producer queueConfig =>
    match s.ledger.loadQueueConfig queueConfig with
    | .ok q =>
      .ok ({ s with readings := ⟨producer, queueConfig, q.nextJobSeq⟩ :: s.readings }, none)
    | .error e => .error (some e)
  | .submit c =>
    if s.MaySubmit c.instruction then
      match execute D s.ledger c with
      | .ok (σ, o) => .ok ({ s with ledger := σ }, some o)
      | .error e => .error (some e)
    else
      .error none

/-- The protocol: parties take their steps in any order, from the empty ledger. -/
def clients (D : Derivation Pubkey) :
    Machine (Clients Pubkey) (ClientCall Pubkey) (Option (Outcome Pubkey)) (Option Error) where
  init := ⟨.empty, []⟩
  step := Clients.step D

/-- A committed step of the protocol. -/
abbrev ClientEntry (Pubkey : Type) :=
  Machine.Entry (Clients Pubkey) (ClientCall Pubkey) (Option (Outcome Pubkey))

variable {D : Derivation Pubkey} {s s' : Clients Pubkey}

/-- The ways a step of the protocol can commit. -/
theorem Clients.step_eq_ok {c : ClientCall Pubkey} {o : Option (Outcome Pubkey)} :
    Clients.step D s c = .ok (s', o) ↔
      (∃ producer k q, c = .fetch producer k ∧ s.ledger.queueConfigs.lookup k = some q ∧
        o = none ∧ s' = { s with readings := ⟨producer, k, q.nextJobSeq⟩ :: s.readings }) ∨
      ∃ call o', c = .submit call ∧ s.MaySubmit call.instruction ∧ o = some o' ∧
        s'.readings = s.readings ∧ Step D s.ledger call s'.ledger o' := by
  cases c with
  | fetch producer k =>
    simp only [Clients.step]
    split
    next q hq =>
      rw [Ledger.loadQueueConfig_eq_ok] at hq
      constructor
      · intro h
        cases h
        exact .inl ⟨producer, k, q, rfl, hq, rfl, rfl⟩
      · rintro (⟨_, _, q', ⟨⟩, hq', rfl, rfl⟩ | ⟨_, _, ⟨⟩, -⟩)
        rw [Option.some.inj (hq.symm.trans hq')]
    next e he =>
      constructor
      · intro h
        cases h
      · rintro (⟨_, _, q', ⟨⟩, hq', -⟩ | ⟨_, _, ⟨⟩, -⟩)
        rw [Ledger.loadQueueConfig_eq_ok.mpr hq'] at he
        cases he
  | submit call =>
    simp only [Clients.step]
    split_ifs with hmay
    · split
      next σ o' hok =>
        constructor
        · intro h
          cases h
          exact .inr ⟨call, o', rfl, hmay, rfl, rfl, execute_eq_ok.mp hok⟩
        · rintro (⟨_, _, _, ⟨⟩, -⟩ | ⟨_, o'', ⟨⟩, -, rfl, hreadings, hstep⟩)
          obtain ⟨rfl, rfl⟩ := Prod.mk.inj
            (Except.ok.inj (hok.symm.trans (execute_eq_ok.mpr hstep)))
          rw [← hreadings]
      next e he =>
        constructor
        · intro h
          cases h
        · rintro (⟨_, _, _, ⟨⟩, -⟩ | ⟨_, o'', ⟨⟩, -, -, -, hstep⟩)
          rw [execute_eq_ok.mpr hstep] at he
          cases he
    · constructor
      · intro h
        cases h
      · rintro (⟨_, _, _, ⟨⟩, -⟩ | ⟨_, _, ⟨⟩, hmay', -⟩)
        exact absurd hmay' hmay

/-! ## What holds in every state of the protocol -/

/-- The step creates the job at `a`. -/
def ClientEntry.Creates (e : ClientEntry Pubkey) (a : Pubkey) : Prop :=
  ∃ now ctx n seq params, e.call = .submit ⟨now, .enqueueJob ctx n seq params⟩ ∧ ctx.job = a

/-- No counter is behind a value read from it, and every counter is past the values submitted to
it. -/
structure Clients.Honest (D : Derivation Pubkey) (log : List (ClientEntry Pubkey))
    (s : Clients Pubkey) : Prop where
  addressed : Addressed D s.ledger
  read_le : ∀ r ∈ s.readings, ∃ q, s.ledger.queueConfigs.lookup r.queueConfig = some q ∧
    r.seq.toNat ≤ q.nextJobSeq.toNat
  submitted_lt : ∀ e ∈ log, ∀ a, e.Creates a → ∃ n seq b k q,
    D.findProgramAddress (.job n.asBytes seq) = some (a, b) ∧ QueueAt D s.ledger n k q ∧
      seq.toNat < q.nextJobSeq.toNat

/-- A submission leaves the counter past the value submitted. -/
theorem Clients.Honest.counter_of_submit {log : List (ClientEntry Pubkey)} (h : s.Honest D log)
    {now : Int64} {ctx : EnqueueJob Pubkey} {n : String} {seq : UInt64}
    {params : EnqueueJobParams} {σ' : Ledger Pubkey} {o : Outcome Pubkey}
    (hmay : s.MaySubmit (.enqueueJob ctx n seq params))
    (hstep : Step D s.ledger ⟨now, .enqueueJob ctx n seq params⟩ σ' o) :
    ∃ b q', D.findProgramAddress (.job n.asBytes seq) = some (ctx.job, b) ∧
      QueueAt D σ' n ctx.queueConfig q' ∧ seq.toNat < q'.nextJobSeq.toNat := by
  obtain ⟨q, hq, ⟨b, hfind⟩, -, ⟨q', hq', hnext⟩⟩ := hstep.enqueued
  obtain ⟨q₀, hq₀, hle⟩ := h.read_le _ hmay
  obtain rfl : q = q₀ := Option.some.inj (hq.lookup.symm.trans hq₀)
  -- the value read is at most the counter, which the submission moves on
  refine ⟨b, q', hfind, hq', ?_⟩
  rw [hnext]
  exact Nat.lt_succ_of_le hle

/-- Every step of the protocol keeps it honest. -/
theorem Clients.Honest.step {log : List (ClientEntry Pubkey)} (h : s.Honest D log)
    {c : ClientCall Pubkey} {o : Option (Outcome Pubkey)}
    (hstep : Clients.step D s c = .ok (s', o)) : s'.Honest D (log ++ [⟨s, c, o, s'⟩]) := by
  rcases Clients.step_eq_ok.mp hstep with
    ⟨producer, k, q, rfl, hq, rfl, rfl⟩ | ⟨call, o', rfl, hmay, rfl, hreadings, hledger⟩
  · refine ⟨h.addressed, ?_, ?_⟩
    · -- a value just read is the counter itself
      intro r hr
      rcases List.mem_cons.mp hr with rfl | hr
      · exact ⟨q, hq, le_rfl⟩
      · exact h.read_le r hr
    · intro e he a hcreates
      rcases List.mem_append.mp he with he | he
      · exact h.submitted_lt e he a hcreates
      · obtain ⟨now, ctx, n, seq, params, hc, -⟩ := hcreates
        rw [List.mem_singleton.mp he] at hc
        cases hc
  · refine ⟨h.addressed.step hledger, ?_, ?_⟩
    · -- older readings only fall further behind
      intro r hr
      obtain ⟨q, hq, hle⟩ := h.read_le r (hreadings ▸ hr)
      have hchange := hledger.queueChange r.queueConfig
      rw [hq] at hchange
      obtain ⟨q', hq', -, hle'⟩ := hchange.persists
      exact ⟨q', hq', le_trans hle hle'⟩
    · intro e he a hcreates
      rcases List.mem_append.mp he with he | he
      · obtain ⟨n, seq, b, k, q, hfind, hq, hlt⟩ := h.submitted_lt e he a hcreates
        obtain ⟨q', hq', -, hle⟩ := hledger.queueAt hq
        exact ⟨n, seq, b, k, q', hfind, hq', lt_of_lt_of_le hlt hle⟩
      · -- the submission just made
        obtain ⟨now, ctx, n, seq, params, hc, rfl⟩ := hcreates
        rw [List.mem_singleton.mp he] at hc
        cases hc
        obtain ⟨b, q', hfind, hq', hlt⟩ := h.counter_of_submit hmay hledger
        exact ⟨n, seq, b, ctx.queueConfig, q', hfind, hq', hlt⟩

/-- The protocol is honest in every run. -/
theorem honest_run (steps : List (ClientCall Pubkey)) :
    ((clients D).run steps).Honest D ((clients D).log steps) := by
  refine Machine.log_induction (P := fun log (s : Clients Pubkey) => s.Honest D log) ?_
    (fun log s c s' o h hstep => h.step hstep) steps
  refine ⟨addressed_run (D := D) [], ?_, ?_⟩
  · intro r hr
    cases hr
  · intro e he
    cases he

/-! ## Submissions -/

/-- Whatever the interleaving of producers and other parties, a submission of the value `k` that
commits stores the number `k` at an address that no job had before, exactly when the counter of the
queue still was `k`. -/
theorem submission_iff_counter {steps : List (ClientCall Pubkey)}
    {pre post : List (ClientEntry Pubkey)} {e : ClientEntry Pubkey} {now : Int64}
    {ctx : EnqueueJob Pubkey} {n : String} {k : UInt64} {params : EnqueueJobParams}
    (hlog : (clients D).log steps = pre ++ e :: post)
    (hsubmit : e.call = .submit ⟨now, .enqueueJob ctx n k params⟩) :
    ((∃ j, e.after.ledger.jobs.lookup ctx.job = some j ∧ j.seq = k) ∧
        ∀ e' ∈ pre, ¬ClientEntry.Creates e' ctx.job) ↔
      ∃ q, e.before.ledger.queueConfigs.lookup ctx.queueConfig = some q ∧ q.nextJobSeq = k := by
  obtain ⟨steps₁, _, -, hpre, hbefore, hstep, -⟩ := Machine.log_eq_append_cons hlog
  have hhonest : e.before.Honest D pre := by
    rw [← hbefore, ← hpre]
    exact honest_run steps₁
  have hcommit : Clients.step D e.before (.submit ⟨now, .enqueueJob ctx n k params⟩) =
      .ok (e.after, e.out) := hsubmit ▸ hstep
  -- what committed is the submission
  rcases Clients.step_eq_ok.mp hcommit with
    ⟨_, _, _, ⟨⟩, -⟩ | ⟨_, o', ⟨⟩, hmay, -, -, hledger⟩
  obtain ⟨q, hq, ⟨b, hfind⟩, ⟨j, hj, hseq, -⟩, -⟩ := hledger.enqueued
  constructor
  · rintro ⟨⟨j', hj', rfl⟩, -⟩
    obtain rfl : j = j' := Option.some.inj (hj.symm.trans hj')
    exact ⟨q, hq.lookup, hseq.symm⟩
  · rintro ⟨q', hq', rfl⟩
    obtain rfl : q = q' := Option.some.inj (hq.lookup.symm.trans hq')
    refine ⟨⟨j, hj, hseq⟩, fun e' he' hcreates => ?_⟩
    -- an earlier job at this address was submitted with the same number, below today's counter
    obtain ⟨n', seq', b', k', q', hfind', hq', hlt⟩ :=
      hhonest.submitted_lt e' he' ctx.job hcreates
    obtain ⟨hname, rfl⟩ := Seeds.job.inj (D.find_injective hfind hfind')
    obtain rfl := hhonest.addressed.queue_unique hhonest.addressed hq hq' hname
    obtain rfl : q = q' := Option.some.inj (hq.lookup.symm.trans hq'.lookup)
    exact lt_irrefl _ hlt

/-- Two producers read the counter 0. One of them enqueues with it, sees the job through and closes
it; then the other one submits what it has read. -/
def Sample.race : List (ClientCall Key) :=
  [.submit (create 3 60), .submit (register worker), .fetch producer queue,
    .fetch (.wallet 9) queue, .submit (enqueue producer 0 none), .submit (claim 2 worker 0),
    .submit (complete 3 worker 0), .submit (close 0), .submit (enqueue (.wallet 9) 0 none)]

/-- The first submission of the race finds the counter it was made with. -/
theorem submission_iff_counter_race :
    ∃ pre e post, (clients Derivation.free).log Sample.race = pre ++ e :: post ∧
      e.call = .submit (Sample.enqueue Sample.producer 0 none) ∧
      (∃ j, e.after.ledger.jobs.lookup (Sample.job 0) = some j ∧ j.seq = 0) ∧
      ∀ e' ∈ pre, ¬ClientEntry.Creates e' (Sample.job 0) := by
  have hlength : 4 < ((clients Derivation.free).log Sample.race).length := by decide +kernel
  have hlog := Machine.eq_take_append_cons (List.getElem?_eq_getElem hlength)
  have hsubmit : (((clients Derivation.free).log Sample.race)[4]).call =
      .submit (Sample.enqueue Sample.producer 0 none) := rfl
  exact ⟨_, _, _, hlog, hsubmit, (submission_iff_counter hlog hsubmit).mpr ⟨_, rfl, rfl⟩⟩

/-- The second submission of the race commits: it recycles the address of the first one's job and
stores the number 1 there. -/
theorem not_submission_correct :
    ¬∀ (steps : List (ClientCall Key)) (pre post : List (ClientEntry Key)) (e : ClientEntry Key)
      (now : Int64) (ctx : EnqueueJob Key) (n : String) (k : UInt64) (params : EnqueueJobParams),
      (clients Derivation.free).log steps = pre ++ e :: post →
      e.call = .submit ⟨now, .enqueueJob ctx n k params⟩ →
      (∃ j, e.after.ledger.jobs.lookup ctx.job = some j ∧ j.seq = k) ∧
        ∀ e' ∈ pre, ¬ClientEntry.Creates e' ctx.job := by
  intro h
  have hlength : 8 < ((clients Derivation.free).log Sample.race).length := by decide +kernel
  have hlog := Machine.eq_take_append_cons (List.getElem?_eq_getElem hlength)
  obtain ⟨⟨j, hj, hseq⟩, -⟩ := h _ _ _ _ 1 ⟨.wallet 9, Sample.queue, Sample.job 0⟩ Sample.name 0
    (Sample.params none) hlog rfl
  have hstored : (((clients Derivation.free).run Sample.race).ledger.jobs.lookup
      (Sample.job 0)).map (·.seq) = some 1 := by decide +kernel
  obtain ⟨j', hj', hone⟩ := Option.map_eq_some_iff.mp hstored
  obtain rfl : j = j' := Option.some.inj (hj.symm.trans hj')
  rw [hseq] at hone
  exact absurd hone (by decide)

end SolQueue
