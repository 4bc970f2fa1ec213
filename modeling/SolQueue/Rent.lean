import SolQueue.Correctness

/-!
# Rent

An account is funded with the rent of its size by the signer who creates it, and a closed job gives
all it holds to its creator. The lamports moved by a run are those of the live accounts: each of
them holds its rent, and nobody has paid more than the rent of the live accounts they created.

* `Bank`, `Bank.after`: the lamports of all accounts, as the transfers of a log move them.
* `Ledger.held`, `Ledger.locked`: the rent of the live account at a key, and of the live accounts a
  key has paid for.
* `Funding`, `Step.funding`: what a step does to both, and how it moves lamports.
* `rent_conserved`: after every run the lamports are where the ledger says.
-/

namespace SolQueue

variable {Pubkey : Type} [DecidableEq Pubkey]

/-! ## Lamports -/

/-- The lamports of all accounts. Payers are taken to be able to pay: a negative number is a
debt. -/
abbrev Bank (Pubkey : Type) := Pubkey → ℤ

/-- Move lamports from one account to another. -/
def Bank.move (bank : Bank Pubkey) (source target : Pubkey) (amount : ℤ) : Bank Pubkey :=
  fun k => bank k - (if source = k then amount else 0) + if target = k then amount else 0

/-- Moving lamports is moving what is missing back. -/
theorem Bank.move_comm (bank : Bank Pubkey) (source target : Pubkey) (amount : ℤ) :
    bank.move source target amount = bank.move target source (-amount) := by
  funext k
  rw [move, move]
  split_ifs <;> omega

/-- The lamports after a transfer, where `rent space` is the rent of an account of `space` bytes. -/
def Bank.transfer (rent : ℕ → ℕ) (bank : Bank Pubkey) : Transfer Pubkey → Bank Pubkey
  -- what is in the account already is not paid again
  | .rent payer account space => bank.move payer account (max 0 (rent space - bank account))
  | .close account destination => bank.move account destination (bank account)

/-- The lamports after the calls of a log. -/
def Bank.after (rent : ℕ → ℕ) (bank : Bank Pubkey) (log : List (Entry Pubkey)) : Bank Pubkey :=
  log.foldl (fun bank e => e.out.transfers.foldl (Bank.transfer rent) bank) bank

/-! ## What the ledger says -/

/-- The authority of the queue at `k`, if there is one. -/
def Ledger.authorityOf (σ : Ledger Pubkey) (k : Pubkey) : Option Pubkey :=
  (σ.queueConfigs.lookup k).map (·.authority)

/-- The rent of the live account at `k`, zero if there is none. -/
def Ledger.held (σ : Ledger Pubkey) (rent : ℕ → ℕ) (k : Pubkey) : ℕ :=
  Finmap.weigh (fun _ _ => rent QueueConfig.LEN) k (σ.queueConfigs.lookup k) +
    Finmap.weigh (fun _ _ => rent WorkerRegistry.LEN) k (σ.workerRegistries.lookup k) +
    Finmap.weigh (fun _ _ => rent Job.LEN) k (σ.jobs.lookup k)

/-- The rent of all live accounts created by `w`: queues of which `w` is the authority, registries
on them, and jobs of which `w` is the creator. -/
def Ledger.locked (σ : Ledger Pubkey) (rent : ℕ → ℕ) (w : Pubkey) : ℕ :=
  Finmap.tally (fun _ q => if q.authority = w then rent QueueConfig.LEN else 0) σ.queueConfigs +
    Finmap.tally (fun _ r => if σ.authorityOf r.queue = some w then rent WorkerRegistry.LEN else 0)
      σ.workerRegistries +
    Finmap.tally (fun _ j => if j.creator = w then rent Job.LEN else 0) σ.jobs

/-- The ledgers have the same accounts, created by the same keys. -/
structure Ledger.SameOwners (σ σ' : Ledger Pubkey) : Prop where
  queue : ∀ k, (σ'.queueConfigs.lookup k).map (·.authority) =
    (σ.queueConfigs.lookup k).map (·.authority)
  registry : ∀ k, (σ'.workerRegistries.lookup k).map (·.queue) =
    (σ.workerRegistries.lookup k).map (·.queue)
  job : ∀ k, (σ'.jobs.lookup k).map (·.creator) = (σ.jobs.lookup k).map (·.creator)

namespace Ledger

variable {σ σ' : Ledger Pubkey} {rent : ℕ → ℕ} {k w : Pubkey} {q : QueueConfig Pubkey}
  {r : WorkerRegistry Pubkey} {j : Job Pubkey}

theorem SameOwners.held_eq (h : σ.SameOwners σ') : σ'.held rent k = σ.held rent k := by
  have hweigh {β γ : Type} {x y : Option β} {p : β → γ} {n : ℕ} (hxy : y.map p = x.map p) :
      Finmap.weigh (fun _ _ => n) k y = Finmap.weigh (fun _ _ => n) k x := by
    cases x <;> cases y <;> simp_all
  rw [held, held, hweigh (h.queue k), hweigh (h.registry k), hweigh (h.job k)]

theorem SameOwners.locked_eq (h : σ.SameOwners σ') : σ'.locked rent w = σ.locked rent w := by
  have hauthority : σ'.authorityOf = σ.authorityOf := funext h.queue
  have hqueues := Finmap.tally_congr_map
    (g := fun _ authority => if authority = w then rent QueueConfig.LEN else 0) h.queue
  have hregistries := Finmap.tally_congr_map
    (g := fun _ queue => if σ.authorityOf queue = some w then rent WorkerRegistry.LEN else 0)
    h.registry
  have hjobs := Finmap.tally_congr_map
    (g := fun _ creator => if creator = w then rent Job.LEN else 0) h.job
  rw [locked, locked, hauthority, hqueues, hregistries, hjobs]

/-- A new queue is paid for by its authority. -/
theorem locked_insert_queue (hqueues : σ'.queueConfigs = σ.queueConfigs.insert k q)
    (hworkers : σ'.workerRegistries = σ.workerRegistries) (hjobs : σ'.jobs = σ.jobs)
    (hq : σ.queueConfigs.lookup k = none)
    (hregistries : ∀ x r, σ.workerRegistries.lookup x = some r → r.queue ≠ k) :
    σ'.locked rent w = σ.locked rent w + if q.authority = w then rent QueueConfig.LEN else 0 := by
  -- no registry is on the new queue
  have hsame : Finmap.tally (fun _ r =>
        if σ'.authorityOf r.queue = some w then rent WorkerRegistry.LEN else 0)
        σ.workerRegistries =
      Finmap.tally
        (fun _ r => if σ.authorityOf r.queue = some w then rent WorkerRegistry.LEN else 0)
        σ.workerRegistries := by
    refine Finmap.tally_congr fun x r hr => ?_
    rw [authorityOf, authorityOf, hqueues, Finmap.lookup_insert_of_ne _ (hregistries x r hr)]
  rw [locked, locked, hqueues, hworkers, hjobs, hsame, Finmap.tally_insert_new hq]
  omega

/-- A new registry is paid for by the authority of its queue. -/
theorem locked_insert_registry {authority : Pubkey} (hqueues : σ'.queueConfigs = σ.queueConfigs)
    (hworkers : σ'.workerRegistries = σ.workerRegistries.insert k r) (hjobs : σ'.jobs = σ.jobs)
    (hr : σ.workerRegistries.lookup k = none)
    (hauthority : σ.authorityOf r.queue = some authority) :
    σ'.locked rent w = σ.locked rent w + if authority = w then rent WorkerRegistry.LEN else 0 := by
  have hsame : σ'.authorityOf = σ.authorityOf := by
    funext x
    rw [authorityOf, authorityOf, hqueues]
  rw [locked, locked, hsame, hqueues, hworkers, hjobs, Finmap.tally_insert_new hr, hauthority]
  simp only [Option.some.injEq]
  omega

/-- A new job is paid for by its creator. -/
theorem locked_insert_job (hqueues : σ'.queueConfigs = σ.queueConfigs)
    (hworkers : σ'.workerRegistries = σ.workerRegistries) (hjobs : σ'.jobs = σ.jobs.insert k j)
    (hj : σ.jobs.lookup k = none) :
    σ'.locked rent w = σ.locked rent w + if j.creator = w then rent Job.LEN else 0 := by
  have hsame : σ'.authorityOf = σ.authorityOf := by
    funext x
    rw [authorityOf, authorityOf, hqueues]
  rw [locked, locked, hsame, hqueues, hworkers, hjobs, Finmap.tally_insert_new hj, ← Nat.add_assoc]

/-- A job that is gone is paid for no more. -/
theorem locked_erase_job (hqueues : σ'.queueConfigs = σ.queueConfigs)
    (hworkers : σ'.workerRegistries = σ.workerRegistries) (hjobs : σ'.jobs = σ.jobs.erase k)
    (hj : σ.jobs.lookup k = some j) :
    σ'.locked rent w + (if j.creator = w then rent Job.LEN else 0) = σ.locked rent w := by
  have hsame : σ'.authorityOf = σ.authorityOf := by
    funext x
    rw [authorityOf, authorityOf, hqueues]
  have htally := Finmap.tally_erase hj (f := fun _ j => if j.creator = w then rent Job.LEN else 0)
  rw [locked, locked, hsame, hqueues, hworkers, hjobs, ← htally]
  omega

/-- A new queue holds its rent. -/
theorem held_insert_queue (hqueues : σ'.queueConfigs = σ.queueConfigs.insert k q)
    (hworkers : σ'.workerRegistries = σ.workerRegistries) (hjobs : σ'.jobs = σ.jobs)
    (hq : σ.queueConfigs.lookup k = none) (x : Pubkey) :
    σ'.held rent x = σ.held rent x + if k = x then rent QueueConfig.LEN else 0 := by
  rw [held, held, hqueues, hworkers, hjobs, Finmap.weigh_insert_new hq]
  omega

/-- A new registry holds its rent. -/
theorem held_insert_registry (hqueues : σ'.queueConfigs = σ.queueConfigs)
    (hworkers : σ'.workerRegistries = σ.workerRegistries.insert k r) (hjobs : σ'.jobs = σ.jobs)
    (hr : σ.workerRegistries.lookup k = none) (x : Pubkey) :
    σ'.held rent x = σ.held rent x + if k = x then rent WorkerRegistry.LEN else 0 := by
  rw [held, held, hqueues, hworkers, hjobs, Finmap.weigh_insert_new hr]
  omega

/-- A new job holds its rent. -/
theorem held_insert_job (hqueues : σ'.queueConfigs = σ.queueConfigs)
    (hworkers : σ'.workerRegistries = σ.workerRegistries) (hjobs : σ'.jobs = σ.jobs.insert k j)
    (hj : σ.jobs.lookup k = none) (x : Pubkey) :
    σ'.held rent x = σ.held rent x + if k = x then rent Job.LEN else 0 := by
  rw [held, held, hqueues, hworkers, hjobs, Finmap.weigh_insert_new hj, ← Nat.add_assoc]

/-- A job that is gone holds none. -/
theorem held_erase_job (hqueues : σ'.queueConfigs = σ.queueConfigs)
    (hworkers : σ'.workerRegistries = σ.workerRegistries) (hjobs : σ'.jobs = σ.jobs.erase k)
    (hj : σ.jobs.lookup k = some j) (x : Pubkey) :
    σ'.held rent x + (if k = x then rent Job.LEN else 0) = σ.held rent x := by
  rw [held, held, hqueues, hworkers, hjobs, Nat.add_assoc, Finmap.weigh_erase hj]

end Ledger

/-! ## One step -/

/-- What a step signed by `signer` does to the rent held and locked, and how it moves lamports. -/
inductive Funding (D : Derivation Pubkey) (rent : ℕ → ℕ) (σ σ' : Ledger Pubkey)
    (signer : Pubkey) : List (Transfer Pubkey) → Prop where
  | keep (held : ∀ k, σ'.held rent k = σ.held rent k)
      (locked : ∀ w, σ'.locked rent w = σ.locked rent w) : Funding D rent σ σ' signer []
  | fund {s : Seeds Pubkey} {k : Pubkey} {space : ℕ} (derived : D.addressOf s = some k)
      (free : σ.held rent k = 0)
      (held : ∀ x, σ'.held rent x = σ.held rent x + if k = x then rent space else 0)
      (locked : ∀ w, σ'.locked rent w = σ.locked rent w + if signer = w then rent space else 0) :
      Funding D rent σ σ' signer [.rent signer k space]
  | refund {s : Seeds Pubkey} {k : Pubkey} {space : ℕ} (derived : D.addressOf s = some k)
      (full : σ.held rent k = rent space)
      (held : ∀ x, σ'.held rent x + (if k = x then rent space else 0) = σ.held rent x)
      (locked : ∀ w, σ'.locked rent w + (if signer = w then rent space else 0) =
        σ.locked rent w) :
      Funding D rent σ σ' signer [.close k signer]

section Runs

variable [Inhabited Pubkey] {D : Derivation Pubkey} {σ σ' : Ledger Pubkey} {c : Call Pubkey}
  {o : Outcome Pubkey} {rent : ℕ → ℕ}

omit [Inhabited Pubkey] in
/-- The same accounts of the same owners keep all rent. -/
theorem Funding.of_sameOwners {signer : Pubkey} (h : σ.SameOwners σ') :
    Funding D rent σ σ' signer [] :=
  .keep (fun _ => h.held_eq) fun _ => h.locked_eq

omit [Inhabited Pubkey] in
/-- A free address holds no rent. -/
theorem held_of_free {k : Pubkey} (h : ¬σ.Owned k) : σ.held rent k = 0 := by
  obtain ⟨hq, hr, hj⟩ := Ledger.lookup_eq_none_of_not_owned h
  rw [Ledger.held, hq, hr, hj]
  rfl

omit [Inhabited Pubkey] in
/-- A job holds the rent of a job: there is no other account at its address. -/
theorem held_of_job (haddr : Addressed D σ) {a : Pubkey} {j : Job Pubkey}
    (hj : σ.jobs.lookup a = some j) : σ.held rent a = rent Job.LEN := by
  obtain ⟨n, s, q, hfind, -⟩ := haddr.job a j hj
  have hqueue : σ.queueConfigs.lookup a = none := by
    refine Option.eq_none_iff_forall_ne_some.mpr fun q hq => ?_
    obtain ⟨m, hm⟩ := haddr.queue a q hq
    cases D.find_injective hfind hm
  have hregistry : σ.workerRegistries.lookup a = none := by
    refine Option.eq_none_iff_forall_ne_some.mpr fun r hr => ?_
    obtain ⟨m, q, hm, -⟩ := haddr.registry a r hr
    cases D.find_injective hfind hm
  rw [Ledger.held, hqueue, hregistry, hj]
  simp

/-- Every step funds one new account, refunds one closed job, or leaves all rent where it is. -/
theorem Step.funding (h : Step D σ c σ' o) (haddr : Addressed D σ) (rent : ℕ → ℕ) :
    Funding D rent σ σ' c.instruction.signer o.transfers := by
  cases h with
  -- most steps leave all accounts with their owners
  | setQueuePaused queue authority =>
    exact .of_sameOwners ⟨fun _ => Finmap.apply_lookup_insert queue.lookup rfl, fun _ => rfl,
      fun _ => rfl⟩
  | deactivateWorker queue authority registry =>
    exact .of_sameOwners ⟨fun _ => rfl, fun _ => Finmap.apply_lookup_insert registry.lookup rfl,
      fun _ => rfl⟩
  | claimJob valid pending claimed_eq =>
    exact .of_sameOwners ⟨fun _ => rfl,
      fun _ => Finmap.apply_lookup_insert valid.registry.lookup rfl,
      fun _ => Finmap.apply_lookup_insert valid.job.lookup rfl⟩
  | completeJob valid | failJobPermanent valid =>
    exact .of_sameOwners ⟨fun _ => Finmap.apply_lookup_insert valid.queue.lookup rfl,
      fun _ => Finmap.apply_lookup_insert valid.registry.lookup rfl,
      fun _ => Finmap.apply_lookup_insert valid.job.lookup rfl⟩
  | failJobRetry valid =>
    exact .of_sameOwners ⟨fun _ => rfl,
      fun _ => Finmap.apply_lookup_insert valid.registry.lookup rfl,
      fun _ => Finmap.apply_lookup_insert valid.job.lookup rfl⟩
  | expireJob queue job =>
    exact .of_sameOwners ⟨fun _ => rfl, fun _ => rfl,
      fun _ => Finmap.apply_lookup_insert job.lookup rfl⟩
  -- these pay for a new account
  | initializeQueue fresh length =>
    obtain ⟨hq, -, -⟩ := lookup_of_fresh fresh
    refine .fund (Derivation.addressOf_eq_some.mpr ⟨_, fresh.find⟩) (held_of_free fresh.free)
      (Ledger.held_insert_queue rfl rfl rfl hq) fun w => ?_
    refine Ledger.locked_insert_queue (q := InitializeQueue.newQueue ..) rfl rfl rfl hq ?_
    intro x r hr hqueue
    -- a registry is on a queue that is there
    obtain ⟨n, q, -, hq'⟩ := haddr.registry x r hr
    rw [hqueue] at hq'
    cases hq.symm.trans hq'.lookup
  | registerWorker queue authority fresh =>
    obtain ⟨-, hr, -⟩ := lookup_of_fresh fresh
    refine .fund (Derivation.addressOf_eq_some.mpr ⟨_, fresh.find⟩) (held_of_free fresh.free)
      (Ledger.held_insert_registry rfl rfl rfl hr) fun w => ?_
    refine Ledger.locked_insert_registry (r := RegisterWorker.newRegistry ..) rfl rfl rfl hr ?_
    simp [Ledger.authorityOf, RegisterWorker.newRegistry, queue.lookup, authority,
      Instruction.signer]
  | @enqueueJob _ ctx _ _ _ q _ next total queue fresh =>
    -- the queue keeps its authority when its counters move
    let σ₁ : Ledger Pubkey := { σ with
      queueConfigs := σ.queueConfigs.insert ctx.queueConfig
        { q with nextJobSeq := next, totalEnqueued := total } }
    have hsame : σ.SameOwners σ₁ :=
      ⟨fun _ => Finmap.apply_lookup_insert queue.lookup rfl, fun _ => rfl, fun _ => rfl⟩
    have hj : σ₁.jobs.lookup ctx.job = none := (lookup_of_fresh fresh).2.2
    refine .fund (Derivation.addressOf_eq_some.mpr ⟨_, fresh.find⟩) (held_of_free fresh.free)
      (fun x => ?_) fun w => ?_
    · rw [← hsame.held_eq]
      exact Ledger.held_insert_job (by rfl) (by rfl) rfl hj x
    · rw [← hsame.locked_eq]
      exact Ledger.locked_insert_job (j := EnqueueJob.newJob ..) (by rfl) (by rfl) rfl hj
  -- and this one gives its rent back
  | closeJob queue job creator finished =>
    obtain ⟨n, s, q, hfind, -⟩ := haddr.job _ _ job.lookup
    refine .refund (Derivation.addressOf_eq_some.mpr ⟨_, hfind⟩) ?_
      (Ledger.held_erase_job rfl rfl rfl job.lookup) fun w => ?_
    · exact held_of_job haddr job.lookup
    · rw [show Instruction.signer (.closeJob ..) = _ from creator.symm]
      exact Ledger.locked_erase_job rfl rfl rfl job.lookup

/-! ## Whole runs -/

/-- The lamports are where the ledger says, given those of all wallets at the start. -/
structure Conserved (D : Derivation Pubkey) (rent : ℕ → ℕ) (start bank : Bank Pubkey)
    (σ : Ledger Pubkey) : Prop where
  /-- A live account holds its rent, and a free address nothing. -/
  derived : ∀ s k, D.addressOf s = some k → bank k = σ.held rent k
  /-- A wallet is short of the rent of the live accounts it has created. -/
  wallet : ∀ w, (∀ s, D.addressOf s ≠ some w) → bank w = start w - σ.locked rent w

omit [Inhabited Pubkey] in
/-- Lamports moved from a wallet to a derived address are where the ledger says if it says that they
are held there and locked by the wallet. -/
theorem Conserved.move {start bank : Bank Pubkey} {s : Seeds Pubkey} {signer k : Pubkey}
    {amount : ℤ} (h : Conserved D rent start bank σ) (hsigner : ∀ s, D.addressOf s ≠ some signer)
    (hderived : D.addressOf s = some k)
    (hheld : ∀ x, (σ'.held rent x : ℤ) = σ.held rent x + if k = x then amount else 0)
    (hlocked : ∀ w, (σ'.locked rent w : ℤ) = σ.locked rent w + if signer = w then amount else 0) :
    Conserved D rent start (bank.move signer k amount) σ' := by
  refine ⟨fun s' k' hk' => ?_, fun w hw => ?_⟩
  · have hne : signer ≠ k' := fun heq => hsigner s' (heq ▸ hk')
    rw [Bank.move, if_neg hne, h.derived s' k' hk', hheld]
    omega
  · have hne : k ≠ w := fun heq => hw s (heq ▸ hderived)
    rw [Bank.move, if_neg hne, h.wallet w hw, hlocked]
    omega

omit [Inhabited Pubkey] in
/-- The transfers of a step that a wallet has signed keep the lamports where the ledger says. -/
theorem Conserved.step {start bank : Bank Pubkey} {signer : Pubkey}
    {transfers : List (Transfer Pubkey)} (h : Conserved D rent start bank σ)
    (hfunding : Funding D rent σ σ' signer transfers) (hsigner : ∀ s, D.addressOf s ≠ some signer) :
    Conserved D rent start (transfers.foldl (Bank.transfer rent) bank) σ' := by
  cases hfunding with
  | keep held locked =>
    exact ⟨fun s k hk => by rw [held]; exact h.derived s k hk,
      fun w hw => by rw [locked]; exact h.wallet w hw⟩
  | @fund s k space derived free held locked =>
    -- nothing is in the new account yet, so its payer pays the whole rent
    have hamount : max 0 ((rent space : ℤ) - bank k) = rent space := by
      rw [h.derived s k derived, free]
      omega
    rw [List.foldl_cons, List.foldl_nil, Bank.transfer, hamount]
    refine h.move hsigner derived (fun x => ?_) fun w => ?_
    · rw [held]
      push_cast
      rfl
    · rw [locked]
      push_cast
      rfl
  | @refund s k space derived full held locked =>
    -- all that is in the account goes back to who has created it
    rw [List.foldl_cons, List.foldl_nil, Bank.transfer, h.derived s k derived, full, Bank.move_comm]
    refine h.move hsigner derived (fun x => ?_) fun w => ?_
    · rw [← held x]
      split_ifs <;> omega
    · rw [← locked w]
      split_ifs <;> omega

omit [Inhabited Pubkey] in
theorem Bank.after_snoc (rent : ℕ → ℕ) (bank : Bank Pubkey) (log : List (Entry Pubkey))
    (e : Entry Pubkey) : bank.after rent (log ++ [e]) =
      e.out.transfers.foldl (Bank.transfer rent) (bank.after rent log) := by
  rw [Bank.after, List.foldl_append]
  rfl

/-- If all calls are signed by wallets and no derived address has lamports at the start, then after
every run each live account holds the rent of its size, free addresses hold nothing, and every
wallet is short of exactly the rent of the live accounts it has created. -/
theorem rent_conserved (calls : List (Call Pubkey)) (rent : ℕ → ℕ) (start : Bank Pubkey)
    (hstart : ∀ s k, D.addressOf s = some k → start k = 0)
    (hsigners : ∀ c ∈ calls, ∀ s, D.addressOf s ≠ some c.instruction.signer) :
    Conserved D rent start (start.after rent ((program D).log calls)) ((program D).run calls) := by
  -- by induction on the log: every transfer in it was signed by a wallet
  have hlog := step_induction (D := D)
    (P := fun log σ => (∀ e ∈ log, ∀ s, D.addressOf s ≠ some e.call.instruction.signer) →
      Conserved D rent start (start.after rent log) σ) ?_ ?_ calls
  · refine hlog fun e he => ?_
    have hcall : e.call ∈ calls :=
      Machine.map_call_logFrom_sublist.subset (List.mem_map_of_mem he)
    exact hsigners e.call hcall
  · -- the empty ledger has no accounts
    exact fun _ => ⟨hstart, fun w _ => (sub_zero _).symm⟩
  · intro log σ c σ' o hsound ih hstep hsigner
    rw [Bank.after_snoc]
    exact (ih fun e he => hsigner e (List.mem_append_left _ he)).step
      (hstep.funding hsound.addressed rent)
      (hsigner _ (List.mem_append_right _ List.mem_cons_self))

/-- A start where every wallet has the same lamports. -/
def Sample.bank : Bank Key
  | .wallet _ => 10000
  | .queue .. | .worker .. | .job .. => 0

/-- After the sample day the producer, whose job is closed, has all lamports back, and the authority
is short of the rent of the queue and of one registry. -/
theorem rent_conserved_day :
    Sample.bank.after (128 + ·) ((program Derivation.free).log Sample.day) Sample.producer = 10000 ∧
      Sample.bank.after (128 + ·) ((program Derivation.free).log Sample.day) Sample.authority =
        10000 - ((128 + QueueConfig.LEN) + (128 + WorkerRegistry.LEN)) := by
  -- no wallet is derived from seeds
  have hwallet (s : Seeds Key) (n : ℕ) : Derivation.free.addressOf s ≠ some (.wallet n) := by
    cases s <;> simp [Derivation.addressOf, Derivation.free, Key.ofSeeds]
  have hstart (s : Seeds Key) (k : Key) (hk : Derivation.free.addressOf s = some k) :
      Sample.bank k = 0 := by
    cases k with
    | wallet n => exact absurd hk (hwallet s n)
    | _ => rfl
  have hsigners : ∀ c ∈ Sample.day, ∃ n, c.instruction.signer = .wallet n := by
    simp [Sample.day, Sample.create, Sample.register, Sample.enqueue, Sample.claim, Sample.fail,
      Sample.expire, Sample.complete, Sample.close, Instruction.signer, Sample.authority,
      Sample.producer, Sample.worker]
  have hconserved := rent_conserved (D := Derivation.free) Sample.day (128 + ·) Sample.bank hstart
    fun c hc s => by
      obtain ⟨n, hn⟩ := hsigners c hc
      rw [hn]
      exact hwallet s n
  have hproducer := hconserved.wallet Sample.producer fun s => hwallet s 2
  have hauthority := hconserved.wallet Sample.authority fun s => hwallet s 1
  rw [hproducer, hauthority]
  decide +kernel

end Runs

end SolQueue
