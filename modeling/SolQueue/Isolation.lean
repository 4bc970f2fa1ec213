import SolQueue.Lifecycle

/-!
# Isolation of queues

All addresses of a queue are derived from seeds that start with its name. A call that carries a
name, whatever accounts it is made with, reads and writes only what is stored under that name.

* `UnderName`: an address is derived from seeds that start with a name.
* `SameAt`, `Step.sameAt`: a step changes nothing under other names.
* `AgreeOn`, `Step.transfer`: a step is possible in every ledger that agrees under its name, with
  the same outcome and the same effect there.
* `queues_isolated`: both for the ledgers the program can reach.
-/

namespace SolQueue

variable {Pubkey : Type}

/-- The queue name an instruction carries. -/
def Instruction.queueName : Instruction Pubkey → String
  | .initializeQueue _ params => params.queueName
  | .setQueuePaused _ n _ | .registerWorker _ n | .deactivateWorker _ n | .enqueueJob _ n _ _
  | .claimJob _ n _ | .completeJob _ n _ _ | .failJob _ n _ _ | .expireJob _ n _
  | .closeJob _ n _ => n

/-- The address `k` is derived from seeds that start with the name `n`. -/
def UnderName (D : Derivation Pubkey) (n : String) (k : Pubkey) : Prop :=
  ∃ s b, s.queueName = n.asBytes ∧ D.createProgramAddress s b = some k

/-- An address is under one name only. -/
theorem UnderName.unique {D : Derivation Pubkey} {n n' : String} {k : Pubkey}
    (h : UnderName D n k) (h' : UnderName D n' k) : n = n' := by
  obtain ⟨s, b, hs, hk⟩ := h
  obtain ⟨s', b', hs', hk'⟩ := h'
  obtain ⟨rfl, -⟩ := D.create_injective hk hk'
  exact String.asBytes_injective (hs.symm.trans hs')

variable [DecidableEq Pubkey]

/-- The address `k` holds the same in both ledgers. -/
structure SameAt (k : Pubkey) (σ σ' : Ledger Pubkey) : Prop where
  queueConfig : σ.queueConfigs.lookup k = σ'.queueConfigs.lookup k
  workerRegistry : σ.workerRegistries.lookup k = σ'.workerRegistries.lookup k
  job : σ.jobs.lookup k = σ'.jobs.lookup k

/-- The ledgers agree on all addresses under the name `n`. -/
def AgreeOn (D : Derivation Pubkey) (n : String) (σ σ' : Ledger Pubkey) : Prop :=
  ∀ k, UnderName D n k → SameAt k σ σ'

section Agreement

variable {D : Derivation Pubkey} {n : String} {σ τ : Ledger Pubkey} {k : Pubkey}

theorem AgreeOn.symm (h : AgreeOn D n σ τ) : AgreeOn D n τ σ := fun k hk =>
  ⟨(h k hk).queueConfig.symm, (h k hk).workerRegistry.symm, (h k hk).job.symm⟩

/-- Writing the same queue keeps the agreement. -/
theorem AgreeOn.insertQueue (h : AgreeOn D n σ τ) {q : QueueConfig Pubkey} :
    AgreeOn D n { σ with queueConfigs := σ.queueConfigs.insert k q }
      { τ with queueConfigs := τ.queueConfigs.insert k q } := fun x hx =>
  ⟨Finmap.lookup_insert_congr (h x hx).queueConfig, (h x hx).workerRegistry, (h x hx).job⟩

/-- Writing the same registry keeps the agreement. -/
theorem AgreeOn.insertRegistry (h : AgreeOn D n σ τ) {r : WorkerRegistry Pubkey} :
    AgreeOn D n { σ with workerRegistries := σ.workerRegistries.insert k r }
      { τ with workerRegistries := τ.workerRegistries.insert k r } := fun x hx =>
  ⟨(h x hx).queueConfig, Finmap.lookup_insert_congr (h x hx).workerRegistry, (h x hx).job⟩

/-- Writing the same job keeps the agreement. -/
theorem AgreeOn.insertJob (h : AgreeOn D n σ τ) {j : Job Pubkey} :
    AgreeOn D n { σ with jobs := σ.jobs.insert k j } { τ with jobs := τ.jobs.insert k j } :=
  fun x hx =>
    ⟨(h x hx).queueConfig, (h x hx).workerRegistry, Finmap.lookup_insert_congr (h x hx).job⟩

/-- Erasing the same job keeps the agreement. -/
theorem AgreeOn.eraseJob (h : AgreeOn D n σ τ) :
    AgreeOn D n { σ with jobs := σ.jobs.erase k } { τ with jobs := τ.jobs.erase k } :=
  fun x hx =>
    ⟨(h x hx).queueConfig, (h x hx).workerRegistry, Finmap.lookup_erase_congr (h x hx).job⟩

end Agreement

/-! ## What an instruction looks at is under its name -/

section Accounts

variable {D : Derivation Pubkey} {σ τ : Ledger Pubkey} {n : String} {s : UInt64}
  {k w queue : Pubkey}

theorem QueueAt.underName {q : QueueConfig Pubkey} (h : QueueAt D σ n k q) : UnderName D n k :=
  ⟨_, _, rfl, h.seeds⟩

theorem RegistryAt.underName {r : WorkerRegistry Pubkey} (h : RegistryAt D σ n w queue k r) :
    UnderName D n k :=
  ⟨_, _, rfl, h.seeds⟩

theorem JobAt.underName {j : Job Pubkey} (h : JobAt D σ n s queue k j) : UnderName D n k :=
  ⟨_, _, rfl, h.seeds⟩

omit [DecidableEq Pubkey] in
theorem Fresh.underName {x : Seeds Pubkey} {b : UInt8} (h : Fresh D σ x k b)
    (hx : x.queueName = n.asBytes) : UnderName D n k :=
  ⟨x, b, hx, D.create_of_find h.find⟩

/-- A queue that passes its checks does so in every ledger that agrees under its name. -/
theorem QueueAt.transfer {q : QueueConfig Pubkey} (h : QueueAt D σ n k q)
    (hagree : AgreeOn D n σ τ) : QueueAt D τ n k q :=
  ⟨(hagree k h.underName).queueConfig.symm.trans h.lookup, h.seeds⟩

/-- So does a registry. -/
theorem RegistryAt.transfer {r : WorkerRegistry Pubkey} (h : RegistryAt D σ n w queue k r)
    (hagree : AgreeOn D n σ τ) : RegistryAt D τ n w queue k r :=
  ⟨(hagree k h.underName).workerRegistry.symm.trans h.lookup, h.seeds, h.queue⟩

/-- So does a job. -/
theorem JobAt.transfer {j : Job Pubkey} (h : JobAt D σ n s queue k j)
    (hagree : AgreeOn D n σ τ) : JobAt D τ n s queue k j :=
  ⟨(hagree k h.underName).job.symm.trans h.lookup, h.seeds, h.queue⟩

/-- An address that is free is so in every ledger that agrees under the name it is derived from. -/
theorem Fresh.transfer {x : Seeds Pubkey} {b : UInt8} (h : Fresh D σ x k b)
    (hx : x.queueName = n.asBytes) (hagree : AgreeOn D n σ τ) : Fresh D τ x k b := by
  refine ⟨h.find, ?_⟩
  have hsame := hagree k (h.underName hx)
  have hnone := Ledger.lookup_eq_none_of_not_owned h.free
  rw [hsame.queueConfig, hsame.workerRegistry, hsame.job] at hnone
  simpa [Ledger.Owned, Finmap.lookup_eq_none] using hnone

/-- The accounts of a worker instruction pass their checks in every ledger that agrees under its
name. -/
theorem WorkerJob.Valid.transfer {ctx : WorkerJob Pubkey} {q : QueueConfig Pubkey}
    {r : WorkerRegistry Pubkey} {j : Job Pubkey} (h : ctx.Valid D σ n s q r j)
    (hagree : AgreeOn D n σ τ) : ctx.Valid D τ n s q r j :=
  ⟨h.queue.transfer hagree, h.registry.transfer hagree, h.active, h.job.transfer hagree⟩

end Accounts

/-! ## Steps -/

section Runs

variable [Inhabited Pubkey] {D : Derivation Pubkey} {σ σ' τ : Ledger Pubkey} {c : Call Pubkey}
  {o : Outcome Pubkey} {k : Pubkey}

/-- A step changes nothing at addresses that are not under its name. -/
theorem Step.sameAt (h : Step D σ c σ' o) (hk : ¬UnderName D c.instruction.queueName k) :
    SameAt k σ σ' := by
  have hne {x : Pubkey} (hx : UnderName D c.instruction.queueName x) : k ≠ x := by
    rintro rfl
    exact hk hx
  have hinsert {T : Type} {m : Finmap fun _ : Pubkey => T} {x : Pubkey} {t : T}
      (hx : UnderName D c.instruction.queueName x) : m.lookup k = (m.insert x t).lookup k :=
    (Finmap.lookup_insert_of_ne m (hne hx)).symm
  cases h with
  | initializeQueue fresh length => exact ⟨hinsert (fresh.underName rfl), rfl, rfl⟩
  | setQueuePaused queue authority => exact ⟨hinsert queue.underName, rfl, rfl⟩
  | registerWorker queue authority fresh => exact ⟨rfl, hinsert (fresh.underName rfl), rfl⟩
  | deactivateWorker queue authority registry => exact ⟨rfl, hinsert registry.underName, rfl⟩
  | enqueueJob queue fresh => exact ⟨hinsert queue.underName, rfl, hinsert (fresh.underName rfl)⟩
  | claimJob valid | failJobRetry valid =>
    exact ⟨rfl, hinsert valid.registry.underName, hinsert valid.job.underName⟩
  | completeJob valid | failJobPermanent valid =>
    exact ⟨hinsert valid.queue.underName, hinsert valid.registry.underName,
      hinsert valid.job.underName⟩
  | expireJob queue job => exact ⟨rfl, rfl, hinsert job.underName⟩
  | closeJob queue job => exact ⟨rfl, rfl, (Finmap.lookup_erase_ne (hne job.underName)).symm⟩

/-- A step is possible in every ledger that agrees under its name, with the same outcome, and
leaves them in agreement. -/
theorem Step.transfer (h : Step D σ c σ' o) (hagree : AgreeOn D c.instruction.queueName σ τ) :
    ∃ τ', Step D τ c τ' o ∧ AgreeOn D c.instruction.queueName σ' τ' := by
  -- every constructor applies again, to the same accounts, and writes the same
  cases h with
  | initializeQueue fresh length =>
    exact ⟨_, .initializeQueue (fresh.transfer rfl hagree) length, hagree.insertQueue⟩
  | setQueuePaused queue authority =>
    exact ⟨_, .setQueuePaused (queue.transfer hagree) authority, hagree.insertQueue⟩
  | registerWorker queue authority fresh =>
    exact ⟨_, .registerWorker (queue.transfer hagree) authority (fresh.transfer rfl hagree),
      hagree.insertRegistry⟩
  | deactivateWorker queue authority registry =>
    exact ⟨_, .deactivateWorker (queue.transfer hagree) authority (registry.transfer hagree),
      hagree.insertRegistry⟩
  | enqueueJob queue fresh unpaused payload jobType next_eq total_eq =>
    exact ⟨_, .enqueueJob (queue.transfer hagree) (fresh.transfer rfl hagree) unpaused payload
      jobType next_eq total_eq, hagree.insertQueue.insertJob⟩
  | claimJob valid pending claimed_eq =>
    exact ⟨_, .claimJob (valid.transfer hagree) pending claimed_eq,
      hagree.insertRegistry.insertJob⟩
  | completeJob valid held length duration_eq total_eq completed_eq =>
    exact ⟨_, .completeJob (valid.transfer hagree) held length duration_eq total_eq completed_eq,
      hagree.insertQueue.insertRegistry.insertJob⟩
  | failJobPermanent valid held retries_eq failed_eq exhausted total_eq =>
    exact ⟨_, .failJobPermanent (valid.transfer hagree) held retries_eq failed_eq exhausted
      total_eq, hagree.insertQueue.insertRegistry.insertJob⟩
  | failJobRetry valid held retries_eq failed_eq left attempts =>
    exact ⟨_, .failJobRetry (valid.transfer hagree) held retries_eq failed_eq left attempts,
      hagree.insertRegistry.insertJob⟩
  | expireJob queue job processing expired =>
    exact ⟨_, .expireJob (queue.transfer hagree) (job.transfer hagree) processing expired,
      hagree.insertJob⟩
  | closeJob queue job creator finished =>
    exact ⟨_, .closeJob (queue.transfer hagree) (job.transfer hagree) creator finished,
      hagree.eraseJob⟩

/-- The signer of a worker operation has an active registry derived from the name of the call. -/
theorem Step.signer_registered (h : Step D σ c σ' o) {a w : Pubkey} {op : JobOp Pubkey}
    (hop : Entry.jobOp ⟨σ, c, o, σ'⟩ = some (a, op)) (hworker : op.worker = some w) :
    ∃ queue x r, RegistryAt D σ c.instruction.queueName w queue x r ∧ r.isActive = true := by
  cases h with
  | claimJob valid | completeJob valid | failJobPermanent valid | failJobRetry valid =>
    cases hop
    cases hworker
    exact ⟨_, _, _, valid.registry, valid.active⟩
  | initializeQueue | setQueuePaused | registerWorker | deactivateWorker => cases hop
  | enqueueJob | expireJob | closeJob =>
    cases hop
    cases hworker

/-! ## Reachable ledgers -/

omit [Inhabited Pubkey] in
/-- Every account is under exactly one name. -/
theorem Addressed.existsUnique_underName (h : Addressed D σ) (hk : σ.Owned k) :
    ∃! n, UnderName D n k := by
  suffices hname : ∃ n, UnderName D n k by
    obtain ⟨n, hn⟩ := hname
    exact ⟨n, hn, fun m hm => hm.unique hn⟩
  rcases hk with hk | hk | hk
  · obtain ⟨q, hq⟩ := Finmap.mem_iff.mp hk
    obtain ⟨n, hfind⟩ := h.queue k q hq
    exact ⟨n, _, _, rfl, D.create_of_find hfind⟩
  · obtain ⟨r, hr⟩ := Finmap.mem_iff.mp hk
    obtain ⟨n, _, hfind, -⟩ := h.registry k r hr
    exact ⟨n, _, _, rfl, D.create_of_find hfind⟩
  · obtain ⟨j, hj⟩ := Finmap.mem_iff.mp hk
    obtain ⟨n, _, _, hfind, -⟩ := h.job k j hj
    exact ⟨n, _, _, rfl, D.create_of_find hfind⟩

/-- Every account of a reachable ledger is under one name, and a call that commits changes no
account under a name other than its own. In two reachable ledgers that agree under its name the
call commits in both or in neither, and if it does, with the same outcome and the same effect under
that name. A worker operation needs a registry of its signer that is under that name. -/
theorem queues_isolated (calls calls' : List (Call Pubkey)) (c : Call Pubkey) :
    (∀ k, ((program D).run calls).Owned k → ∃! n, UnderName D n k) ∧
    (∀ r, execute D ((program D).run calls) c = .ok r → ∀ n k, n ≠ c.instruction.queueName →
      UnderName D n k → SameAt k ((program D).run calls) r.1) ∧
    (AgreeOn D c.instruction.queueName ((program D).run calls) ((program D).run calls') →
      ((∃ r, execute D ((program D).run calls) c = .ok r) ↔
        ∃ r', execute D ((program D).run calls') c = .ok r') ∧
      ∀ r r', execute D ((program D).run calls) c = .ok r →
        execute D ((program D).run calls') c = .ok r' →
        r.2 = r'.2 ∧ AgreeOn D c.instruction.queueName r.1 r'.1) ∧
    ∀ r, execute D ((program D).run calls) c = .ok r → ∀ a op w,
      Entry.jobOp ⟨(program D).run calls, c, r.2, r.1⟩ = some (a, op) → op.worker = some w →
      ∃ queue x registry, RegistryAt D ((program D).run calls) c.instruction.queueName w queue x
        registry ∧ registry.isActive = true := by
  refine ⟨fun k hk => (addressed_run calls).existsUnique_underName hk,
    fun r hok n k hn hk => ?_, fun hagree => ⟨⟨?_, ?_⟩, fun r r' hok hok' => ?_⟩,
    fun r hok a op w hop hworker => (execute_eq_ok.mp hok).signer_registered hop hworker⟩
  · exact (execute_eq_ok.mp hok).sameAt fun hk' => hn (hk.unique hk')
  · rintro ⟨r, hok⟩
    obtain ⟨τ', hstep, -⟩ := (execute_eq_ok.mp hok).transfer hagree
    exact ⟨_, execute_eq_ok.mpr hstep⟩
  · rintro ⟨r, hok⟩
    obtain ⟨τ', hstep, -⟩ := (execute_eq_ok.mp hok).transfer hagree.symm
    exact ⟨_, execute_eq_ok.mpr hstep⟩
  · obtain ⟨τ', hstep, hagree'⟩ := (execute_eq_ok.mp hok).transfer hagree
    -- a call has one result in each ledger
    obtain rfl : (τ', r.2) = r' := Except.ok.inj ((execute_eq_ok.mpr hstep).symm.trans hok')
    exact ⟨rfl, hagree'⟩

end Runs

end SolQueue
