import SolQueue.Invariants

/-!
# Administration of a queue

The settings of a queue are those its creator gave it. Whether it is paused and which workers are
active on it changes over its life, but only by instructions that the creator signs: the name is
taken, so nobody can initialize the queue again, and every other instruction writes these fields
back as they were.

* `Ledger.queuePausedAt`, `Ledger.workerActiveAt`: what the creator of a queue controls.
* `Entry.Pauses`, `Entry.Registers`, `Entry.Deactivates`: the instructions that control it.
* `Step.queuePausedAt`, `Step.workerActiveAt`: no other step changes it.
* `Administered`, `queue_administration`: the same for whatever calls follow the creation.
-/

namespace SolQueue

variable {Pubkey : Type} [DecidableEq Pubkey]

/-- Whether the queue at `k` is paused. -/
def Ledger.queuePausedAt (σ : Ledger Pubkey) (k : Pubkey) : Option Bool :=
  (σ.queueConfigs.lookup k).map (·.isPaused)

/-- Whether the registry is active, if it belongs to the queue at `k`. -/
def WorkerRegistry.activeFor (k : Pubkey) (r : WorkerRegistry Pubkey) : Option Bool :=
  if r.queue = k then some r.isActive else none

/-- Whether the registry at `x` is active, if there is one and it belongs to the queue at `k`. -/
def Ledger.workerActiveAt (σ : Ledger Pubkey) (k x : Pubkey) : Option Bool :=
  (σ.workerRegistries.lookup x).bind (·.activeFor k)

/-- The call pauses or resumes the queue at `k`, signed by `a`. -/
def Entry.Pauses (k a : Pubkey) (e : Entry Pubkey) : Prop :=
  ∃ ctx n pause, e.call.instruction = .setQueuePaused ctx n pause ∧ ctx.queueConfig = k ∧
    ctx.authority = a

/-- The call registers a worker on the queue at `k`, signed by `a`. -/
def Entry.Registers (k a : Pubkey) (e : Entry Pubkey) : Prop :=
  ∃ ctx n, e.call.instruction = .registerWorker ctx n ∧ ctx.queueConfig = k ∧ ctx.authority = a

/-- The call deactivates a worker on the queue at `k`, signed by `a`. -/
def Entry.Deactivates (k a : Pubkey) (e : Entry Pubkey) : Prop :=
  ∃ ctx n, e.call.instruction = .deactivateWorker ctx n ∧ ctx.queueConfig = k ∧ ctx.authority = a

/-- The call administers the queue at `k`, signed by `a`. -/
def Entry.Administers (k a : Pubkey) (e : Entry Pubkey) : Prop :=
  e.Pauses k a ∨ e.Registers k a ∨ e.Deactivates k a

/-- The queue at `k` with the settings of `q₀` is administered by its authority alone, along the
calls of `log` from `σ` to `σ'`. -/
structure Administered (k : Pubkey) (q₀ : QueueConfig Pubkey) (σ : Ledger Pubkey)
    (log : List (Entry Pubkey)) (σ' : Ledger Pubkey) : Prop where
  /-- The queue is live with its settings. -/
  settings : ∃ q, σ'.queueConfigs.lookup k = some q ∧ SameSettings q₀ q
  /-- Registries of the queue are never removed or given away. -/
  registries : ∀ x r, σ.workerRegistries.lookup x = some r → r.queue = k →
    ∃ r', σ'.workerRegistries.lookup x = some r' ∧ SameRegistration r r'
  /-- Only the authority pauses and resumes the queue. -/
  paused : ∀ e ∈ log, e.after.queuePausedAt k ≠ e.before.queuePausedAt k →
    e.Pauses k q₀.authority
  /-- Only the authority registers workers on it. -/
  registered : ∀ e ∈ log, ∀ x, e.before.workerActiveAt k x = none →
    e.after.workerActiveAt k x ≠ none → e.Registers k q₀.authority
  /-- Only the authority changes whether a worker is active on it. -/
  active : ∀ e ∈ log, ∀ x b, e.before.workerActiveAt k x = some b →
    e.after.workerActiveAt k x ≠ some b → e.Deactivates k q₀.authority
  /-- Without the authority, all of this stays as it is. -/
  without : (∀ e ∈ log, ¬e.Administers k q₀.authority) →
    σ'.queuePausedAt k = σ.queuePausedAt k ∧
      ∀ x, σ'.workerActiveAt k x = σ.workerActiveAt k x

section Runs

variable [Inhabited Pubkey] {D : Derivation Pubkey} {σ σ' : Ledger Pubkey} {c : Call Pubkey}
  {o : Outcome Pubkey} {k x : Pubkey} {q : QueueConfig Pubkey}

/-! ## One step -/

/-- Whether a queue is paused changes only by an instruction of its authority for that. -/
theorem Step.queuePausedAt (h : Step D σ c σ' o) (hq : σ.queueConfigs.lookup k = some q) :
    σ'.queuePausedAt k = σ.queuePausedAt k ∨
      Entry.Pauses k q.authority ⟨σ, c, o, σ'⟩ := by
  -- writing a queue back with the same flag changes no flag
  have hkeep {y : Pubkey} {q₁ q₂ : QueueConfig Pubkey} (h₁ : σ.queueConfigs.lookup y = some q₁)
      (h₂ : q₂.isPaused = q₁.isPaused) :
      ((σ.queueConfigs.insert y q₂).lookup k).map (·.isPaused) = σ.queuePausedAt k :=
    Finmap.apply_lookup_insert (r := Option.map (·.isPaused)) h₁ (congrArg some h₂)
  cases h with
  | @initializeQueue _ ctx _ _ fresh length =>
    -- the address of a live queue is not free
    have hne : k ≠ ctx.queueConfig := by
      rintro rfl
      cases hq.symm.trans (lookup_of_fresh fresh).1
    exact .inl (congrArg (Option.map _) (Finmap.lookup_insert_of_ne _ hne))
  | @setQueuePaused _ ctx _ _ _ queue authority =>
    by_cases hk : k = ctx.queueConfig
    · rw [hk, queue.lookup, Option.some.injEq] at hq
      exact .inr ⟨ctx, _, _, rfl, hk.symm, hq ▸ authority.symm⟩
    · exact .inl (congrArg (Option.map _) (Finmap.lookup_insert_of_ne _ hk))
  | enqueueJob queue => exact .inl (hkeep queue.lookup rfl)
  | completeJob valid | failJobPermanent valid => exact .inl (hkeep valid.queue.lookup rfl)
  | registerWorker | deactivateWorker | claimJob | failJobRetry | expireJob | closeJob =>
    exact .inl rfl

/-- Whether a registry of a queue is active changes only by an instruction of its authority: one
that creates the registry, or one that deactivates it. -/
theorem Step.workerActiveAt (h : Step D σ c σ' o) (hq : σ.queueConfigs.lookup k = some q)
    (x : Pubkey) :
    σ'.workerActiveAt k x = σ.workerActiveAt k x ∨
      (σ.workerActiveAt k x = none ∧ Entry.Registers k q.authority ⟨σ, c, o, σ'⟩) ∨
      (σ.workerActiveAt k x ≠ none ∧ Entry.Deactivates k q.authority ⟨σ, c, o, σ'⟩) := by
  -- writing a registry back for the same queue and as active as it was changes nothing
  have hkeep {y : Pubkey} {r₁ r₂ : WorkerRegistry Pubkey}
      (h₁ : σ.workerRegistries.lookup y = some r₁) (h₂ : r₂.activeFor k = r₁.activeFor k) :
      ((σ.workerRegistries.insert y r₂).lookup x).bind (·.activeFor k) = σ.workerActiveAt k x :=
    Finmap.apply_lookup_insert
      (r := fun found : Option (WorkerRegistry Pubkey) => found.bind (·.activeFor k)) h₁ h₂
  cases h with
  | @registerWorker _ ctx _ _ _ queue authority fresh =>
    by_cases hx : x = ctx.workerRegistry
    · have hnone : σ.workerActiveAt k x = none := by
        rw [Ledger.workerActiveAt, hx, (lookup_of_fresh fresh).2.1]
        rfl
      by_cases hk : ctx.queueConfig = k
      · rw [← hk, queue.lookup, Option.some.injEq] at hq
        exact .inr (.inl ⟨hnone, ctx, _, rfl, hk, hq ▸ authority.symm⟩)
      · left
        rw [hnone, Ledger.workerActiveAt, hx, Finmap.lookup_insert]
        exact if_neg hk
    · left
      exact congrArg (Option.bind · _) (Finmap.lookup_insert_of_ne _ hx)
  | @deactivateWorker _ ctx _ _ r queue authority registry =>
    by_cases hk : ctx.queueConfig = k
    · by_cases hx : x = ctx.workerRegistry
      · rw [← hk, queue.lookup, Option.some.injEq] at hq
        refine .inr (.inr ⟨?_, ctx, _, rfl, hk, hq ▸ authority.symm⟩)
        rw [Ledger.workerActiveAt, hx, registry.lookup]
        simp [WorkerRegistry.activeFor, registry.queue, hk]
      · left
        exact congrArg (Option.bind · _) (Finmap.lookup_insert_of_ne _ hx)
    · -- the registry belongs to another queue
      have hne : r.queue ≠ k := registry.queue ▸ hk
      exact .inl (hkeep registry.lookup ((if_neg hne).trans (if_neg hne).symm))
  | claimJob valid | completeJob valid | failJobPermanent valid | failJobRetry valid =>
    exact .inl (hkeep valid.registry.lookup rfl)
  | initializeQueue | setQueuePaused | enqueueJob | expireJob | closeJob => exact .inl rfl

/-! ## Whole runs -/

/-- Calls never remove a registry or give it away. -/
theorem registration_runFrom (calls : List (Call Pubkey)) {r : WorkerRegistry Pubkey}
    (hr : σ.workerRegistries.lookup x = some r) :
    ∃ r', ((program D).runFrom σ calls).workerRegistries.lookup x = some r' ∧
      SameRegistration r r' := by
  refine Machine.runFrom_induction (M := program D) (P := fun σ => ∃ r',
    σ.workerRegistries.lookup x = some r' ∧ SameRegistration r r') ?_ ⟨r, hr, .refl r⟩ calls
  intro σ c σ' o ⟨r₁, hr₁, hsame₁⟩ hstep
  have hchange := (execute_eq_ok.mp hstep).registryChange x
  rw [hr₁] at hchange
  obtain ⟨r₂, hr₂, hsame₂⟩ := hchange.persists
  exact ⟨r₂, hr₂, hsame₁.trans hsame₂⟩

/-- Calls that do not administer a queue, or not in the name of its authority, leave it paused or
not as it is, and its workers active or not as they are. -/
theorem unadministered_runFrom (calls : List (Call Pubkey)) {n : String} (hq : QueueAt D σ n k q)
    (hothers : ∀ e ∈ (program D).logFrom σ calls, ¬Entry.Administers k q.authority e) :
    ((program D).runFrom σ calls).queuePausedAt k = σ.queuePausedAt k ∧
      ∀ x, ((program D).runFrom σ calls).workerActiveAt k x = σ.workerActiveAt k x := by
  suffices hkept : ∃ q', QueueAt D ((program D).runFrom σ calls) n k q' ∧
      q'.authority = q.authority ∧
      ((program D).runFrom σ calls).queuePausedAt k = σ.queuePausedAt k ∧
      ∀ x, ((program D).runFrom σ calls).workerActiveAt k x = σ.workerActiveAt k x by
    obtain ⟨-, -, -, hpaused, hactive⟩ := hkept
    exact ⟨hpaused, hactive⟩
  refine Machine.runFrom_induction_of_log (M := program D) (P := fun σ' => ∃ q',
    QueueAt D σ' n k q' ∧ q'.authority = q.authority ∧ σ'.queuePausedAt k = σ.queuePausedAt k ∧
      ∀ x, σ'.workerActiveAt k x = σ.workerActiveAt k x)
    (Q := fun e => ¬Entry.Administers k q.authority e) ?_ ⟨q, hq, rfl, rfl, fun _ => rfl⟩ calls
    hothers
  intro σ₁ c σ₂ o ⟨q₁, hq₁, hauthority, hpaused, hactive⟩ hok hother
  have hstep := execute_eq_ok.mp hok
  obtain ⟨q₂, hq₂, hsame, -⟩ := hstep.queueAt hq₁
  rw [← hauthority] at hother
  refine ⟨q₂, hq₂, hsame.authority.trans hauthority, ?_, fun x => ?_⟩
  · rcases hstep.queuePausedAt hq₁.lookup with hkeep | hpauses
    · exact hkeep.trans hpaused
    · exact absurd (.inl hpauses) hother
  · rcases hstep.workerActiveAt hq₁.lookup x with hkeep | ⟨-, hregisters⟩ | ⟨-, hdeactivates⟩
    · exact hkeep.trans (hactive x)
    · exact absurd (.inr (.inl hregisters)) hother
    · exact absurd (.inr (.inr hdeactivates)) hother

/-- Whatever calls are made, a queue is administered by its authority alone. -/
theorem administered_runFrom (calls : List (Call Pubkey)) {n : String} {q₀ : QueueConfig Pubkey}
    (hq : QueueAt D σ n k q) (hsame : SameSettings q₀ q) :
    Administered k q₀ σ ((program D).logFrom σ calls) ((program D).runFrom σ calls) := by
  -- the queue is there before every call, with the same authority
  have hqueue {e : Entry Pubkey} (he : e ∈ (program D).logFrom σ calls) :
      ∃ q', e.before.queueConfigs.lookup k = some q' ∧ q'.authority = q₀.authority ∧
        Step D e.before e.call e.after e.out := by
    obtain ⟨l, -, hbefore, -, hstep⟩ := step_of_mem_logFrom he
    obtain ⟨q', hq', hsame', -⟩ := queueAt_runFrom l hq
    exact ⟨q', hbefore ▸ hq'.lookup, (hsame.trans hsame').authority, hstep⟩
  refine ⟨?_, fun x r hr _ => registration_runFrom calls hr, fun e he hne => ?_,
    fun e he x hnone hsome => ?_, fun e he x b hb hne => ?_, fun hothers => ?_⟩
  · obtain ⟨q', hq', hsame', -⟩ := queueAt_runFrom calls hq
    exact ⟨q', hq'.lookup, hsame.trans hsame'⟩
  · obtain ⟨q', hq', hauthority, hstep⟩ := hqueue he
    exact hauthority ▸ (hstep.queuePausedAt hq').resolve_left hne
  · obtain ⟨q', hq', hauthority, hstep⟩ := hqueue he
    rcases hstep.workerActiveAt hq' x with hkeep | ⟨-, hregisters⟩ | ⟨hwas, -⟩
    · exact absurd (hkeep.trans hnone) hsome
    · exact hauthority ▸ hregisters
    · exact absurd hnone hwas
  · obtain ⟨q', hq', hauthority, hstep⟩ := hqueue he
    rcases hstep.workerActiveAt hq' x with hkeep | ⟨hnone, -⟩ | ⟨-, hdeactivates⟩
    · exact absurd (hkeep.trans hb) hne
    · cases hnone.symm.trans hb
    · exact hauthority ▸ hdeactivates
  · rw [← hsame.authority] at hothers
    exact unadministered_runFrom calls hq hothers

/-- A call that initializes a queue leaves it with the settings it carries and its signer as
authority. -/
theorem Step.initializeQueue_queueAt {now : Int64} {ctx : InitializeQueue Pubkey}
    {params : InitializeQueueParams} (h : Step D σ ⟨now, .initializeQueue ctx params⟩ σ' o) :
    ∃ b, QueueAt D σ' params.queueName ctx.queueConfig
      (ctx.newQueue b params (zeroPadded 32 params.queueName.asBytes)) := by
  cases h with
  | initializeQueue fresh length =>
    exact ⟨_, Finmap.lookup_insert _, D.create_of_find fresh.find⟩

/-- From the call that initializes a queue on, after any calls and along any further ones, the queue
has the settings it was given and is administered by the signer of that call alone. -/
theorem queue_administration {calls₁ : List (Call Pubkey)} {now : Int64}
    {ctx : InitializeQueue Pubkey} {params : InitializeQueueParams}
    {r : Ledger Pubkey × Outcome Pubkey}
    (hinit : execute D ((program D).run calls₁) ⟨now, .initializeQueue ctx params⟩ = .ok r)
    (calls₂ calls₃ : List (Call Pubkey)) :
    ∃ q₀, r.1.queueConfigs.lookup ctx.queueConfig = some q₀ ∧ q₀.authority = ctx.authority ∧
      Administered ctx.queueConfig q₀ ((program D).runFrom r.1 calls₂)
        ((program D).logFrom ((program D).runFrom r.1 calls₂) calls₃)
        ((program D).run (calls₁ ++ ⟨now, .initializeQueue ctx params⟩ :: (calls₂ ++ calls₃))) := by
  obtain ⟨b, hq₀⟩ := (execute_eq_ok.mp hinit).initializeQueue_queueAt
  refine ⟨_, hq₀.lookup, rfl, ?_⟩
  rw [Machine.run_append_cons_of_ok hinit, Machine.runFrom_append]
  obtain ⟨q, hq, hsame, -⟩ := queueAt_runFrom calls₂ hq₀
  exact administered_runFrom calls₃ hq hsame

/-- A producer tries to initialize the sample queue again, to pause it and to deactivate its
worker. -/
def Sample.attempts : List (Call Key) :=
  [⟨5, .initializeQueue ⟨Sample.producer, Sample.queue⟩ ⟨Sample.name, 0, 0⟩⟩,
    ⟨5, .setQueuePaused ⟨Sample.producer, Sample.queue⟩ Sample.name true⟩,
    ⟨5, .deactivateWorker
      ⟨Sample.producer, Sample.queue, Sample.worker, Sample.registry Sample.worker⟩ Sample.name⟩]

/-- The attempts bring nothing about. -/
theorem queue_administration_attempts :
    ((program Derivation.free).run (Sample.day.take 2 ++ Sample.attempts)).queuePausedAt
        Sample.queue = some false ∧
      ((program Derivation.free).run (Sample.day.take 2 ++ Sample.attempts)).workerActiveAt
        Sample.queue (Sample.registry Sample.worker) = some true := by
  have hinit : execute Derivation.free ((program Derivation.free).run []) (Sample.create 2 60) =
      .ok _ := rfl
  obtain ⟨q₀, -, -, hadministered⟩ :=
    queue_administration hinit [Sample.register Sample.worker] Sample.attempts
  -- none of the attempts commits
  obtain ⟨hpaused, hactive⟩ := hadministered.without fun e he => nomatch he
  exact ⟨hpaused, hactive _⟩

end Runs

end SolQueue
