import SolQueue.Lib.Formats
import SolQueue.Encoding
import SolQueue.Replica

/-!
# The log of events

An event is emitted as a line of the log: a discriminator and then its fields. Keys are the 32 bytes
they are stored as. The lines of a run are all that an observer needs for the records of `Replica`,
as long as the keys in them are different keys.

* `Event.format`, `Event.line`, `Event.ofLine`: lines, and how they are read.
* `events_of_lines`: the lines of a run are read back as its events.
* `Renamed.apply`: an event does the same to the records under other keys.
* `log_replayed`: the records built from the lines show what is stored.
-/

namespace SolQueue

open Borsh (Format)

/-! ## Lines -/

/-- The events by name. -/
inductive EventKind where
  | jobEnqueued
  | jobClaimed
  | jobCompleted
  | jobFailed
  | jobExpired
  | queuePauseToggled
  | workerRegistered
  | workerDeactivated

namespace EventKind

/-- The events in the order of their declaration. -/
def all : List EventKind :=
  [jobEnqueued, jobClaimed, jobCompleted, jobFailed, jobExpired, queuePauseToggled,
    workerRegistered, workerDeactivated]

/-- The first bytes of the line. -/
def discriminator : EventKind → Vector UInt8 8
  | jobEnqueued => #v[253, 145, 52, 57, 172, 39, 112, 100]
  | jobClaimed => #v[176, 110, 104, 38, 27, 220, 61, 191]
  | jobCompleted => #v[176, 207, 246, 115, 95, 179, 9, 132]
  | jobFailed => #v[239, 142, 192, 215, 175, 72, 19, 44]
  | jobExpired => #v[213, 123, 115, 173, 157, 242, 12, 71]
  | queuePauseToggled => #v[91, 94, 47, 190, 236, 170, 239, 195]
  | workerRegistered => #v[32, 196, 68, 85, 235, 201, 213, 179]
  | workerDeactivated => #v[45, 58, 40, 36, 116, 95, 86, 63]

theorem mem_all (k : EventKind) : k ∈ all := by
  cases k <;> simp [all]

/-- The discriminators tell the events apart. -/
theorem nodup_discriminators : (all.map discriminator).Nodup := by decide

/-- The fields of an event, in the order of their declaration. -/
abbrev Fields : EventKind → Type
  | jobEnqueued => PublicKey × PublicKey × UInt64 × String × UInt8 × PublicKey × Int64
  | jobClaimed | jobExpired => PublicKey × UInt64 × PublicKey × Int64
  | jobCompleted => PublicKey × UInt64 × PublicKey × Int64 × Int64
  | jobFailed => PublicKey × UInt64 × PublicKey × UInt8 × Bool × Int64
  | queuePauseToggled => PublicKey × Bool × PublicKey × Int64
  | workerRegistered => PublicKey × PublicKey × Int64
  | workerDeactivated => PublicKey × PublicKey × PublicKey × Int64

/-- A key. -/
def key : Format PublicKey := Format.array 32

/-- How the fields of an event are written. -/
def format : (k : EventKind) → Format k.Fields
  | jobEnqueued =>
    key.prod (key.prod (Format.u64.prod (Format.string.prod (Format.u8.prod
      (key.prod Format.i64)))))
  | jobClaimed | jobExpired => key.prod (Format.u64.prod (key.prod Format.i64))
  | jobCompleted => key.prod (Format.u64.prod (key.prod (Format.i64.prod Format.i64)))
  | jobFailed =>
    key.prod (Format.u64.prod (key.prod (Format.u8.prod (Format.bool.prod Format.i64))))
  | queuePauseToggled => key.prod (Format.bool.prod (key.prod Format.i64))
  | workerRegistered => key.prod (key.prod Format.i64)
  | workerDeactivated => key.prod (key.prod (key.prod Format.i64))

end EventKind

namespace Event

/-- An event is its name and its fields. -/
def equiv : (Σ k : EventKind, k.Fields) ≃ Event PublicKey where
  toFun
    | ⟨.jobEnqueued, queue, job, seq, jobType, priority, creator, timestamp⟩ =>
      .jobEnqueued queue job seq jobType priority creator timestamp
    | ⟨.jobClaimed, job, seq, worker, timestamp⟩ => .jobClaimed job seq worker timestamp
    | ⟨.jobCompleted, job, seq, worker, durationSecs, timestamp⟩ =>
      .jobCompleted job seq worker durationSecs timestamp
    | ⟨.jobFailed, job, seq, worker, retryCount, permanent, timestamp⟩ =>
      .jobFailed job seq worker retryCount permanent timestamp
    | ⟨.jobExpired, job, seq, previousWorker, timestamp⟩ =>
      .jobExpired job seq previousWorker timestamp
    | ⟨.queuePauseToggled, queue, isPaused, authority, timestamp⟩ =>
      .queuePauseToggled queue isPaused authority timestamp
    | ⟨.workerRegistered, queue, worker, timestamp⟩ => .workerRegistered queue worker timestamp
    | ⟨.workerDeactivated, queue, worker, authority, timestamp⟩ =>
      .workerDeactivated queue worker authority timestamp
  invFun
    | .jobEnqueued queue job seq jobType priority creator timestamp =>
      ⟨.jobEnqueued, queue, job, seq, jobType, priority, creator, timestamp⟩
    | .jobClaimed job seq worker timestamp => ⟨.jobClaimed, job, seq, worker, timestamp⟩
    | .jobCompleted job seq worker durationSecs timestamp =>
      ⟨.jobCompleted, job, seq, worker, durationSecs, timestamp⟩
    | .jobFailed job seq worker retryCount permanent timestamp =>
      ⟨.jobFailed, job, seq, worker, retryCount, permanent, timestamp⟩
    | .jobExpired job seq previousWorker timestamp =>
      ⟨.jobExpired, job, seq, previousWorker, timestamp⟩
    | .queuePauseToggled queue isPaused authority timestamp =>
      ⟨.queuePauseToggled, queue, isPaused, authority, timestamp⟩
    | .workerRegistered queue worker timestamp => ⟨.workerRegistered, queue, worker, timestamp⟩
    | .workerDeactivated queue worker authority timestamp =>
      ⟨.workerDeactivated, queue, worker, authority, timestamp⟩
  left_inv := by
    rintro ⟨k, fields⟩
    cases k <;> rfl
  right_inv e := by cases e <;> rfl

/-- How an event is written. -/
def format : Format (Event PublicKey) :=
  (Format.tagged EventKind.all EventKind.discriminator EventKind.mem_all
    EventKind.nodup_discriminators EventKind.format).map equiv

variable {α β : Type}

/-- The same event under other keys. -/
def map (f : α → β) : Event α → Event β
  | .jobEnqueued queue job seq jobType priority creator timestamp =>
    .jobEnqueued (f queue) (f job) seq jobType priority (f creator) timestamp
  | .jobClaimed job seq worker timestamp => .jobClaimed (f job) seq (f worker) timestamp
  | .jobCompleted job seq worker durationSecs timestamp =>
    .jobCompleted (f job) seq (f worker) durationSecs timestamp
  | .jobFailed job seq worker retryCount permanent timestamp =>
    .jobFailed (f job) seq (f worker) retryCount permanent timestamp
  | .jobExpired job seq previousWorker timestamp =>
    .jobExpired (f job) seq (f previousWorker) timestamp
  | .queuePauseToggled queue isPaused authority timestamp =>
    .queuePauseToggled (f queue) isPaused (f authority) timestamp
  | .workerRegistered queue worker timestamp => .workerRegistered (f queue) (f worker) timestamp
  | .workerDeactivated queue worker authority timestamp =>
    .workerDeactivated (f queue) (f worker) (f authority) timestamp

/-- The keys in an event. -/
def keys : Event α → List α
  | .jobEnqueued queue job _ _ _ creator _ => [queue, job, creator]
  | .jobClaimed job _ worker _ | .jobCompleted job _ worker _ _
  | .jobFailed job _ worker _ _ _ | .jobExpired job _ worker _ => [job, worker]
  | .queuePauseToggled queue _ authority _ => [queue, authority]
  | .workerRegistered queue worker _ => [queue, worker]
  | .workerDeactivated queue worker authority _ => [queue, worker, authority]

/-- The line of an event in the log. -/
def line (bytes : α → PublicKey) (e : Event α) : List UInt8 :=
  format.write (e.map bytes)

/-- The event of a line, if it is one. -/
def ofLine (line : List UInt8) : Option (Event PublicKey) :=
  (format.read.run line).map Prod.fst

/-- A line is read back as its event. -/
theorem ofLine_line {bytes : α → PublicKey} {e : Event α} (h : format.Fits (e.map bytes)) :
    ofLine (e.line bytes) = some (e.map bytes) := by
  have hread : format.read.run (e.line bytes) = some (e.map bytes, []) :=
    format.run_eq_some_iff.mpr ⟨h, (List.append_nil _).symm⟩
  rw [ofLine, hread, Option.map_some]

/-- Lines are read back as their events. -/
theorem mapM_ofLine {bytes : α → PublicKey} {events : List (Event α)}
    (h : ∀ e ∈ events, format.Fits (e.map bytes)) :
    (events.map (line bytes)).mapM ofLine = some (events.map (map bytes)) := by
  rw [List.mapM_map]
  induction events with
  | nil => rfl
  | cons e events ih =>
    rw [List.mapM_cons, Function.comp_apply, ofLine_line (h e List.mem_cons_self),
      ih fun e' he' => h e' (List.mem_cons_of_mem e he')]
    rfl

end Event

/-! ## Records under other keys -/

section Renaming

variable {α β : Type}

/-- The record of a job with other keys in it. -/
def JobRecord.map (f : α → β) (x : JobRecord α) : JobRecord β where
  queue := f x.queue
  seq := x.seq
  creator := f x.creator
  status := x.status
  retryCount := x.retryCount
  worker := x.worker.map f
  startedAt := x.startedAt

/-- The records `R'` are the records `R` with every key `k` of `K` called `f k`. -/
structure Renamed (f : α → β) (K : Set α) (R : Replica α) (R' : Replica β) : Prop where
  jobs : ∀ a ∈ K, R'.jobs (f a) = (R.jobs a).map (JobRecord.map f)
  queues : ∀ k ∈ K, R'.queues (f k) = R.queues k
  workers : ∀ k ∈ K, ∀ w ∈ K, R'.workers (f k, f w) = R.workers (k, w)
  queue_mem : ∀ a x, R.jobs a = some x → x.queue ∈ K

namespace Renamed

variable [DecidableEq α] [DecidableEq β] {f : α → β} {K : Set α} {R : Replica α} {R' : Replica β}

omit [DecidableEq α] [DecidableEq β] in
/-- Nothing is recorded at first. -/
theorem empty : Renamed f K .empty .empty where
  jobs _ _ := rfl
  queues _ _ := rfl
  workers _ _ _ _ := rfl
  queue_mem _ _ h := by cases h

/-- The same job is written on both sides. -/
theorem setJob (h : Renamed f K R R') (hf : Set.InjOn f K) {a : α} {x : JobRecord α}
    (ha : a ∈ K) (hx : x.queue ∈ K) : Renamed f K (R.setJob a x) (R'.setJob (f a) (x.map f)) where
  jobs a' ha' := by
    -- the new names of two keys of `K` are the same only if the keys are
    simp only [Replica.setJob, Function.update_apply, hf.eq_iff ha' ha]
    split_ifs with hsame
    · rfl
    · exact h.jobs a' ha'
  queues := h.queues
  workers := h.workers
  queue_mem a' x' hx' := by
    simp only [Replica.setJob, Function.update_apply] at hx'
    split_ifs at hx' with hsame
    · cases hx'
      exact hx
    · exact h.queue_mem a' x' hx'

/-- The same queue is changed on both sides. -/
theorem modifyQueue (h : Renamed f K R R') (hf : Set.InjOn f K) {k : α} (hk : k ∈ K)
    (g : QueueRecord → QueueRecord) :
    Renamed f K (R.modifyQueue k g) (R'.modifyQueue (f k) g) where
  jobs := h.jobs
  queues k' hk' := by
    simp only [Replica.modifyQueue, Function.update_apply, hf.eq_iff hk' hk, h.queues k hk]
    split_ifs with hsame
    · rfl
    · exact h.queues k' hk'
  workers := h.workers
  queue_mem := h.queue_mem

/-- The same worker is changed on both sides. -/
theorem modifyWorker (h : Renamed f K R R') (hf : Set.InjOn f K) {k w : α} (hk : k ∈ K)
    (hw : w ∈ K) (g : WorkerRecord → WorkerRecord) :
    Renamed f K (R.modifyWorker k w g) (R'.modifyWorker (f k) (f w) g) where
  jobs := h.jobs
  queues := h.queues
  workers k' hk' w' hw' := by
    simp only [Replica.modifyWorker, Function.update_apply, Prod.mk.injEq, hf.eq_iff hk' hk,
      hf.eq_iff hw' hw, h.workers k hk w hw]
    split_ifs with hsame
    · rfl
    · exact h.workers k' hk' w' hw'
  queue_mem := h.queue_mem

omit [DecidableEq α] [DecidableEq β] in
/-- Going on with the record of the same job. -/
theorem withJob (h : Renamed f K R R') {a : α} (ha : a ∈ K) {g : JobRecord α → Replica α}
    {g' : JobRecord β → Replica β}
    (hg : ∀ x, x.queue ∈ K → Renamed f K (g x) (g' (x.map f))) :
    Renamed f K (R.withJob a g) (R'.withJob (f a) g') := by
  unfold Replica.withJob
  -- either no record is there on both sides, or one and the same
  rw [h.jobs a ha]
  cases hx : R.jobs a with
  | none => exact h
  | some x => exact hg x (h.queue_mem a x hx)

/-- An event does the same to the records under other keys, if these tell apart what the event and
the records are about. -/
theorem apply (h : Renamed f K R R') (hf : Set.InjOn f K) {e : Event α}
    (he : ∀ k ∈ e.keys, k ∈ K) : Renamed f K (R.apply e) (R'.apply (e.map f)) := by
  cases e with
  | jobEnqueued queue job seq jobType priority creator timestamp =>
    have hqueue : queue ∈ K := he _ (by simp [Event.keys])
    have hjob : job ∈ K := he _ (by simp [Event.keys])
    exact (h.modifyQueue hf hqueue _).setJob hf hjob hqueue
  | jobClaimed job seq worker timestamp =>
    have hjob : job ∈ K := he _ (by simp [Event.keys])
    have hworker : worker ∈ K := he _ (by simp [Event.keys])
    -- the worker is recorded on the queue that the record of the job names
    exact h.withJob hjob fun x hx => (h.modifyWorker hf hx hworker _).setJob hf hjob hx
  | jobCompleted job seq worker durationSecs timestamp =>
    have hjob : job ∈ K := he _ (by simp [Event.keys])
    have hworker : worker ∈ K := he _ (by simp [Event.keys])
    exact h.withJob hjob fun x hx =>
      ((h.modifyWorker hf hx hworker _).modifyQueue hf hx _).setJob hf hjob hx
  | jobFailed job seq worker retryCount permanent timestamp =>
    have hjob : job ∈ K := he _ (by simp [Event.keys])
    have hworker : worker ∈ K := he _ (by simp [Event.keys])
    -- only a permanent failure counts for the queue
    cases permanent with
    | true =>
      exact h.withJob hjob fun x hx =>
        ((h.modifyWorker hf hx hworker _).modifyQueue hf hx _).setJob hf hjob hx
    | false =>
      exact h.withJob hjob fun x hx => (h.modifyWorker hf hx hworker _).setJob hf hjob hx
  | jobExpired job seq previousWorker timestamp =>
    have hjob : job ∈ K := he _ (by simp [Event.keys])
    exact h.withJob hjob fun x hx => h.setJob hf hjob hx
  | queuePauseToggled queue isPaused authority timestamp =>
    have hqueue : queue ∈ K := he _ (by simp [Event.keys])
    exact h.modifyQueue hf hqueue fun q => { q with isPaused := isPaused }
  | workerRegistered queue worker timestamp =>
    have hqueue : queue ∈ K := he _ (by simp [Event.keys])
    have hworker : worker ∈ K := he _ (by simp [Event.keys])
    exact h.modifyWorker hf hqueue hworker fun w => { w with isActive := true }
  | workerDeactivated queue worker authority timestamp =>
    have hqueue : queue ∈ K := he _ (by simp [Event.keys])
    have hworker : worker ∈ K := he _ (by simp [Event.keys])
    exact h.modifyWorker hf hqueue hworker fun w => { w with isActive := false }

/-- The same holds of all events one after the other. -/
theorem foldl (h : Renamed f K R R') (hf : Set.InjOn f K) (events : List (Event α))
    (he : ∀ e ∈ events, ∀ k ∈ e.keys, k ∈ K) :
    Renamed f K (events.foldl Replica.apply R)
      ((events.map (Event.map f)).foldl Replica.apply R') := by
  induction events generalizing R R' with
  | nil => exact h
  | cons e events ih =>
    exact ih (h.apply hf (he e List.mem_cons_self)) fun e' he' =>
      he e' (List.mem_cons_of_mem e he')

end Renamed

end Renaming

/-! ## The lines of a run -/

section Runs

variable {Pubkey : Type} [DecidableEq Pubkey] [Inhabited Pubkey] {D : Derivation Pubkey}
  {σ σ' : Ledger Pubkey} {c : Call Pubkey} {o : Outcome Pubkey} {K : Set Pubkey}

/-- The events of a step can be written: the one text in them is short. -/
theorem Step.fits_events (h : Step D σ c σ' o) (bytes : Pubkey → PublicKey) {e : Event Pubkey}
    (he : e ∈ o.events) : Event.format.Fits (e.map bytes) := by
  cases h with
  | enqueueJob queue fresh unpaused payload jobType =>
    -- the job type is at most 32 bytes long, far below what its length prefix can say
    obtain rfl := List.mem_singleton.mp he
    have hlength : _ < 2 ^ 32 := Nat.lt_of_le_of_lt jobType (by decide)
    exact ⟨trivial, trivial, trivial, hlength, trivial, trivial, trivial⟩
  | closeJob => cases he
  | initializeQueue | setQueuePaused | registerWorker | deactivateWorker | claimJob | completeJob
  | failJobPermanent | failJobRetry | expireJob =>
    obtain rfl := List.mem_singleton.mp he
    simp only [Event.map]
    repeat' constructor

/-- The keys of all accounts are in `K`, with those by which workers are recorded. -/
structure Announced (σ : Ledger Pubkey) (K : Set Pubkey) : Prop where
  job : ∀ a j, σ.jobs.lookup a = some j → a ∈ K
  queue : ∀ k q, σ.queueConfigs.lookup k = some q → k ∈ K
  worker : ∀ x r, σ.workerRegistries.lookup x = some r → r.queue ∈ K ∧ r.worker ∈ K

omit [Inhabited Pubkey] in
theorem Announced.mono {L : Set Pubkey} (h : Announced σ K) (hsub : K ⊆ L) : Announced σ L where
  job a j hj := hsub (h.job a j hj)
  queue k q hq := hsub (h.queue k q hq)
  worker x r hr := ⟨hsub (h.worker x r hr).1, hsub (h.worker x r hr).2⟩

/-- An account that a step creates is in one of its events. -/
theorem Announced.step (h : Announced σ K) (hstep : Step D σ c σ' o)
    (hK : ∀ e ∈ o.events, ∀ k ∈ e.keys, k ∈ K) : Announced σ' K := by
  cases hstep with
  | initializeQueue fresh =>
    have hqueue := hK _ List.mem_cons_self _ List.mem_cons_self
    exact ⟨h.job, Finmap.forall_lookup_insert h.queue hqueue, h.worker⟩
  | registerWorker queue =>
    have hqueue := hK _ List.mem_cons_self _ List.mem_cons_self
    have hworker := hK _ List.mem_cons_self _ (List.mem_cons_of_mem _ List.mem_cons_self)
    exact ⟨h.job, h.queue, Finmap.forall_lookup_insert h.worker ⟨hqueue, hworker⟩⟩
  | enqueueJob queue =>
    have hjob := hK _ List.mem_cons_self _ (List.mem_cons_of_mem _ List.mem_cons_self)
    exact ⟨Finmap.forall_lookup_insert h.job hjob,
      Finmap.forall_lookup_insert h.queue (h.queue _ _ queue.lookup), h.worker⟩
  -- the other steps write accounts that are there
  | setQueuePaused queue =>
    exact ⟨h.job, Finmap.forall_lookup_insert h.queue (h.queue _ _ queue.lookup), h.worker⟩
  | deactivateWorker queue authority registry =>
    obtain ⟨hqueue, hworker⟩ := h.worker _ _ registry.lookup
    exact ⟨h.job, h.queue, Finmap.forall_lookup_insert h.worker ⟨hqueue, hworker⟩⟩
  | claimJob valid | failJobRetry valid =>
    obtain ⟨hqueue, hworker⟩ := h.worker _ _ valid.registry.lookup
    exact ⟨Finmap.forall_lookup_insert h.job (h.job _ _ valid.job.lookup), h.queue,
      Finmap.forall_lookup_insert h.worker ⟨hqueue, hworker⟩⟩
  | completeJob valid | failJobPermanent valid =>
    obtain ⟨hqueue, hworker⟩ := h.worker _ _ valid.registry.lookup
    exact ⟨Finmap.forall_lookup_insert h.job (h.job _ _ valid.job.lookup),
      Finmap.forall_lookup_insert h.queue (h.queue _ _ valid.queue.lookup),
      Finmap.forall_lookup_insert h.worker ⟨hqueue, hworker⟩⟩
  | expireJob queue job =>
    exact ⟨Finmap.forall_lookup_insert h.job (h.job _ _ job.lookup), h.queue, h.worker⟩
  | closeJob => exact ⟨Finmap.forall_lookup_erase h.job, h.queue, h.worker⟩

/-- The keys in the events of a log. -/
def tracedKeys (log : List (Entry Pubkey)) : List Pubkey :=
  (Machine.trace Outcome.events log).flatMap Event.keys

/-- In every run, every account is in one of the events. -/
theorem announced_run (calls : List (Call Pubkey)) :
    Announced ((program D).run calls) {k | k ∈ tracedKeys ((program D).log calls)} := by
  refine step_induction (D := D) (P := fun log σ => Announced σ {k | k ∈ tracedKeys log}) ?_ ?_
    calls
  · -- there are no accounts at first
    refine ⟨fun a j hj => ?_, fun k q hq => ?_, fun x r hr => ?_⟩
    · cases hj
    · cases hq
    · cases hr
  · intro log σ c σ' o _ ih hstep
    have hkeys : tracedKeys (log ++ [⟨σ, c, o, σ'⟩]) =
        tracedKeys log ++ o.events.flatMap Event.keys := by
      rw [tracedKeys, Machine.trace_snoc, List.flatMap_append]
      rfl
    refine (ih.mono fun k hk => ?_).step hstep fun e he k hk => ?_
    · rw [Set.mem_ofPred_eq, hkeys]
      exact List.mem_append_left _ hk
    · rw [Set.mem_ofPred_eq, hkeys]
      exact List.mem_append_right _ (List.mem_flatMap.mpr ⟨e, he, hk⟩)

/-- The log as bytes. -/
def lines (bytes : Pubkey → PublicKey) (log : List (Entry Pubkey)) : List (List UInt8) :=
  (Machine.trace Outcome.events log).map (Event.line bytes)

/-- In every run, all events can be written. -/
theorem fits_run (bytes : Pubkey → PublicKey) (calls : List (Call Pubkey)) :
    ∀ e ∈ Machine.trace Outcome.events ((program D).log calls),
      Event.format.Fits (e.map bytes) := by
  refine step_induction (D := D) (P := fun log _ => ∀ e ∈ Machine.trace Outcome.events log,
    Event.format.Fits (e.map bytes)) (fun e he => by cases he) ?_ calls
  intro log σ c σ' o _ ih hstep e he
  rw [Machine.trace_snoc] at he
  rcases List.mem_append.mp he with he | he
  · exact ih e he
  · exact hstep.fits_events bytes he

/-- In every run, the lines of the log are read back as the events. -/
theorem events_of_lines (bytes : Pubkey → PublicKey) (calls : List (Call Pubkey)) :
    (lines bytes ((program D).log calls)).mapM Event.ofLine =
      some ((Machine.trace Outcome.events ((program D).log calls)).map (Event.map bytes)) :=
  Event.mapM_ofLine (fits_run bytes calls)

/-- In every run, the lines of the log are read back as its events, with the bytes of their keys. If
these bytes show different keys of the events as different keys, an observer builds from them
records of all that is stored: the status, number, creator and retries of every live job and who
holds it, and the counters of every queue and of every worker. -/
theorem log_replayed (bytes : Pubkey → PublicKey) (calls : List (Call Pubkey)) :
    let events := (Machine.trace Outcome.events ((program D).log calls)).map (Event.map bytes)
    (lines bytes ((program D).log calls)).mapM Event.ofLine = some events ∧
      (Set.InjOn bytes {k | k ∈ tracedKeys ((program D).log calls)} →
        let R := events.foldl Replica.apply .empty
        (∀ a j, ((program D).run calls).jobs.lookup a = some j →
          ∃ x : JobRecord Pubkey, x.Shows j ∧ R.jobs (bytes a) = some (x.map bytes)) ∧
        (∀ k q, ((program D).run calls).queueConfigs.lookup k = some q →
          R.queues (bytes k) = q.record) ∧
        ∀ x r, ((program D).run calls).workerRegistries.lookup x = some r →
          R.workers (bytes r.queue, bytes r.worker) = r.record) := by
  refine ⟨events_of_lines bytes calls, fun hbytes => ?_⟩
  -- the records under the program's keys show the ledger, and these are the same records renamed
  have hmirrors := mirrors_run (D := D) calls
  have hannounced := announced_run (D := D) calls
  have hrenamed := Renamed.empty.foldl hbytes
    (Machine.trace Outcome.events ((program D).log calls))
    fun e he k hk => List.mem_flatMap.mpr ⟨e, he, hk⟩
  refine ⟨fun a j hj => ?_, fun k q hq => ?_, fun x r hr => ?_⟩
  · obtain ⟨x, hx, hshows⟩ := hmirrors.job a j hj
    exact ⟨x, hshows, by rw [hrenamed.jobs a (hannounced.job a j hj), hx, Option.map_some]⟩
  · rw [hrenamed.queues k (hannounced.queue k q hq), hmirrors.queue k q hq]
  · obtain ⟨hqueue, hworker⟩ := hannounced.worker x r hr
    rw [hrenamed.workers _ hqueue _ hworker, hmirrors.worker x r hr]

/-- Different bytes for the keys of the sample day. -/
def Sample.bytes : Key → PublicKey
  | .wallet n => Vector.replicate 32 (UInt8.ofNat n)
  | .queue .. => Vector.replicate 32 10
  | .worker .. => Vector.replicate 32 11
  | .job .. => Vector.replicate 32 12

/-- From the bytes of the log of the sample day but for the close, the job is seen as completed. -/
theorem log_replayed_day :
    ∃ events, (lines Sample.bytes ((program Derivation.free).log Sample.day.dropLast)).mapM
        Event.ofLine = some events ∧
      ∃ x, (events.foldl Replica.apply .empty).jobs (Sample.bytes (Sample.job 0)) = some x ∧
        x.status = .completed ∧ x.retryCount = 1 := by
  have hdistinct : ∀ k ∈ tracedKeys ((program Derivation.free).log Sample.day.dropLast),
      ∀ k' ∈ tracedKeys ((program Derivation.free).log Sample.day.dropLast),
        Sample.bytes k = Sample.bytes k' → k = k' := by decide +kernel
  obtain ⟨hread, hrecords⟩ := log_replayed (D := Derivation.free) Sample.bytes
    Sample.day.dropLast
  obtain ⟨hjobs, -⟩ := hrecords fun k hk k' hk' h => hdistinct k hk k' hk' h
  have hjob : (((program Derivation.free).run Sample.day.dropLast).jobs.lookup
      (Sample.job 0)).map (fun j => (j.status, j.retryCount)) = some (.completed, 1) := by
    decide +kernel
  obtain ⟨j, hj, hstored⟩ := Option.map_eq_some_iff.mp hjob
  obtain ⟨hstatus, hretries⟩ := Prod.mk.inj hstored
  obtain ⟨x, hshows, hx⟩ := hjobs _ j hj
  exact ⟨_, hread, _, hx, hshows.status.trans hstatus, hshows.retryCount.trans hretries⟩

end Runs

end SolQueue
