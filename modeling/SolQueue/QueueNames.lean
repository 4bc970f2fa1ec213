import SolQueue.Invariants

/-!
# Stored names and addresses of queues

A queue sits at the address derived from the bytes of the name it was created with, and stores
these bytes padded with nulls. The text read back is the name only up to its first null character.

* `Named`, `named_run`: the queues of a run are those of its `initializeQueue` calls.
* `Identified`: every queue sits at the address derived from the name read back, and no two queues
  share a stored or read name.
* `identified_iff_noNull`: this holds exactly if no queue was created with a null character in its
  name.
-/

namespace SolQueue

open Utf8

variable {Pubkey : Type}

/-- The name a call creates a queue with, and where. -/
def Instruction.newQueue : Instruction Pubkey → Option (Pubkey × String)
  | .initializeQueue ctx params => some (ctx.queueConfig, params.queueName)
  | _ => none

variable [DecidableEq Pubkey]

/-- The queue `q` at `k` was created with the name `n`. -/
structure NamedBy (D : Derivation Pubkey) (k : Pubkey) (q : QueueConfig Pubkey) (n : String) :
    Prop where
  find : D.findProgramAddress (.queue n.asBytes) = some (k, q.bump)
  length : n.asBytes.length ≤ 32
  stored : q.queueName = zeroPadded 32 n.asBytes

/-- The queues of a ledger are those created in the log. -/
structure Named (D : Derivation Pubkey) (log : List (Entry Pubkey)) (σ : Ledger Pubkey) : Prop where
  created : ∀ k q, σ.queueConfigs.lookup k = some q →
    ∃ e ∈ log, ∃ n, e.call.instruction.newQueue = some (k, n) ∧ NamedBy D k q n
  live : ∀ e ∈ log, ∀ k n, e.call.instruction.newQueue = some (k, n) →
    ∃ q, σ.queueConfigs.lookup k = some q ∧ NamedBy D k q n

omit [DecidableEq Pubkey] in
/-- A queue keeps the name it was created with. -/
theorem NamedBy.of_same {D : Derivation Pubkey} {k : Pubkey} {q q' : QueueConfig Pubkey}
    {n : String} (h : NamedBy D k q n) (hsame : SameSettings q q') : NamedBy D k q' n :=
  ⟨hsame.bump ▸ h.find, h.length, hsame.queueName.trans h.stored⟩

omit [DecidableEq Pubkey] in
/-- The text read from the stored name is the name up to its first null character. -/
theorem NamedBy.nameStr_eq {D : Derivation Pubkey} {k : Pubkey} {q : QueueConfig Pubkey}
    {n : String} (h : NamedBy D k q n) :
    q.nameStr = String.ofList (n.toList.takeWhile (· ≠ '\x00')) := by
  rw [QueueConfig.nameStr, h.stored, toList_zeroPadded h.length, untilNull_append_replicate,
    untilNull_asBytes, decode_asBytes]
  rfl

omit [DecidableEq Pubkey] in
/-- A queue sits at the address of the name read back exactly if its name has no null character. -/
theorem NamedBy.create_nameStr_iff {D : Derivation Pubkey} {k : Pubkey} {q : QueueConfig Pubkey}
    {n : String} (h : NamedBy D k q n) :
    D.createProgramAddress (.queue q.nameStr.asBytes) q.bump = some k ↔ '\x00' ∉ n.toList := by
  have hcreate := D.create_of_find h.find
  rw [← ofList_takeWhile_eq_iff, ← h.nameStr_eq]
  constructor
  · intro hread
    -- one address has one name
    have hseeds := (D.create_injective hread hcreate).1
    exact String.asBytes_injective (Seeds.queue.inj hseeds)
  · rintro hname
    rwa [hname]

section Runs

variable [Inhabited Pubkey] {D : Derivation Pubkey} {σ σ' : Ledger Pubkey} {c : Call Pubkey}
  {o : Outcome Pubkey}

/-- A step that creates a queue leaves it with its name, and every other step creates none. -/
theorem Step.namedBy_newQueue (h : Step D σ c σ' o) {k : Pubkey} {n : String}
    (hnew : c.instruction.newQueue = some (k, n)) :
    ∃ q, σ'.queueConfigs.lookup k = some q ∧ NamedBy D k q n := by
  cases h with
  | initializeQueue fresh length =>
    cases hnew
    exact ⟨_, Finmap.lookup_insert _, fresh.find, length, rfl⟩
  | _ => cases hnew

omit [Inhabited Pubkey] in
/-- A queue found after one is written back with its settings was there with the same settings. -/
theorem queue_kept_of_insert {m : Finmap fun _ : Pubkey => QueueConfig Pubkey} {x k : Pubkey}
    {q₀ q₁ q' : QueueConfig Pubkey} (h : m.lookup x = some q₀)
    (hq' : (m.insert x q₁).lookup k = some q') (hsame : SameSettings q₀ q₁) :
    ∃ q, m.lookup k = some q ∧ SameSettings q q' := by
  rw [Finmap.lookup_insert_eq_ite] at hq'
  split_ifs at hq' with hk
  · cases hq'
    exact ⟨q₀, hk ▸ h, hsame⟩
  · exact ⟨q', hq', rfl, rfl, rfl, rfl, rfl⟩

/-- A queue found after a step was created by it, or was there with the same settings. -/
theorem Step.queue_origin (h : Step D σ c σ' o) {k : Pubkey} {q' : QueueConfig Pubkey}
    (hq' : σ'.queueConfigs.lookup k = some q') :
    (∃ n, c.instruction.newQueue = some (k, n) ∧ NamedBy D k q' n) ∨
      ∃ q, σ.queueConfigs.lookup k = some q ∧ SameSettings q q' := by
  cases h with
  | initializeQueue fresh length =>
    rw [Finmap.lookup_insert_eq_ite] at hq'
    split_ifs at hq' with hk
    · cases hq'
      exact .inl ⟨_, by rw [hk]; rfl, by rw [hk]; exact fresh.find, length, rfl⟩
    · exact .inr ⟨q', hq', rfl, rfl, rfl, rfl, rfl⟩
  | setQueuePaused queue authority =>
    exact .inr (queue_kept_of_insert queue.lookup hq' ⟨rfl, rfl, rfl, rfl, rfl⟩)
  | enqueueJob queue fresh unpaused payload jobType next_eq total_eq =>
    exact .inr (queue_kept_of_insert queue.lookup hq' ⟨rfl, rfl, rfl, rfl, rfl⟩)
  | completeJob valid | failJobPermanent valid =>
    exact .inr (queue_kept_of_insert valid.queue.lookup hq' ⟨rfl, rfl, rfl, rfl, rfl⟩)
  | registerWorker | deactivateWorker | claimJob | failJobRetry | expireJob | closeJob =>
    exact .inr ⟨q', hq', rfl, rfl, rfl, rfl, rfl⟩

/-- A step keeps the queues and the names they were created with in step. -/
theorem Named.step {log : List (Entry Pubkey)} (h : Named D log σ) (hstep : Step D σ c σ' o) :
    Named D (log ++ [⟨σ, c, o, σ'⟩]) σ' where
  created k q' hq' := by
    rcases hstep.queue_origin hq' with ⟨n, hnew, hnamed⟩ | ⟨q, hq, hsame⟩
    · exact ⟨_, List.mem_append_right _ List.mem_cons_self, n, hnew, hnamed⟩
    · obtain ⟨e, he, n, hnew, hnamed⟩ := h.created k q hq
      exact ⟨e, List.mem_append_left _ he, n, hnew, hnamed.of_same hsame⟩
  live e he k n hnew := by
    rcases List.mem_append.mp he with he | he
    · obtain ⟨q, hq, hnamed⟩ := h.live e he k n hnew
      have hchange := hstep.queueChange k
      rw [hq] at hchange
      obtain ⟨q', hq', hsame, -⟩ := hchange.persists
      exact ⟨q', hq', hnamed.of_same hsame⟩
    · obtain rfl := List.mem_singleton.mp he
      exact hstep.namedBy_newQueue hnew

/-- In every run, the queues are those created, with the names they were created with. -/
theorem named_run (calls : List (Call Pubkey)) :
    Named D ((program D).log calls) ((program D).run calls) :=
  step_induction (P := Named D) ⟨fun _ _ h => (nomatch h), fun _ h => (nomatch h)⟩
    (fun _ _ _ _ _ _ h hstep => h.step hstep) calls

/-- Every queue sits at the address derived from the name read from it and its bump, and no two
queues share a stored name or a name read. -/
structure Identified (D : Derivation Pubkey) (σ : Ledger Pubkey) : Prop where
  address : ∀ k q, σ.queueConfigs.lookup k = some q →
    D.createProgramAddress (.queue q.nameStr.asBytes) q.bump = some k
  stored : ∀ k k' q q', σ.queueConfigs.lookup k = some q → σ.queueConfigs.lookup k' = some q' →
    q.queueName = q'.queueName → k = k'
  read : ∀ k k' q q', σ.queueConfigs.lookup k = some q → σ.queueConfigs.lookup k' = some q' →
    q.nameStr = q'.nameStr → k = k'

/-- In every run, the queues are identified by their names exactly if no queue was created with a
null character in its name. -/
theorem identified_iff_noNull (calls : List (Call Pubkey)) :
    Identified D ((program D).run calls) ↔
      ∀ e ∈ (program D).log calls, ∀ k n, e.call.instruction.newQueue = some (k, n) →
        '\x00' ∉ n.toList := by
  have hnamed := named_run (D := D) calls
  constructor
  · intro h e he k n hnew
    obtain ⟨q, hq, hby⟩ := hnamed.live e he k n hnew
    exact hby.create_nameStr_iff.mp (h.address k q hq)
  · intro h
    have hby : ∀ k q, ((program D).run calls).queueConfigs.lookup k = some q →
        ∃ n, NamedBy D k q n ∧ q.nameStr = n := by
      intro k q hq
      obtain ⟨e, he, n, hnew, hby⟩ := hnamed.created k q hq
      exact ⟨n, hby, hby.nameStr_eq.trans (ofList_takeWhile_eq_iff.mpr (h e he k n hnew))⟩
    -- one name has one canonical address
    have hread : ∀ k k' q q', ((program D).run calls).queueConfigs.lookup k = some q →
        ((program D).run calls).queueConfigs.lookup k' = some q' → q.nameStr = q'.nameStr →
        k = k' := by
      intro k k' q q' hq hq' hname
      obtain ⟨n, hn, hnq⟩ := hby k q hq
      obtain ⟨n', hn', hnq'⟩ := hby k' q' hq'
      have hfind := hn.find
      rw [← hnq, hname, hnq', hn'.find] at hfind
      exact (Prod.mk.inj (Option.some.inj hfind)).1.symm
    refine ⟨fun k q hq => ?_, fun k k' q q' hq hq' hstored => ?_, hread⟩
    · obtain ⟨n, hn, hname⟩ := hby k q hq
      rw [hname]
      exact D.create_of_find hn.find
    · exact hread k k' q q' hq hq' (by rw [QueueConfig.nameStr, hstored, QueueConfig.nameStr])

end Runs

/-- The sample authority creates a queue with some name. -/
def Sample.createNamed (n : String) : Call Key :=
  ⟨0, .initializeQueue ⟨authority, .queue n.asBytes 255⟩ ⟨n, 2, 60⟩⟩

/-- Two queues share a stored name if one of them was created with a null character in its name. -/
theorem not_identified_of_null :
    ¬∀ calls : List (Call Key),
      Identified Derivation.free ((program Derivation.free).run calls) := by
  intro h
  have hstored := (h [Sample.createNamed "jobs", Sample.createNamed "jobs\x00"]).stored
    (.queue "jobs".asBytes 255) (.queue "jobs\x00".asBytes 255) _ _ rfl rfl
  exact absurd (hstored (by decide)) (by decide)

end SolQueue
