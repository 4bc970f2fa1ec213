import SolQueue.Invariants

/-!
# The result of a job

A job stores its result in a buffer of 128 bytes and a length. Every instruction that writes one
writes the other and clears the rest of the buffer, so the two always hold what was written last.

* `Job.Stores`: the buffer and the length hold some bytes and nothing else.
* `Instruction.resultWritten`, `lastResult`: what a call writes, and what was written last.
* `ResultChange`, `stores_run`: in every run, a job stores what was written to it last.
* `result_eq_lastResult`: what this says of the buffer and the length.
-/

namespace SolQueue

variable {Pubkey : Type}

/-! ## Buffer and length -/

/-- The result of the job is `bytes`: the length is theirs, and only zeros follow them. -/
structure Job.Stores (j : Job Pubkey) (bytes : List UInt8) : Prop where
  length_le : bytes.length ≤ 128
  result_eq : j.result = zeroPadded 128 bytes
  resultLen_eq : j.resultLen = UInt8.ofNat bytes.length

namespace Job.Stores

variable {j : Job Pubkey} {bytes : List UInt8}

/-- The length survives the conversion to a byte. -/
theorem toNat_resultLen (h : j.Stores bytes) : j.resultLen.toNat = bytes.length := by
  have hle := h.length_le
  rw [h.resultLen_eq, UInt8.toNat_ofNat']
  omega

theorem resultLen_le (h : j.Stores bytes) : j.resultLen.toNat ≤ 128 :=
  h.toNat_resultLen ▸ h.length_le

/-- The bytes up to the length are those stored. -/
theorem take_result (h : j.Stores bytes) :
    j.result.toList.take j.resultLen.toNat = bytes := by
  rw [h.toNat_resultLen, h.result_eq, take_toList_zeroPadded h.length_le]

/-- From the length on there are zeros. -/
theorem result_eq_zero (h : j.Stores bytes) {i : ℕ} (hi : i < 128)
    (hle : j.resultLen.toNat ≤ i) : j.result[i] = 0 := by
  rw [h.toNat_resultLen] at hle
  simp only [h.result_eq, zeroPadded, Vector.getElem_ofFn, List.getD_eq_default _ _ hle]

end Job.Stores

/-! ## Calls that write a result -/

/-- The job a call writes the result of, and the result: an enqueue empties it. -/
def Instruction.resultWritten : Instruction Pubkey → Option (Pubkey × List UInt8)
  | .enqueueJob ctx _ _ _ => some (ctx.job, [])
  | .completeJob ctx _ _ params => some (ctx.job, params.result)
  | .failJob ctx _ _ params =>
    some (ctx.job, params.reason.asBytes.take (min params.reason.asBytes.length 128))
  | .expireJob ctx _ _ => some (ctx.job, ExpireJob.note)
  | .initializeQueue .. | .setQueuePaused .. | .registerWorker .. | .deactivateWorker ..
  | .claimJob .. | .closeJob .. => none

variable [DecidableEq Pubkey]

/-- What a committed call writes to the result of the job at `a`, if it does. -/
def Entry.resultOn (a : Pubkey) (e : Entry Pubkey) : Option (List UInt8) :=
  match e.call.instruction.resultWritten with
  | some (k, bytes) => if a = k then some bytes else none
  | none => none

/-- What was written last to the result of the job at `a`. -/
def lastResult (a : Pubkey) (log : List (Entry Pubkey)) : List UInt8 :=
  (log.filterMap (Entry.resultOn a)).getLast?.getD []

theorem lastResult_snoc {a : Pubkey} {log : List (Entry Pubkey)} {e : Entry Pubkey} :
    lastResult a (log ++ [e]) = (e.resultOn a).getD (lastResult a log) := by
  unfold lastResult
  rw [List.filterMap_append, List.filterMap_cons, List.filterMap_nil]
  cases e.resultOn a with
  | none => rw [List.append_nil, Option.getD_none]
  | some bytes => rw [List.getLast?_concat, Option.getD_some, Option.getD_some]

/-- The ways a call can leave the job `j'` at `a`: with the result it writes, or with the one it
finds. -/
inductive ResultChange (a : Pubkey) (e : Entry Pubkey) (j' : Job Pubkey) : Prop where
  | written {bytes : List UInt8} (written : e.resultOn a = some bytes) (stores : j'.Stores bytes)
  | kept {j : Job Pubkey} (written : e.resultOn a = none) (found : e.before.jobs.lookup a = some j)
      (result : j'.result = j.result) (resultLen : j'.resultLen = j.resultLen)

namespace ResultChange

variable {a k : Pubkey} {e : Entry Pubkey} {j j' : Job Pubkey} {bytes : List UInt8}

/-- A call that writes the result of the job it stores. -/
theorem of_insert (hwritten : e.call.instruction.resultWritten = some (k, bytes))
    (hjobs : e.after.jobs = e.before.jobs.insert k j) (hstores : j.Stores bytes)
    (hj' : e.after.jobs.lookup a = some j') : ResultChange a e j' := by
  rw [hjobs, Finmap.lookup_insert_eq_ite] at hj'
  split_ifs at hj' with ha
  · obtain rfl := Option.some.inj hj'
    exact .written (by rw [Entry.resultOn, hwritten, ← ha]; exact if_pos rfl) hstores
  · exact .kept (by rw [Entry.resultOn, hwritten]; exact if_neg ha) hj' rfl rfl

/-- A call that writes no result. -/
theorem of_none (hwritten : e.call.instruction.resultWritten = none)
    (hj : e.before.jobs.lookup a = some j) (hresult : j'.result = j.result)
    (hlen : j'.resultLen = j.resultLen) : ResultChange a e j' :=
  .kept (by rw [Entry.resultOn, hwritten]) hj hresult hlen

/-- The job stores what was written last, given that it did before. -/
theorem stores (h : ResultChange a e j') {log : List (Entry Pubkey)}
    (hold : ∀ j, e.before.jobs.lookup a = some j → j.Stores (lastResult a log)) :
    j'.Stores (lastResult a (log ++ [e])) := by
  rw [lastResult_snoc]
  cases h with
  | written written stores => rwa [written, Option.getD_some]
  | kept written found result resultLen =>
    obtain ⟨hle, hresult, hlen⟩ := hold _ found
    rw [written, Option.getD_none]
    exact ⟨hle, result.trans hresult, resultLen.trans hlen⟩

end ResultChange

omit [DecidableEq Pubkey] in
/-- A failure stores as much of its reason as fits. -/
theorem Job.withFailure_stores (j : Job Pubkey) (reason : String) (retries : UInt8) :
    (j.withFailure reason retries).Stores
      (reason.asBytes.take (min reason.asBytes.length 128)) where
  length_le := (List.length_take_le _ _).trans (min_le_right _ _)
  result_eq := rfl
  resultLen_eq := by
    rw [List.length_take, min_eq_left (min_le_left _ _)]
    rfl

section Runs

variable [Inhabited Pubkey] {D : Derivation Pubkey} {σ σ' : Ledger Pubkey} {c : Call Pubkey}
  {o : Outcome Pubkey}

/-- A step leaves each job with the result it writes, or with the one it finds. -/
theorem Step.resultChange (h : Step D σ c σ' o) {a : Pubkey} {j' : Job Pubkey}
    (hj' : σ'.jobs.lookup a = some j') : ResultChange a ⟨σ, c, o, σ'⟩ j' := by
  cases h with
  | initializeQueue | setQueuePaused | registerWorker | deactivateWorker =>
    exact .of_none rfl hj' rfl rfl
  | enqueueJob => exact .of_insert rfl rfl ⟨Nat.zero_le _, rfl, rfl⟩ hj'
  | claimJob valid =>
    rw [Finmap.lookup_insert_eq_ite] at hj'
    split_ifs at hj' with ha
    · obtain rfl := Option.some.inj hj'
      have hj := ha ▸ valid.job.lookup
      exact .of_none rfl hj rfl rfl
    · exact .of_none rfl hj' rfl rfl
  | completeJob valid held length => exact .of_insert rfl rfl ⟨length, rfl, rfl⟩ hj'
  | @failJobPermanent _ _ _ _ params _ _ j retries =>
    obtain ⟨hle, hresult, hlen⟩ := j.withFailure_stores params.reason retries
    exact .of_insert rfl rfl ⟨hle, hresult, hlen⟩ hj'
  | @failJobRetry _ _ _ _ params _ _ j retries =>
    obtain ⟨hle, hresult, hlen⟩ := j.withFailure_stores params.reason retries
    exact .of_insert rfl rfl ⟨hle, hresult, hlen⟩ hj'
  | expireJob => exact .of_insert rfl rfl ⟨by decide, rfl, rfl⟩ hj'
  | closeJob =>
    rw [Finmap.lookup_erase_eq_ite] at hj'
    split_ifs at hj'
    exact .of_none rfl hj' rfl rfl

/-- In every run, a job stores what was written to it last. -/
theorem stores_run (calls : List (Call Pubkey)) :
    ∀ a j, ((program D).run calls).jobs.lookup a = some j →
      j.Stores (lastResult a ((program D).log calls)) := by
  refine step_induction (D := D)
    (P := fun log (σ : Ledger Pubkey) => ∀ a j, σ.jobs.lookup a = some j →
      j.Stores (lastResult a log))
    (by rintro _ _ ⟨⟩) ?_ calls
  intro log σ c σ' o _ ih hstep a j' hj'
  exact (hstep.resultChange hj').stores (ih a)

/-- In every run, the length of a job's result is at most 128, from there on the buffer is zero,
and up to there it is what was written last. -/
theorem result_eq_lastResult (calls : List (Call Pubkey)) {a : Pubkey} {j : Job Pubkey}
    (hj : ((program D).run calls).jobs.lookup a = some j) :
    j.resultLen.toNat ≤ 128 ∧
      (∀ (i : ℕ) (hi : i < 128), j.resultLen.toNat ≤ i → j.result[i] = 0) ∧
      j.result.toList.take j.resultLen.toNat = lastResult a ((program D).log calls) := by
  have hstores := stores_run calls a j hj
  exact ⟨hstores.resultLen_le, fun _ hi hle => hstores.result_eq_zero hi hle, hstores.take_result⟩

/-- The byte that the sample job completes with replaces the note of its expiry. -/
theorem result_eq_lastResult_day :
    ∃ j, ((program Derivation.free).run (Sample.day.take 9)).jobs.lookup (Sample.job 0) = some j ∧
      j.resultLen.toNat ≤ 128 ∧ j.result.toList.take j.resultLen.toNat = [7] := by
  obtain ⟨j, hj⟩ : ∃ j, ((program Derivation.free).run (Sample.day.take 9)).jobs.lookup
      (Sample.job 0) = some j := ⟨_, rfl⟩
  obtain ⟨hle, -, hresult⟩ := result_eq_lastResult (Sample.day.take 9) hj
  have hlast : lastResult (Sample.job 0)
      ((program Derivation.free).log (Sample.day.take 9)) = [7] := by decide +kernel
  exact ⟨j, hj, hle, hresult.trans hlast⟩

end Runs

end SolQueue
