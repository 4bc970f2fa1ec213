import SolQueue.Clients
import SolQueue.ResultBuffer

/-!
# What the fields of a job keep

Texts and byte strings of any length are stored in fields of fixed size. This file says which of
them can be read back.

* `Job.Tells`, `failJob_tells_iff`: a failure reason is readable unless it is cut within a
  character.
* `Padding`, `payload_recoverable_iff`: payloads are told apart up to zeros at their end.
* `ReadAs`, `jobType_readAs_iff`: all readers read the type of a job if it has no null character.
-/

namespace SolQueue

open Utf8

variable {Pubkey : Type}

/-! ## Failure reasons -/

/-- What is read from the result of the job is a first part of the reason, all of it if it has at
most 128 bytes, and not empty if the reason starts with an ASCII character; the bytes stored are
text. -/
structure Job.Tells (job : Job Pubkey) (reason : String) : Prop where
  start : ∃ rest, job.resultStr ++ rest = reason
  whole : reason.asBytes.length ≤ 128 → job.resultStr = reason
  nonempty : ∀ c rest, reason.toList = c :: rest → c.toNat < 0x80 → job.resultStr ≠ ""
  text : (decode (job.result.toList.take job.resultLen.toNat)).isSome

/-- `failJob` stores the first 128 bytes of the reason. -/
theorem Job.take_result_withFailure (job : Job Pubkey) (reason : String) (retries : UInt8) :
    (job.withFailure reason retries).result.toList.take
        (job.withFailure reason retries).resultLen.toNat = reason.asBytes.take 128 := by
  rw [(job.withFailure_stores reason retries).take_result, List.take_eq_take_iff]
  omega

/-- A job that stores the first 128 bytes of a reason tells it exactly if they are text. -/
theorem Job.tells_iff {job : Job Pubkey} {reason : String}
    (h : job.result.toList.take job.resultLen.toNat = reason.asBytes.take 128) :
    job.Tells reason ↔ reason.asBytes.length ≤ 128 ∨ String.Pos.Raw.IsValid reason ⟨128⟩ := by
  constructor
  · intro htells
    have htext := htells.text
    rw [h] at htext
    rcases Nat.le_total reason.asBytes.length 128 with hle | hle
    · exact .inl hle
    · exact .inr ((isSome_decode_take_iff hle).mp htext)
  · rintro (hle | hvalid)
    · -- all of the reason is stored
      rw [List.take_of_length_le hle] at h
      have hstr : job.resultStr = reason := by rw [Job.resultStr, h, decode_asBytes]; rfl
      refine ⟨⟨"", by rw [hstr, String.append_empty]⟩, fun _ => hstr, ?_, by simp [h]⟩
      rintro c rest hreason - hempty
      rw [hstr] at hempty
      simp [hempty] at hreason
    · -- a first part of it is, and it has 128 bytes
      obtain ⟨t, u, ht, rfl⟩ := exists_append_of_isValid hvalid
      have hstr : job.resultStr = t := by rw [Job.resultStr, h, ht]; rfl
      have hlength : 128 ≤ (t ++ u).asBytes.length := by
        rw [length_asBytes]
        exact hvalid.le_utf8ByteSize
      have hbytes := decode_eq_some_iff.mp ht
      have hsize := congrArg List.length hbytes
      rw [List.length_take] at hsize
      refine ⟨⟨u, by rw [hstr]⟩, fun hle => ?_, ?_, by rw [h, ht]; rfl⟩
      · rw [List.take_of_length_le hle, asBytes_append] at hbytes
        -- then there is no rest
        have hu : u = "" := String.asBytes_injective (List.self_eq_append_right.mp hbytes)
        rw [hstr, hu, String.append_empty]
      · rintro - - - - hempty
        obtain rfl : t = "" := hstr.symm.trans hempty
        have hzero : "".asBytes.length = 0 := rfl
        omega

variable [DecidableEq Pubkey]

section Calls

variable [Inhabited Pubkey] {D : Derivation Pubkey} {σ σ' : Ledger Pubkey} {now : Int64}
  {n : String} {s : UInt64} {o : Outcome Pubkey}

/-- A committed `failJob` call leaves a job that stores the first 128 bytes of the reason. -/
theorem Step.stores_reason {ctx : WorkerJob Pubkey} {params : FailJobParams}
    (h : Step D σ ⟨now, .failJob ctx n s params⟩ σ' o) :
    ∃ j, σ'.jobs.lookup ctx.job = some j ∧
      j.result.toList.take j.resultLen.toNat = params.reason.asBytes.take 128 := by
  cases h with
  | @failJobPermanent _ _ _ _ _ _ _ j retries | @failJobRetry _ _ _ _ _ _ _ j retries =>
    exact ⟨_, Finmap.lookup_insert _, Job.take_result_withFailure j params.reason retries⟩

/-- The job a committed `failJob` call leaves tells the reason exactly if it has at most 128 bytes
or its first 128 bytes end with a character. -/
theorem failJob_tells_iff {ctx : WorkerJob Pubkey} {params : FailJobParams}
    (hok : execute D σ ⟨now, .failJob ctx n s params⟩ = .ok (σ', o)) :
    ∃ j, σ'.jobs.lookup ctx.job = some j ∧
      (j.Tells params.reason ↔ params.reason.asBytes.length ≤ 128 ∨
        String.Pos.Raw.IsValid params.reason ⟨128⟩) := by
  obtain ⟨j, hj, hstored⟩ := (execute_eq_ok.mp hok).stores_reason
  exact ⟨j, hj, Job.tells_iff hstored⟩

end Calls

/-- The holder of the first sample job reports a failure. -/
def Sample.failFor (reason : String) : Call Key :=
  ⟨3, .failJob ⟨worker, queue, registry worker, job 0⟩ name 0 ⟨reason⟩⟩

/-- A reason of 129 bytes whose last character starts with the last byte stored. -/
def Sample.cutReason : String :=
  String.ofList (List.replicate 127 'a' ++ ['é'])

/-- A short reason is told. -/
theorem failJob_tells_iff_short :
    ∃ σ' : Ledger Key, ∃ j, σ'.jobs.lookup (Sample.job 0) = some j ∧ j.Tells "too wet: 82 %" := by
  have hok : execute Derivation.free ((program Derivation.free).run (Sample.day.take 4))
      (Sample.failFor "too wet: 82 %") = .ok _ := rfl
  obtain ⟨j, hj, htells⟩ := failJob_tells_iff hok
  exact ⟨_, j, hj, htells.mpr (.inl (by decide))⟩

/-- A reason cut within a character is read as the placeholder. -/
theorem not_tells_of_cut :
    ¬∀ (calls : List (Call Key)) (reason : String) (σ' : Ledger Key) (o : Outcome Key)
      (j : Job Key),
        execute Derivation.free ((program Derivation.free).run calls) (Sample.failFor reason) =
          .ok (σ', o) →
        σ'.jobs.lookup (Sample.job 0) = some j → j.Tells reason := by
  intro h
  obtain ⟨σ', o, hok⟩ : ∃ σ' o, execute Derivation.free ((program Derivation.free).run
      (Sample.day.take 4)) (Sample.failFor Sample.cutReason) = .ok (σ', o) := ⟨_, _, rfl⟩
  obtain ⟨j, hj, hstored⟩ := (execute_eq_ok.mp hok).stores_reason
  have htells := (Job.tells_iff hstored).mp (h _ _ σ' o j hok hj)
  revert htells
  decide +kernel

/-! ## Payloads -/

section Payloads

variable [Inhabited Pubkey] {D : Derivation Pubkey} {σ σ' τ τ' : Ledger Pubkey}
  {now now' : Int64} {n n' : String} {s s' : UInt64} {o o' : Outcome Pubkey}
  {ctx ctx' : EnqueueJob Pubkey} {params params' : EnqueueJobParams}

/-- What a committed `enqueueJob` call stores of its arguments. -/
theorem Step.stores_params (h : Step D σ ⟨now, .enqueueJob ctx n s params⟩ σ' o) :
    ∃ j, σ'.jobs.lookup ctx.job = some j ∧ params.payload.length ≤ 512 ∧
      j.payload = zeroPadded 512 params.payload ∧ params.jobType.asBytes.length ≤ 32 ∧
      j.jobType = zeroPadded 32 params.jobType.asBytes ∧
      o.events = [.jobEnqueued ctx.queueConfig ctx.job j.seq params.jobType params.priority
        ctx.creator now] := by
  cases h with
  | enqueueJob queue fresh unpaused payload jobType next_eq total_eq =>
    exact ⟨_, Finmap.lookup_insert _, payload, rfl, jobType, rfl, rfl⟩

/-- Two committed `enqueueJob` calls, in whatever states, leave jobs whose payload fields differ
exactly if neither payload is the other one with zeros at its end. -/
theorem payload_recoverable_iff
    (hok : execute D σ ⟨now, .enqueueJob ctx n s params⟩ = .ok (σ', o))
    (hok' : execute D τ ⟨now', .enqueueJob ctx' n' s' params'⟩ = .ok (τ', o')) :
    ∃ j j', σ'.jobs.lookup ctx.job = some j ∧ τ'.jobs.lookup ctx'.job = some j' ∧
      (j.payload ≠ j'.payload ↔
        ¬(Padding params.payload params'.payload ∨ Padding params'.payload params.payload)) := by
  obtain ⟨j, hj, hlength, hpayload, -⟩ := (execute_eq_ok.mp hok).stores_params
  obtain ⟨j', hj', hlength', hpayload', -⟩ := (execute_eq_ok.mp hok').stores_params
  refine ⟨j, j', hj, hj', not_congr ?_⟩
  rw [hpayload, hpayload']
  exact zeroPadded_eq_iff hlength hlength'

end Payloads

/-- The producer enqueues the first sample job with some type and payload. -/
def Sample.enqueueWith (jobType : String) (payload : List UInt8) : Call Key :=
  ⟨1, .enqueueJob ⟨producer, queue, job 0⟩ name 0 ⟨name, jobType, payload, 0, none⟩⟩

/-- Payloads that end differently are told apart. -/
theorem payload_recoverable_iff_bytes :
    ∃ (σ' τ' : Ledger Key) (j j' : Job Key), σ'.jobs.lookup (Sample.job 0) = some j ∧
      τ'.jobs.lookup (Sample.job 0) = some j' ∧ j.payload ≠ j'.payload := by
  have hok : execute Derivation.free ((program Derivation.free).run (Sample.day.take 2))
      (Sample.enqueueWith "email" [1, 0, 2]) = .ok _ := rfl
  have hok' : execute Derivation.free ((program Derivation.free).run (Sample.day.take 2))
      (Sample.enqueueWith "email" [1, 0, 3]) = .ok _ := rfl
  obtain ⟨j, j', hj, hj', hiff⟩ := payload_recoverable_iff hok hok'
  refine ⟨_, _, j, j', hj, hj', hiff.mpr ?_⟩
  rintro (⟨k, hk⟩ | ⟨k, hk⟩) <;> simp at hk

/-- No function recovers every payload: zeros at the end are lost. -/
theorem not_recoverable_of_zeros :
    ¬∃ recover : Job Key → List UInt8, ∀ (calls : List (Call Key)) (payload : List UInt8)
      (σ' : Ledger Key) (o : Outcome Key) (j : Job Key),
        execute Derivation.free ((program Derivation.free).run calls)
          (Sample.enqueueWith "email" payload) = .ok (σ', o) →
        σ'.jobs.lookup (Sample.job 0) = some j → recover j = payload := by
  rintro ⟨recover, h⟩
  have hshort := h (Sample.day.take 2) [1] _ _ _ rfl rfl
  have hlong := h (Sample.day.take 2) [1, 0] _ _ _ rfl rfl
  -- both calls store the same job
  have hsame : zeroPadded 512 [1, 0] = zeroPadded 512 [1] :=
    (zeroPadded_eq_iff (by decide) (by decide)).mpr (.inr ⟨1, rfl⟩)
  simp only [EnqueueJob.newJob, hsame] at hshort hlong
  exact absurd (hshort.symm.trans hlong) (by decide)

/-! ## Job types -/

/-- All three readers read the type of the job as `s`: the program, the dashboard, which decodes
with `T`, and the command line, which decodes with `T'`. -/
structure ReadAs (T T' : TextDecoder) (job : Job Pubkey) (s : String) : Prop where
  program : job.jobTypeStr = s
  dashboard : T.trimNull job.jobType.toList = s
  cli : T'.stripNulls job.jobType.toList = s

omit [DecidableEq Pubkey] in
/-- A stored type is read as it was if it has no null character, and else by none of the readers. -/
theorem readAs_iff {T T' : TextDecoder} {job : Job Pubkey} {s : String}
    (hlength : s.asBytes.length ≤ 32) (hjob : job.jobType = zeroPadded 32 s.asBytes) :
    ReadAs T T' job s ↔ '\x00' ∉ s.toList := by
  have hprogram : job.jobTypeStr = String.ofList (s.toList.takeWhile (· ≠ '\x00')) := by
    rw [Job.jobTypeStr, hjob, toList_zeroPadded hlength, untilNull_append_replicate,
      untilNull_asBytes, decode_asBytes]
    rfl
  constructor
  · rintro ⟨h, -, -⟩
    exact ofList_takeWhile_eq_iff.mp (hprogram.symm.trans h)
  · intro hnull
    have hfilter : s.toList.filter (· ≠ '\x00') = s.toList :=
      List.filter_eq_self.mpr fun c hc => by
        rw [decide_eq_true_eq]
        rintro rfl
        exact hnull hc
    refine ⟨hprogram.trans (ofList_takeWhile_eq_iff.mpr hnull), ?_, ?_⟩
    · rw [hjob, T.trimNull_zeroPadded hlength, ofList_takeWhile_eq_iff.mpr hnull]
    · rw [hjob, T'.stripNulls_zeroPadded hlength, hfilter, String.ofList_toList]

/-- The job a committed `enqueueJob` call leaves is announced with its type, and all three readers
read that type exactly if it has no null character. -/
theorem jobType_readAs_iff [Inhabited Pubkey] {D : Derivation Pubkey} {σ σ' : Ledger Pubkey}
    {now : Int64} {ctx : EnqueueJob Pubkey} {n : String} {s : UInt64} {params : EnqueueJobParams}
    {o : Outcome Pubkey} (hok : execute D σ ⟨now, .enqueueJob ctx n s params⟩ = .ok (σ', o))
    (T T' : TextDecoder) :
    ∃ j, σ'.jobs.lookup ctx.job = some j ∧
      o.events = [.jobEnqueued ctx.queueConfig ctx.job j.seq params.jobType params.priority
        ctx.creator now] ∧
      (ReadAs T T' j params.jobType ↔ '\x00' ∉ params.jobType.toList) := by
  obtain ⟨j, hj, -, -, hlength, hjobType, hevents⟩ := (execute_eq_ok.mp hok).stores_params
  exact ⟨j, hj, hevents, readAs_iff hlength hjobType⟩

/-- A type of 32 bytes is read by all readers. -/
theorem jobType_readAs_iff_full :
    ∃ (σ' : Ledger Key) (j : Job Key), σ'.jobs.lookup (Sample.job 0) = some j ∧
      ReadAs .bytewise .bytewise j "résumé\tthumbnail at 64 by 64px" := by
  have hok : execute Derivation.free ((program Derivation.free).run (Sample.day.take 2))
      (Sample.enqueueWith "résumé\tthumbnail at 64 by 64px" []) = .ok _ := rfl
  obtain ⟨j, hj, -, hread⟩ := jobType_readAs_iff hok .bytewise .bytewise
  exact ⟨_, j, hj, hread.mpr (by decide)⟩

/-- A type with a null character is not read as it was. -/
theorem not_readAs_of_null :
    ¬∀ (calls : List (Call Key)) (jobType : String) (σ' : Ledger Key) (o : Outcome Key)
      (j : Job Key) (T T' : TextDecoder),
        execute Derivation.free ((program Derivation.free).run calls)
          (Sample.enqueueWith jobType []) = .ok (σ', o) →
        σ'.jobs.lookup (Sample.job 0) = some j → ReadAs T T' j jobType := by
  intro h
  have hok : execute Derivation.free ((program Derivation.free).run (Sample.day.take 2))
      (Sample.enqueueWith "resize\x00image" []) = .ok _ := rfl
  obtain ⟨j, hj, -, -, hlength, hjobType, -⟩ := (execute_eq_ok.mp hok).stores_params
  have hread := h _ _ _ _ j .bytewise .bytewise hok hj
  exact (readAs_iff hlength hjobType).mp hread (by decide)

end SolQueue
