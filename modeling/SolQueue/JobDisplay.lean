import SolQueue.Dashboard
import SolQueue.Program

/-!
# Which jobs the dashboard shows right

The dashboard takes the optional worker of a job for a field of fixed size and does not know of its
start time. It shows few jobs as they are: those whose bytes happen to mean the same where they are
read.

* `ReadsRight`: the jobs it shows as they are.
* `parseJob_eq_item_iff`: it shows exactly these.
-/

namespace SolQueue

open Utf8

/-- The jobs that are shown as they are, given their result. With a worker, the completion time is
read from the start time and the tag before it; without one, everything after it is read from the
fields that follow. -/
inductive ReadsRight (T : TextDecoder) (job : Job PublicKey) (result : String) : Prop where
  | unstarted (worker : job.assignedWorker.isSome) (started : job.startedAt = none)
      (completed : job.completedAt = none) (empty : result = "")
  | finished {s c : Int64} (worker : job.assignedWorker.isSome) (started : job.startedAt = some s)
      (completed : job.completedAt = some c) (time : c.toInt = toNumber (256 * s.toInt + 1))
      (text : 0 ≤ s.toInt ∧ result = "" ∨ s.toInt < 0 ∧ 0 ∈ i64Bytes c ∧
        result = T.toString (255 :: 1 :: untilNull (i64Bytes c)))
  | unassigned (worker : job.assignedWorker = none) (completed : job.completedAt = none)
      (empty : result = "") (enqueued : job.enqueuedAt.toInt = 0)
      (creator : job.creator.toList = List.replicate 8 0 ++
        (encodeOption i64Bytes job.startedAt ++
          List.replicate (24 - (encodeOption i64Bytes job.startedAt).length) 0))

/-! ## Single fields -/

section Fields

variable {T : TextDecoder} {bytes data rest : List UInt8} {n m : ℕ} {v : ℤ}

theorem toBase58_injective {key key' : List UInt8} (h : key.length = key'.length) :
    toBase58 key = toBase58 key' ↔ key = key' :=
  ⟨Base58.encode_injective h, congrArg _⟩

/-- A worker other than the key of zeros is shown. -/
theorem shownWorker_one (hlength : bytes.length = 32) (hne : bytes ≠ List.replicate 32 0) :
    shownWorker 1 bytes = some (toBase58 bytes) := by
  have hzero : toBase58 (List.replicate 32 0) = "11111111111111111111111111111111" :=
    Base58.encode_replicate_zero 32
  rw [shownWorker, if_pos rfl, Option.filter_some, if_pos]
  rw [decide_eq_true_eq, ← hzero, ne_eq,
    toBase58_injective (by rw [hlength, List.length_replicate])]
  exact hne

/-- No time is shown exactly for zero. -/
theorem shownTime_eq_none : shownTime (toNumber v) = none ↔ v = 0 := by
  rw [shownTime]
  split_ifs with hv
  · exact iff_of_true rfl (toNumber_eq_zero.mp hv)
  · exact iff_of_false not_false fun h => hv (toNumber_eq_zero.mpr h)

theorem shownTime_eq_some {c : ℤ} (hc : c ≠ 0) : shownTime v = some c ↔ v = c := by
  rw [shownTime]
  split_ifs with hv
  · simp [hv, hc.symm]
  · simp

theorem trimNull_zero_cons : T.trimNull (0 :: bytes) = "" :=
  T.toString_asBytes ""

/-- Nothing is read where a zero stands. -/
theorem trimNull_slice (h : data.drop n = 0 :: rest) (hnm : n < m) :
    T.trimNull (slice data n m) = "" := by
  obtain ⟨k, hk⟩ := Nat.exists_eq_add_of_lt hnm
  have hcount : m - n = k + 1 := by omega
  rw [slice, h, hcount, List.take_succ_cons, trimNull_zero_cons]

end Fields

/-! ## The result as it is stored -/

namespace Job.Displayable

variable {job : Job PublicKey} {jobType result : String} {n : ℕ}

theorem result_toList (h : job.Displayable jobType result) :
    job.result.toList = result.asBytes ++ List.replicate (128 - result.asBytes.length) 0 := by
  rw [h.result_eq, toList_zeroPadded h.result_length]

theorem zero_notMem (h : job.Displayable jobType result) : 0 ∉ result.asBytes :=
  fun hzero => h.result_noNull (zero_mem_asBytes_iff.mp hzero)

/-- The first zero stands after the text. -/
theorem length_le_of_zero (h : job.Displayable jobType result)
    (hzero : job.result.toList[n]? = some 0) : result.asBytes.length ≤ n := by
  by_contra hlt
  rw [h.result_toList, List.getElem?_append_left (by omega)] at hzero
  exact h.zero_notMem (List.mem_of_getElem? hzero)

/-- After the text there are zeros. -/
theorem drop_result (h : job.Displayable jobType result) (hn : result.asBytes.length ≤ n) :
    job.result.toList.drop n = List.replicate (128 - n) 0 := by
  rw [h.result_toList, List.drop_append, List.drop_of_length_le hn, List.nil_append,
    List.drop_replicate]
  congr 1
  omega

/-- Only the empty text starts with a zero. -/
theorem eq_empty_of_zero (h : job.Displayable jobType result)
    (hzero : job.result.toList[0]? = some 0) : result = "" := by
  apply String.asBytes_injective
  exact List.length_eq_zero_iff.mp (Nat.le_zero.mp (h.length_le_of_zero hzero))

/-- The empty text is stored as zeros. -/
theorem result_of_empty (h : job.Displayable jobType "") :
    job.result.toList = List.replicate 128 0 :=
  h.drop_result (n := 0) (Nat.zero_le _)

end Job.Displayable

/-! ## Jobs with a worker -/

section Worker

variable {T : TextDecoder} {job : Job PublicKey} {jobPDA w : PublicKey} {data : List UInt8}
  {jobType result : String}

/-- With a worker, all fields up to the start time are read right. -/
theorem parseJob_eq_item_iff_of_worker (h : StoredAs job data)
    (hjob : job.Displayable jobType result) (hworker : job.assignedWorker = some w) :
    ∃ rest, parseJob T jobPDA data = some (job.item jobPDA jobType result) ↔
      shownTime (toNumber (leInt (slice (encodeOption i64Bytes job.startedAt ++
        (encodeOption i64Bytes job.completedAt ++ (job.result.toList ++ rest))) 0 8))) =
          job.completedAt.map Int64.toInt ∧
      T.trimNull (slice (encodeOption i64Bytes job.startedAt ++
        (encodeOption i64Bytes job.completedAt ++ (job.result.toList ++ rest))) 8 136) =
          result := by
  obtain ⟨tag, tail, padding, htail, -, hparse⟩ := parseJob_eq T jobPDA h hjob
  simp only [Job.encodeTail, hworker, encodeOption_some, List.cons_append, List.append_assoc,
    List.cons.injEq] at htail
  obtain ⟨rfl, hfields⟩ := htail
  have hw : tail.drop 0 = _ := hfields.symm
  have hcreator := drop_add_of_drop hw Vector.length_toList
  have henqueued := drop_add_of_drop hcreator Vector.length_toList
  have hstarted := drop_add_of_drop henqueued length_i64Bytes
  norm_num at hcreator henqueued hstarted
  have hshown : shownWorker 1 (slice tail 0 32) = some (toBase58 w.toList) := by
    rw [slice_of_drop hw Vector.length_toList,
      shownWorker_one Vector.length_toList (hjob.worker_ne w hworker)]
  have hcreatorRead : slice tail 32 64 = job.creator.toList :=
    slice_of_drop hcreator Vector.length_toList
  have henqueuedRead : toNumber (leInt (slice tail 64 72)) = job.enqueuedAt.toInt := by
    rw [slice_of_drop henqueued length_i64Bytes, leInt_i64Bytes, toNumber_of_le hjob.enqueuedAt_le]
  refine ⟨job.resultLen :: job.bump :: padding, ?_⟩
  rw [hparse, ← hstarted, slice_drop, slice_drop]
  simp [Job.item, hworker, hshown, hcreatorRead, henqueuedRead]

variable {rest : List UInt8} {s c : Int64}

/-- A job that was not started nor completed is shown with the bytes before its result as its
completion time, and with an empty result. -/
theorem reads_unstarted_iff (hjob : job.Displayable jobType result) :
    shownTime (toNumber (leInt (slice (0 :: 0 :: (job.result.toList ++ rest)) 0 8))) = none ∧
        T.trimNull (slice (0 :: 0 :: (job.result.toList ++ rest)) 8 136) = result ↔
      result = "" := by
  have hlength : job.result.toList.length = 128 := Vector.length_toList
  have htime : slice (0 :: 0 :: (job.result.toList ++ rest)) 0 8 =
      0 :: 0 :: job.result.toList.take 6 := by
    rw [slice, List.drop_zero, List.take_succ_cons, List.take_succ_cons,
      List.take_append_of_le_length (by omega)]
  rw [htime, shownTime_eq_none, leInt_eq_zero_iff (by simp)]
  constructor
  · rintro ⟨hzero, -⟩
    obtain ⟨b, tail, hresult⟩ := List.exists_cons_of_length_eq_add_one hlength
    rw [hresult] at hzero
    refine hjob.eq_empty_of_zero ?_
    rw [hresult, hzero b (by simp), List.getElem?_cons_zero]
  · rintro rfl
    rw [hjob.result_of_empty]
    exact ⟨by simp, trimNull_slice rfl (by decide)⟩

/-- A small number is not the one that its first six bytes make after the bytes `0` and `1`, and not
close to it. -/
theorem ne_of_shifted {v z : ℤ} {low high : ℕ} (hlow : low < 2 ^ 48) (hhigh : high < 2 ^ 16)
    (hz : z.natAbs ≤ 2 ^ 53) (hmod : z % 2 ^ 64 = low + 2 ^ 48 * high)
    (hv : v % 2 ^ 64 = 256 + 65536 * low) : v ≠ z ∧ v.natAbs ≠ 2 ^ 53 + 1 := by
  have hsmall : high ≤ 32 ∨ 65504 ≤ high := by omega
  constructor
  · rintro rfl
    -- otherwise the last two bytes would be those of 256
    have heq : 256 + 65535 * low = 2 ^ 48 * high := by omega
    omega
  · omega

/-- A completion time without a start time is read together with its tag, as another number. -/
theorem shownTime_ne_of_unstarted (hc : c.toInt.natAbs ≤ 2 ^ 53) (hne : c.toInt ≠ 0) :
    shownTime (toNumber (leInt (slice (0 :: 1 :: (i64Bytes c ++ rest)) 0 8))) ≠ some c.toInt := by
  have htime : slice (0 :: 1 :: (i64Bytes c ++ rest)) 0 8 = 0 :: 1 :: (i64Bytes c).take 6 := by
    rw [slice, List.drop_zero, List.take_succ_cons, List.take_succ_cons,
      List.take_append_of_le_length (by simp)]
  rw [htime, ne_eq, shownTime_eq_some hne]
  intro hread
  have hbytes : i64Bytes c = (i64Bytes c).take 6 ++ (i64Bytes c).drop 6 :=
    (List.take_append_drop 6 _).symm
  have hlow : ((i64Bytes c).take 6).length = 6 := by simp
  have hhigh : ((i64Bytes c).drop 6).length = 2 := by simp
  obtain ⟨-, -, hmod⟩ := (leInt_eq_iff length_i64Bytes).mp (leInt_i64Bytes (x := c))
  obtain ⟨-, -, hmodRead⟩ := (leInt_eq_iff (show (0 :: 1 :: (i64Bytes c).take 6).length = 8
    by simp)).mp rfl
  have hltLow : leNat ((i64Bytes c).take 6) < 256 ^ 6 := hlow ▸ leNat_lt
  have hltHigh : leNat ((i64Bytes c).drop 6) < 256 ^ 2 := hhigh ▸ leNat_lt
  rw [hbytes, leNat_append, hlow] at hmod
  rw [leNat_cons, leNat_cons] at hmodRead
  obtain ⟨hz, hfar⟩ := ne_of_shifted hltLow hltHigh hc (hmod.trans (by push_cast; rfl))
    (hmodRead.trans (by push_cast [UInt8.toNat_zero, UInt8.toNat_one]; ring))
  rcases eq_of_toNumber_eq hread hc with heq | heq
  · exact hz heq
  · exact hfar heq

/-- A start time without a completion time is read together with its tag, which is not zero. -/
theorem shownTime_ne_of_uncompleted :
    shownTime (toNumber (leInt (slice (1 :: (i64Bytes s ++ rest)) 0 8))) ≠ none := by
  have htime : slice (1 :: (i64Bytes s ++ rest)) 0 8 = 1 :: (i64Bytes s).take 7 := by
    rw [slice, List.drop_zero, List.take_succ_cons, List.take_append_of_le_length (by simp)]
  rw [htime, ne_eq, shownTime_eq_none, leInt_eq_zero_iff (by simp)]
  intro hzero
  exact absurd (hzero 1 List.mem_cons_self) (by decide)

/-- The time read from a start time and the tag before it. -/
theorem leInt_one_cons {low : List UInt8} {top : UInt8} (hs : i64Bytes s = low ++ [top])
    (hlow : low.length = 7) (hle : s.toInt.natAbs ≤ 2 ^ 53) :
    leInt (1 :: low) = 256 * s.toInt + 1 ∧
      (0 ≤ s.toInt ∧ top = 0 ∨ s.toInt < 0 ∧ top = 255) := by
  obtain ⟨-, -, hmod⟩ := (leInt_append_singleton hlow).mp (hs ▸ leInt_i64Bytes (x := s))
  have hlt : leNat low < 256 ^ low.length := leNat_lt
  have htop := top.toNat_lt
  have hfirst : (1 : UInt8).toNat = 1 := rfl
  have hlast : (255 : UInt8).toNat = 255 := rfl
  rw [hlow] at hlt
  constructor
  · rw [leInt_eq_iff (by rw [List.length_cons, hlow]), leNat_cons, hfirst]
    push_cast
    omega
  · rw [← UInt8.toNat_inj, ← UInt8.toNat_inj, UInt8.toNat_zero, hlast]
    omega

/-- The result of a finished job is read from the end of its start time on. -/
theorem trimNull_finished_iff (hjob : job.Displayable jobType result) {top : UInt8}
    (htop : 0 ≤ s.toInt ∧ top = 0 ∨ s.toInt < 0 ∧ top = 255) :
    T.trimNull (top :: 1 :: (i64Bytes c ++ job.result.toList.take 118)) = result ↔
      0 ≤ s.toInt ∧ result = "" ∨ s.toInt < 0 ∧ 0 ∈ i64Bytes c ∧
        result = T.toString (255 :: 1 :: untilNull (i64Bytes c)) := by
  rcases htop with ⟨hs, rfl⟩ | ⟨hs, rfl⟩
  · rw [trimNull_zero_cons, eq_comm]
    simp [hs, hs.not_gt]
  · have hread : T.trimNull (255 :: 1 :: (i64Bytes c ++ job.result.toList.take 118)) =
        T.toString (255 :: 1 :: untilNull (i64Bytes c ++ job.result.toList.take 118)) := rfl
    rw [hread]
    by_cases hzero : 0 ∈ i64Bytes c
    · rw [untilNull_append_of_mem hzero, eq_comm]
      simp [hs, hs.not_ge, hzero]
    · -- then the text read is longer than the one stored
      refine iff_of_false (fun hresult => ?_) (by simp [hs.not_ge, hzero])
      obtain ⟨zeros, hstart⟩ : ∃ zeros, untilNull (job.result.toList.take 118) =
          result.asBytes.take 118 ++ zeros := by
        rw [hjob.result_toList, List.take_append]
        exact ⟨_, untilNull_append_of_notMem
          (fun hmem => hjob.zero_notMem (List.mem_of_mem_take hmem)) _⟩
      rw [untilNull_append_of_notMem hzero, hstart, T.toString_last_cons] at hresult
      have hread := T.length_le (1 :: (i64Bytes c ++ (result.asBytes.take 118 ++ zeros)))
      have hlength := congrArg (fun text => text.asBytes.length) hresult
      have hmark : "\uFFFD".asBytes.length = 3 := rfl
      have hle := hjob.result_length
      simp only [asBytes_append, List.length_append, List.length_cons, List.length_take,
        length_i64Bytes, hmark] at hlength hread
      omega

/-- A finished job is shown as it is if its completion time is what is read of its start time, and
its result what is read of both. -/
theorem reads_finished_iff (hjob : job.Displayable jobType result)
    (hs : s.toInt.natAbs ≤ 2 ^ 53) (hc : c.toInt ≠ 0) :
    shownTime (toNumber (leInt (slice (1 :: (i64Bytes s ++ 1 :: (i64Bytes c ++
          (job.result.toList ++ rest)))) 0 8))) = some c.toInt ∧
        T.trimNull (slice (1 :: (i64Bytes s ++ 1 :: (i64Bytes c ++
          (job.result.toList ++ rest)))) 8 136) = result ↔
      c.toInt = toNumber (256 * s.toInt + 1) ∧
        (0 ≤ s.toInt ∧ result = "" ∨ s.toInt < 0 ∧ 0 ∈ i64Bytes c ∧
          result = T.toString (255 :: 1 :: untilNull (i64Bytes c))) := by
  obtain ⟨low, top, hbytes, hlow⟩ := exists_i64Bytes_append s
  obtain ⟨hvalue, htop⟩ := leInt_one_cons hbytes hlow hs
  have hresult : job.result.toList.length = 128 := Vector.length_toList
  have htime : slice (1 :: (i64Bytes s ++ 1 :: (i64Bytes c ++ (job.result.toList ++ rest)))) 0 8 =
      1 :: low := by
    rw [slice, List.drop_zero, List.take_succ_cons, hbytes, List.append_assoc]
    exact congrArg _ (hlow ▸ List.take_left)
  have htext : slice (1 :: (i64Bytes s ++ 1 :: (i64Bytes c ++ (job.result.toList ++ rest)))) 8 136 =
      top :: 1 :: (i64Bytes c ++ job.result.toList.take 118) := by
    have hdrop : (1 :: (i64Bytes s ++ 1 :: (i64Bytes c ++ (job.result.toList ++ rest)))).drop 8 =
        top :: 1 :: (i64Bytes c ++ (job.result.toList ++ rest)) := by
      rw [List.drop_succ_cons, hbytes, List.append_assoc]
      exact hlow ▸ List.drop_left
    rw [slice, hdrop, List.take_succ_cons, List.take_succ_cons, List.take_append, length_i64Bytes,
      List.take_of_length_le (by simp), List.take_append_of_le_length (by omega)]
  rw [htime, htext, hvalue, shownTime_eq_some hc, trimNull_finished_iff hjob htop, eq_comm]

end Worker

/-! ## Jobs without a worker -/

section NoWorker

variable {T : TextDecoder} {job : Job PublicKey} {jobPDA : PublicKey} {data : List UInt8}
  {jobType result : String}

/-- The fields between the creator of a job and its result. -/
def Job.timeBytes (job : Job PublicKey) : List UInt8 :=
  i64Bytes job.enqueuedAt ++
    (encodeOption i64Bytes job.startedAt ++ encodeOption i64Bytes job.completedAt)

/-- Without a worker, all fields after it are read 32 bytes too late. -/
theorem parseJob_eq_item_iff_of_no_worker (h : StoredAs job data)
    (hjob : job.Displayable jobType result) (hworker : job.assignedWorker = none) :
    ∃ rest, parseJob T jobPDA data = some (job.item jobPDA jobType result) ↔
      slice (job.timeBytes ++ (job.result.toList ++ rest)) 0 32 = job.creator.toList ∧
      toNumber (leInt (slice (job.timeBytes ++ (job.result.toList ++ rest)) 32 40)) =
        job.enqueuedAt.toInt ∧
      shownTime (toNumber (leInt (slice (job.timeBytes ++ (job.result.toList ++ rest)) 40 48))) =
        job.completedAt.map Int64.toInt ∧
      T.trimNull (slice (job.timeBytes ++ (job.result.toList ++ rest)) 48 176) = result := by
  obtain ⟨tag, tail, padding, htail, hlength, hparse⟩ := parseJob_eq T jobPDA h hjob
  simp only [Job.encodeTail, hworker, encodeOption_none, List.cons_append, List.append_assoc,
    List.nil_append, List.cons.injEq] at htail
  obtain ⟨rfl, hfields⟩ := htail
  have hcreator : tail.drop 0 = _ := hfields.symm
  have hrest := drop_add_of_drop hcreator Vector.length_toList
  norm_num at hrest
  refine ⟨job.resultLen :: job.bump :: padding, ?_⟩
  have hshown : shownWorker 0 (slice tail 0 32) = none := rfl
  simp only [Job.timeBytes, List.append_assoc]
  rw [hparse, ← hrest, slice_drop, slice_drop, slice_drop, slice_drop]
  simp only [Job.item, hworker, hshown, Option.some.injEq, JobItem.mk.injEq, Option.map_none,
    true_and]
  rw [toBase58_injective]
  rw [length_slice, hlength, Vector.length_toList]
  rfl

theorem length_timeBytes (job : Job PublicKey) :
    10 ≤ job.timeBytes.length ∧ job.timeBytes.length ≤ 26 := by
  rw [Job.timeBytes, List.length_append, List.length_append, length_i64Bytes]
  cases job.startedAt <;> cases job.completedAt <;> simp

/-- Eight bytes of a text without null characters do not read as a small number. -/
theorem toNumber_slice_ne (hjob : job.Displayable jobType result) {q : ℕ}
    (hq : q + 8 ≤ result.asBytes.length) {z : ℤ} (hz : z.natAbs ≤ 2 ^ 53) :
    toNumber (leInt (slice job.result.toList q (q + 8))) ≠ z := by
  have hlength : 7 < (result.asBytes.drop q).length := by
    rw [List.length_drop]
    omega
  have hslice : slice job.result.toList q (q + 8) =
      (result.asBytes.drop q).take 7 ++ [(result.asBytes.drop q)[7]] := by
    rw [slice, hjob.result_toList, List.drop_append_of_le_length (by omega),
      Nat.add_sub_cancel_left, List.take_append_of_le_length (by omega),
      List.take_succ_eq_append_getElem hlength]
  have hmem : (result.asBytes.drop q)[7] ∈ result.asBytes :=
    List.mem_of_mem_drop (List.getElem_mem hlength)
  have hfar := lt_natAbs_leInt (show ((result.asBytes.drop q).take 7).length = 7 by simp; omega)
    (fun h => hjob.zero_notMem (h ▸ hmem)) (fun h => last_notMem_asBytes (h ▸ hmem))
  rw [hslice]
  intro hread
  rcases eq_of_toNumber_eq hread hz with heq | heq <;> omega

section Windows

variable (job : Job PublicKey) {rest : List UInt8} {m : ℕ}

/-- After the place where the creator is read, only the result and what follows it are. -/
theorem drop_timeBytes_append (hm : 26 ≤ m) (hm' : m ≤ 48) :
    (job.timeBytes ++ (job.result.toList ++ rest)).drop m =
      job.result.toList.drop (m - job.timeBytes.length) ++ rest := by
  obtain ⟨hmin, hmax⟩ := length_timeBytes job
  have hresult : job.result.toList.length = 128 := Vector.length_toList
  rw [List.drop_append, List.drop_of_length_le (by omega), List.nil_append,
    List.drop_append_of_le_length (by omega)]

theorem slice_timeBytes_append (hm : 26 ≤ m) (hm' : m ≤ 48) :
    slice (job.timeBytes ++ (job.result.toList ++ rest)) m (m + 8) =
      slice job.result.toList (m - job.timeBytes.length) (m - job.timeBytes.length + 8) := by
  obtain ⟨hmin, hmax⟩ := length_timeBytes job
  have hresult : job.result.toList.length = 128 := Vector.length_toList
  rw [slice, slice, drop_timeBytes_append job hm hm', Nat.add_sub_cancel_left,
    Nat.add_sub_cancel_left, List.take_append_of_le_length (by rw [List.length_drop]; omega)]

/-- The text read is empty if the stored one ends before it. -/
theorem trimNull_timeBytes_append (hjob : job.Displayable jobType result)
    (hle : result.asBytes.length ≤ 48 - job.timeBytes.length) :
    T.trimNull (slice (job.timeBytes ++ (job.result.toList ++ rest)) 48 176) = "" := by
  obtain ⟨hmin, hmax⟩ := length_timeBytes job
  obtain ⟨k, hk⟩ : ∃ k, 128 - (48 - job.timeBytes.length) = k + 1 :=
    ⟨127 - (48 - job.timeBytes.length), by omega⟩
  have hdrop : (job.timeBytes ++ (job.result.toList ++ rest)).drop 48 =
      0 :: (List.replicate k 0 ++ rest) := by
    rw [drop_timeBytes_append job (by decide) le_rfl, hjob.drop_result hle, hk, List.replicate_succ,
      List.cons_append]
  exact trimNull_slice hdrop (by decide)

end Windows

/-- With an empty result, the numbers read after the creator are zeros. -/
theorem reads_unassigned_of_empty (hjob : job.Displayable jobType "") {rest : List UInt8} :
    (slice (job.timeBytes ++ (job.result.toList ++ rest)) 0 32 = job.creator.toList ∧
      toNumber (leInt (slice (job.timeBytes ++ (job.result.toList ++ rest)) 32 40)) =
        job.enqueuedAt.toInt ∧
      shownTime (toNumber (leInt (slice (job.timeBytes ++ (job.result.toList ++ rest)) 40 48))) =
        job.completedAt.map Int64.toInt) ↔
      job.completedAt = none ∧ job.enqueuedAt.toInt = 0 ∧
        job.creator.toList = List.replicate 8 0 ++ (encodeOption i64Bytes job.startedAt ++
          List.replicate (24 - (encodeOption i64Bytes job.startedAt).length) 0) := by
  obtain ⟨hmin, hmax⟩ := length_timeBytes job
  have hzeros {q : ℕ} (hq : q ≤ 38) : slice job.result.toList q (q + 8) = List.replicate 8 0 := by
    rw [slice, hjob.result_of_empty, List.drop_replicate, List.take_replicate,
      Nat.add_sub_cancel_left, Nat.min_eq_left (by omega)]
  have hread : toNumber (leInt (List.replicate 8 0)) = 0 := by decide
  have hcreator : slice (job.timeBytes ++ (job.result.toList ++ rest)) 0 32 =
      job.timeBytes ++ List.replicate (32 - job.timeBytes.length) 0 := by
    rw [slice, hjob.result_of_empty, List.drop_zero, List.take_append,
      List.take_of_length_le (by omega), List.take_append_of_le_length
        (by rw [List.length_replicate]; omega), List.take_replicate, Nat.min_eq_left (by omega)]
  rw [slice_timeBytes_append job (by decide) (by decide),
    slice_timeBytes_append job (by decide) (by decide), hzeros (by omega), hzeros (by omega), hread,
    hcreator]
  -- the zeros after the start time are the tag of the missing completion time and the result
  have hfields (hcompleted : job.completedAt = none) (henqueued : job.enqueuedAt.toInt = 0) :
      job.timeBytes ++ List.replicate (32 - job.timeBytes.length) 0 =
        List.replicate 8 0 ++ (encodeOption i64Bytes job.startedAt ++
          List.replicate (24 - (encodeOption i64Bytes job.startedAt).length) 0) := by
    have hzero : i64Bytes job.enqueuedAt = List.replicate 8 0 := by
      rw [show job.enqueuedAt = 0 from Int64.toInt_inj.mp henqueued]
      rfl
    rw [Job.timeBytes, hcompleted, hzero]
    cases job.startedAt with
    | none => rfl
    | some t => simp [List.replicate]
  constructor
  · rintro ⟨hcreator, henqueued, hcompleted⟩
    have hnone : job.completedAt = none := Option.map_eq_none_iff.mp hcompleted.symm
    exact ⟨hnone, henqueued.symm, hcreator.symm.trans (hfields hnone henqueued.symm)⟩
  · rintro ⟨hcompleted, henqueued, hcreator⟩
    refine ⟨(hfields hcompleted henqueued).trans hcreator.symm, henqueued.symm, ?_⟩
    rw [hcompleted]
    rfl

/-- A job without a worker is shown as it is if what stands where its fields are read are zeros, and
its creator is the start of the fields that follow it. -/
theorem reads_unassigned_iff (hjob : job.Displayable jobType result) {rest : List UInt8} :
    (slice (job.timeBytes ++ (job.result.toList ++ rest)) 0 32 = job.creator.toList ∧
      toNumber (leInt (slice (job.timeBytes ++ (job.result.toList ++ rest)) 32 40)) =
        job.enqueuedAt.toInt ∧
      shownTime (toNumber (leInt (slice (job.timeBytes ++ (job.result.toList ++ rest)) 40 48))) =
        job.completedAt.map Int64.toInt ∧
      T.trimNull (slice (job.timeBytes ++ (job.result.toList ++ rest)) 48 176) = result) ↔
      result = "" ∧ job.completedAt = none ∧ job.enqueuedAt.toInt = 0 ∧
        job.creator.toList = List.replicate 8 0 ++ (encodeOption i64Bytes job.startedAt ++
          List.replicate (24 - (encodeOption i64Bytes job.startedAt).length) 0) := by
  obtain ⟨hmin, hmax⟩ := length_timeBytes job
  constructor
  · rintro ⟨hcreator, henqueued, hcompleted, htext⟩
    -- a text that reaches into the enqueue time makes it too large; another one is not read
    have hshort : result.asBytes.length ≤ 48 - job.timeBytes.length := by
      by_contra hlong
      rw [slice_timeBytes_append job (by decide) (by decide)] at henqueued
      exact toNumber_slice_ne hjob (by omega) hjob.enqueuedAt_le henqueued
    rw [trimNull_timeBytes_append job hjob hshort] at htext
    subst htext
    exact ⟨rfl, (reads_unassigned_of_empty hjob).mp ⟨hcreator, henqueued, hcompleted⟩⟩
  · rintro ⟨rfl, hfields⟩
    obtain ⟨hcreator, henqueued, hcompleted⟩ := (reads_unassigned_of_empty hjob).mpr hfields
    exact ⟨hcreator, henqueued, hcompleted, trimNull_timeBytes_append job hjob (Nat.zero_le _)⟩

end NoWorker

/-! ## All jobs -/

section Cases

variable {T : TextDecoder} {job : Job PublicKey} {w : PublicKey} {result : String} {s : Int64}

theorem readsRight_iff_of_no_worker (hworker : job.assignedWorker = none) :
    ReadsRight T job result ↔
      result = "" ∧ job.completedAt = none ∧ job.enqueuedAt.toInt = 0 ∧
        job.creator.toList = List.replicate 8 0 ++ (encodeOption i64Bytes job.startedAt ++
          List.replicate (24 - (encodeOption i64Bytes job.startedAt).length) 0) := by
  constructor
  · rintro (⟨hsome, -, -, -⟩ | ⟨hsome, -, -, -, -⟩ | ⟨-, hcompleted, hempty, henqueued, hcreator⟩)
    · simp [hworker] at hsome
    · simp [hworker] at hsome
    · exact ⟨hempty, hcompleted, henqueued, hcreator⟩
  · rintro ⟨hempty, hcompleted, henqueued, hcreator⟩
    exact .unassigned hworker hcompleted hempty henqueued hcreator

theorem readsRight_iff_of_unstarted (hworker : job.assignedWorker = some w)
    (hstarted : job.startedAt = none) :
    ReadsRight T job result ↔ job.completedAt = none ∧ result = "" := by
  constructor
  · rintro (⟨-, -, hcompleted, hempty⟩ | ⟨-, hs, -, -, -⟩ | ⟨hnone, -, -, -, -⟩)
    · exact ⟨hcompleted, hempty⟩
    · cases hstarted.symm.trans hs
    · cases hworker.symm.trans hnone
  · rintro ⟨hcompleted, hempty⟩
    exact .unstarted (by rw [hworker]; rfl) hstarted hcompleted hempty

theorem readsRight_iff_of_started (hworker : job.assignedWorker = some w)
    (hstarted : job.startedAt = some s) :
    ReadsRight T job result ↔ ∃ c, job.completedAt = some c ∧
      c.toInt = toNumber (256 * s.toInt + 1) ∧
        (0 ≤ s.toInt ∧ result = "" ∨ s.toInt < 0 ∧ 0 ∈ i64Bytes c ∧
          result = T.toString (255 :: 1 :: untilNull (i64Bytes c))) := by
  constructor
  · rintro (⟨-, hs, -, -⟩ | ⟨-, hs, hcompleted, htime, htext⟩ | ⟨hnone, -, -, -, -⟩)
    · cases hstarted.symm.trans hs
    · obtain rfl := Option.some.inj (hstarted.symm.trans hs)
      exact ⟨_, hcompleted, htime, htext⟩
    · cases hworker.symm.trans hnone
  · rintro ⟨c, hcompleted, htime, htext⟩
    exact .finished (by rw [hworker]; rfl) hstarted hcompleted htime htext

end Cases

/-- The dashboard shows a job as it is exactly if its offsets read it right. -/
theorem parseJob_eq_item_iff (T : TextDecoder) (jobPDA : PublicKey) {job : Job PublicKey}
    {data : List UInt8} {jobType result : String} (h : StoredAs job data)
    (hjob : job.Displayable jobType result) :
    parseJob T jobPDA data = some (job.item jobPDA jobType result) ↔ ReadsRight T job result := by
  cases hworker : job.assignedWorker with
  | none =>
    obtain ⟨rest, hshown⟩ := parseJob_eq_item_iff_of_no_worker (T := T) h hjob hworker
    rw [hshown, reads_unassigned_iff hjob, readsRight_iff_of_no_worker hworker]
  | some w =>
    obtain ⟨rest, hshown⟩ := parseJob_eq_item_iff_of_worker (T := T) h hjob hworker
    rw [hshown]
    cases hstarted : job.startedAt with
    | none =>
      rw [readsRight_iff_of_unstarted hworker hstarted]
      cases hcompleted : job.completedAt with
      | none => exact (reads_unstarted_iff hjob).trans (and_iff_right rfl).symm
      | some c =>
        refine iff_of_false (fun hread => ?_) fun h => Option.some_ne_none c h.1
        exact shownTime_ne_of_unstarted (hjob.completedAt_le c hcompleted)
          (hjob.completedAt_ne c hcompleted) hread.1
    | some s =>
      rw [readsRight_iff_of_started hworker hstarted]
      cases hcompleted : job.completedAt with
      | none =>
        refine iff_of_false (fun hread => shownTime_ne_of_uncompleted hread.1) ?_
        rintro ⟨c, hc, -⟩
        cases hc
      | some c =>
        refine (reads_finished_iff hjob (hjob.startedAt_le s hstarted)
          (hjob.completedAt_ne c hcompleted)).trans ⟨fun hread => ⟨c, rfl, hread⟩, ?_⟩
        rintro ⟨c', hc', hread⟩
        rwa [Option.some.inj hc']

/-- A key that repeats one byte. -/
def Sample.key (b : UInt8) : PublicKey :=
  Vector.replicate 32 b

/-- A job as it is enqueued. -/
def Sample.pendingJob : Job PublicKey :=
  EnqueueJob.newJob ⟨key 7, key 8, key 9⟩ 255
    (InitializeQueue.newQueue ⟨key 6, key 8⟩ 255 ⟨name, 2, 60⟩ (zeroPadded 32 name.asBytes)) 1
    (params none) (zeroPadded 32 "email".asBytes)

/-- The sample job, claimed in second 3, with an empty result and a completion time of 769. -/
def Sample.finishedJob : Job PublicKey :=
  (pendingJob.claimed (key 5) 3).completedWith [] 769

/-- The account of a sample job, with a discriminator and a padding of ones. -/
def Sample.account (job : Job PublicKey) : List UInt8 :=
  List.replicate 8 1 ++ (job.encode ++ List.replicate (809 - job.encode.length) 1)

theorem Sample.storedAs_account (job : Job PublicKey) : StoredAs job (account job) where
  length := by
    have hle := job.length_encode_le
    rw [account, List.length_append, List.length_append, List.length_replicate,
      List.length_replicate, Nat.add_sub_cancel' hle]
    rfl
  layout := ⟨_, _, List.length_replicate, rfl⟩

theorem Sample.displayable_pendingJob : pendingJob.Displayable "email" "" where
  jobType_eq := rfl
  jobType_length := by decide +kernel
  jobType_noNull := by decide +kernel
  result_eq := rfl
  result_length := by decide
  result_noNull := by decide
  seq_le := by decide
  enqueuedAt_le := by decide
  startedAt_le := nofun
  completedAt_le := nofun
  completedAt_ne := nofun
  worker_ne := nofun

/-- The completion time of the sample job is the number its start time is read as. -/
theorem parseJob_eq_item_iff_finished :
    parseJob .bytewise (Sample.key 9) (Sample.account Sample.finishedJob) =
      some (Sample.finishedJob.item (Sample.key 9) "email" "") := by
  have hstored := Sample.storedAs_account Sample.finishedJob
  have hjob : Sample.finishedJob.Displayable "email" "" := { Sample.displayable_pendingJob with
    startedAt_le := by
      rintro _ ⟨⟩
      decide
    completedAt_le := by
      rintro _ ⟨⟩
      decide
    completedAt_ne := by
      rintro _ ⟨⟩
      decide
    worker_ne := by
      rintro _ ⟨⟩
      decide +kernel }
  refine (parseJob_eq_item_iff .bytewise (Sample.key 9) hstored hjob).mpr ?_
  exact .finished rfl rfl rfl (by decide) (.inl ⟨by decide, rfl⟩)

/-- The creator of a job just enqueued is not shown. -/
theorem parseJob_ne_item_of_pending :
    ¬∀ (T : TextDecoder) (jobPDA : PublicKey) (job : Job PublicKey) (jobType result : String)
      (data : List UInt8), job.Displayable jobType result → StoredAs job data →
        parseJob T jobPDA data = some (job.item jobPDA jobType result) := by
  intro h
  have hstored := Sample.storedAs_account Sample.pendingJob
  have hread := h .bytewise (Sample.key 9) _ _ _ _ Sample.displayable_pendingJob hstored
  obtain ⟨rest, hshown⟩ := parseJob_eq_item_iff_of_no_worker hstored
    Sample.displayable_pendingJob rfl
  obtain ⟨hcreator, -⟩ := hshown.mp hread
  -- it starts with the time of the enqueue
  have hfirst : some (1 : UInt8) = some 7 := congrArg List.head? hcreator
  exact absurd hfirst (by decide)

end SolQueue
