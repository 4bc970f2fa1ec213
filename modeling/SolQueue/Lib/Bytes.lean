import Mathlib.Data.List.GetD
import Mathlib.Tactic.Common

/-!
# Byte strings and fixed-size buffers

* `String.asBytes`: the UTF-8 bytes of a string.
* `zeroPadded n bytes`: an `n`-byte buffer holding `bytes` followed by zeros.
* `Padding p q`: `q` is `p` followed by zeros; buffers are equal up to padding.
* `untilNull bytes`: the bytes before the first zero.
-/

/-- The UTF-8 bytes of a string. -/
def String.asBytes (s : String) : List UInt8 :=
  s.toUTF8.data.toList

/-- A string is determined by its bytes. -/
theorem String.asBytes_injective : Function.Injective String.asBytes := by
  intro s t h
  apply String.toByteArray_inj.mp
  exact ByteArray.ext (Array.toList_inj.mp h)

/-- An `n`-byte buffer of zeros whose front is overwritten by `bytes`. -/
def zeroPadded (n : ℕ) (bytes : List UInt8) : Vector UInt8 n :=
  Vector.ofFn fun i => bytes.getD i 0

/-- A buffer that `bytes` fit into holds them, followed by zeros. -/
theorem toList_zeroPadded {n : ℕ} {bytes : List UInt8} (h : bytes.length ≤ n) :
    (zeroPadded n bytes).toList = bytes ++ List.replicate (n - bytes.length) 0 := by
  apply List.ext_getElem
  · simp [h]
  · intro i hi hi'
    simp only [zeroPadded, Vector.getElem_toList, Vector.getElem_ofFn]
    rw [List.getElem_append]
    split_ifs with hlt
    · rw [List.getD_eq_getElem _ _ hlt]
    · rw [List.getD_eq_default _ _ (Nat.not_lt.mp hlt), List.getElem_replicate]

/-- The front of a buffer holds what was written to it. -/
theorem take_toList_zeroPadded {n : ℕ} {bytes : List UInt8} (h : bytes.length ≤ n) :
    (zeroPadded n bytes).toList.take bytes.length = bytes := by
  rw [toList_zeroPadded h, List.take_left]

/-- `q` is `p` followed by zeros. -/
def Padding (p q : List UInt8) : Prop :=
  ∃ k, q = p ++ List.replicate k 0

/-- Buffers are equal exactly if what was written to one is a padding of what was written to the
other. -/
theorem zeroPadded_eq_iff {n : ℕ} {p q : List UInt8} (hp : p.length ≤ n) (hq : q.length ≤ n) :
    zeroPadded n p = zeroPadded n q ↔ Padding p q ∨ Padding q p := by
  rw [← Vector.toList_inj, toList_zeroPadded hp, toList_zeroPadded hq, List.append_eq_append_iff]
  constructor
  · rintro (⟨rest, hq', hzeros⟩ | ⟨rest, hp', hzeros⟩)
    · exact .inl ⟨_, by rw [hq', (List.replicate_eq_append_iff.mp hzeros).2.1]⟩
    · exact .inr ⟨_, by rw [hp', (List.replicate_eq_append_iff.mp hzeros).2.1]⟩
  · rintro (⟨k, rfl⟩ | ⟨k, rfl⟩)
    all_goals rw [List.length_append, List.length_replicate] at *
    · refine .inl ⟨_, rfl, ?_⟩
      rw [List.replicate_append_replicate]
      congr 1
      omega
    · refine .inr ⟨_, rfl, ?_⟩
      rw [List.replicate_append_replicate]
      congr 1
      omega

/-- The bytes before the first zero, or all of them. -/
def untilNull (bytes : List UInt8) : List UInt8 :=
  bytes.takeWhile (· ≠ 0)

/-- Zeros at the end are not read. -/
theorem untilNull_append_replicate (bytes : List UInt8) (k : ℕ) :
    untilNull (bytes ++ List.replicate k 0) = untilNull bytes := by
  induction bytes with
  | nil => cases k <;> rfl
  | cons b bytes ih =>
    rw [untilNull, List.cons_append, List.takeWhile_cons, untilNull, List.takeWhile_cons]
    split_ifs
    · exact congrArg _ ih
    · rfl

/-- Bytes without a zero are read to their end. -/
theorem untilNull_append_of_notMem {p : List UInt8} (h : 0 ∉ p) (q : List UInt8) :
    untilNull (p ++ q) = p ++ untilNull q :=
  List.takeWhile_append_of_pos fun b hb => by simpa using fun hzero : b = 0 => h (hzero ▸ hb)

/-- Bytes with a zero are read no further. -/
theorem untilNull_append_of_mem {p : List UInt8} (h : 0 ∈ p) (q : List UInt8) :
    untilNull (p ++ q) = untilNull p := by
  obtain ⟨l, r, hnot, rfl⟩ : ∃ l r, 0 ∉ l ∧ p = l ++ 0 :: r :=
    List.eq_append_cons_of_mem h |>.imp fun l ⟨r, hp, hnot⟩ => ⟨r, hnot, hp⟩
  rw [List.append_assoc, untilNull_append_of_notMem hnot, untilNull_append_of_notMem hnot]
  rfl
