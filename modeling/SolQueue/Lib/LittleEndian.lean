import Mathlib.Data.Nat.Digits.Lemmas
import Mathlib.Tactic.Common

/-!
# Little-endian numbers

Numbers as strings of bytes, the least significant first.

* `leBytes k n`: the `k` bytes of a number; `leNat`: the number with the given bytes.
* `leNat_leBytes`, `leNat_append`: a number is read back from its bytes, part by part.
* `leInt`: the signed number with the given bytes; `leInt_i64Bytes` reads an `Int64` back.
* `leInt_eq_iff`: which bytes read as a given signed number.
-/

/-- The `k` bytes of `n`, the least significant first. -/
def leBytes : ℕ → ℕ → List UInt8
  | 0, _ => []
  | k + 1, n => UInt8.ofNat n :: leBytes k (n / 256)

/-- The number with the given bytes, the least significant first. -/
def leNat (bytes : List UInt8) : ℕ :=
  Nat.ofDigits 256 (bytes.map UInt8.toNat)

/-- The number with the given bytes in two's complement, the least significant first. -/
def leInt (bytes : List UInt8) : ℤ :=
  (leNat bytes : ℤ).bmod (256 ^ bytes.length)

variable {k n : ℕ} {bytes bytes' : List UInt8} {b : UInt8}

@[simp]
theorem length_leBytes : (leBytes k n).length = k := by
  induction k generalizing n with
  | zero => rfl
  | succ k ih => rw [leBytes, List.length_cons, ih]

@[simp]
theorem leNat_nil : leNat [] = 0 := rfl

@[simp]
theorem leNat_cons : leNat (b :: bytes) = b.toNat + 256 * leNat bytes := by
  rw [leNat, List.map_cons, Nat.ofDigits_cons]
  rfl

/-- Reading in two parts. -/
theorem leNat_append :
    leNat (bytes ++ bytes') = leNat bytes + 256 ^ bytes.length * leNat bytes' := by
  rw [leNat, List.map_append, Nat.ofDigits_append, List.length_map]
  rfl

theorem leNat_lt : leNat bytes < 256 ^ bytes.length := by
  have hlt := Nat.ofDigits_lt_base_pow_length (b := 256) (l := bytes.map UInt8.toNat) (by decide) ?_
  · rwa [List.length_map] at hlt
  · intro d hd
    obtain ⟨b, -, rfl⟩ := List.mem_map.mp hd
    exact b.toNat_lt

/-- A number is read back from its bytes. -/
theorem leNat_leBytes (h : n < 256 ^ k) : leNat (leBytes k n) = n := by
  induction k generalizing n with
  | zero => simp_all [leBytes]
  | succ k ih =>
    rw [leBytes, leNat_cons, ih (by rw [Nat.pow_succ] at h; omega), UInt8.toNat_ofNat']
    omega

/-- Numbers in range are determined by their bytes. -/
theorem leBytes_inj {n' : ℕ} (h : n < 256 ^ k) (h' : n' < 256 ^ k) :
    leBytes k n = leBytes k n' ↔ n = n' := by
  refine ⟨fun heq => ?_, congrArg _⟩
  rw [← leNat_leBytes h, heq, leNat_leBytes h']

/-- Bytes are determined by the number they read as. -/
theorem eq_of_leNat_eq (hlength : bytes.length = bytes'.length) (h : leNat bytes = leNat bytes') :
    bytes = bytes' := by
  induction bytes generalizing bytes' with
  | nil => exact (List.length_eq_zero_iff.mp hlength.symm).symm
  | cons b bytes ih =>
    obtain ⟨b', rest, rfl⟩ := List.exists_cons_of_length_eq_add_one hlength.symm
    rw [leNat_cons, leNat_cons] at h
    have hb := b.toNat_lt
    have hb' := b'.toNat_lt
    obtain rfl : b = b' := UInt8.toNat_inj.mp (by omega)
    rw [ih (Nat.succ_inj.mp hlength) (by omega)]

/-- Only zeros read as zero. -/
theorem leNat_eq_zero_iff : leNat bytes = 0 ↔ ∀ b ∈ bytes, b = 0 := by
  induction bytes with
  | nil => simp
  | cons b bytes ih =>
    rw [leNat_cons, List.forall_mem_cons, ← ih, ← UInt8.toNat_inj, UInt8.toNat_zero]
    omega

/-! ## Eight bytes -/

/-- Eight bytes read as the only `i64` that is congruent to their unsigned value. -/
theorem leInt_eq_iff {z : ℤ} (h : bytes.length = 8) :
    leInt bytes = z ↔ -2 ^ 63 ≤ z ∧ z < 2 ^ 63 ∧ z % 2 ^ 64 = leNat bytes := by
  have hlt : leNat bytes < 256 ^ bytes.length := leNat_lt
  rw [leInt, h, Int.bmod_def]
  rw [h] at hlt
  norm_num at hlt ⊢
  split_ifs <;> omega

/-- Only zeros read as zero. -/
theorem leInt_eq_zero_iff (h : bytes.length = 8) : leInt bytes = 0 ↔ ∀ b ∈ bytes, b = 0 := by
  rw [leInt_eq_iff h, ← leNat_eq_zero_iff]
  omega

/-- The eight bytes of an `i64`. -/
def i64Bytes (x : Int64) : List UInt8 :=
  leBytes 8 x.toUInt64.toNat

@[simp]
theorem length_i64Bytes {x : Int64} : (i64Bytes x).length = 8 := length_leBytes

/-- An `i64` is read back from its bytes. -/
@[simp]
theorem leInt_i64Bytes {x : Int64} : leInt (i64Bytes x) = x.toInt := by
  have hx := x.toUInt64.toNat_lt
  rw [leInt, length_i64Bytes, i64Bytes, leNat_leBytes (by omega)]
  exact (BitVec.toInt_eq_toNat_bmod x.toBitVec).symm

/-- The last of eight bytes read, as a number and signed. -/
theorem leInt_append_singleton {z : ℤ} (h : bytes.length = 7) :
    leInt (bytes ++ [b]) = z ↔
      -2 ^ 63 ≤ z ∧ z < 2 ^ 63 ∧ z % 2 ^ 64 = leNat bytes + 2 ^ 56 * b.toNat := by
  rw [leInt_eq_iff (by rw [List.length_append, h, List.length_singleton]), leNat_append, h,
    leNat_cons, leNat_nil]
  norm_num

/-- Eight bytes whose last one is neither the first nor the last value read as a large number. -/
theorem lt_natAbs_leInt (h : bytes.length = 7) (hzero : b ≠ 0) (hlast : b ≠ 255) :
    2 ^ 55 < (leInt (bytes ++ [b])).natAbs := by
  obtain ⟨hlo, hhi, hmod⟩ := (leInt_append_singleton h).mp (rfl : leInt (bytes ++ [b]) = _)
  have hlt : leNat bytes < 256 ^ bytes.length := leNat_lt
  rw [h] at hlt
  have hpos : b.toNat ≠ 0 := fun h => hzero (UInt8.toNat_inj.mp h)
  have hne : b.toNat ≠ 255 := fun h => hlast (UInt8.toNat_inj.mp h)
  have hb := b.toNat_lt
  omega

/-- The first seven bytes of an `i64`, and the last one, which is its sign if it is small. -/
theorem exists_i64Bytes_append (x : Int64) :
    ∃ low top, i64Bytes x = low ++ [top] ∧ low.length = 7 := by
  obtain ⟨low, top, h⟩ : ∃ low top, i64Bytes x = low ++ [top] := by
    rcases List.eq_nil_or_concat (i64Bytes x) with hnil | ⟨low, top, h⟩
    · have hlength := length_i64Bytes (x := x)
      rw [hnil] at hlength
      cases hlength
    · exact ⟨low, top, by rw [h, List.concat_eq_append]⟩
  refine ⟨low, top, h, ?_⟩
  have hlength := congrArg List.length h
  rw [length_i64Bytes, List.length_append, List.length_singleton] at hlength
  omega
