import Mathlib.Algebra.Order.Ring.Int
import Mathlib.Tactic.Common

/-!
# Checked computations

Computations that either return a value or reject, written in `Except`, and machine-integer
arithmetic that rejects instead of wrapping around.

* `Except.bind_eq_ok`: a sequence succeeds exactly when its parts do.
* `Checked.require`: a guard, which succeeds exactly when its condition holds.
* `Checked.add`, `Checked.sub`: overflow-checked arithmetic on any `MachineInt`. The result is
  characterised by its integer value alone (`Checked.add_eq_ok`), so proofs never reason about
  wraparound.
-/

namespace Except

variable {ε α β : Type}

/-- A sequence returns `b` exactly when its first part returns some `a` and its continuation
returns `b` on it. -/
theorem bind_eq_ok {x : Except ε α} {f : α → Except ε β} {b : β} :
    (x >>= f) = .ok b ↔ ∃ a, x = .ok a ∧ f a = .ok b := by
  cases x <;> simp [bind, Except.bind]

/-- `pure` returns its argument. -/
theorem pure_eq_ok {a b : α} : (pure a : Except ε α) = .ok b ↔ a = b := by
  simp [pure, Except.pure]

/-- Sequences whose parts agree up to maps of their values agree up to a map of their value. -/
theorem bind_eq_map {α' β' : Type} {x : Except ε α} {x' : Except ε α'} {f : α → Except ε β}
    {f' : α' → Except ε β'} {g : α → α'} {h : β → β'} (hx : x' = g <$> x)
    (hf : ∀ a, x = .ok a → f' (g a) = h <$> f a) : (x' >>= f') = h <$> (x >>= f) := by
  subst hx
  cases x with
  | error e => rfl
  | ok a => exact hf a rfl

end Except

/-- A type of machine words read as the integers of an interval `[lo, hi]`. -/
class MachineInt (α : Type) where
  /-- The least value of the type. -/
  lo : ℤ
  /-- The greatest value of the type. -/
  hi : ℤ
  /-- The integer a word stands for. -/
  val : α → ℤ
  /-- The word standing for an integer of the interval. -/
  ofVal : ℤ → α
  val_mem : ∀ a, lo ≤ val a ∧ val a ≤ hi
  val_ofVal : ∀ n, lo ≤ n → n ≤ hi → val (ofVal n) = n
  val_injective : ∀ a b, val a = val b → a = b

/-- Bytes. -/
instance : MachineInt UInt8 where
  lo := 0
  hi := 255
  val a := a.toNat
  ofVal n := UInt8.ofNat n.toNat
  val_mem a := by have := a.toNat_lt; omega
  val_ofVal n h0 h1 := by simp; omega
  val_injective a b h := UInt8.toNat_inj.mp (by exact_mod_cast h)

/-- Unsigned 64-bit integers. -/
instance : MachineInt UInt64 where
  lo := 0
  hi := 2 ^ 64 - 1
  val a := a.toNat
  ofVal n := UInt64.ofNat n.toNat
  val_mem a := by have := a.toNat_lt; omega
  val_ofVal n h0 h1 := by simp; omega
  val_injective a b h := UInt64.toNat_inj.mp (by exact_mod_cast h)

/-- Signed 64-bit integers. -/
instance : MachineInt Int64 where
  lo := -2 ^ 63
  hi := 2 ^ 63 - 1
  val a := a.toInt
  ofVal n := Int64.ofInt n
  val_mem a := by have := a.toInt_lt; have := a.le_toInt; omega
  val_ofVal n h0 h1 := Int64.toInt_ofInt_of_le h0 (by omega)
  val_injective a b h := Int64.toInt_inj.mp h

namespace Checked

open MachineInt

variable {ε α : Type}

/-! ## Guards -/

/-- `require c e` goes on if `c` holds and rejects with `e` otherwise. -/
def require (c : Prop) [Decidable c] (e : ε) : Except ε Unit :=
  if c then .ok () else .error e

/-- A guard goes on exactly when its condition holds. -/
@[simp]
theorem require_eq_ok {c : Prop} [Decidable c] {e : ε} {u : Unit} :
    require c e = .ok u ↔ c := by
  unfold require
  split <;> simp_all

/-! ## Overflow-checked arithmetic -/

section Arithmetic

variable [MachineInt α]

/-- The word standing for `n`, or `e` when `n` is out of range. -/
def narrow (e : ε) (n : ℤ) : Except ε α :=
  if lo α ≤ n ∧ n ≤ hi α then .ok (ofVal n) else .error e

/-- Overflow-checked addition: rejects with `e` when the exact sum is out of range. -/
def add (e : ε) (a b : α) : Except ε α :=
  narrow e (val a + val b)

/-- Overflow-checked subtraction: rejects with `e` when the exact difference is out of range. -/
def sub (e : ε) (a b : α) : Except ε α :=
  narrow e (val a - val b)

/-- `narrow` returns exactly the word whose value is `n`. -/
theorem narrow_eq_ok {e : ε} {n : ℤ} {c : α} : narrow e n = .ok c ↔ val c = n := by
  unfold narrow
  split_ifs with h
  · constructor
    · rintro ⟨⟩
      exact val_ofVal n h.1 h.2
    · intro hc
      exact congrArg Except.ok (val_injective _ _ ((val_ofVal n h.1 h.2).trans hc.symm))
  · -- out of range: no word has the value `n`
    refine ⟨fun hc => (nomatch hc), fun hc => absurd ?_ h⟩
    exact hc ▸ val_mem c

/-- `narrow` rejects with its error if no word has the value `n`. -/
theorem narrow_eq_error {e : ε} {n : ℤ} (h : ∀ c : α, val c ≠ n) :
    (narrow e n : Except ε α) = .error e :=
  if_neg fun hn => h _ (val_ofVal n hn.1 hn.2)

/-- The checked sum is the word whose value is the exact sum. -/
theorem add_eq_ok {e : ε} {a b c : α} : add e a b = .ok c ↔ val c = val a + val b :=
  narrow_eq_ok

/-- The checked difference is the word whose value is the exact difference. -/
theorem sub_eq_ok {e : ε} {a b c : α} : sub e a b = .ok c ↔ val c = val a - val b :=
  narrow_eq_ok

end Arithmetic

/-- A checked `u8` sum is the exact sum. -/
@[simp]
theorem add_eq_ok_uint8 {e : ε} {a b c : UInt8} :
    add e a b = .ok c ↔ c.toNat = a.toNat + b.toNat := by
  rw [add_eq_ok]
  simp only [val]
  norm_cast

/-- A checked `u64` sum is the exact sum. -/
@[simp]
theorem add_eq_ok_uint64 {e : ε} {a b c : UInt64} :
    add e a b = .ok c ↔ c.toNat = a.toNat + b.toNat := by
  rw [add_eq_ok]
  simp only [val]
  norm_cast

/-- A checked `i64` sum is the exact sum. -/
@[simp]
theorem add_eq_ok_int64 {e : ε} {a b c : Int64} :
    add e a b = .ok c ↔ c.toInt = a.toInt + b.toInt :=
  add_eq_ok

/-- A checked `i64` difference is the exact difference. -/
@[simp]
theorem sub_eq_ok_int64 {e : ε} {a b c : Int64} :
    sub e a b = .ok c ↔ c.toInt = a.toInt - b.toInt :=
  sub_eq_ok

/-- A `u8` sum exists exactly when it is at most 255. -/
theorem exists_toNat_eq_uint8 {n : ℕ} : (∃ c : UInt8, c.toNat = n) ↔ n < 2 ^ 8 := by
  constructor
  · rintro ⟨c, rfl⟩
    exact c.toNat_lt
  · intro h
    exact ⟨UInt8.ofNat n, by simp; omega⟩

/-- A `u64` word of value `n` exists exactly when `n` is below `2 ^ 64`. -/
theorem exists_toNat_eq_uint64 {n : ℕ} : (∃ c : UInt64, c.toNat = n) ↔ n < 2 ^ 64 := by
  constructor
  · rintro ⟨c, rfl⟩
    exact c.toNat_lt
  · intro h
    exact ⟨UInt64.ofNat n, by simp; omega⟩

/-- An `i64` word of value `n` exists exactly when `n` is in range. -/
theorem exists_toInt_eq_int64 {n : ℤ} :
    (∃ c : Int64, c.toInt = n) ↔ -2 ^ 63 ≤ n ∧ n < 2 ^ 63 := by
  constructor
  · rintro ⟨c, rfl⟩
    exact ⟨c.le_toInt, c.toInt_lt⟩
  · rintro ⟨h0, h1⟩
    exact ⟨Int64.ofInt n, Int64.toInt_ofInt_of_le h0 h1⟩

/-- A counter is one more than another exactly when it is the wrapped sum and that has not
wrapped. -/
theorem toNat_eq_succ_uint64 {a b : UInt64} :
    b.toNat = a.toNat + 1 ↔ a.toNat + 1 < 2 ^ 64 ∧ b = a + 1 := by
  have ha := b.toNat_lt
  rw [← UInt64.toNat_inj, UInt64.toNat_add, UInt64.toNat_one]
  omega

end Checked
