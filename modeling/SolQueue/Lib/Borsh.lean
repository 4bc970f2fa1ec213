import SolQueue.Lib.LittleEndian

/-!
# Borsh readers

Borsh writes the fields of a record one after the other. A reader takes a value off the front of
the bytes and leaves the rest, so the readers of the fields are run one after the other as well.

* `Borsh.Reader`: readers, which fail where the bytes are not those of a value.
* `Borsh.Reads read bytes x`: whatever follows `bytes`, the reader takes them off and finds `x`.
* `Borsh.u8`, `Borsh.array`, `Borsh.u64`, `Borsh.i64`, `Borsh.bool`, `Borsh.option`: readers of
  single fields, with what each of them reads.
-/

namespace Borsh

/-- A reader of values. -/
abbrev Reader := StateT (List UInt8) Option

/-- The reader finds `x` in `bytes` and leaves what follows them. -/
def Reads {α : Type} (read : Reader α) (bytes : List UInt8) (x : α) : Prop :=
  ∀ rest, read.run (bytes ++ rest) = some (x, rest)

/-- A byte. -/
def u8 : Reader UInt8 := fun bytes =>
  match bytes with
  | [] => none
  | b :: rest => some (b, rest)

/-- An array of bytes. -/
def array (n : ℕ) : Reader (Vector UInt8 n) := fun bytes =>
  if h : n ≤ bytes.length then
    some (⟨(bytes.take n).toArray, by simp [h]⟩, bytes.drop n)
  else none

/-- An unsigned number of eight bytes. -/
def u64 : Reader UInt64 := do
  let bytes ← array 8
  return UInt64.ofNat (leNat bytes.toList)

/-- A signed number of eight bytes. -/
def i64 : Reader Int64 := do
  return (← u64).toInt64

/-- A Boolean, whose byte is `0` or `1`. -/
def bool : Reader Bool := do
  let tag ← u8
  if tag = 0 then return false
  else if tag = 1 then return true
  else failure

/-- An optional value after its tag, which is `0` or `1`. -/
def option {α : Type} (read : Reader α) : Reader (Option α) := do
  let tag ← u8
  if tag = 0 then return none
  else if tag = 1 then return some (← read)
  else failure

namespace Reads

variable {α β : Type} {read : Reader α} {bytes bytes' : List UInt8} {x : α} {y : β}

protected theorem pure : Reads (pure x) [] x := fun _ => rfl

/-- Readers are run one after the other. -/
protected theorem bind {next : α → Reader β} (h : Reads read bytes x)
    (h' : Reads (next x) bytes' y) : Reads (read >>= next) (bytes ++ bytes') y := by
  intro rest
  rw [StateT.run_bind, List.append_assoc, h]
  exact h' rest

/-- The first reader takes a single byte. -/
protected theorem cons {next : α → Reader β} {b : UInt8} (h : Reads read [b] x)
    (h' : Reads (next x) bytes' y) : Reads (read >>= next) (b :: bytes') y :=
  h.bind h'

/-- A value is read and then changed. -/
protected theorem map {f : α → β} (h : Reads read bytes x) : Reads (f <$> read) bytes (f x) := by
  intro rest
  rw [StateT.run_map, h]
  rfl

end Reads

variable {α : Type}

theorem reads_u8 (b : UInt8) : Reads u8 [b] b := fun _ => rfl

theorem reads_array {n : ℕ} (v : Vector UInt8 n) : Reads (array n) v.toList v := by
  intro rest
  have hle : n ≤ (v.toList ++ rest).length := by simp
  have htake : (v.toList ++ rest).take n = v.toList := List.take_left' v.length_toList
  have hdrop : (v.toList ++ rest).drop n = rest := List.drop_left' v.length_toList
  change array n (v.toList ++ rest) = _
  unfold array
  rw [dif_pos hle]
  simp only [htake, hdrop, Option.some.injEq, Prod.mk.injEq, and_true]
  exact Vector.toList_inj.mp rfl

theorem reads_u64 (x : UInt64) : Reads u64 (leBytes 8 x.toNat) x := by
  intro rest
  let bytes : Vector UInt8 8 := ⟨(leBytes 8 x.toNat).toArray, by simp⟩
  have hbytes : leBytes 8 x.toNat = bytes.toList := rfl
  have hread : UInt64.ofNat (leNat bytes.toList) = x := by
    rw [← hbytes, leNat_leBytes x.toNat_lt, UInt64.ofNat_toNat]
  rw [hbytes, u64, StateT.run_bind, reads_array bytes rest]
  exact congrArg (fun y => some (y, rest)) hread

theorem reads_i64 (x : Int64) : Reads i64 (i64Bytes x) x := by
  have h := (reads_u64 x.toUInt64).map (f := UInt64.toInt64)
  exact h

theorem reads_bool (b : Bool) : Reads bool [b.toUInt8] b := by
  intro rest
  cases b <;> rfl

theorem reads_option_none {read : Reader α} : Reads (option read) [0] none := fun _ => rfl

theorem reads_option_some {read : Reader α} {bytes : List UInt8} {x : α} (h : Reads read bytes x) :
    Reads (option read) (1 :: bytes) (some x) := by
  intro rest
  have hread := h.map (f := some) rest
  exact hread

end Borsh
