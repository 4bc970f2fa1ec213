import SolQueue.Lib.LittleEndian
import Mathlib.Data.List.TakeWhile

/-!
# Base 58

Byte strings as text in the alphabet of 58 symbols without `0`, `O`, `I` and `l`: the bytes are a
number, the most significant first, and each zero byte at the front is written as a symbol of its
own.

* `Base58.encode`, `Base58.encode_injective`: strings of one length have different texts.
-/

namespace Base58

/-- The symbols of the digits. -/
def alphabet : List Char :=
  "123456789ABCDEFGHJKLMNPQRSTUVWXYZabcdefghijkmnopqrstuvwxyz".toList

/-- The symbol of a digit. -/
def symbol (digit : ℕ) : Char :=
  alphabet.getD digit '1'

/-- The digits written for a byte string, the most significant first. -/
def digits (bytes : List UInt8) : List ℕ :=
  List.replicate (bytes.takeWhile (· = 0)).length 0 ++ (Nat.digits 58 (leNat bytes.reverse)).reverse

/-- The text of a byte string. -/
def encode (bytes : List UInt8) : String :=
  String.ofList ((digits bytes).map symbol)

variable {bytes bytes' : List UInt8}

theorem idxOf_symbol : ∀ digit < 58, alphabet.idxOf (symbol digit) = digit := by
  decide +kernel

/-- All digits have a symbol. -/
theorem lt_of_mem_digits : ∀ digit ∈ digits bytes, digit < 58 := by
  intro digit hdigit
  rcases List.mem_append.mp hdigit with hzero | hdigit
  · rw [List.eq_of_mem_replicate hzero]
    decide
  · exact Nat.digits_lt_base (by decide) (List.mem_reverse.mp hdigit)

/-- The digits are read off the text. -/
theorem map_idxOf_encode : (encode bytes).toList.map alphabet.idxOf = digits bytes := by
  rw [encode, String.toList_ofList, List.map_map]
  conv_rhs => rw [← List.map_id (digits bytes)]
  exact List.map_congr_left fun digit hdigit => idxOf_symbol digit (lt_of_mem_digits digit hdigit)

/-- The digits stand for the number. -/
theorem ofDigits_digits : Nat.ofDigits 58 (digits bytes).reverse = leNat bytes.reverse := by
  rw [digits, List.reverse_append, List.reverse_reverse, List.reverse_replicate,
    Nat.ofDigits_append_replicate_zero, Nat.ofDigits_digits]

/-- Byte strings of one length are determined by their texts. -/
theorem encode_injective (hlength : bytes.length = bytes'.length)
    (h : encode bytes = encode bytes') : bytes = bytes' := by
  have hdigits : digits bytes = digits bytes' := by
    rw [← map_idxOf_encode, ← map_idxOf_encode, h]
  have hnat : leNat bytes.reverse = leNat bytes'.reverse := by
    rw [← ofDigits_digits, ← ofDigits_digits, hdigits]
  refine List.reverse_injective (eq_of_leNat_eq ?_ hnat)
  rw [List.length_reverse, List.length_reverse, hlength]

/-- Zeros are written as as many first symbols. -/
theorem encode_replicate_zero (n : ℕ) :
    encode (List.replicate n 0) = String.ofList (List.replicate n '1') := by
  have hzero : leNat (List.replicate n 0) = 0 :=
    leNat_eq_zero_iff.mpr fun b hb => List.eq_of_mem_replicate hb
  have htake : (List.replicate n (0 : UInt8)).takeWhile (· = 0) = List.replicate n 0 :=
    List.takeWhile_eq_self_iff.mpr fun b hb => by simpa using List.eq_of_mem_replicate hb
  rw [encode, digits, htake, List.reverse_replicate, hzero, Nat.digits_zero, List.reverse_nil,
    List.append_nil, List.length_replicate, List.map_replicate]
  rfl

end Base58
