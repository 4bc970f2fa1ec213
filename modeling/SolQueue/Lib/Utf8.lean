import SolQueue.Lib.Bytes
import Mathlib.Data.List.TakeWhile

/-!
# UTF-8

Strings as their bytes: what decodes, where a text can be cut, and where its null characters are.

* `Utf8.decode`: the text with the given bytes, if they are UTF-8.
* `Utf8.isSome_decode_take_iff`: a text cut after some of its bytes decodes exactly at a character
  boundary.
* `Utf8.zero_mem_asBytes_iff`: the null byte encodes the null character and occurs nowhere else.
* `Utf8.untilNull_asBytes`: the bytes before the first null byte are a text.
-/

namespace Utf8

/-- The text with the given bytes, if they are valid UTF-8. -/
def decode (bytes : List UInt8) : Option String :=
  String.fromUTF8? bytes.toByteArray

variable {s t : String} {c : Char} {bytes : List UInt8} {n : ℕ}

/-! ## Bytes of a text -/

/-- The bytes of a text are those of its characters, one after the other. -/
theorem asBytes_eq_flatMap (s : String) : s.asBytes = s.toList.flatMap String.utf8EncodeChar := by
  conv_lhs => rw [← String.ofList_toList (s := s)]
  rw [String.asBytes, String.toUTF8_eq_toByteArray, String.toByteArray_ofList, List.utf8Encode,
    List.toList_data_toByteArray]

theorem asBytes_ofList (l : List Char) :
    (String.ofList l).asBytes = l.flatMap String.utf8EncodeChar := by
  rw [asBytes_eq_flatMap, String.toList_ofList]

theorem asBytes_append (s t : String) : (s ++ t).asBytes = s.asBytes ++ t.asBytes := by
  rw [asBytes_eq_flatMap, asBytes_eq_flatMap, asBytes_eq_flatMap, String.toList_append,
    List.flatMap_append]

theorem toByteArray_asBytes (s : String) : s.asBytes.toByteArray = s.toByteArray := by
  apply ByteArray.ext
  rw [List.data_toByteArray, String.asBytes, Array.toArray_toList]
  rfl

/-- Bytes decode to a text exactly if they are its bytes. -/
theorem decode_eq_some_iff : decode bytes = some s ↔ s.asBytes = bytes := by
  unfold decode String.fromUTF8?
  constructor
  · intro h
    split_ifs at h with hvalid
    obtain rfl := Option.some.inj h
    exact List.toList_data_toByteArray
  · rintro rfl
    rw [dif_pos (toByteArray_asBytes s ▸ s.isValidUTF8)]
    exact congrArg some (String.toByteArray_inj.mp (toByteArray_asBytes s))

/-- A text is read back from its bytes. -/
@[simp]
theorem decode_asBytes (s : String) : decode s.asBytes = some s :=
  decode_eq_some_iff.mpr rfl

theorem length_asBytes (s : String) : s.asBytes.length = s.utf8ByteSize := by
  rw [String.asBytes, Array.length_toList, String.toUTF8_eq_toByteArray]
  rfl

/-- The first bytes of a text decode exactly if the cut is between two characters. -/
theorem isSome_decode_take_iff (h : n ≤ s.asBytes.length) :
    (decode (s.asBytes.take n)).isSome ↔ String.Pos.Raw.IsValid s ⟨n⟩ := by
  have hcut : (s.asBytes.take n).toByteArray = s.toByteArray.extract 0 n := by
    apply ByteArray.ext
    rw [List.data_toByteArray, ByteArray.data_extract, String.asBytes, String.toUTF8_eq_toByteArray]
    apply Array.toList_inj.mp
    rw [Array.toList_extract, List.extract_eq_take_drop]
    rfl
  have hend : (⟨n⟩ : String.Pos.Raw) ≤ s.rawEndPos := by
    rw [String.Pos.Raw.le_iff, String.byteIdx_rawEndPos, ← length_asBytes]
    exact h
  rw [String.Pos.Raw.isValid_iff_isValidUTF8_extract_zero, ← hcut, decode, String.fromUTF8?]
  split_ifs with hvalid <;> simp [hvalid, hend]

/-- Cutting a text between two characters leaves a first part of it. -/
theorem exists_append_of_isValid (h : String.Pos.Raw.IsValid s ⟨n⟩) :
    ∃ t u, decode (s.asBytes.take n) = some t ∧ s = t ++ u := by
  obtain ⟨t, u, rfl, hpos⟩ := String.Pos.Raw.isValid_iff_exists_append.mp h
  have hlength : n = t.asBytes.length := by
    rw [length_asBytes]
    exact congrArg String.Pos.Raw.byteIdx hpos
  refine ⟨t, u, ?_, rfl⟩
  rw [asBytes_append, hlength, List.take_left, decode_asBytes]

/-! ## Null characters -/

theorem eq_ofNat_iff {b : UInt8} {x : ℕ} : b = UInt8.ofNat x ↔ x % 256 = b.toNat := by
  rw [← UInt8.toNat_inj, UInt8.toNat_ofNat', eq_comm]

/-- Only the null character is encoded with a null byte. -/
theorem zero_mem_utf8EncodeChar_iff : 0 ∈ String.utf8EncodeChar c ↔ c = '\x00' := by
  have hnull : c = '\x00' ↔ c.val.toNat = 0 := by
    rw [← Char.val_inj, ← UInt32.toNat_inj]
    rfl
  unfold String.utf8EncodeChar
  -- a byte of a longer encoding has its high bit set
  dsimp only
  split_ifs <;>
    simp only [List.mem_cons, List.not_mem_nil, or_false, eq_ofNat_iff, UInt8.toNat_zero, hnull] <;>
    omega

/-- A text has a null byte exactly if it has a null character. -/
theorem zero_mem_asBytes_iff : 0 ∈ s.asBytes ↔ '\x00' ∈ s.toList := by
  simp only [asBytes_eq_flatMap, List.mem_flatMap, zero_mem_utf8EncodeChar_iff, exists_eq_right]

/-- The bytes before the first null byte are those of the characters before the first null. -/
theorem untilNull_asBytes (s : String) :
    untilNull s.asBytes = (String.ofList (s.toList.takeWhile (· ≠ '\x00'))).asBytes := by
  rw [asBytes_ofList, asBytes_eq_flatMap, untilNull]
  induction s.toList with
  | nil => rfl
  | cons c l ih =>
    by_cases hc : c = '\x00'
    · subst hc
      rfl
    · have hbytes : ∀ b ∈ String.utf8EncodeChar c, decide (b ≠ 0) = true := by
        intro b hb
        rw [decide_eq_true_eq]
        rintro rfl
        exact hc (zero_mem_utf8EncodeChar_iff.mp hb)
      rw [List.flatMap_cons, List.takeWhile_append_of_pos hbytes, ih,
        List.takeWhile_cons_of_pos (by simpa using hc), List.flatMap_cons]

/-- Null characters are null bytes. -/
theorem asBytes_replicate_null (k : ℕ) :
    (String.ofList (List.replicate k '\x00')).asBytes = List.replicate k 0 := by
  rw [asBytes_ofList]
  induction k with
  | zero => rfl
  | succ k ih =>
    rw [List.replicate_succ, List.flatMap_cons, ih, List.replicate_succ]
    rfl

/-- A text is as long as its characters before the first null exactly if it has none. -/
theorem ofList_takeWhile_eq_iff :
    String.ofList (s.toList.takeWhile (· ≠ '\x00')) = s ↔ '\x00' ∉ s.toList := by
  rw [← String.toList_inj, String.toList_ofList, List.takeWhile_eq_self_iff]
  simp only [ne_eq, decide_eq_true_eq]
  exact ⟨fun h hnull => h _ hnull rfl, fun h c hc hnull => h (hnull ▸ hc)⟩

/-! ## Bytes of no text -/

/-- The last byte value occurs in no encoding. -/
theorem last_notMem_utf8EncodeChar : 255 ∉ String.utf8EncodeChar c := by
  have hlast : (255 : UInt8).toNat = 255 := rfl
  unfold String.utf8EncodeChar
  dsimp only
  split_ifs <;>
    simp only [List.mem_cons, List.not_mem_nil, or_false, eq_ofNat_iff, hlast] <;> omega

theorem last_notMem_asBytes : 255 ∉ s.asBytes := by
  rw [asBytes_eq_flatMap, List.mem_flatMap]
  rintro ⟨c, -, hc⟩
  exact last_notMem_utf8EncodeChar hc

end Utf8
