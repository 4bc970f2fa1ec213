import SolQueue.Lib.Utf8

/-!
# Text in the clients

The dashboard and the command line turn stored bytes into text with `Buffer.toString("utf-8")`. The
decoder is not part of the repository, and the browser and the command line have different ones, so
the model takes it as a parameter.

* `TextDecoder`: a decoder, with what is documented of it.
* `TextDecoder.bytewise`: an instance, which replaces one malformed byte at a time.
* `TextDecoder.trimNull`, `TextDecoder.stripNulls`: how the two clients read null-padded text.
-/

namespace SolQueue

open Utf8

/-- `Buffer.toString("utf-8")`: texts are read back from their bytes, malformed bytes are replaced
by U+FFFD, at most three at a time, and the last byte value is malformed wherever it stands. -/
structure TextDecoder where
  toString : List UInt8 → String
  toString_asBytes : ∀ s : String, toString s.asBytes = s
  toString_last_cons : ∀ bytes, toString (255 :: bytes) = "\uFFFD" ++ toString bytes
  length_le : ∀ bytes, bytes.length ≤ (toString bytes).asBytes.length

namespace TextDecoder

/-! ## A decoder -/

/-- The characters of the bytes, each byte that starts none replaced. -/
def bytewiseChars : List UInt8 → List Char
  | [] => []
  | b :: bytes =>
    match (b :: bytes).toByteArray.utf8DecodeChar? 0 with
    | some c => c :: bytewiseChars (bytes.drop (c.utf8Size - 1))
    | none => '\uFFFD' :: bytewiseChars bytes
termination_by bytes => bytes.length

/-- Bytes that start with a character start with its encoding. -/
theorem exists_of_utf8DecodeChar? {bytes : List UInt8} {c : Char}
    (h : bytes.toByteArray.utf8DecodeChar? 0 = some c) :
    ∃ rest, bytes = String.utf8EncodeChar c ++ rest := by
  obtain ⟨rest, hrest⟩ := ByteArray.exists_of_utf8DecodeChar?_eq_some h
  refine ⟨rest.data.toList, ?_⟩
  have hdata := congrArg (fun b : ByteArray => b.data.toList) hrest
  simpa [List.utf8Encode, ByteArray.data_append] using hdata

theorem bytewiseChars_append (c : Char) (bytes : List UInt8) :
    bytewiseChars (String.utf8EncodeChar c ++ bytes) = c :: bytewiseChars bytes := by
  obtain ⟨b, tail, htail⟩ := List.exists_cons_of_ne_nil (String.utf8EncodeChar_ne_nil (c := c))
  have hdecode : (b :: (tail ++ bytes)).toByteArray.utf8DecodeChar? 0 = some c := by
    rw [← List.cons_append, ← htail, List.toByteArray_append']
    exact ByteArray.utf8DecodeChar?_utf8EncodeChar_append
  have hlength : c.utf8Size - 1 = tail.length := by
    rw [← String.length_utf8EncodeChar c, htail, List.length_cons, Nat.add_sub_cancel]
  rw [htail, List.cons_append, bytewiseChars, hdecode]
  simp only [hlength, List.drop_left]

theorem bytewiseChars_flatMap (l : List Char) :
    bytewiseChars (l.flatMap String.utf8EncodeChar) = l := by
  induction l with
  | nil => rw [List.flatMap_nil, bytewiseChars]
  | cons c l ih => rw [List.flatMap_cons, bytewiseChars_append, ih]

theorem bytewiseChars_last_cons (bytes : List UInt8) :
    bytewiseChars (255 :: bytes) = '\uFFFD' :: bytewiseChars bytes := by
  rw [bytewiseChars]
  split
  next c hc =>
    obtain ⟨rest, hrest⟩ := exists_of_utf8DecodeChar? hc
    obtain ⟨b, tail, htail⟩ := List.exists_cons_of_ne_nil (String.utf8EncodeChar_ne_nil (c := c))
    -- the encoding would start with the last byte value
    rw [htail, List.cons_append, List.cons.injEq] at hrest
    have hmem : 255 ∈ String.utf8EncodeChar c := by
      rw [htail, hrest.1]
      exact List.mem_cons_self
    exact absurd hmem last_notMem_utf8EncodeChar
  next => rfl

/-- A character takes the place of at most as many bytes as it has. -/
theorem length_le_bytewiseChars :
    ∀ bytes, bytes.length ≤ ((bytewiseChars bytes).flatMap String.utf8EncodeChar).length
  | [] => Nat.zero_le _
  | b :: bytes => by
    rw [bytewiseChars]
    split
    next c hc =>
      have ih := length_le_bytewiseChars (bytes.drop (c.utf8Size - 1))
      have hpos := c.utf8Size_pos
      rw [List.length_drop] at ih
      rw [List.flatMap_cons, List.length_append, String.length_utf8EncodeChar, List.length_cons]
      omega
    next =>
      have ih := length_le_bytewiseChars bytes
      have hsize : '\uFFFD'.utf8Size = 3 := rfl
      rw [List.flatMap_cons, List.length_append, String.length_utf8EncodeChar, List.length_cons,
        hsize]
      omega
termination_by bytes => bytes.length

/-- The decoder that replaces one malformed byte at a time. -/
def bytewise : TextDecoder where
  toString bytes := String.ofList (bytewiseChars bytes)
  toString_asBytes s := by
    rw [asBytes_eq_flatMap, bytewiseChars_flatMap, String.ofList_toList]
  toString_last_cons bytes := by
    rw [bytewiseChars_last_cons, ← String.toList_inj, String.toList_append]
    simp only [String.toList_ofList]
    rfl
  length_le bytes := by
    rw [asBytes_ofList]
    exact length_le_bytewiseChars bytes

/-! ## Null-padded text -/

variable (T : TextDecoder)

/-- The dashboard's `trimNull`: the text before the first null byte. -/
def trimNull (bytes : List UInt8) : String :=
  T.toString (untilNull bytes)

/-- The command line's reading of a job type: the text of all bytes, without its null
characters. -/
def stripNulls (bytes : List UInt8) : String :=
  String.ofList ((T.toString bytes).toList.filter (· ≠ '\x00'))

variable {s : String} {n : ℕ}

theorem trimNull_zeroPadded (h : s.asBytes.length ≤ n) :
    T.trimNull (zeroPadded n s.asBytes).toList =
      String.ofList (s.toList.takeWhile (· ≠ '\x00')) := by
  rw [trimNull, toList_zeroPadded h, untilNull_append_replicate, untilNull_asBytes,
    T.toString_asBytes]

theorem stripNulls_zeroPadded (h : s.asBytes.length ≤ n) :
    T.stripNulls (zeroPadded n s.asBytes).toList =
      String.ofList (s.toList.filter (· ≠ '\x00')) := by
  -- the padding decodes to null characters, which are stripped with the others
  rw [stripNulls, toList_zeroPadded h, ← asBytes_replicate_null, ← asBytes_append,
    T.toString_asBytes, String.toList_append, List.filter_append, String.toList_ofList]
  simp

end TextDecoder

end SolQueue
