import SolQueue.Lib.Borsh

/-!
# Records in buffers

A record is saved over the front of a buffer of a fixed size, after a discriminator of its type, and
loaded from the front again. What stands after a record is left from the records saved before it.

* `Borsh.Record`: how the records of a type are written and read, and that a buffer has the space.
* `Borsh.Record.save`, `Borsh.Record.load`: a record is saved and loaded.
* `Borsh.Record.keepsLast`: after any number of records, the last one is loaded.
-/

namespace Borsh

/-- The records of a type, for buffers of `space` bytes. -/
structure Record (α : Type) (space : ℕ) where
  discriminator : Vector UInt8 8
  write : α → List UInt8
  read : Reader α
  reads : ∀ x, Reads read (write x) x
  fits : ∀ x, 8 + (write x).length ≤ space

namespace Record

variable {α : Type} {space : ℕ} (R : Record α space)

/-- The bytes of a record with its discriminator. -/
def bytes (x : α) : List UInt8 :=
  R.discriminator.toList ++ R.write x

/-- Write a record over the front of a buffer, which fails if the buffer ends before the record. -/
def save (data : List UInt8) (x : α) : Option (List UInt8) :=
  if (R.bytes x).length ≤ data.length then some (R.bytes x ++ data.drop (R.bytes x).length)
  else none

/-- Save records one after the other in one buffer. -/
def saveAll (data : List UInt8) (xs : List α) : Option (List UInt8) :=
  xs.foldlM R.save data

/-- Read the record at the front of a buffer, which fails if the discriminator is another one. -/
def load (data : List UInt8) : Option α :=
  if data.take 8 = R.discriminator.toList then (R.read.run (data.drop 8)).map Prod.fst else none

/-- Records saved in a new buffer all fit, and the last one is loaded. -/
def KeepsLast : Prop :=
  ∀ (earlier : List α) (x : α), ∃ data,
    R.saveAll (List.replicate space 0) (earlier ++ [x]) = some data ∧ data.length = space ∧
      R.load data = some x

variable {R} {data : List UInt8}

/-- A record fits in a buffer of its space, and keeps the size of the buffer. -/
theorem exists_save (x : α) (h : data.length = space) :
    ∃ rest, R.save data x = some (R.bytes x ++ rest) ∧ (R.bytes x ++ rest).length = space := by
  have hle : (R.bytes x).length ≤ data.length := by
    rw [h, bytes, List.length_append, Vector.length_toList]
    exact R.fits x
  refine ⟨data.drop (R.bytes x).length, if_pos hle, ?_⟩
  rw [List.length_append, List.length_drop, Nat.add_sub_cancel' hle, h]

/-- A record is loaded whatever follows it. -/
theorem load_bytes_append (x : α) (rest : List UInt8) :
    R.load (R.bytes x ++ rest) = some x := by
  have hlength : R.discriminator.toList.length = 8 := Vector.length_toList
  rw [load, bytes, List.append_assoc, if_pos (List.take_left' hlength), List.drop_left' hlength,
    R.reads x rest]
  rfl

/-- Nothing is loaded from behind another discriminator. -/
theorem load_append_of_ne {discriminator : Vector UInt8 8} (h : discriminator ≠ R.discriminator)
    (rest : List UInt8) : R.load (discriminator.toList ++ rest) = none := by
  rw [load, List.take_left' Vector.length_toList]
  exact if_neg fun hsame => h (Vector.toList_inj.mp hsame)

/-- A record of another type is not loaded. -/
theorem load_eq_none {β : Type} {space' : ℕ} {S : Record β space'}
    (h : R.discriminator ≠ S.discriminator) (x : α) (rest : List UInt8) :
    S.load (R.bytes x ++ rest) = none := by
  rw [bytes, List.append_assoc]
  exact load_append_of_ne h _

/-- Records fit one after the other. -/
theorem exists_saveAll (xs : List α) (h : data.length = space) :
    ∃ data', R.saveAll data xs = some data' ∧ data'.length = space := by
  induction xs generalizing data with
  | nil => exact ⟨data, rfl, h⟩
  | cons x xs ih =>
    obtain ⟨rest, hsave, hlength⟩ := exists_save (R := R) x h
    obtain ⟨data', hrest, hlength'⟩ := ih hlength
    refine ⟨data', ?_, hlength'⟩
    rw [saveAll, List.foldlM_cons, hsave]
    exact hrest

/-- After any number of records, the last one is at the front of the buffer. -/
theorem exists_saveAll_snoc (earlier : List α) (x : α) (h : data.length = space) :
    ∃ rest, R.saveAll data (earlier ++ [x]) = some (R.bytes x ++ rest) ∧
      (R.bytes x ++ rest).length = space := by
  obtain ⟨data', hearlier, hlength⟩ := exists_saveAll (R := R) earlier h
  obtain ⟨rest, hsave, hlength'⟩ := exists_save (R := R) x hlength
  refine ⟨rest, ?_, hlength'⟩
  rw [saveAll] at hearlier ⊢
  rw [List.foldlM_append, hearlier, Option.bind_eq_bind, Option.bind_some, List.foldlM_cons, hsave]
  rfl

variable (R)

/-- A record is loaded as it was saved last. -/
theorem keepsLast : R.KeepsLast := by
  intro earlier x
  obtain ⟨rest, hsave, hlength⟩ := exists_saveAll_snoc (R := R) earlier x List.length_replicate
  exact ⟨R.bytes x ++ rest, hsave, hlength, load_bytes_append x rest⟩

end Record

end Borsh
