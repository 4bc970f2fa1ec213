import Mathlib.Logic.Equiv.Defs
import SolQueue.Lib.Borsh
import SolQueue.Lib.Utf8

/-!
# Borsh formats

A format says how the values of a type are written and read. It is exact: a value that fits is read
back whatever follows it, and bytes that start with no such value are refused. Formats of records
are made from those of their fields.

* `Borsh.Format`: formats, which carry the proof that they are exact.
* `Borsh.Format.u8`, `u64`, `i64`, `bool`, `array`, `bytes`, `string`: formats of single fields.
* `Borsh.Format.prod`, `option`, `via`, `map`, `tagged`: pairs, options, other views of a type, and
  values of several types told apart by a tag.
* `Borsh.Format.Short`: only what is too long for its four bytes of length cannot be written.
-/

namespace Borsh

/-- How the values of a type are written and read. -/
structure Format (α : Type) where
  /-- Only values that fit can be written: a length has four bytes. -/
  Fits : α → Prop
  write : α → List UInt8
  read : Reader α
  /-- What is read is what was written. -/
  run_eq_some_iff : ∀ {bytes rest : List UInt8} {x : α},
    read.run bytes = some (x, rest) ↔ Fits x ∧ bytes = write x ++ rest

/-- Two readers run one after the other. -/
theorem run_bind_eq_some {α β : Type} {read : Reader α} {next : α → Reader β}
    {bytes rest : List UInt8} {y : β} :
    (read >>= next).run bytes = some (y, rest) ↔
      ∃ x middle, read.run bytes = some (x, middle) ∧ (next x).run middle = some (y, rest) := by
  rw [StateT.run_bind]
  simp [Option.bind_eq_some_iff]

theorem run_pure_eq_some {α : Type} {bytes rest : List UInt8} {x y : α} :
    (pure x : Reader α).run bytes = some (y, rest) ↔ x = y ∧ bytes = rest := by
  simp [StateT.run_pure]

namespace Format

variable {α β ι : Type}

/-! ## Single fields -/

/-- A byte. -/
def u8 : Format UInt8 where
  Fits _ := True
  write b := [b]
  read := Borsh.u8
  run_eq_some_iff {bytes rest b} := by
    cases bytes with
    | nil => simp [Borsh.u8, StateT.run]
    | cons b' tail => simp [Borsh.u8, StateT.run]

/-- An array of bytes. -/
def array (n : ℕ) : Format (Vector UInt8 n) where
  Fits _ := True
  write := Vector.toList
  read := Borsh.array n
  run_eq_some_iff {bytes rest v} := by
    constructor
    · intro h
      change Borsh.array n bytes = _ at h
      unfold Borsh.array at h
      split_ifs at h with hle
      obtain ⟨rfl, rfl⟩ := Prod.mk.inj (Option.some.inj h)
      exact ⟨trivial, (List.take_append_drop n bytes).symm⟩
    · rintro ⟨-, rfl⟩
      exact reads_array v rest

/-- Another view of the values: some are those of another type. -/
def via (F : Format α) (decode : α → Option β) (encode : β → α)
    (h : ∀ {x y}, decode x = some y ↔ encode y = x) : Format β where
  Fits y := F.Fits (encode y)
  write y := F.write (encode y)
  read := do
    match decode (← F.read) with
    | some y => return y
    | none => failure
  run_eq_some_iff {bytes rest y} := by
    simp only [run_bind_eq_some, F.run_eq_some_iff]
    constructor
    · rintro ⟨x, middle, ⟨hfits, rfl⟩, hy⟩
      split at hy
      next y' hdecode =>
        obtain ⟨rfl, rfl⟩ := run_pure_eq_some.mp hy
        obtain rfl := h.mp hdecode
        exact ⟨hfits, rfl⟩
      next => cases hy
    · rintro ⟨hfits, rfl⟩
      exact ⟨encode y, rest, ⟨hfits, rfl⟩, by rw [h.mpr rfl]; rfl⟩

/-- An unsigned number of eight bytes. -/
def u64 : Format UInt64 where
  Fits _ := True
  write x := leBytes 8 x.toNat
  read := Borsh.u64
  run_eq_some_iff {bytes rest x} := by
    constructor
    · intro h
      obtain ⟨v, middle, hv, hx⟩ := run_bind_eq_some.mp h
      obtain ⟨-, rfl⟩ := (array 8).run_eq_some_iff.mp hv
      obtain ⟨rfl, rfl⟩ := run_pure_eq_some.mp hx
      -- eight bytes are those of a number below `2 ^ 64`
      have hlt : leNat v.toList < 256 ^ v.toList.length := leNat_lt
      rw [Vector.length_toList] at hlt
      refine ⟨trivial, congrArg (· ++ middle) (eq_of_leNat_eq ?_ ?_)⟩
      · rw [length_leBytes]
        exact Vector.length_toList
      · rw [UInt64.toNat_ofNat_of_lt' (by simpa using hlt), leNat_leBytes hlt]
        rfl
    · rintro ⟨-, rfl⟩
      exact reads_u64 x rest

/-- A signed number of eight bytes. -/
def i64 : Format Int64 where
  Fits _ := True
  write := i64Bytes
  read := Borsh.i64
  run_eq_some_iff {bytes rest x} := by
    constructor
    · intro h
      obtain ⟨y, middle, hy, hx⟩ := run_bind_eq_some.mp h
      obtain ⟨-, rfl⟩ := u64.run_eq_some_iff.mp hy
      obtain ⟨rfl, rfl⟩ := run_pure_eq_some.mp hx
      exact ⟨trivial, rfl⟩
    · rintro ⟨-, rfl⟩
      exact reads_i64 x rest

/-- A Boolean. -/
def bool : Format Bool where
  Fits _ := True
  write b := [b.toUInt8]
  read := Borsh.bool
  run_eq_some_iff {bytes rest b} := by
    constructor
    · intro h
      obtain ⟨tag, middle, htag, hb⟩ := run_bind_eq_some.mp h
      obtain ⟨-, rfl⟩ := u8.run_eq_some_iff.mp htag
      split_ifs at hb with hzero hone
      · obtain ⟨rfl, rfl⟩ := run_pure_eq_some.mp hb
        exact ⟨trivial, by rw [hzero]; rfl⟩
      · obtain ⟨rfl, rfl⟩ := run_pure_eq_some.mp hb
        exact ⟨trivial, by rw [hone]; rfl⟩
      · cases hb
    · rintro ⟨-, rfl⟩
      exact reads_bool b rest

/-- The length of a value, in four bytes. -/
def length : Format ℕ where
  Fits n := n < 2 ^ 32
  write := leBytes 4
  read := do return leNat (← Borsh.array 4).toList
  run_eq_some_iff {bytes rest n} := by
    constructor
    · intro h
      obtain ⟨v, middle, hv, hn⟩ := run_bind_eq_some.mp h
      obtain ⟨-, rfl⟩ := (array 4).run_eq_some_iff.mp hv
      obtain ⟨rfl, rfl⟩ := run_pure_eq_some.mp hn
      have hlt : leNat v.toList < 256 ^ v.toList.length := leNat_lt
      rw [Vector.length_toList] at hlt
      refine ⟨by simpa using hlt, congrArg (· ++ middle) (eq_of_leNat_eq ?_ ?_)⟩
      · rw [length_leBytes]
        exact Vector.length_toList
      · exact (leNat_leBytes hlt).symm
    · rintro ⟨hlt, rfl⟩
      let v : Vector UInt8 4 := ⟨(leBytes 4 n).toArray, by simp⟩
      refine run_bind_eq_some.mpr ⟨v, rest, reads_array v rest, run_pure_eq_some.mpr ⟨?_, rfl⟩⟩
      exact leNat_leBytes (by simpa using hlt)

/-- The next `n` bytes. -/
def take (n : ℕ) : Reader (List UInt8) := fun bytes =>
  if n ≤ bytes.length then some (bytes.take n, bytes.drop n) else none

/-- Bytes after their length. -/
def bytes : Format (List UInt8) where
  Fits l := l.length < 2 ^ 32
  write l := leBytes 4 l.length ++ l
  read := do take (← length.read)
  run_eq_some_iff {data rest l} := by
    constructor
    · intro h
      obtain ⟨n, middle, hn, hl⟩ := run_bind_eq_some.mp h
      obtain ⟨hfits, rfl⟩ := length.run_eq_some_iff.mp hn
      change take n middle = _ at hl
      unfold take at hl
      split_ifs at hl with hle
      obtain ⟨rfl, rfl⟩ := Prod.mk.inj (Option.some.inj hl)
      have hlength : (middle.take n).length = n := List.length_take_of_le hle
      rw [hlength, List.append_assoc, List.take_append_drop]
      exact ⟨hfits, rfl⟩
    · rintro ⟨hfits, rfl⟩
      refine run_bind_eq_some.mpr ⟨l.length, l ++ rest,
        length.run_eq_some_iff.mpr ⟨hfits, List.append_assoc _ _ _⟩, ?_⟩
      change take l.length (l ++ rest) = _
      rw [take, if_pos (by simp), List.take_left, List.drop_left]

/-- A text: the length of its bytes, and then these, which are refused if they are no text. -/
def string : Format String :=
  bytes.via Utf8.decode String.asBytes Utf8.decode_eq_some_iff

/-! ## Composition -/

/-- A value after another one. -/
def prod (F : Format α) (G : Format β) : Format (α × β) where
  Fits x := F.Fits x.1 ∧ G.Fits x.2
  write x := F.write x.1 ++ G.write x.2
  read := do return (← F.read, ← G.read)
  run_eq_some_iff {bytes rest x} := by
    simp only [run_bind_eq_some, run_pure_eq_some, F.run_eq_some_iff, G.run_eq_some_iff]
    constructor
    · rintro ⟨a, _, ⟨ha, rfl⟩, b, _, ⟨hb, rfl⟩, rfl, rfl⟩
      exact ⟨⟨ha, hb⟩, (List.append_assoc _ _ _).symm⟩
    · rintro ⟨⟨ha, hb⟩, rfl⟩
      exact ⟨x.1, _, ⟨ha, List.append_assoc _ _ _⟩, x.2, rest, ⟨hb, rfl⟩, rfl, rfl⟩

/-- An optional value after its tag. -/
def option (F : Format α) : Format (Option α) where
  Fits x := ∀ y ∈ x, F.Fits y
  write
    | none => [0]
    | some x => 1 :: F.write x
  read := Borsh.option F.read
  run_eq_some_iff {bytes rest x} := by
    constructor
    · intro h
      obtain ⟨tag, middle, htag, hx⟩ := run_bind_eq_some.mp h
      obtain ⟨-, rfl⟩ := u8.run_eq_some_iff.mp htag
      split_ifs at hx with hzero hone
      · obtain ⟨rfl, rfl⟩ := run_pure_eq_some.mp hx
        exact ⟨by simp, by rw [hzero]; rfl⟩
      · obtain ⟨y, tail, hy, hsome⟩ := run_bind_eq_some.mp hx
        obtain ⟨hfits, rfl⟩ := F.run_eq_some_iff.mp hy
        obtain ⟨rfl, rfl⟩ := run_pure_eq_some.mp hsome
        exact ⟨by simpa using hfits, by rw [hone]; rfl⟩
      · cases hx
    · rintro ⟨hfits, rfl⟩
      cases x with
      | none => exact reads_option_none rest
      | some y =>
        exact reads_option_some (fun tail => F.run_eq_some_iff.mpr ⟨hfits y rfl, rfl⟩) rest

/-- The same values in another form. -/
def map (F : Format α) (e : α ≃ β) : Format β :=
  F.via (fun x => some (e x)) e.symm fun {x y} => by
    rw [Option.some.injEq, Equiv.symm_apply_eq, eq_comm]

/-- The one of finitely many whose tag is `v`. -/
def untag {n : ℕ} (all : List ι) (tag : ι → Vector UInt8 n) (v : Vector UInt8 n) : Option ι :=
  all.find? fun i => tag i = v

/-- Different tags tell the types apart. -/
theorem untag_eq_some_iff {n : ℕ} {all : List ι} {tag : ι → Vector UInt8 n} (hall : ∀ i, i ∈ all)
    (htags : (all.map tag).Nodup) {v : Vector UInt8 n} {i : ι} :
    untag all tag v = some i ↔ tag i = v := by
  constructor
  · intro h
    simpa using List.find?_some h
  · rintro rfl
    have hfound : (untag all tag (tag i)).isSome :=
      List.find?_isSome.mpr ⟨i, hall i, decide_eq_true rfl⟩
    obtain ⟨i', hi'⟩ := Option.isSome_iff_exists.mp hfound
    have htag : tag i' = tag i := by simpa using List.find?_some hi'
    rw [hi', List.inj_on_of_nodup_map htags (hall i') (hall i) htag]

/-- A value of one of several types, after the tag of its type. -/
def tagged {n : ℕ} (all : List ι) (tag : ι → Vector UInt8 n) (hall : ∀ i, i ∈ all)
    (htags : (all.map tag).Nodup) {κ : ι → Type} (F : ∀ i, Format (κ i)) :
    Format (Σ i, κ i) where
  Fits x := (F x.1).Fits x.2
  write x := (tag x.1).toList ++ (F x.1).write x.2
  read := do
    match untag all tag (← Borsh.array n) with
    | some i => return ⟨i, ← (F i).read⟩
    | none => failure
  run_eq_some_iff {bytes rest x} := by
    constructor
    · intro hrun
      obtain ⟨v, middle, hv, hx⟩ := run_bind_eq_some.mp hrun
      obtain ⟨-, rfl⟩ := (array n).run_eq_some_iff.mp hv
      split at hx
      next i huntag =>
        obtain ⟨y, tail, hy, hpair⟩ := run_bind_eq_some.mp hx
        obtain ⟨hfits, rfl⟩ := (F i).run_eq_some_iff.mp hy
        obtain ⟨rfl, rfl⟩ := run_pure_eq_some.mp hpair
        obtain rfl := (untag_eq_some_iff hall htags).mp huntag
        exact ⟨hfits, (List.append_assoc _ _ _).symm⟩
      next => cases hx
    · rintro ⟨hfits, rfl⟩
      refine run_bind_eq_some.mpr ⟨tag x.1, (F x.1).write x.2 ++ rest,
        (array n).run_eq_some_iff.mpr ⟨trivial, List.append_assoc _ _ _⟩, ?_⟩
      rw [(untag_eq_some_iff hall htags).mpr rfl]
      exact run_bind_eq_some.mpr ⟨x.2, rest, (F x.1).run_eq_some_iff.mpr ⟨hfits, rfl⟩, rfl⟩

/-! ## What fits -/

/-- Whatever is written in fewer than `2 ^ 32` bytes fits. -/
def Short (F : Format α) : Prop :=
  ∀ x, (F.write x).length < 2 ^ 32 → F.Fits x

theorem short_u8 : u8.Short := fun _ _ => trivial

theorem short_u64 : u64.Short := fun _ _ => trivial

theorem short_i64 : i64.Short := fun _ _ => trivial

theorem short_bool : bool.Short := fun _ _ => trivial

theorem short_bytes : bytes.Short := by
  intro l hlength
  change (leBytes 4 l.length ++ l).length < 2 ^ 32 at hlength
  rw [List.length_append] at hlength
  show l.length < 2 ^ 32
  omega

theorem Short.via {F : Format α} (h : F.Short) {decode : α → Option β} {encode : β → α}
    (hdecode : ∀ {x y}, decode x = some y ↔ encode y = x) : (F.via decode encode hdecode).Short :=
  fun y hlength => h (encode y) hlength

theorem short_string : string.Short :=
  short_bytes.via Utf8.decode_eq_some_iff

theorem Short.map {F : Format α} (h : F.Short) (e : α ≃ β) : (F.map e).Short :=
  fun y hlength => h (e.symm y) hlength

theorem Short.prod {F : Format α} {G : Format β} (hF : F.Short) (hG : G.Short) :
    (F.prod G).Short := by
  intro x hlength
  change (F.write x.1 ++ G.write x.2).length < 2 ^ 32 at hlength
  rw [List.length_append] at hlength
  exact ⟨hF x.1 (by omega), hG x.2 (by omega)⟩

theorem Short.option {F : Format α} (h : F.Short) : F.option.Short := by
  rintro x hlength y rfl
  change (1 :: F.write y).length < 2 ^ 32 at hlength
  rw [List.length_cons] at hlength
  exact h y (by omega)

/-- A value after the tag of its type fits if it is short. -/
theorem Short.tagged {n : ℕ} {all : List ι} {tag : ι → Vector UInt8 n} {hall : ∀ i, i ∈ all}
    {htags : (all.map tag).Nodup} {κ : ι → Type} {F : ∀ i, Format (κ i)}
    (h : ∀ i, (F i).Short) : (tagged all tag hall htags F).Short := by
  intro x hlength
  change ((tag x.1).toList ++ (F x.1).write x.2).length < 2 ^ 32 at hlength
  rw [List.length_append] at hlength
  exact h x.1 x.2 (by omega)

end Format

end Borsh
