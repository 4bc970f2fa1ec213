import SolQueue.Accounts
import SolQueue.Encoding

/-!
# What addresses are derived from

The runtime hashes the seeds of an address and its bump one after the other, without anything
between them. The name of a queue has any length and any bytes, but it is the only part of the
seeds that does: the parts around it are of fixed length, and the first one tells the kind of the
account.

* `Seeds.bytes`, `Seeds.preimage`: the seeds as byte strings, and what is hashed.
* `preimage_eq_iff`: different seeds or bumps give different byte strings.
-/

namespace SolQueue

/-- The seeds as the program passes them. -/
def Seeds.bytes : Seeds PublicKey → List (List UInt8)
  | .queue queueName => ["queue".asBytes, queueName]
  | .job queueName seq => ["job".asBytes, queueName, leBytes 8 seq.toNat]
  | .worker queueName w => ["worker".asBytes, queueName, w.toList]

/-- What is hashed to an address: the seeds one after the other, and the bump. -/
def Seeds.preimage (s : Seeds PublicKey) (bump : UInt8) : List UInt8 :=
  s.bytes.flatten ++ [bump]

/-! ## Kinds -/

/-- The first byte of the seeds. -/
def Seeds.tag : Seeds PublicKey → UInt8
  | .queue _ => 'q'.toUInt8
  | .job _ _ => 'j'.toUInt8
  | .worker _ _ => 'w'.toUInt8

variable {s s' : Seeds PublicKey} {b b' : UInt8}

theorem Seeds.head?_bytes (s : Seeds PublicKey) : s.bytes.flatten.head? = some s.tag := by
  cases s <;> rfl

/-! ## Seeds -/

/-- The name of a queue is what stands between two parts of fixed length. -/
theorem append_append_inj {tag name name' last last' : List UInt8}
    (hlast : last.length = last'.length) :
    tag ++ (name ++ last) = tag ++ (name' ++ last') ↔ name = name' ∧ last = last' := by
  rw [List.append_right_inj]
  refine ⟨fun h => List.append_inj' h hlast, ?_⟩
  rintro ⟨rfl, rfl⟩
  rfl

/-- Seeds are determined by their bytes. -/
theorem Seeds.flatten_bytes_inj : s.bytes.flatten = s'.bytes.flatten ↔ s = s' := by
  refine ⟨fun h => ?_, fun h => h ▸ rfl⟩
  have htag : s.tag = s'.tag :=
    Option.some.inj (s.head?_bytes.symm.trans ((congrArg List.head? h).trans s'.head?_bytes))
  cases s with
  | queue name =>
    cases s' with
    | queue name' =>
      simp only [bytes, List.flatten_cons, List.append_right_inj] at h
      simpa using h
    | job | worker =>
      simp only [tag] at htag
      exact absurd htag (by decide)
  | job name seq =>
    cases s' with
    | job name' seq' =>
      simp only [bytes, List.flatten_cons, List.flatten_nil, List.append_nil] at h
      obtain ⟨rfl, hseq⟩ := (append_append_inj (by rw [length_leBytes, length_leBytes])).mp h
      rw [leBytes_inj seq.toNat_lt seq'.toNat_lt, UInt64.toNat_inj] at hseq
      rw [hseq]
    | queue | worker =>
      simp only [tag] at htag
      exact absurd htag (by decide)
  | worker name w =>
    cases s' with
    | worker name' w' =>
      simp only [bytes, List.flatten_cons, List.flatten_nil, List.append_nil] at h
      obtain ⟨rfl, hw⟩ := (append_append_inj (w.length_toList.trans w'.length_toList.symm)).mp h
      rw [Vector.toList_inj.mp hw]
    | queue | job =>
      simp only [tag] at htag
      exact absurd htag (by decide)

/-- Accounts of different kinds, names, numbers or workers, or with different bumps, have
different byte strings hashed to their addresses. -/
theorem preimage_eq_iff (s s' : Seeds PublicKey) (b b' : UInt8) :
    s.preimage b = s'.preimage b' ↔ s = s' ∧ b = b' := by
  rw [Seeds.preimage, Seeds.preimage, List.append_singleton_inj, Seeds.flatten_bytes_inj]

end SolQueue
