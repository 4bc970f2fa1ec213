import SolQueue.Lib.Tally
import Mathlib.Data.Option.Basic
import Mathlib.Logic.Function.Basic

/-!
# Maps stored at addresses

A finite map whose keys are computed from indices, read as a function of the indices. `address`
may have no key for an index, but gives different indices different keys.

* `Finmap.Stores`: the map holds under the key of every index what the function has there.
* `Finmap.Stores.insert`, `Finmap.Stores.erase`: writing under the key of an index is writing at the
  index.
-/

namespace Finmap

variable {ι κ α β : Type} [DecidableEq ι] [DecidableEq κ]

/-- The map `m` holds under the key of every index what `f` has there, related by `R`. -/
def Stores (address : ι → Option κ) (R : ι → α → β → Prop) (f : ι → Option α)
    (m : Finmap fun _ : κ => β) : Prop :=
  ∀ i k, address i = some k → Option.Rel (R i) (f i) (m.lookup k)

variable {address : ι → Option κ} {R : ι → α → β → Prop} {f : ι → Option α}
  {m : Finmap fun _ : κ => β} {i : ι} {k : κ} {a : α} {b : β}

omit [DecidableEq ι] in
theorem Stores.empty : Stores address R (fun _ => none) ∅ := fun _ _ _ => .none

/-- Writing under the key of an index is writing at the index. -/
theorem Stores.insert (h : Stores address R f m)
    (hinj : ∀ i i' k, address i = some k → address i' = some k → i = i')
    (hk : address i = some k) (hb : R i a b) :
    Stores address R (Function.update f i (some a)) (m.insert k b) := by
  intro i' k' hk'
  by_cases hi : i' = i
  · subst hi
    obtain rfl : k = k' := Option.some.inj (hk.symm.trans hk')
    rw [Function.update_self, lookup_insert]
    exact .some hb
  · -- another index has another key
    have hne : k' ≠ k := by
      rintro rfl
      exact hi (hinj i' i k' hk' hk)
    rw [Function.update_of_ne hi, lookup_insert_of_ne m hne]
    exact h i' k' hk'

/-- Erasing under the key of an index is erasing at the index. -/
theorem Stores.erase (h : Stores address R f m)
    (hinj : ∀ i i' k, address i = some k → address i' = some k → i = i')
    (hk : address i = some k) : Stores address R (Function.update f i none) (m.erase k) := by
  intro i' k' hk'
  by_cases hi : i' = i
  · subst hi
    obtain rfl : k = k' := Option.some.inj (hk.symm.trans hk')
    rw [Function.update_self, lookup_erase]
    exact .none
  · have hne : k' ≠ k := by
      rintro rfl
      exact hi (hinj i' i k' hk' hk)
    rw [Function.update_of_ne hi, lookup_erase_ne hne]
    exact h i' k' hk'

end Finmap
