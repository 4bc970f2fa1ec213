import Mathlib.Data.Finmap
import Mathlib.Algebra.BigOperators.Group.Multiset.Basic
import Mathlib.Algebra.GroupWithZero.Nat
import Mathlib.Data.Set.Finite.Lemmas

/-!
# Tallies over finite maps

A tally sums a natural-number weight over the entries of a `Finmap`; with a weight of `0` or `1`
it counts entries. The rules say how a tally moves when one entry is inserted, replaced or
erased:

* `Finmap.tally_insert_new`, `Finmap.tally_insert_replace`, `Finmap.tally_erase`.
* `Finmap.tally_eq_zero`, `Finmap.tally_congr`: reading a tally off the entries.
* `Finmap.tally_eq_sum`: reading it off a list of keys.
* `Finmap.modify`: an entry is changed where it is.
* `Finmap.exists_lookup_min`: among some of the entries, one has the least rank.
-/

namespace Finmap

variable {α β : Type*}

/-- The sum of the weights `f k v` over the entries of `m`. -/
def tally (f : α → β → ℕ) (m : Finmap fun _ : α => β) : ℕ :=
  (m.entries.map fun e => f e.1 e.2).sum

/-- The weight of what is found under `k`; nothing weighs nothing. -/
def weigh (f : α → β → ℕ) (k : α) : Option β → ℕ
  | none => 0
  | some v => f k v

@[simp]
theorem weigh_none (f : α → β → ℕ) (k : α) : weigh f k none = 0 := rfl

@[simp]
theorem weigh_some (f : α → β → ℕ) (k : α) (v : β) : weigh f k (some v) = f k v := rfl

variable [DecidableEq α] {f g : α → β → ℕ} {m : Finmap fun _ : α => β} {k k' : α} {v v' : β}

/-- What is found in a map after one insertion. -/
theorem lookup_insert_eq_ite :
    (m.insert k v).lookup k' = if k' = k then some v else m.lookup k' := by
  split_ifs with h
  · subst h
    exact lookup_insert m
  · exact lookup_insert_of_ne m h

/-- What is found in a map after one erasure. -/
theorem lookup_erase_eq_ite :
    (m.erase k).lookup k' = if k' = k then none else m.lookup k' := by
  split_ifs with h
  · subst h
    exact lookup_erase k' m
  · exact lookup_erase_ne h

/-- A new entry weighs under its key. -/
theorem weigh_insert_new (h : m.lookup k = none) :
    weigh f k' ((m.insert k v).lookup k') =
      weigh f k' (m.lookup k') + if k = k' then f k v else 0 := by
  by_cases hk : k = k'
  · subst hk
    rw [lookup_insert, h, if_pos rfl, weigh_some, weigh_none, Nat.zero_add]
  · rw [lookup_insert_of_ne _ (Ne.symm hk), if_neg hk, Nat.add_zero]

/-- An erased entry no longer does. -/
theorem weigh_erase (h : m.lookup k = some v) :
    weigh f k' ((m.erase k).lookup k') + (if k = k' then f k v else 0) =
      weigh f k' (m.lookup k') := by
  by_cases hk : k = k'
  · subst hk
    rw [lookup_erase, h, if_pos rfl, weigh_some, weigh_none, Nat.zero_add]
  · rw [lookup_erase_ne (Ne.symm hk), if_neg hk, Nat.add_zero]

/-- A relation between what is found before and after one insertion: it need only hold of the key
written and of keys that keep their value. -/
theorem lookup_insert_rel {P : α → Option β → Option β → Prop} (keep : ∀ x, P k' x x)
    (write : P k (m.lookup k) (some v)) : P k' (m.lookup k') ((m.insert k v).lookup k') := by
  rw [lookup_insert_eq_ite]
  split_ifs with h
  · rwa [h]
  · exact keep _

/-- What holds of all entries still does after an insertion. -/
theorem forall_lookup_insert {P : α → β → Prop} (h : ∀ x u, m.lookup x = some u → P x u)
    (hv : P k v) : ∀ x u, (m.insert k v).lookup x = some u → P x u := by
  intro x u hu
  rw [lookup_insert_eq_ite] at hu
  split_ifs at hu with hx
  · rwa [hx, ← Option.some.inj hu]
  · exact h x u hu

/-- What holds of all entries still does after an erasure. -/
theorem forall_lookup_erase {P : α → β → Prop} (h : ∀ x u, m.lookup x = some u → P x u) :
    ∀ x u, (m.erase k).lookup x = some u → P x u := by
  intro x u hu
  rw [lookup_erase_eq_ite] at hu
  split_ifs at hu
  exact h x u hu

/-- What is read off a map does not change when an entry is replaced by one that reads the same. -/
theorem apply_lookup_insert {γ : Type*} {r : Option β → γ} (h : m.lookup k = some v)
    (hr : r (some v') = r (some v)) : r ((m.insert k v').lookup k') = r (m.lookup k') := by
  rw [lookup_insert_eq_ite]
  split_ifs with hk
  · rw [hk, h, hr]
  · rfl

/-- Maps that agree under a key still do after the same insertion. -/
theorem lookup_insert_congr {m' : Finmap fun _ : α => β} (h : m.lookup k' = m'.lookup k') :
    (m.insert k v).lookup k' = (m'.insert k v).lookup k' := by
  rw [lookup_insert_eq_ite, lookup_insert_eq_ite, h]

/-- Maps that agree under a key still do after the same erasure. -/
theorem lookup_erase_congr {m' : Finmap fun _ : α => β} (h : m.lookup k' = m'.lookup k') :
    (m.erase k).lookup k' = (m'.erase k).lookup k' := by
  rw [lookup_erase_eq_ite, lookup_erase_eq_ite, h]

/-- Apply `u` to the entry under `k`, if there is one. -/
def modify (k : α) (u : β → β) (m : Finmap fun _ : α => β) : Finmap fun _ : α => β :=
  match m.lookup k with
  | some v => m.insert k (u v)
  | none => m

/-- What is found in a map after one modification. -/
theorem lookup_modify {u : β → β} :
    (m.modify k u).lookup k' = (m.lookup k').map fun v => if k' = k then u v else v := by
  unfold modify
  split
  next v h =>
    rw [lookup_insert_eq_ite]
    split_ifs with hk
    · rw [hk, h, Option.map_some]
    · exact Option.map_id'.symm
  next h =>
    split_ifs with hk
    · rw [hk, h, Option.map_none]
    · exact Option.map_id'.symm

/-- An entry is inserted after a modification as the modification leaves it. -/
theorem modify_insert {u : β → β} :
    (m.insert k' v).modify k u = (m.modify k u).insert k' (if k' = k then u v else v) := by
  apply ext_lookup
  intro x
  rw [lookup_modify, lookup_insert_eq_ite, lookup_insert_eq_ite, lookup_modify]
  by_cases hx : x = k'
  · rw [if_pos hx, if_pos hx, Option.map_some, hx]
  · rw [if_neg hx, if_neg hx]

/-- Replacing an entry is erasing it first. -/
theorem insert_erase_self : (m.erase k).insert k v = m.insert k v := by
  apply ext_lookup
  intro x
  simp only [lookup_insert_eq_ite, lookup_erase_eq_ite]
  split_ifs <;> rfl

/-- Erasing an inserted entry is erasing what was there before. -/
theorem erase_insert_self : (m.insert k v).erase k = m.erase k := by
  apply ext_lookup
  intro x
  simp only [lookup_erase_eq_ite, lookup_insert_eq_ite]
  split_ifs <;> rfl

/-- Putting an erased entry back restores the map. -/
theorem insert_erase_of_lookup (h : m.lookup k = some v) : (m.erase k).insert k v = m := by
  apply ext_lookup
  intro x
  simp only [lookup_insert_eq_ite, lookup_erase_eq_ite]
  split_ifs with hx
  · rw [hx, h]
  · rfl

/-- Writing an entry back as it was changes nothing. -/
theorem insert_of_lookup (h : m.lookup k = some v) : m.insert k v = m := by
  rw [← insert_erase_self, insert_erase_of_lookup h]

/-- A new entry adds its weight. -/
theorem tally_insert_new (h : m.lookup k = none) :
    tally f (m.insert k v) = tally f m + f k v := by
  rw [tally, tally, entries_insert_of_notMem (lookup_eq_none.mp h), Multiset.map_cons,
    Multiset.sum_cons, Nat.add_comm]

/-- Erasing an entry removes its weight. -/
theorem tally_erase (h : m.lookup k = some v) : tally f (m.erase k) + f k v = tally f m := by
  rw [← tally_insert_new (lookup_erase k m), insert_erase_of_lookup h]

/-- Replacing an entry trades the old weight for the new one. -/
theorem tally_insert_replace (h : m.lookup k = some v) :
    tally f (m.insert k v') + f k v = tally f m + f k v' := by
  rw [← tally_erase h, ← insert_erase_self, tally_insert_new (lookup_erase k m)]
  omega

/-- Erasing what is under a key removes its weight, whether or not there is anything. -/
theorem tally_erase_add_weigh : tally f (m.erase k) + weigh f k (m.lookup k) = tally f m := by
  cases h : m.lookup k with
  | none =>
    rw [weigh_none, Nat.add_zero]
    congr 1
    apply ext_lookup
    intro x
    rw [lookup_erase_eq_ite]
    split_ifs with hx
    · rw [hx, h]
    · rfl
  | some v => exact tally_erase h

/-- Between maps that differ under one key only, the tally moves by the weights found there. -/
theorem tally_add_weigh {m' : Finmap fun _ : α => β} (h : ∀ x, x ≠ k → m'.lookup x = m.lookup x) :
    tally f m' + weigh f k (m.lookup k) = tally f m + weigh f k (m'.lookup k) := by
  -- without the key the maps are the same
  have herase : m'.erase k = m.erase k := by
    apply ext_lookup
    intro x
    simp only [lookup_erase_eq_ite]
    split_ifs with hx
    · rfl
    · exact h x hx
  rw [← tally_erase_add_weigh (k := k) (m := m), ← tally_erase_add_weigh (k := k) (m := m'), herase]
  omega

/-- An entry of the map is found under its key. -/
theorem mem_entries_iff_lookup {e : Sigma fun _ : α => β} :
    e ∈ m.entries ↔ m.lookup e.1 = some e.2 := by
  induction m using Finmap.induction_on with
  | H a =>
    rw [AList.toFinmap_entries, lookup_toFinmap, Multiset.mem_coe]
    exact (List.mem_dlookup_iff a.nodupKeys).symm

/-- Among the finitely many entries that satisfy a condition, one has the least rank. -/
theorem exists_lookup_min {γ : Type*} [LinearOrder γ] (rank : β → γ) (P : β → Prop)
    (h : ∃ k v, m.lookup k = some v ∧ P v) :
    ∃ k v, m.lookup k = some v ∧ P v ∧
      ∀ k' v', m.lookup k' = some v' → P v' → rank v ≤ rank v' := by
  let s : Set (Sigma fun _ : α => β) := {e | m.lookup e.1 = some e.2 ∧ P e.2}
  have hfinite : s.Finite :=
    (Multiset.finite_toSet m.entries).subset fun e he => mem_entries_iff_lookup.mpr he.1
  obtain ⟨k, v, hv, hP⟩ := h
  obtain ⟨⟨k, v⟩, ⟨hv, hP⟩, hmin⟩ :=
    s.exists_min_image (fun e => rank e.2) hfinite ⟨⟨k, v⟩, hv, hP⟩
  exact ⟨k, v, hv, hP, fun k' v' hv' hP' => hmin ⟨k', v'⟩ ⟨hv', hP'⟩⟩

/-- Weights that agree on the entries have the same tally. -/
theorem tally_congr (h : ∀ k v, m.lookup k = some v → f k v = g k v) :
    tally f m = tally g m := by
  refine congrArg Multiset.sum (Multiset.map_congr rfl fun e he => ?_)
  exact h e.1 e.2 (mem_entries_iff_lookup.mp he)

/-- A weight that vanishes on the entries has tally zero. -/
theorem tally_eq_zero (h : ∀ k v, m.lookup k = some v → f k v = 0) : tally f m = 0 := by
  rw [tally_congr (g := fun _ _ => 0) h, tally]
  simp

/-- Only a weight that vanishes on the entries has tally zero. -/
theorem tally_eq_zero_iff : tally f m = 0 ↔ ∀ k v, m.lookup k = some v → f k v = 0 := by
  refine ⟨fun h k v hv => ?_, tally_eq_zero⟩
  have hsum := tally_erase (f := f) hv
  omega

omit [DecidableEq α] in
/-- Two weights are tallied together. -/
theorem tally_add : tally (fun k v => f k v + g k v) m = tally f m + tally g m :=
  Multiset.sum_map_add

/-- A tally is a sum over any keys that miss no weight. -/
theorem tally_eq_sum {keys : List α} (hnodup : keys.Nodup)
    (hmissed : ∀ k v, m.lookup k = some v → k ∉ keys → f k v = 0) :
    tally f m = (keys.map fun k => weigh f k (m.lookup k)).sum := by
  induction keys generalizing m with
  | nil => exact tally_eq_zero fun k v hv => hmissed k v hv List.not_mem_nil
  | cons k keys ih =>
    obtain ⟨hk, hnodup⟩ := List.nodup_cons.mp hnodup
    have hothers : tally f (m.erase k) = (keys.map fun k => weigh f k (m.lookup k)).sum := by
      rw [ih hnodup]
      · refine congrArg List.sum (List.map_congr_left fun k' hk' => ?_)
        rw [lookup_erase_ne (ne_of_mem_of_not_mem hk' hk)]
      · intro k' v hv hk'
        rw [lookup_erase_eq_ite] at hv
        split_ifs at hv with hne
        exact hmissed k' v hv (List.not_mem_cons_of_ne_of_not_mem hne hk')
    rw [← tally_erase_add_weigh (k := k), hothers, List.map_cons, List.sum_cons, Nat.add_comm]

/-- Tallies of what is read off the entries agree between maps whose entries read the same. -/
theorem tally_congr_map {γ : Type*} {m' : Finmap fun _ : α => β} {p : β → γ} {g : α → γ → ℕ}
    (h : ∀ k, (m'.lookup k).map p = (m.lookup k).map p) :
    tally (fun k v => g k (p v)) m' = tally (fun k v => g k (p v)) m := by
  -- the keys of one map are those of the other
  have hmem {k : α} {v : β} (hv : m'.lookup k = some v) : k ∈ m.keys.toList := by
    have hk := h k
    rw [hv, Option.map_some] at hk
    obtain ⟨u, hu, -⟩ := Option.map_eq_some_iff.mp hk.symm
    exact Finset.mem_toList.mpr (mem_keys.mpr (mem_of_lookup_eq_some hu))
  rw [tally_eq_sum (m := m') (Finset.nodup_toList m.keys) fun k v hv hk => absurd (hmem hv) hk,
    tally_eq_sum (m := m) (Finset.nodup_toList m.keys) fun k v hv hk =>
      absurd (Finset.mem_toList.mpr (mem_keys.mpr (mem_of_lookup_eq_some hv))) hk]
  refine congrArg List.sum (List.map_congr_left fun k _ => ?_)
  have hk := h k
  cases hv : m.lookup k <;> cases hv' : m'.lookup k <;> simp_all

/-- A weight that vanishes on all entries but one has the weight of that one as its tally. -/
theorem tally_eq_single (h : m.lookup k = some v)
    (hothers : ∀ k' v', m.lookup k' = some v' → k' ≠ k → f k' v' = 0) : tally f m = f k v := by
  rw [tally_eq_sum (List.nodup_singleton k)]
  · rw [List.map_singleton, List.sum_singleton, h, weigh_some]
  · exact fun k' v' hk' hne => hothers k' v' hk' (List.ne_of_not_mem_cons hne)

end Finmap
