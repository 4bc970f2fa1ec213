import SolQueue.Lib.Tally

/-!
# Counters in the entries of a map

Entries of a map carry bounded counters that only ever go up. Counting commutes, and what can be
counted in one order can be counted in the other.

* `Counters`: how the counters of an entry move, and when there is room for them to.
* `Finmap.tick`, `Finmap.tick_comm`: one entry of a map, or none, counts.
* `Finmap.HasRoom`, `Finmap.HasRoom.swap`: there is room for two counts in either order.
* `Finmap.put`, `Finmap.put_comm`: writing or erasing one entry.
-/

/-- Counters of the records `β`, one for each kind in `γ`. A record has room for a count if the
counter stays in range. -/
structure Counters (β γ : Type*) where
  count : γ → β → β
  Room : γ → β → Prop
  /-- The counters are independent sums. -/
  count_comm : ∀ g g' b, count g (count g' b) = count g' (count g b)
  /-- Room for one count after another is room for them in the other order. -/
  room_swap : ∀ {g g' b}, Room g b → Room g' (count g b) → Room g' b ∧ Room g (count g' b)

namespace Finmap

variable {α β γ : Type*} [DecidableEq α] (C : Counters β γ) {m : Finmap fun _ : α => β}
  {k k' : α} {v : β} {w w' : Option β} {t t' : Option (α × γ)}

/-- An entry is changed by inserting it as changed. -/
theorem modify_of_lookup {u : β → β} (h : m.lookup k = some v) :
    m.modify k u = m.insert k (u v) := by
  rw [modify, h]

/-- Count in the entry under a key, or nowhere. -/
def tick (m : Finmap fun _ : α => β) : Option (α × γ) → Finmap fun _ : α => β
  | some (k, g) => m.modify k (C.count g)
  | none => m

theorem tick_some {g : γ} (hv : m.lookup k = some v) :
    m.tick C (some (k, g)) = m.insert k (C.count g v) :=
  modify_of_lookup hv

/-- What a count leaves under a key. -/
theorem lookup_tick :
    (m.tick C t).lookup k = (m.lookup k).map fun v =>
      match t with
      | some (k', g) => if k = k' then C.count g v else v
      | none => v := by
  cases t with
  | none => exact Option.map_id'.symm
  | some t => exact lookup_modify

/-- A field that is no counter reads the same after a count. -/
theorem map_lookup_tick {δ : Type*} {f : β → δ}
    (hf : ∀ g, t = some (k, g) → ∀ v, f (C.count g v) = f v) :
    ((m.tick C t).lookup k).map f = (m.lookup k).map f := by
  rw [lookup_tick, Option.map_map]
  congr 1
  funext v
  match t with
  | none => rfl
  | some (k', g) =>
    simp only [Function.comp_apply]
    split_ifs with hk
    · exact hf g (by rw [hk]) v
    · rfl

/-- Counts commute. -/
theorem tick_comm : (m.tick C t).tick C t' = (m.tick C t').tick C t := by
  apply ext_lookup
  intro x
  simp only [lookup_tick, Option.map_map]
  congr 1
  funext v
  match t, t' with
  | none, _ | _, none => rfl
  | some (k, g), some (k', g') =>
    simp only [Function.comp_apply]
    split_ifs
    · exact C.count_comm g' g v
    all_goals rfl

/-- There is room for a count. -/
def HasRoom (m : Finmap fun _ : α => β) (t : Option (α × γ)) : Prop :=
  ∀ k g v, t = some (k, g) → m.lookup k = some v → C.Room g v

theorem hasRoom_none : m.HasRoom C none := fun _ _ _ h => nomatch h

theorem hasRoom_some {g : γ} (hv : m.lookup k = some v) :
    m.HasRoom C (some (k, g)) ↔ C.Room g v := by
  refine ⟨fun h => h k g v rfl hv, ?_⟩
  rintro hroom _ _ v' ⟨⟩ hv'
  obtain rfl := Option.some.inj (hv.symm.trans hv')
  exact hroom

/-- Room for one count after another is room for them in the other order. -/
theorem HasRoom.swap (h : m.HasRoom C t) (h' : (m.tick C t).HasRoom C t') :
    m.HasRoom C t' ∧ (m.tick C t').HasRoom C t := by
  constructor
  · rintro k g' v rfl hv
    have hnext := h' k g' _ rfl (by rw [lookup_tick, hv, Option.map_some])
    match t with
    | none => exact hnext
    | some (k₁, g) =>
      simp only at hnext
      split_ifs at hnext with hk
      · subst hk
        exact (C.room_swap (h k g v rfl hv) hnext).1
      · exact hnext
  · rintro k g v' rfl hv'
    rw [lookup_tick] at hv'
    obtain ⟨v, hv, rfl⟩ := Option.map_eq_some_iff.mp hv'
    have hroom := h k g v rfl hv
    match t' with
    | none => exact hroom
    | some (k₁, g') =>
      simp only
      split_ifs with hk
      · subst hk
        have hnext := h' k g' _ rfl (by rw [lookup_tick, hv, Option.map_some])
        simp only [↓reduceIte] at hnext
        exact (C.room_swap hroom hnext).2
      · exact hroom

/-- Write the entry under a key, or erase it. -/
def put (m : Finmap fun _ : α => β) (k : α) : Option β → Finmap fun _ : α => β
  | some v => m.insert k v
  | none => m.erase k

theorem lookup_put : (m.put k w).lookup k' = if k' = k then w else m.lookup k' := by
  cases w with
  | some v => exact lookup_insert_eq_ite
  | none => exact lookup_erase_eq_ite

/-- Writes under different keys commute. -/
theorem put_comm (h : k ≠ k') : (m.put k w).put k' w' = (m.put k' w').put k w := by
  apply ext_lookup
  intro x
  simp only [lookup_put]
  split_ifs with h₁ h₂
  · exact absurd (h₂.symm.trans h₁) h
  all_goals rfl

end Finmap
