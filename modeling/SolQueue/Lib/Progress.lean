import SolQueue.Lib.Reorder

/-!
# Reaching a goal

What is possible from a state: there are calls of a given kind, at most so many, that all commit one
after the other and lead to a given state.

* `Machine.Reaches`: the relation, with its composition rules.
* `Machine.Reaches.exhaust`: if a measure can always be lowered, it can be brought down to zero.
-/

namespace Machine

variable {State Call Out Err : Type}

/-- At most `N` calls that satisfy `S` all commit one after the other and lead from `s` to `s'`. -/
def Reaches (M : Machine State Call Out Err) (S : Call → Prop) (N : ℕ) (s s' : State) : Prop :=
  ∃ calls, M.runAll s calls = .ok s' ∧ calls.length ≤ N ∧ ∀ c ∈ calls, S c

namespace Reaches

variable {M : Machine State Call Out Err} {S S' : Call → Prop} {N N' : ℕ} {s s₁ s₂ s' : State}

/-- No call is needed to stay. -/
theorem refl : M.Reaches S N s s :=
  ⟨[], rfl, Nat.zero_le N, List.forall_mem_nil S⟩

/-- A call that commits reaches where it leads. -/
theorem one {c : Call} {o : Out} (h : M.step s c = .ok (s', o)) (hc : S c) : M.Reaches S 1 s s' :=
  ⟨[c], runAll_cons_eq_ok.mpr ⟨s', o, h, rfl⟩, Nat.le_refl 1, List.forall_mem_singleton.mpr hc⟩

/-- The calls of one path are followed by those of another. -/
theorem trans (h : M.Reaches S N s s₁) (h' : M.Reaches S N' s₁ s₂) :
    M.Reaches S (N + N') s s₂ := by
  obtain ⟨calls, hrun, hlength, hcalls⟩ := h
  obtain ⟨calls', hrun', hlength', hcalls'⟩ := h'
  refine ⟨calls ++ calls', by rw [runAll_append hrun, hrun'], ?_, ?_⟩
  · rw [List.length_append]
    exact Nat.add_le_add hlength hlength'
  · intro c hc
    rcases List.mem_append.mp hc with hc | hc
    · exact hcalls c hc
    · exact hcalls' c hc

/-- A path may be longer, and its calls of a wider kind. -/
theorem mono (h : M.Reaches S N s s') (hN : N ≤ N') (hS : ∀ c, S c → S' c) :
    M.Reaches S' N' s s' := by
  obtain ⟨calls, hrun, hlength, hcalls⟩ := h
  exact ⟨calls, hrun, Nat.le_trans hlength hN, fun c hc => hS c (hcalls c hc)⟩

/-- If under an invariant `N` calls can always lower a measure that is not zero, then `N` times its
value many calls can bring it down to zero. -/
theorem exhaust {I : State → Prop} {μ : State → ℕ}
    (hlower : ∀ s, I s → μ s ≠ 0 → ∃ s', M.Reaches S N s s' ∧ I s' ∧ μ s' < μ s) (hs : I s) :
    ∃ s', M.Reaches S (N * μ s) s s' ∧ I s' ∧ μ s' = 0 := by
  -- by induction on a bound of the measure
  suffices hbound : ∀ m s, I s → μ s ≤ m → ∃ s', M.Reaches S (N * m) s s' ∧ I s' ∧ μ s' = 0 from
    hbound (μ s) s hs (Nat.le_refl _)
  intro m
  induction m with
  | zero => exact fun s hs hm => ⟨s, refl, hs, Nat.le_zero.mp hm⟩
  | succ m ih =>
    intro s hs hm
    by_cases hzero : μ s = 0
    · exact ⟨s, refl, hs, hzero⟩
    · obtain ⟨s₁, hreach, hs₁, hlt⟩ := hlower s hs hzero
      obtain ⟨s', hrest, hgoal⟩ := ih s₁ hs₁ (by omega)
      have hN : N + N * m = N * (m + 1) := by
        rw [Nat.mul_succ, Nat.add_comm]
      exact ⟨s', (hreach.trans hrest).mono (Nat.le_of_eq hN) fun _ hc => hc, hgoal⟩

end Reaches

end Machine
