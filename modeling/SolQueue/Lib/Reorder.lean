import SolQueue.Lib.Machine

/-!
# Calls in any order

Calls that all commit can be exchanged when any two neighbours can. This file lifts the exchange of
two calls to any reordering of a list of calls.

* `Machine.runAll`: where a list of calls leads if all of them commit.
* `Machine.Exchange`: two calls that commit in one order commit in the other, with the same effect.
* `Machine.runAll_perm`: pairwise exchangeable calls commit in every order, with the same effect.
-/

namespace Machine

variable {State Call Out Err : Type}

/-- The state a list of calls leads to from `s` if all of them commit, else the first error. -/
def runAll (M : Machine State Call Out Err) (s : State) : List Call → Except Err State
  | [] => .ok s
  | c :: calls =>
    match M.step s c with
    | .ok (s', _) => runAll M s' calls
    | .error e => .error e

/-- If the call `c` and then the call `d` commit, then `d` and then `c` do, and lead to the same
state. -/
def Exchange (M : Machine State Call Out Err) (c d : Call) : Prop :=
  ∀ s s₁ s₂ o₁ o₂, M.step s c = .ok (s₁, o₁) → M.step s₁ d = .ok (s₂, o₂) →
    ∃ s₁' o₁' o₂', M.step s d = .ok (s₁', o₂') ∧ M.step s₁' c = .ok (s₂, o₁')

variable {M : Machine State Call Out Err} {s s' : State} {c d : Call} {calls calls' : List Call}

/-- All calls commit exactly if the first one does and then the others do. -/
theorem runAll_cons_eq_ok :
    M.runAll s (c :: calls) = .ok s' ↔
      ∃ s₁ o, M.step s c = .ok (s₁, o) ∧ M.runAll s₁ calls = .ok s' := by
  rw [runAll]
  cases M.step s c with
  | error e => simp
  | ok r => simp [Prod.ext_iff]

/-- Calls that all commit can be followed by calls that all commit then. -/
theorem runAll_append (h : M.runAll s calls = .ok s') :
    M.runAll s (calls ++ calls') = M.runAll s' calls' := by
  induction calls generalizing s with
  | nil => rw [List.nil_append, Except.ok.inj h]
  | cons c calls ih =>
    obtain ⟨s₁, o, hstep, hrest⟩ := runAll_cons_eq_ok.mp h
    rw [List.cons_append, runAll, hstep]
    exact ih hrest

/-- Calls that all commit lead where they lead as a run. -/
theorem runFrom_of_runAll (h : M.runAll s calls = .ok s') : M.runFrom s calls = s' := by
  induction calls generalizing s with
  | nil => exact Except.ok.inj h
  | cons c calls ih =>
    obtain ⟨s₁, o, hstep, hrest⟩ := runAll_cons_eq_ok.mp h
    rw [runFrom, List.foldl_cons, next_of_ok hstep]
    exact ih hrest

/-- Two calls at the front can be exchanged. -/
theorem Exchange.runAll_swap (h : M.Exchange c d)
    (hall : M.runAll s (c :: d :: calls) = .ok s') : M.runAll s (d :: c :: calls) = .ok s' := by
  obtain ⟨s₁, o₁, hc, hrest⟩ := runAll_cons_eq_ok.mp hall
  obtain ⟨s₂, o₂, hd, hrest⟩ := runAll_cons_eq_ok.mp hrest
  obtain ⟨s₁', o₁', o₂', hd', hc'⟩ := h _ _ _ _ _ hc hd
  exact runAll_cons_eq_ok.mpr ⟨s₁', o₂', hd', runAll_cons_eq_ok.mpr ⟨s₂, o₁', hc', hrest⟩⟩

/-- Calls any two of which can be exchanged commit in every order if they do in one, and lead to the
same state. -/
theorem runAll_perm {R : Call → Call → Prop} (hsymm : ∀ {c d}, R c d → R d c)
    (hexchange : ∀ {c d}, R c d → M.Exchange c d) (hperm : calls.Perm calls')
    (hpair : calls.Pairwise R) (hall : M.runAll s calls = .ok s') :
    M.runAll s calls' = .ok s' := by
  induction hperm generalizing s with
  | nil => exact hall
  | cons c _ ih =>
    obtain ⟨s₁, o, hstep, hrest⟩ := runAll_cons_eq_ok.mp hall
    exact runAll_cons_eq_ok.mpr ⟨s₁, o, hstep, ih hpair.of_cons hrest⟩
  | swap c d _ =>
    have hrel : R d c := List.rel_of_pairwise_cons hpair List.mem_cons_self
    exact (hexchange hrel).runAll_swap hall
  | trans hperm₁ _ ih₁ ih₂ =>
    -- the relation is symmetric, so it also holds pairwise in the order between
    exact ih₂ (hpair.perm hperm₁ hsymm) (ih₁ hpair hall)

end Machine
