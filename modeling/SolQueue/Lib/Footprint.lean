import SolQueue.Lib.Refinement
import Mathlib.Data.List.Perm.Basic

/-!
# Calls with declared footprints

A machine whose state is read cell by cell, and whose calls declare the cells they read and write.
Calls that do not conflict can be executed in any order, or each on its own against the state they
all start from: every call is answered the same, and the final state is put together from what each
of them writes.

* `Machine.Footprint`: the declarations cover what the step function reads and writes.
* `Machine.Footprint.answer_eq`: in a list of compatible calls each is answered as if it were alone.
* `Machine.Footprint.same_next`: the list leaves each cell as the call that writes it does alone.
* `Machine.Footprint.runFrom_perm`: every order leads to the same state.
-/

namespace Machine

open Except (Agree)

variable {State Call Out Err Cell : Type}

/-- The answer to a call: what it puts out, or why it is rejected. -/
def answer (M : Machine State Call Out Err) (s : State) (c : Call) : Except Err Out :=
  (M.step s c).map Prod.snd

/-- The cells a call may read and write. `Same x s s'` says that the states agree on the cell
`x`. -/
structure Footprint (M : Machine State Call Out Err) (Same : Cell → State → State → Prop)
    (reads writes : Call → Cell → Prop) : Prop where
  ext : ∀ {s s'}, (∀ x, Same x s s') → s = s'
  equiv : ∀ x, Equivalence (Same x)
  reads_of_writes : ∀ {c x}, writes c x → reads c x
  frame : ∀ {s s' c o x}, M.step s c = .ok (s', o) → ¬writes c x → Same x s s'
  congr : ∀ {s t c}, (∀ x, reads c x → Same x s t) →
    Agree Eq (fun r r' => (∀ x, reads c x → Same x r.1 r'.1) ∧ r.2 = r'.2) (M.step s c)
      (M.step t c)

/-- Neither call writes a cell that the other reads. -/
def Compatible (reads writes : Call → Cell → Prop) (c d : Call) : Prop :=
  ∀ x, (writes c x → ¬reads d x) ∧ (writes d x → ¬reads c x)

theorem Compatible.symm {reads writes : Call → Cell → Prop} {c d : Call}
    (h : Compatible reads writes c d) : Compatible reads writes d c :=
  fun x => (h x).symm

namespace Footprint

variable {M : Machine State Call Out Err} {Same : Cell → State → State → Prop}
  {reads writes : Call → Cell → Prop} {s t : State} {c : Call} {calls calls' : List Call} {x : Cell}

/-! ## One call -/

/-- A call keeps the cells it does not write, whether it commits or not. -/
theorem next_frame (h : M.Footprint Same reads writes) (hx : ¬writes c x) :
    Same x s (M.next s c) := by
  cases hstep : M.step s c with
  | error e =>
    rw [next_of_error hstep]
    exact (h.equiv x).refl s
  | ok r =>
    rw [next_of_ok hstep]
    exact h.frame hstep hx

/-- Where two states agree on what a call reads, they agree on it after the call. -/
theorem next_congr (h : M.Footprint Same reads writes) (hst : ∀ x, reads c x → Same x s t) :
    ∀ x, reads c x → Same x (M.next s c) (M.next t c) := by
  have hagree := h.congr hst
  cases hs : M.step s c with
  | error e =>
    obtain ⟨e', ht, -⟩ := hagree.of_error hs
    rw [next_of_error hs, next_of_error ht]
    exact hst
  | ok r =>
    obtain ⟨r', ht, hsame, -⟩ := hagree.of_ok hs
    rw [next_of_ok hs, next_of_ok ht]
    exact hsame

/-- Where two states agree on what a call reads, it is answered the same. -/
theorem answer_congr (h : M.Footprint Same reads writes) (hst : ∀ x, reads c x → Same x s t) :
    M.answer s c = M.answer t c := by
  have hagree := h.congr hst
  unfold answer
  cases hs : M.step s c with
  | error e =>
    obtain ⟨e', ht, rfl⟩ := hagree.of_error hs
    rw [ht]
  | ok r =>
    obtain ⟨r', ht, -, hout⟩ := hagree.of_ok hs
    rw [ht]
    exact congrArg Except.ok hout

/-! ## Lists of calls -/

/-- Calls keep the cells none of them writes. -/
theorem runFrom_frame (h : M.Footprint Same reads writes) (hx : ∀ c ∈ calls, ¬writes c x) :
    Same x s (M.runFrom s calls) := by
  induction calls generalizing s with
  | nil => exact (h.equiv x).refl s
  | cons c calls ih =>
    rw [runFrom, List.foldl_cons]
    exact (h.equiv x).trans (h.next_frame (hx c List.mem_cons_self))
      (ih fun d hd => hx d (List.mem_cons_of_mem c hd))

/-- Calls compatible with `c` keep what `c` reads. -/
theorem runFrom_same (h : M.Footprint Same reads writes)
    (hcalls : ∀ d ∈ calls, Compatible reads writes d c) (hx : reads c x) :
    Same x s (M.runFrom s calls) :=
  h.runFrom_frame fun d hd hwrites => (hcalls d hd x).1 hwrites hx

/-- In a list of pairwise compatible calls each is answered as it would be at the start. -/
theorem answer_eq (h : M.Footprint Same reads writes) {pre post : List Call}
    (hcalls : (pre ++ c :: post).Pairwise (Compatible reads writes)) :
    M.answer (M.runFrom s pre) c = M.answer s c := by
  refine h.answer_congr fun x hx => (h.equiv x).symm (h.runFrom_same (fun d hd => ?_) hx)
  exact (List.pairwise_append.mp hcalls).2.2 d hd c List.mem_cons_self

/-- A list of pairwise compatible calls leaves what one of them reads as that call alone does. -/
theorem same_next (h : M.Footprint Same reads writes)
    (hcalls : calls.Pairwise (Compatible reads writes)) (hc : c ∈ calls) (hx : reads c x) :
    Same x (M.next s c) (M.runFrom s calls) := by
  obtain ⟨pre, post, rfl⟩ := List.append_of_mem hc
  obtain ⟨-, hpost, hpre⟩ := List.pairwise_append.mp hcalls
  rw [runFrom_append, runFrom, List.foldl_cons]
  -- the calls before `c` leave it what it reads, those after it keep what it leaves
  have hbefore := h.next_congr (fun y hy => h.runFrom_same (s := s) (fun d hd =>
    hpre d hd c List.mem_cons_self) hy) x hx
  refine (h.equiv x).trans hbefore (h.runFrom_same (fun d hd => ?_) hx)
  exact (List.rel_of_pairwise_cons hpost hd).symm

/-- Pairwise compatible calls lead to the same state in every order. -/
theorem runFrom_perm (h : M.Footprint Same reads writes)
    (hcalls : calls.Pairwise (Compatible reads writes)) (hperm : calls.Perm calls') :
    M.runFrom s calls = M.runFrom s calls' := by
  have hcalls' := (hperm.pairwise_iff Compatible.symm).mp hcalls
  refine h.ext fun x => ?_
  by_cases hwritten : ∃ c ∈ calls, writes c x
  · obtain ⟨c, hc, hwrites⟩ := hwritten
    have hx := h.reads_of_writes hwrites
    exact (h.equiv x).trans ((h.equiv x).symm (h.same_next hcalls hc hx))
      (h.same_next hcalls' (hperm.mem_iff.mp hc) hx)
  · have hframe : ∀ c ∈ calls, ¬writes c x := fun c hc hwrites => hwritten ⟨c, hc, hwrites⟩
    exact (h.equiv x).trans ((h.equiv x).symm (h.runFrom_frame hframe))
      (h.runFrom_frame fun c hc => hframe c (hperm.mem_iff.mpr hc))

end Footprint

end Machine
