import SolQueue.Lib.Checked
import SolQueue.Lib.Machine

/-!
# Refinement

Two programs that compute the same thing on different data: first two computations in `Option` or
`Except`, compared part by part, then two machines, compared call by call.

* `Option.Rel.bind`, `Option.Rel.seq_right`: the rules to compare two computations in `Option` by.
* `Except.Agree`: two computations end alike, both with related values or both with related errors.
* `Agree.bind`, `Agree.require`, `Agree.require_left`: the rules to compare two programs by.
* `Machine.Refines`: the calls of one machine are requests of another, which answers alike.
* `Machine.Refines.run`, `Machine.Refines.log`: so are whole runs and their logs.
-/

namespace Option.Rel

variable {α α' β β' : Type} {R : α → α' → Prop} {S : β → β' → Prop} {x : Option α}
  {x' : Option α'} {f : α → Option β} {f' : α' → Option β'}

/-- Sequences find something alike if their first parts do and their continuations do on related
values. -/
theorem bind (hx : Rel R x x') (hf : ∀ a a', R a a' → Rel S (f a) (f' a')) :
    Rel S (x >>= f) (x' >>= f') := by
  cases hx with
  | some value => exact hf _ _ value
  | none => exact .none

/-- Sequences that start alike find something alike if their continuations do. -/
theorem bind_same {f' : α → Option β'} (hf : ∀ a, Rel S (f a) (f' a)) :
    Rel S (x >>= f) (x >>= f') := by
  cases x with
  | some a => exact hf a
  | none => exact .none

/-- A part that finds something has no counterpart. -/
theorem seq_right {y : Option β} {a' : α'} (hx : x' = Option.some a') (hf : Rel S y (f' a')) :
    Rel S y (x' >>= f') := by
  rw [hx]
  exact hf

/-- Things that are found alike are the same if they are related by equality. -/
theorem eq_iff {y : Option α} : Rel Eq x y ↔ x = y := by
  constructor
  · rintro (rfl | _)
    · rfl
    · rfl
  · rintro rfl
    cases x with
    | some a => exact .some rfl
    | none => exact .none

/-- Values may be related by more, if more is known of those that are found. -/
theorem imp {R' : α → α' → Prop} (hx : Rel R x x')
    (himp : ∀ a a', x = Option.some a → x' = Option.some a' → R a a' → R' a a') :
    Rel R' x x' := by
  cases hx with
  | some value => exact .some (himp _ _ rfl rfl value)
  | none => exact .none

end Option.Rel

namespace Except

open Checked

variable {ε ε' α α' β β' : Type}

/-- Both computations return, with related values, or both fail, with related errors. -/
inductive Agree (E : ε → ε' → Prop) (R : α → α' → Prop) : Except ε α → Except ε' α' → Prop where
  | ok {a : α} {a' : α'} (value : R a a') : Agree E R (.ok a) (.ok a')
  | error {e : ε} {e' : ε'} (failure : E e e') : Agree E R (.error e) (.error e')

namespace Agree

variable {E : ε → ε' → Prop} {R : α → α' → Prop} {S : β → β' → Prop} {x : Except ε α}
  {x' : Except ε' α'} {f : α → Except ε β} {f' : α' → Except ε' β'}

/-- Related values are returned alike. -/
theorem pure {a : α} {a' : α'} (h : R a a') : Agree E R (Pure.pure a) (Pure.pure a') :=
  .ok h

/-- Sequences end alike if their first parts do and their continuations do on related values. -/
theorem bind (hx : Agree E R x x') (hf : ∀ a a', R a a' → Agree E S (f a) (f' a')) :
    Agree E S (x >>= f) (x' >>= f') := by
  cases hx with
  | ok value => exact hf _ _ value
  | error failure => exact .error failure

/-- Sequences that start alike end alike if their continuations do. -/
theorem bind_same {y : Except ε' α} {f : α → Except ε' β} {f' : α → Except ε' β'}
    (hf : ∀ a, Agree Eq S (f a) (f' a)) : Agree Eq S (y >>= f) (y >>= f') := by
  cases y with
  | error e => exact .error rfl
  | ok a => exact hf a

/-- A part that returns has no counterpart. -/
theorem seq_left {a : α} {y' : Except ε' β'} (hx : x = .ok a) (hf : Agree E S (f a) y') :
    Agree E S (x >>= f) y' := by
  rw [hx]
  exact hf

/-- A guard that is known to hold has no counterpart. -/
theorem require_left {p : Prop} [Decidable p] {e : ε} {f : Unit → Except ε β} {y' : Except ε' β'}
    (hp : p) (hf : Agree E S (f ()) y') : Agree E S (Checked.require p e >>= f) y' :=
  seq_left (require_eq_ok.mpr hp) hf

/-- Guards of equivalent conditions end alike. -/
theorem require {p p' : Prop} [Decidable p] [Decidable p'] {e : ε} {e' : ε'} (hp : p ↔ p')
    (he : E e e') {f : Unit → Except ε β} {f' : Unit → Except ε' β'}
    (hf : p → p' → Agree E S (f ()) (f' ())) :
    Agree E S (Checked.require p e >>= f) (Checked.require p' e' >>= f') := by
  unfold Checked.require
  by_cases h : p
  · rw [if_pos h, if_pos (hp.mp h)]
    exact hf h (hp.mp h)
  · rw [if_neg h, if_neg (mt hp.mpr h)]
    exact .error he

/-- Two computations return exactly together, and with related values. -/
theorem of_ok (h : Agree E R x x') {a : α} (hx : x = .ok a) : ∃ a', x' = .ok a' ∧ R a a' := by
  subst hx
  cases h with
  | ok value => exact ⟨_, rfl, value⟩

/-- Two computations fail exactly together, and with related errors. -/
theorem of_error (h : Agree E R x x') {e : ε} (hx : x = .error e) :
    ∃ e', x' = .error e' ∧ E e e' := by
  subst hx
  cases h with
  | error failure => exact ⟨_, rfl, failure⟩

/-- Values may be related by more, if more is known of those that are returned. -/
theorem imp {R' : α → α' → Prop} (h : Agree E R x x')
    (himp : ∀ a a', x = .ok a → x' = .ok a' → R a a' → R' a a') : Agree E R' x x' := by
  cases h with
  | ok value => exact .ok (himp _ _ rfl rfl value)
  | error failure => exact .error failure

end Agree

end Except

namespace Machine

open Except (Agree)

variable {State Call Out Err State' Call' Out' Err' : Type}

/-- The machine `M` refines the machine `A`: `R` relates their states, `request` says what a call of
`M` asks of `A`, and a call is answered as its request is. A call that asks for nothing is
rejected. -/
structure Refines (M : Machine State Call Out Err) (A : Machine State' Call' Out' Err')
    (request : Call → Option Call') (R : State → State' → Prop) (O : Out → Out' → Prop)
    (E : Err → Err' → Prop) : Prop where
  init : R M.init A.init
  reject : ∀ {s s' c}, R s s' → request c = none → ∃ e, M.step s c = .error e
  answer : ∀ {s s' c c'}, R s s' → request c = some c' →
    Agree E (fun r r' => R r.1 r'.1 ∧ O r.2 r'.2) (M.step s c) (A.step s' c')

/-- An entry of a log answers a request as the entry of the other log does. -/
structure Matches (request : Call → Option Call') (R : State → State' → Prop)
    (O : Out → Out' → Prop) (e : Entry State Call Out) (e' : Entry State' Call' Out') : Prop where
  call : request e.call = some e'.call
  before : R e.before e'.before
  after : R e.after e'.after
  out : O e.out e'.out

namespace Refines

variable {M : Machine State Call Out Err} {A : Machine State' Call' Out' Err'}
  {request : Call → Option Call'} {R : State → State' → Prop} {O : Out → Out' → Prop}
  {E : Err → Err' → Prop}

/-- Lists of calls and the requests they make lead from related states to related states, and their
logs match entry by entry. -/
theorem runFrom_logFrom (h : M.Refines A request R O E) {s : State} {s' : State'} (hs : R s s')
    (calls : List Call) :
    R (M.runFrom s calls) (A.runFrom s' (calls.filterMap request)) ∧
      List.Forall₂ (Matches request R O) (M.logFrom s calls)
        (A.logFrom s' (calls.filterMap request)) := by
  induction calls generalizing s s' with
  | nil => exact ⟨hs, .nil⟩
  | cons c calls ih =>
    rw [runFrom, List.foldl_cons]
    cases hc : request c with
    | none =>
      -- a call that asks for nothing leaves both machines where they were
      obtain ⟨e, he⟩ := h.reject hs hc
      rw [List.filterMap_cons_none hc, next_of_error he, logFrom_cons_of_error he]
      exact ih hs
    | some c' =>
      have hanswer := h.answer hs hc
      rw [List.filterMap_cons_some hc, runFrom, List.foldl_cons]
      cases hstep : M.step s c with
      | error e =>
        obtain ⟨e', he', -⟩ := hanswer.of_error hstep
        rw [next_of_error hstep, next_of_error he', logFrom_cons_of_error hstep,
          logFrom_cons_of_error he']
        exact ih hs
      | ok r =>
        obtain ⟨r', hr', hstate, hout⟩ := hanswer.of_ok hstep
        rw [next_of_ok hstep, next_of_ok hr', logFrom_cons_of_ok hstep, logFrom_cons_of_ok hr']
        obtain ⟨hrun, hlog⟩ := ih hstate
        exact ⟨hrun, .cons ⟨hc, hs, hstate, hout⟩ hlog⟩

/-- A run and the requests it makes end in related states. -/
theorem run (h : M.Refines A request R O E) (calls : List Call) :
    R (M.run calls) (A.run (calls.filterMap request)) :=
  (h.runFrom_logFrom h.init calls).1

/-- The committed calls of a run are the requests granted, with the same answers, in order. -/
theorem log (h : M.Refines A request R O E) (calls : List Call) :
    List.Forall₂ (Matches request R O) (M.log calls) (A.log (calls.filterMap request)) :=
  (h.runFrom_logFrom h.init calls).2

end Refines

end Machine
