import SolQueue.Invariants
import Mathlib.Computability.Language

/-!
# The lifecycle of a job

What a job is for, told without accounts: a `Phase` and the operations each phase allows. The
program refines this automaton at every address, so whatever the automaton rules out cannot happen
to a job in any run.

* `Phase.Move`, `Phase.next`, `Phase.run`: the automaton.
* `lifecycle`: the regular language of the lives of a job.
* `Lifetime`: what every sequence of operations on one job satisfies (`Phase.lifetime_of_run`).
* `Shows`, `shows_run`: the job account at each address follows the automaton.
* `job_lifecycle`: the operations on a job since its creation form a `Lifetime`, and every worker
  operation is made by a worker active on the job's queue.
-/

namespace SolQueue

open Computability

variable {W : Type}

/-! ## Operations -/

/-- The kinds of operations, with the two results of a failure told apart. -/
inductive JobOpKind where
  | enqueue
  | claim
  | complete
  | retry
  | permanentFail
  | expire
  | close
  deriving DecidableEq

namespace JobOp

/-- The kind of an operation. -/
def kind : JobOp W → JobOpKind
  | .enqueue _ => .enqueue
  | .claim _ => .claim
  | .complete _ => .complete
  | .fail _ true => .permanentFail
  | .fail _ false => .retry
  | .expire _ => .expire
  | .close _ => .close

/-- The operation creates the job. -/
def isEnqueue : JobOp W → Bool
  | .enqueue _ => true
  | _ => false

/-- The operation finishes the job: it completes it or fails it permanently. -/
def isOutcome : JobOp W → Bool
  | .complete _ | .fail _ true => true
  | _ => false

/-- The operation reports a failure or an expiry, which may return the job to Pending. -/
def isReturn : JobOp W → Bool
  | .fail _ _ | .expire _ => true
  | _ => false

/-- The worker who signed the operation, if it is one for workers. -/
def worker : JobOp W → Option W
  | .claim w | .complete w | .fail w _ => some w
  | _ => none

/-- The worker who reported the result of their work by the operation. -/
def reporter : JobOp W → Option W
  | .complete w | .fail w _ => some w
  | _ => none

/-- An outcome is not an enqueue. -/
theorem not_enqueue_of_outcome {op : JobOp W} (h : op.isOutcome) : op.isEnqueue = false := by
  cases op with
  | enqueue => cases h
  | _ => rfl

/-- A report is not an enqueue. -/
theorem not_enqueue_of_reporter {op : JobOp W} {w : W} (h : op.reporter = some w) :
    op.isEnqueue = false := by
  cases op with
  | enqueue => cases h
  | _ => rfl

end JobOp

/-! ## Lives of a job -/

/-- Attempts that did not finish the job. -/
def attempts : Language JobOpKind :=
  ({[.claim]} * ({[.retry]} + {[.expire]}))∗

/-- The attempt that finishes the job. -/
def outcome : Language JobOpKind :=
  {[.claim]} * ({[.complete]} + {[.permanentFail]})

/-- Lives of a job: it is enqueued and attempted any number of times; it may then be finished, and
a finished job may be closed. -/
def lifecycle : Language JobOpKind :=
  {[.enqueue]} * attempts * (1 + outcome * (1 + {[.close]}))

theorem complete_mem_outcome : [JobOpKind.claim] ++ [.complete] ∈ outcome :=
  Language.append_mem_mul rfl (.inl rfl)

theorem permanentFail_mem_outcome : [JobOpKind.claim] ++ [.permanentFail] ∈ outcome :=
  Language.append_mem_mul rfl (.inr rfl)

/-- A finished job need not be closed. -/
theorem outcome_mem {word : List JobOpKind} (h : word ∈ outcome) :
    word ∈ outcome * (1 + {[.close]}) := by
  have hmem : word ++ [] ∈ outcome * (1 + {[.close]}) := Language.append_mem_mul h (.inl rfl)
  rwa [List.append_nil] at hmem

/-- What holds of the operations on one job, from the one that creates it to any later point. -/
structure Lifetime (ops : List (JobOp W)) : Prop where
  /-- They begin a life of the job. -/
  in_lifecycle : ∃ word ∈ lifecycle, ops.map JobOp.kind <+: word
  /-- Between two claims a failure or an expiry was reported. -/
  claims_separated : ∀ l w m w' r, ops = l ++ .claim w :: (m ++ .claim w' :: r) →
    ∃ op ∈ m, op.isReturn
  /-- The job is finished at most once, in one of the two ways. -/
  one_outcome : ops.countP JobOp.isOutcome ≤ 1
  /-- Once finished, the job can only be closed. -/
  outcome_last : ∀ l op r, ops = l ++ op :: r → op.isOutcome →
    r = [] ∨ ∃ creator, r = [.close creator]
  /-- Results are reported by the worker of the claim just before. -/
  signed_by_claimer : ∀ l op r w, ops = l ++ op :: r → op.reporter = some w →
    ∃ l', l = l' ++ [.claim w]

/-! ## The automaton -/

/-- Where a job stands in its life; a job being processed has a holder. -/
inductive Phase (W : Type) where
  | absent
  | pending
  | processing (holder : W)
  | completed
  | failed

namespace Phase

/-- The moves of the automaton. -/
inductive Move : Phase W → JobOp W → Phase W → Prop where
  | enqueue {creator : W} : Move .absent (.enqueue creator) .pending
  | claim {w : W} : Move .pending (.claim w) (.processing w)
  | complete {w : W} : Move (.processing w) (.complete w) .completed
  | permanentFail {w : W} : Move (.processing w) (.fail w true) .failed
  | retry {w : W} : Move (.processing w) (.fail w false) .pending
  | expire {w caller : W} : Move (.processing w) (.expire caller) .pending
  | closeCompleted {creator : W} : Move .completed (.close creator) .absent
  | closeFailed {creator : W} : Move .failed (.close creator) .absent

/-- The outcomes a job may still have. -/
def outcomesLeft : Phase W → ℕ
  | .pending | .processing _ => 1
  | .absent | .completed | .failed => 0

/-- The words of operations that lead to a phase, from the enqueue of the job on. -/
def history : Phase W → Language JobOpKind
  | .pending => {[.enqueue]} * attempts
  | .processing _ => {[.enqueue]} * attempts * {[.claim]}
  | .completed => {[.enqueue]} * attempts * {[.claim, .complete]}
  | .failed => {[.enqueue]} * attempts * {[.claim, .permanentFail]}
  | .absent => {[.enqueue]} * attempts * (outcome * {[.close]})

variable {ph ph' : Phase W} {op : JobOp W}

namespace Move

/-- A job becomes Pending only by being enqueued or returned. -/
theorem ne_pending (h : Move ph op ph') (henqueue : op.isEnqueue = false)
    (hreturn : op.isReturn = false) : ph' ≠ .pending := by
  rintro rfl
  cases h with
  | enqueue => cases henqueue
  | retry | expire => cases hreturn

/-- Only a claim gives a job its holder. -/
theorem eq_claim {w : W} (h : Move ph op (.processing w)) : op = .claim w := by
  cases h with
  | claim => rfl

/-- Only a Pending job can be claimed. -/
theorem eq_pending {w : W} (h : Move ph (.claim w) ph') : ph = .pending := by
  cases h with
  | claim => rfl

/-- Only a close removes the job. -/
theorem eq_close_of_absent (h : Move ph op .absent) : ∃ creator, op = .close creator := by
  cases h with
  | closeCompleted | closeFailed => exact ⟨_, rfl⟩

/-- Only an enqueue finds the address empty. -/
theorem not_enqueue (h : Move ph op ph') (hph : ph ≠ .absent) : op.isEnqueue = false := by
  cases h with
  | enqueue => exact absurd rfl hph
  | claim | complete | permanentFail | retry | expire | closeCompleted | closeFailed => rfl

/-- Only the holder of a job reports its result. -/
theorem eq_processing {w : W} (h : Move ph op ph') (hop : op.reporter = some w) :
    ph = .processing w := by
  cases h with
  | complete | permanentFail | retry => rw [← Option.some.inj hop]
  | enqueue | claim | expire | closeCompleted | closeFailed => cases hop

/-- An outcome uses up one of those left, and only an enqueue brings a new one. -/
theorem outcomesLeft (h : Move ph op ph') (henqueue : op.isEnqueue = false) :
    op.isOutcome.toNat + ph'.outcomesLeft ≤ ph.outcomesLeft := by
  cases h with
  | enqueue => cases henqueue
  | claim | complete | permanentFail | retry | expire => exact le_rfl
  | closeCompleted | closeFailed => exact le_rfl

/-- A job that no outcome is left for can only be closed. -/
theorem eq_close (h : Move ph op ph') (hleft : ph.outcomesLeft = 0)
    (henqueue : op.isEnqueue = false) : ph' = .absent ∧ ∃ creator, op = .close creator := by
  cases h with
  | enqueue => cases henqueue
  | claim | complete | permanentFail | retry | expire => cases hleft
  | closeCompleted | closeFailed => exact ⟨rfl, _, rfl⟩

/-- A round that ends without an outcome is one more attempt. -/
theorem attempts_snoc {word : List JobOpKind} {k : JobOpKind}
    (hword : word ∈ ({[.enqueue]} * attempts * {[.claim]} : Language JobOpKind))
    (hk : [k] ∈ ({[.retry]} + {[.expire]} : Language JobOpKind)) :
    word ++ [k] ∈ ({[.enqueue]} * attempts : Language JobOpKind) := by
  -- attempts followed by one more attempt are attempts
  have hle : ({[.enqueue]} * attempts * {[.claim]} * ({[.retry]} + {[.expire]}) :
      Language JobOpKind) ≤ {[.enqueue]} * attempts := by
    rw [mul_assoc, mul_assoc]
    exact mul_le_mul_right kstar_mul_le_kstar _
  exact hle (Language.append_mem_mul hword hk)

/-- Every move but an enqueue extends the words of the phase it leaves to words of the phase it
enters. -/
theorem history (h : Move ph op ph') (henqueue : op.isEnqueue = false) {word : List JobOpKind}
    (hword : word ∈ ph.history) : word ++ [op.kind] ∈ ph'.history := by
  cases h with
  | enqueue => cases henqueue
  | claim => exact Language.append_mem_mul hword rfl
  | complete | permanentFail =>
    -- the last claim and the report are the end of the new word
    obtain ⟨start, hstart, -, rfl, rfl⟩ := hword
    rw [List.append_assoc]
    exact Language.append_mem_mul hstart rfl
  | retry => exact attempts_snoc hword (.inl rfl)
  | expire => exact attempts_snoc hword (.inr rfl)
  | closeCompleted =>
    obtain ⟨start, hstart, -, rfl, rfl⟩ := hword
    rw [List.append_assoc]
    exact Language.append_mem_mul hstart (Language.append_mem_mul complete_mem_outcome rfl)
  | closeFailed =>
    obtain ⟨start, hstart, -, rfl, rfl⟩ := hword
    rw [List.append_assoc]
    exact Language.append_mem_mul hstart (Language.append_mem_mul permanentFail_mem_outcome rfl)

end Move

/-- The words of every phase begin a life of the job. -/
theorem exists_lifecycle_of_history {word : List JobOpKind} (hword : word ∈ ph.history) :
    ∃ life ∈ lifecycle, word <+: life := by
  -- an open phase goes on with a completion; a closed one is a whole life already
  cases ph with
  | pending =>
    refine ⟨word ++ [], Language.append_mem_mul hword (.inl rfl), List.prefix_append _ _⟩
  | processing holder =>
    obtain ⟨start, hstart, -, rfl, rfl⟩ := hword
    refine ⟨start ++ [.claim, .complete], ?_, ?_⟩
    · exact Language.append_mem_mul hstart (.inr (outcome_mem complete_mem_outcome))
    · apply (List.prefix_append_right_inj start).mpr
      exact List.prefix_append [JobOpKind.claim] [.complete]
  | completed =>
    obtain ⟨start, hstart, -, rfl, rfl⟩ := hword
    refine ⟨_, ?_, List.prefix_rfl⟩
    exact Language.append_mem_mul hstart (.inr (outcome_mem complete_mem_outcome))
  | failed =>
    obtain ⟨start, hstart, -, rfl, rfl⟩ := hword
    refine ⟨_, ?_, List.prefix_rfl⟩
    exact Language.append_mem_mul hstart (.inr (outcome_mem permanentFail_mem_outcome))
  | absent =>
    obtain ⟨start, hstart, _, ⟨last, hlast, close, hclose, rfl⟩, rfl⟩ := hword
    refine ⟨_, ?_, List.prefix_rfl⟩
    exact Language.append_mem_mul hstart (.inr (Language.append_mem_mul hlast (.inr hclose)))

/-! ### Runs of the automaton -/

variable [DecidableEq W]

/-- The phase an operation leads to, if the phase allows it. -/
def next : Phase W → JobOp W → Option (Phase W)
  | .absent, .enqueue _ => some .pending
  | .pending, .claim w => some (.processing w)
  | .processing holder, .complete w => if w = holder then some .completed else none
  | .processing holder, .fail w permanent =>
    if w = holder then some (if permanent then .failed else .pending) else none
  | .processing _, .expire _ => some .pending
  | .completed, .close _ => some .absent
  | .failed, .close _ => some .absent
  | _, _ => none

/-- The phase a sequence of operations leads to, if every one of them is allowed. -/
def run (ph : Phase W) (ops : List (JobOp W)) : Option (Phase W) :=
  ops.foldlM next ph

/-- The automaton makes exactly the moves. -/
theorem next_eq_some : ph.next op = some ph' ↔ Move ph op ph' := by
  constructor
  · intro h
    -- all other pairs of a phase and an operation are refused
    cases ph <;> cases op <;> simp only [next, reduceCtorEq, Option.some.injEq] at h
    case absent.enqueue => exact h ▸ .enqueue
    case pending.claim => exact h ▸ .claim
    case processing.complete =>
      split_ifs at h with hw
      cases h
      exact hw ▸ .complete
    case processing.fail holder w permanent =>
      split_ifs at h with hw hpermanent
      · cases h
        rw [hw, hpermanent]
        exact .permanentFail
      · cases h
        rw [hw, Bool.not_eq_true _ |>.mp hpermanent]
        exact .retry
    case processing.expire => exact h ▸ .expire
    case completed.close => exact h ▸ .closeCompleted
    case failed.close => exact h ▸ .closeFailed
  · intro h
    cases h <;> simp [next]

@[simp]
theorem run_nil : ph.run [] = some ph := rfl

theorem run_cons_eq_some {ops : List (JobOp W)} :
    ph.run (op :: ops) = some ph' ↔ ∃ mid, Move ph op mid ∧ mid.run ops = some ph' := by
  simp only [← next_eq_some]
  exact Option.bind_eq_some_iff

theorem run_append_eq_some {l r : List (JobOp W)} :
    ph.run (l ++ r) = some ph' ↔ ∃ mid, ph.run l = some mid ∧ mid.run r = some ph' := by
  rw [run, List.foldlM_append]
  exact Option.bind_eq_some_iff

/-- What holds at the start of a run and is kept by each of its moves holds at its end. -/
theorem run_induction {P : List (JobOp W) → Phase W → Prop} {ops : List (JobOp W)}
    (hrun : ph.run ops = some ph') (hnil : P [] ph)
    (hmove : ∀ l op mid mid', op ∈ ops → P l mid → Move mid op mid' → P (l ++ [op]) mid') :
    P ops ph' := by
  -- from the right: the last move is made in the phase the others lead to
  induction ops using List.reverseRecOn generalizing ph' with
  | nil =>
    obtain rfl : ph = ph' := by simpa using hrun
    exact hnil
  | append_singleton ops op ih =>
    obtain ⟨mid, hmid, hlast⟩ := run_append_eq_some.mp hrun
    obtain ⟨_, hop, hend⟩ := run_cons_eq_some.mp hlast
    cases hend
    have hinit := ih hmid fun l op' mid mid' h =>
      hmove l op' mid mid' (List.mem_append_left _ h)
    exact hmove ops op mid ph' (by simp) hinit hop

/-- The words of a run of a job stay within the histories of its phases. -/
theorem history_of_run {ops : List (JobOp W)} {word : List JobOpKind} (hword : word ∈ ph.history)
    (hops : ∀ op ∈ ops, op.isEnqueue = false) (hrun : ph.run ops = some ph') :
    word ++ ops.map JobOp.kind ∈ ph'.history := by
  refine run_induction (P := fun l mid => word ++ l.map JobOp.kind ∈ mid.history) hrun
    (by simpa using hword) ?_
  intro l op mid mid' hmem hl hop
  rw [List.map_append, ← List.append_assoc]
  exact hop.history (hops op hmem) hl

/-- A run uses up as many outcomes as it contains. -/
theorem countP_outcome_le {ops : List (JobOp W)} (hops : ∀ op ∈ ops, op.isEnqueue = false)
    (hrun : ph.run ops = some ph') :
    ops.countP JobOp.isOutcome + ph'.outcomesLeft ≤ ph.outcomesLeft := by
  refine run_induction
    (P := fun l mid => l.countP JobOp.isOutcome + mid.outcomesLeft ≤ ph.outcomesLeft) hrun
    (by simp) ?_
  intro l op mid mid' hmem hl hop
  -- every outcome is paid for by one of those left
  have hle := hop.outcomesLeft (hops op hmem)
  rw [List.countP_append, List.countP_singleton]
  cases hout : op.isOutcome
  · simp only [hout, Bool.toNat_false] at hle
    simpa using by omega
  · simp only [hout, Bool.toNat_true] at hle
    simpa using by omega

/-- A run without returns from a phase other than Pending never reaches Pending. -/
theorem ne_pending_of_run {ops : List (JobOp W)} (hph : ph ≠ .pending)
    (hops : ∀ op ∈ ops, op.isEnqueue = false) (hreturn : ∀ op ∈ ops, op.isReturn = false)
    (hrun : ph.run ops = some ph') : ph' ≠ .pending := by
  refine run_induction (P := fun _ mid => mid ≠ .pending) hrun hph ?_
  intro l op mid mid' hmem _ hop
  exact hop.ne_pending (hops op hmem) (hreturn op hmem)

/-- A job is there until it is closed. -/
theorem ne_absent_of_run {ops : List (JobOp W)} (hph : ph ≠ .absent)
    (hclose : ∀ creator, .close creator ∉ ops) (hrun : ph.run ops = some ph') :
    ph' ≠ .absent := by
  refine run_induction (P := fun _ mid => mid ≠ .absent) hrun hph ?_
  rintro l op mid mid' hmem - hop rfl
  obtain ⟨creator, rfl⟩ := hop.eq_close_of_absent
  exact hclose creator hmem

/-- Once no outcome is left, a run can only close the job, once. -/
theorem close_of_run {ops : List (JobOp W)} (hleft : ph.outcomesLeft = 0)
    (hops : ∀ op ∈ ops, op.isEnqueue = false) (hrun : ph.run ops = some ph') :
    ops = [] ∨ ∃ creator, ops = [.close creator] := by
  cases ops with
  | nil => exact .inl rfl
  | cons op ops =>
    obtain ⟨mid, hop, hrest⟩ := run_cons_eq_some.mp hrun
    obtain ⟨rfl, creator, rfl⟩ := hop.eq_close hleft (hops op List.mem_cons_self)
    cases ops with
    | nil => exact .inr ⟨creator, rfl⟩
    | cons op' ops =>
      -- a closed job allows nothing but an enqueue
      obtain ⟨_, hop', -⟩ := run_cons_eq_some.mp hrest
      obtain ⟨-, creator', rfl⟩ := hop'.eq_close rfl (hops op' (by simp))
      cases hop'

/-- The operations on a job after its enqueue, none of them another enqueue. -/
structure Since (creator : W) (rest : List (JobOp W)) (ph : Phase W) : Prop where
  run_eq : Phase.absent.run (.enqueue creator :: rest) = some ph
  no_enqueue : ∀ op ∈ rest, op.isEnqueue = false

namespace Since

variable {creator : W} {rest : List (JobOp W)}

/-- The operations after the enqueue start from a Pending job. -/
theorem run_pending (h : Since creator rest ph) : Phase.pending.run rest = some ph := by
  obtain ⟨mid, hop, hrest⟩ := run_cons_eq_some.mp h.run_eq
  cases hop
  exact hrest

/-- Around each later operation of the job, a run leads to it, it is a move, and a run goes on. -/
theorem split (h : Since creator rest ph) {l r : List (JobOp W)} (hsplit : rest = l ++ op :: r) :
    ∃ mid mid', Phase.pending.run l = some mid ∧ Move mid op mid' ∧ mid'.run r = some ph := by
  have hrun := h.run_pending
  rw [hsplit] at hrun
  obtain ⟨mid, hl, hright⟩ := run_append_eq_some.mp hrun
  obtain ⟨mid', hop, hr⟩ := run_cons_eq_some.mp hright
  exact ⟨mid, mid', hl, hop, hr⟩

omit [DecidableEq W] in
/-- An operation that is not an enqueue is a later one. -/
theorem exists_split {l r : List (JobOp W)} (henqueue : op.isEnqueue = false)
    (hsplit : .enqueue creator :: rest = l ++ op :: r) :
    ∃ l', l = .enqueue creator :: l' ∧ rest = l' ++ op :: r := by
  cases l with
  | nil =>
    obtain ⟨rfl, -⟩ := List.cons.inj hsplit
    cases henqueue
  | cons first l =>
    obtain ⟨rfl, hrest⟩ := List.cons.inj hsplit
    exact ⟨l, rfl, hrest⟩

/-- Between two claims the job was returned to Pending. -/
theorem claims_separated (h : Since creator rest ph) {l m r : List (JobOp W)} {w w' : W}
    (hsplit : rest = l ++ .claim w :: (m ++ .claim w' :: r)) : ∃ op ∈ m, op.isReturn := by
  by_contra hnone
  push Not at hnone
  obtain ⟨_, mid, -, hclaim, hright⟩ := h.split hsplit
  obtain ⟨mid', hm, hright'⟩ := run_append_eq_some.mp hright
  obtain ⟨_, hclaim', -⟩ := run_cons_eq_some.mp hright'
  -- the first claim leaves Pending, the second one needs it
  have hm_enqueue : ∀ op ∈ m, op.isEnqueue = false := fun op hop =>
    h.no_enqueue op (by simp [hsplit, hop])
  have hm_return : ∀ op ∈ m, op.isReturn = false := fun op hop => by simpa using hnone op hop
  have hne : mid ≠ .pending := hclaim.ne_pending rfl rfl
  exact ne_pending_of_run hne hm_enqueue hm_return hm hclaim'.eq_pending

/-- Results are reported by the worker of the claim just before. -/
theorem signed_by_claimer (h : Since creator rest ph) {l r : List (JobOp W)} {w : W}
    (hsplit : rest = l ++ op :: r) (hop : op.reporter = some w) : ∃ l', l = l' ++ [.claim w] := by
  obtain ⟨mid, mid', hl, hmove, -⟩ := h.split hsplit
  obtain rfl := hmove.eq_processing hop
  -- the job is Processing just before, and only a claim leads there
  rcases List.eq_nil_or_concat l with rfl | ⟨l', last, rfl⟩
  · cases hl
  · obtain ⟨_, -, hlast⟩ := run_append_eq_some.mp (List.concat_eq_append ▸ hl)
    obtain ⟨_, hmove', hend⟩ := run_cons_eq_some.mp hlast
    cases hend
    exact ⟨l', by rw [List.concat_eq_append, hmove'.eq_claim]⟩

/-- After an outcome the job can only be closed. -/
theorem outcome_last (h : Since creator rest ph) {l r : List (JobOp W)}
    (hsplit : rest = l ++ op :: r) (hop : op.isOutcome) :
    r = [] ∨ ∃ creator', r = [.close creator'] := by
  obtain ⟨mid, mid', -, hmove, hr⟩ := h.split hsplit
  have hleft : mid'.outcomesLeft = 0 := by
    cases hmove with
    | complete | permanentFail => rfl
    | enqueue | claim | retry | expire | closeCompleted | closeFailed => cases hop
  exact close_of_run hleft (fun op' h' => h.no_enqueue op' (by simp [hsplit, h'])) hr

/-- The operations on a job from its enqueue on are a lifetime. -/
theorem lifetime (h : Since creator rest ph) : Lifetime (.enqueue creator :: rest) where
  in_lifecycle := by
    -- the enqueue alone is a word of Pending, where the other operations start
    have hstart : [JobOpKind.enqueue] ++ [] ∈ (Phase.pending : Phase W).history :=
      Language.append_mem_mul rfl (Language.nil_mem_kstar _)
    exact exists_lifecycle_of_history (history_of_run hstart h.no_enqueue h.run_pending)
  claims_separated l w m w' r hsplit := by
    obtain ⟨l', -, hrest⟩ := exists_split rfl hsplit
    exact h.claims_separated hrest
  one_outcome := by
    have hle := countP_outcome_le h.no_enqueue h.run_pending
    rw [List.countP_cons_of_neg (by simp [JobOp.isOutcome])]
    exact le_trans (Nat.le_add_right _ _) hle
  outcome_last l op r hsplit hop := by
    have henqueue : op.isEnqueue = false := JobOp.not_enqueue_of_outcome hop
    obtain ⟨l', -, hrest⟩ := exists_split henqueue hsplit
    exact h.outcome_last hrest hop
  signed_by_claimer l op r w hsplit hop := by
    have henqueue : op.isEnqueue = false := JobOp.not_enqueue_of_reporter hop
    obtain ⟨l', rfl, hrest⟩ := exists_split henqueue hsplit
    obtain ⟨l'', rfl⟩ := h.signed_by_claimer hrest hop
    exact ⟨.enqueue creator :: l'', rfl⟩

end Since

/-- A job that is there has been enqueued, and the operations since then led to its phase. -/
theorem exists_since {ops : List (JobOp W)} (hrun : Phase.absent.run ops = some ph)
    (hph : ph ≠ .absent) : ∃ l creator rest, ops = l ++ .enqueue creator :: rest ∧
      Since creator rest ph ∧ ∀ creator', .close creator' ∉ rest := by
  -- from the right: the enqueue looked for is the last one
  induction ops using List.reverseRecOn generalizing ph with
  | nil => exact absurd (Option.some.inj hrun).symm hph
  | append_singleton ops op ih =>
    obtain ⟨mid, hmid, hlast⟩ := run_append_eq_some.mp hrun
    obtain ⟨_, hop, hend⟩ := run_cons_eq_some.mp hlast
    cases hend
    by_cases habsent : mid = .absent
    · -- the last operation is the enqueue itself
      rw [habsent] at hop
      cases hop with
      | @enqueue creator =>
        refine ⟨ops, creator, [], rfl, ⟨rfl, ?_⟩, ?_⟩ <;> simp
    · obtain ⟨l, creator, rest, rfl, hsince, hclose⟩ := ih hmid habsent
      refine ⟨l, creator, rest ++ [op], by simp, ⟨?_, ?_⟩, ?_⟩
      · rw [← List.cons_append]
        exact run_append_eq_some.mpr ⟨mid, hsince.run_eq, hlast⟩
      · intro op' hop'
        rcases List.mem_append.mp hop' with h | h
        · exact hsince.no_enqueue op' h
        · rw [List.mem_singleton.mp h]
          exact hop.not_enqueue habsent
      · intro creator' hmem
        rcases List.mem_append.mp hmem with h | h
        · exact hclose creator' h
        · -- a close would have left the address empty
          rw [← List.mem_singleton.mp h] at hop
          cases hop <;> exact hph rfl

/-- Every enqueue has been followed by a close. -/
def AllClosed (ops : List (JobOp W)) : Prop :=
  ∀ l creator r, ops = l ++ .enqueue creator :: r → ∃ creator', .close creator' ∈ r

/-- An address is empty exactly when every job enqueued at it has been closed. -/
theorem eq_absent_iff {ops : List (JobOp W)} (hrun : Phase.absent.run ops = some ph) :
    ph = .absent ↔ AllClosed ops := by
  constructor
  · rintro rfl l creator r rfl
    obtain ⟨_, -, hright⟩ := run_append_eq_some.mp hrun
    obtain ⟨mid, hop, hr⟩ := run_cons_eq_some.mp hright
    by_contra hclose
    push Not at hclose
    -- an enqueue leaves a job, which stays until a close
    have hmid : mid ≠ .absent := by
      rintro rfl
      cases hop
    exact ne_absent_of_run hmid hclose hr rfl
  · intro hall
    by_contra hph
    obtain ⟨l, creator, rest, hops, -, hclose⟩ := exists_since hrun hph
    obtain ⟨creator', hmem⟩ := hall l creator rest hops
    exact hclose creator' hmem

end Phase

/-! ## The program follows the automaton -/

variable {Pubkey : Type} [DecidableEq Pubkey]

/-- What an address holds while its job is in a phase. -/
inductive Shows : Option (Job Pubkey) → Phase Pubkey → Prop where
  | absent : Shows none .absent
  | pending {j : Job Pubkey} (status : j.status = .pending) : Shows (some j) .pending
  | processing {j : Job Pubkey} {w : Pubkey} (held : j.HeldBy w) : Shows (some j) (.processing w)
  | completed {j : Job Pubkey} (status : j.status = .completed) : Shows (some j) .completed
  | failed {j : Job Pubkey} (status : j.status = .failed) : Shows (some j) .failed

omit [DecidableEq Pubkey] in
theorem Shows.eq_pending {j : Job Pubkey} {ph : Phase Pubkey} (h : Shows (some j) ph)
    (hstatus : j.status = .pending) : ph = .pending := by
  cases h with
  | pending => rfl
  | processing held => cases hstatus.symm.trans held.processing
  | completed status | failed status => cases hstatus.symm.trans status

omit [DecidableEq Pubkey] in
theorem Shows.eq_processing {j : Job Pubkey} {w : Pubkey} {ph : Phase Pubkey}
    (h : Shows (some j) ph) (hheld : j.HeldBy w) : ph = .processing w := by
  cases h with
  | processing held => rw [Option.some.inj (held.assigned.symm.trans hheld.assigned)]
  | pending status | completed status | failed status =>
    cases hheld.processing.symm.trans status

/-- Every operation that commits is a move of the automaton. -/
theorem JobChange.move {D : Derivation Pubkey} {σ : Ledger Pubkey} {now : Int64} {a : Pubkey}
    {op : JobOp Pubkey} {old new : Option (Job Pubkey)} {ph : Phase Pubkey}
    (h : JobChange D σ now a (some op) old new) (hshows : Shows old ph) :
    ∃ ph', Phase.Move ph op ph' ∧ Shows new ph' := by
  cases h with
  | enqueue =>
    cases hshows
    exact ⟨.pending, .enqueue, .pending rfl⟩
  | claim pending active =>
    rw [hshows.eq_pending pending]
    exact ⟨.processing _, .claim, .processing ⟨rfl, rfl⟩⟩
  | complete held active length =>
    rw [hshows.eq_processing held]
    exact ⟨.completed, .complete, .completed rfl⟩
  | failPermanent held active retries_eq exhausted =>
    rw [hshows.eq_processing held]
    exact ⟨.failed, .permanentFail, .failed rfl⟩
  | failRetry held active retries_eq left =>
    rw [hshows.eq_processing held]
    exact ⟨.pending, .retry, .pending rfl⟩
  | expire queue processing expired =>
    -- whoever holds the job
    cases hshows with
    | processing held => exact ⟨.pending, .expire, .pending rfl⟩
    | pending status | completed status | failed status => cases processing.symm.trans status
  | close finished =>
    cases hshows with
    | completed status => exact ⟨.absent, .closeCompleted, .absent⟩
    | failed status => exact ⟨.absent, .closeFailed, .absent⟩
    | pending status => cases finished <;> simp_all
    | processing held => cases finished <;> simp_all [held.processing]

/-- The operations of a log read one entry after the other. -/
theorem opsOn_append {a : Pubkey} {l r : List (Entry Pubkey)} :
    opsOn a (l ++ r) = opsOn a l ++ opsOn a r :=
  List.filterMap_append

theorem opsOn_cons_of_some {a : Pubkey} {e : Entry Pubkey} {l : List (Entry Pubkey)}
    {op : JobOp Pubkey} (h : e.opOn a = some op) : opsOn a (e :: l) = op :: opsOn a l :=
  List.filterMap_cons_some h

theorem opsOn_cons_of_none {a : Pubkey} {e : Entry Pubkey} {l : List (Entry Pubkey)}
    (h : e.opOn a = none) : opsOn a (e :: l) = opsOn a l :=
  List.filterMap_cons_none h

/-- The last entry of a log adds at most one operation. -/
theorem opsOn_snoc {a : Pubkey} {l : List (Entry Pubkey)} {e : Entry Pubkey} :
    opsOn a (l ++ [e]) = opsOn a l ++ (e.opOn a).toList := by
  rw [opsOn_append]
  cases h : e.opOn a with
  | none =>
    rw [opsOn_cons_of_none h]
    rfl
  | some op =>
    rw [opsOn_cons_of_some h]
    rfl

variable [Inhabited Pubkey] {D : Derivation Pubkey}

/-- In every run the operations on each address are a run of the automaton, and the address shows
the phase they lead to. -/
theorem shows_run (calls : List (Call Pubkey)) (a : Pubkey) :
    ∃ ph, Phase.absent.run (opsOn a ((program D).log calls)) = some ph ∧
      Shows (((program D).run calls).jobs.lookup a) ph := by
  refine step_induction (P := fun log σ => ∃ ph,
    Phase.absent.run (opsOn a log) = some ph ∧ Shows (σ.jobs.lookup a) ph) ?_ ?_ calls
  · exact ⟨.absent, rfl, .absent⟩
  · intro log σ c σ' o _ ⟨ph, hrun, hshows⟩ hstep
    have hchange := hstep.jobChange a
    rw [opsOn_snoc]
    cases hop : Entry.opOn a ⟨σ, c, o, σ'⟩ with
    | none =>
      -- the call was about another account
      rw [hop] at hchange
      generalize σ.jobs.lookup a = old at hchange hshows
      generalize σ'.jobs.lookup a = new at hchange ⊢
      cases hchange
      exact ⟨ph, by simpa using hrun, hshows⟩
    | some op =>
      rw [hop] at hchange
      obtain ⟨ph', hmove, hshows'⟩ := hchange.move hshows
      exact ⟨ph', Phase.run_append_eq_some.mpr
        ⟨ph, hrun, Phase.run_cons_eq_some.mpr ⟨ph', hmove, rfl⟩⟩, hshows'⟩

/-- An address holds no job exactly when every job enqueued at it has been closed. -/
theorem lookup_eq_none_iff (calls : List (Call Pubkey)) (a : Pubkey) :
    ((program D).run calls).jobs.lookup a = none ↔
      Phase.AllClosed (opsOn a ((program D).log calls)) := by
  obtain ⟨ph, hrun, hshows⟩ := shows_run (D := D) calls a
  rw [← Phase.eq_absent_iff hrun]
  generalize ((program D).run calls).jobs.lookup a = job at hshows
  constructor
  · rintro rfl
    cases hshows
    rfl
  · rintro rfl
    cases hshows
    rfl

/-- The key `w` is registered on the queue at `queue` and active. -/
def Ledger.HasActiveWorker (σ : Ledger Pubkey) (queue w : Pubkey) : Prop :=
  ∃ k r, σ.workerRegistries.lookup k = some r ∧ r.queue = queue ∧ r.worker = w ∧
    r.isActive = true

omit [Inhabited Pubkey] in
/-- Whoever passed the checks of a worker instruction is registered and active. -/
theorem ActiveOn.hasActiveWorker {σ : Ledger Pubkey} {queue w : Pubkey}
    (h : ActiveOn D σ queue w) (haddr : Addressed D σ) : σ.HasActiveWorker queue w := by
  obtain ⟨n, k, r, hr, hactive⟩ := h
  exact ⟨k, r, hr.lookup, hr.queue, haddr.worker_of_registryAt hr, hactive⟩

omit [Inhabited Pubkey] in
/-- A worker operation finds the job it is about, and its signer active on the job's queue. -/
theorem JobChange.active_worker {σ : Ledger Pubkey} {now : Int64} {a w : Pubkey}
    {op : JobOp Pubkey} {old new : Option (Job Pubkey)}
    (h : JobChange D σ now a (some op) old new) (hop : op.worker = some w) :
    ∃ j, old = some j ∧ ActiveOn D σ j.queue w := by
  cases h with
  | claim pending active => exact ⟨_, rfl, Option.some.inj hop ▸ active⟩
  | complete held active length => exact ⟨_, rfl, Option.some.inj hop ▸ active⟩
  | failPermanent held active retries_eq exhausted =>
    exact ⟨_, rfl, Option.some.inj hop ▸ active⟩
  | failRetry held active retries_eq left => exact ⟨_, rfl, Option.some.inj hop ▸ active⟩
  | enqueue | expire | close => cases hop

/-- In every run, the operations on the job at `a` from the one that creates it, up to any point
before the address is used again, form a lifetime, and every operation of a worker is made while
that worker is registered and active on the job's queue. -/
theorem job_lifecycle {calls : List (Call Pubkey)} {a creator : Pubkey}
    {pre seg post : List (Entry Pubkey)} {e : Entry Pubkey}
    (hlog : (program D).log calls = pre ++ e :: (seg ++ post))
    (hcreate : e.opOn a = some (.enqueue creator))
    (honly : ∀ op ∈ opsOn a seg, op.isEnqueue = false) :
    Lifetime (opsOn a (e :: seg)) ∧
      ∀ e' ∈ seg, ∀ op w, e'.opOn a = some op → op.worker = some w →
        ∃ j, e'.before.jobs.lookup a = some j ∧ e'.before.HasActiveWorker j.queue w := by
  obtain ⟨_, hrun, -⟩ := shows_run (D := D) calls a
  -- cut the run of the automaton at the creation and at the end of the segment
  rw [hlog, opsOn_append, ← List.cons_append, opsOn_append] at hrun
  obtain ⟨start, -, hfrom⟩ := Phase.run_append_eq_some.mp hrun
  obtain ⟨ph, hseg, -⟩ := Phase.run_append_eq_some.mp hfrom
  rw [opsOn_cons_of_some hcreate] at hseg ⊢
  refine ⟨?_, ?_⟩
  · -- the address is empty when the job is created
    obtain ⟨_, hmove, -⟩ := Phase.run_cons_eq_some.mp hseg
    obtain rfl : start = .absent := by cases hmove; rfl
    exact Phase.Since.lifetime ⟨hseg, honly⟩
  · intro e' he' op w hop hworker
    have hmem : e' ∈ (program D).log calls := by simp [hlog, he']
    obtain ⟨calls₁, -, hbefore, -, hstep⟩ := step_of_mem_log hmem
    have hchange := hstep.jobChange a
    obtain ⟨j, hj, hactive⟩ := JobChange.active_worker (hop ▸ hchange) hworker
    exact ⟨j, hj, hactive.hasActiveWorker (hbefore ▸ addressed_run calls₁)⟩

/-- The life of the sample job: two claims given back, one completed. -/
theorem job_lifecycle_day :
    Lifetime (opsOn (Sample.job 0) (((program Derivation.free).log Sample.day).drop 2)) := by
  have hlength : 2 < ((program Derivation.free).log Sample.day).length := by decide +kernel
  have hlog := Machine.eq_take_append_cons (List.getElem?_eq_getElem hlength)
  rw [List.drop_eq_getElem_cons hlength]
  rw [← List.append_nil (List.drop (2 + 1) _)] at hlog
  have hcreate : Entry.opOn (Sample.job 0) ((program Derivation.free).log Sample.day)[2] =
      some (.enqueue Sample.producer) := rfl
  exact (job_lifecycle hlog hcreate (by decide +kernel)).1

end SolQueue
