import SolQueue.Lifecycle
import Mathlib.Data.Prod.Lex

/-!
# Processing order

Jobs carry a priority and a number, which are documented to order the Pending jobs of a queue:
higher priorities first, then smaller numbers. A claim names the job it takes and looks at no other
one, so the order is left to the workers.

* `Job.Precedes`, `Job.place`: the documented order, as a lexicographic one.
* `Ledger.FirstPending`: the job at an address is the first in line on its queue.
* `claimJob_any_pending`: a queue with Pending jobs has exactly one first in line, and an active
  worker can claim any of them.
-/

namespace SolQueue

open Checked

variable {Pubkey : Type}

/-! ## The documented order -/

/-- The job `j` is to be processed before `j'`: it has a higher priority, or the same priority and
a smaller number. -/
def Job.Precedes (j j' : Job Pubkey) : Prop :=
  j'.priority < j.priority ∨ j'.priority = j.priority ∧ j.seq < j'.seq

/-- The place of a job in the order: priorities downwards, then numbers upwards. -/
def Job.place (j : Job Pubkey) : ℕᵒᵈ ×ₗ ℕ :=
  toLex (OrderDual.toDual j.priority.toNat, j.seq.toNat)

/-- Jobs are processed in the order of their places. -/
theorem Job.precedes_iff_place_lt {j j' : Job Pubkey} : j.Precedes j' ↔ j.place < j'.place := by
  rw [place, place, Prod.Lex.toLex_lt_toLex, OrderDual.toDual_lt_toDual,
    EmbeddingLike.apply_eq_iff_eq, Precedes, UInt8.lt_iff_toNat_lt, UInt64.lt_iff_toNat_lt,
    ← UInt8.toNat_inj, eq_comm (a := j'.priority.toNat)]

/-- Jobs at the same place have the same number. -/
theorem Job.seq_of_place {j j' : Job Pubkey} (h : j.place = j'.place) : j.seq = j'.seq :=
  UInt64.toNat_inj.mp (Prod.mk.inj (toLex.injective h)).2

variable [DecidableEq Pubkey]

/-- The job at `a` is the first in line on the queue at `k`: it is one of the Pending jobs of the
queue, and none of them precedes it. -/
def Ledger.FirstPending (σ : Ledger Pubkey) (k a : Pubkey) : Prop :=
  ∃ j, σ.jobs.lookup a = some j ∧ j.queue = k ∧ j.status = .pending ∧
    ∀ a' j', σ.jobs.lookup a' = some j' → j'.queue = k → j'.status = .pending → ¬j'.Precedes j

/-- A queue with Pending jobs has exactly one first in line, as no two of its jobs have the same
number. -/
theorem Numbered.existsUnique_firstPending {σ : Ledger Pubkey} (h : Numbered σ) {k : Pubkey}
    (hpending : ∃ a j, σ.jobs.lookup a = some j ∧ j.queue = k ∧ j.status = .pending) :
    ∃! a, σ.FirstPending k a := by
  obtain ⟨a, j, hj, ⟨hqueue, hstatus⟩, hmin⟩ := Finmap.exists_lookup_min Job.place
    (fun j => j.queue = k ∧ j.status = .pending) hpending
  refine ⟨a, ⟨j, hj, hqueue, hstatus, fun a' j' hj' hqueue' hstatus' hprecedes => ?_⟩, ?_⟩
  · rw [Job.precedes_iff_place_lt] at hprecedes
    exact absurd (hmin a' j' hj' ⟨hqueue', hstatus'⟩) (not_le.mpr hprecedes)
  · rintro a' ⟨j', hj', hqueue', hstatus', hfirst⟩
    -- neither precedes the other, so they share a place and a number
    have hle := hmin a' j' hj' ⟨hqueue', hstatus'⟩
    have hge : j'.place ≤ j.place := by
      rw [← not_lt, ← Job.precedes_iff_place_lt]
      exact hfirst a j hj hqueue hstatus
    exact h.injective a' a j' j hj' hj (hqueue'.trans hqueue.symm)
      (Job.seq_of_place (le_antisymm hge hle))

/-! ## Claims -/

section Runs

variable [Inhabited Pubkey] {D : Derivation Pubkey}

/-- In every run, a queue with Pending jobs has exactly one first in line. An active worker of the
queue, whose counter is in range, can claim any Pending job of it at any time, first in line or
not. -/
theorem claimJob_any_pending (calls : List (Call Pubkey)) (k : Pubkey) :
    ((∃ a j, ((program D).run calls).jobs.lookup a = some j ∧ j.queue = k ∧
        j.status = .pending) → ∃! a, ((program D).run calls).FirstPending k a) ∧
    ∀ a j, ((program D).run calls).jobs.lookup a = some j → j.queue = k → j.status = .pending →
      ∀ x r, ((program D).run calls).workerRegistries.lookup x = some r → r.queue = k →
        r.isActive = true → r.jobsClaimed.toNat < 2 ^ 64 - 1 → ∀ now : Int64, ∃ n s σ' o,
          execute D ((program D).run calls) ⟨now, .claimJob ⟨r.worker, k, x, a⟩ n s⟩ =
              .ok (σ', o) ∧
            σ'.jobs.lookup a = some (j.claimed r.worker now) := by
  refine ⟨(sound_run calls).numbered.existsUnique_firstPending, ?_⟩
  intro a j hj hqueue hpending x r hr hrqueue hactive hclaimed now
  have haddr : Addressed D ((program D).run calls) := addressed_run calls
  obtain ⟨_, _, q, -, hq⟩ := haddr.job a j hj
  obtain ⟨n, s, hvalid⟩ :=
    haddr.exists_valid hj hq.lookup hr (hrqueue.trans hqueue.symm) hactive
  obtain ⟨claimed, hclaimed⟩ :=
    exists_toNat_eq_uint64.mpr (show r.jobsClaimed.toNat + 1 < 2 ^ 64 by omega)
  -- nothing a claim checks is about other jobs
  have hstep : Step D ((program D).run calls)
      ⟨now, .claimJob ⟨r.worker, j.queue, x, a⟩ n s⟩ _ _ := .claimJob hvalid hpending hclaimed
  have hok := execute_eq_ok.mpr hstep
  rw [hqueue] at hok
  exact ⟨n, s, _, _, hok, Finmap.lookup_insert _⟩

/-- Two Pending jobs of the same priority. -/
def Sample.twoPending : List (Call Key) :=
  [create 2 60, register worker, enqueue producer 0 none, enqueue producer 1 none]

/-- The sample worker can claim the second of two Pending jobs. -/
theorem claimJob_any_pending_second :
    ∃ n s σ' o j, execute Derivation.free ((program Derivation.free).run Sample.twoPending)
        ⟨2, .claimJob ⟨Sample.worker, Sample.queue, Sample.registry Sample.worker,
          Sample.job 1⟩ n s⟩ = .ok (σ', o) ∧
      σ'.jobs.lookup (Sample.job 1) = some j ∧ j.assignedWorker = some Sample.worker := by
  obtain ⟨n, s, σ', o, hok, hj⟩ := (claimJob_any_pending (D := Derivation.free)
    Sample.twoPending Sample.queue).2 (Sample.job 1) _ rfl rfl rfl
    (Sample.registry Sample.worker) _ rfl rfl rfl (by decide) 2
  exact ⟨n, s, σ', o, _, hok, hj, rfl⟩

/-- A claim of the second of two Pending jobs commits before the first one is claimed. -/
theorem not_claimJob_firstPending :
    ¬∀ (calls : List (Call Key)) (now : Int64) (ctx : WorkerJob Key) (n : String) (s : UInt64)
      (r : Ledger Key × Outcome Key),
      execute Derivation.free ((program Derivation.free).run calls) ⟨now, .claimJob ctx n s⟩ =
        .ok r → ((program Derivation.free).run calls).FirstPending ctx.queueConfig ctx.job := by
  intro h
  have hclaim : execute Derivation.free ((program Derivation.free).run Sample.twoPending)
      (Sample.claim 2 Sample.worker 1) = .ok _ := rfl
  obtain ⟨j, hj, -, -, hfirst⟩ := h Sample.twoPending 2 _ Sample.name 1 _ hclaim
  obtain rfl := Option.some.inj hj
  exact hfirst (Sample.job 0) _ rfl rfl rfl (.inr ⟨rfl, by decide⟩)

end Runs

end SolQueue
