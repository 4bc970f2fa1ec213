import SolQueue.Invariants

/-!
# Custody of jobs

From the `enqueueJob` call that creates it, a job account is kept by the program whatever is called
by whom: its identity never changes, once the job is finished nothing of it does, and it goes away
only when the signer who paid for it closes it.

* `Entry.Closes`: the call closes the job at an address.
* `Step.custody`: what one step can do to a live job.
* `Custody`, `job_custody`: what any calls after the enqueue can do to it.
-/

namespace SolQueue

variable {Pubkey : Type} [DecidableEq Pubkey]

/-- The job is Completed or Failed. -/
def Job.Finished (j : Job Pubkey) : Prop :=
  j.status = .completed ∨ j.status = .failed

/-- The call closes the job at `a`. -/
def Entry.Closes (a : Pubkey) (e : Entry Pubkey) : Prop :=
  ∃ ctx n s, e.call.instruction = .closeJob ctx n s ∧ ctx.job = a

/-- What the calls of `log`, made since the job `j₀` was enqueued at `a` by `creator`, have done to
it. -/
structure Custody (a creator : Pubkey) (j₀ : Job Pubkey) (log : List (Entry Pubkey))
    (σ : Ledger Pubkey) : Prop where
  /-- Until it is closed, the job is live and keeps its identity. -/
  live : (∀ e ∈ log, ¬Entry.Closes a e) → ∃ j, σ.jobs.lookup a = some j ∧ SameIdentity j₀ j
  /-- Once the job is finished, it stays as it is until it is closed. -/
  final : (∀ e ∈ log, ¬Entry.Closes a e) → ∀ e ∈ log, ∀ j, e.before.jobs.lookup a = some j →
    j.Finished → σ.jobs.lookup a = some j
  /-- It is closed by its creator, when finished, and its rent goes to them. -/
  closed : ∀ pre e post, log = pre ++ e :: post → (∀ e' ∈ pre, ¬Entry.Closes a e') →
    Entry.Closes a e → ∃ ctx n s j, e.call.instruction = .closeJob ctx n s ∧ ctx.job = a ∧
      ctx.creator = creator ∧ e.before.jobs.lookup a = some j ∧ SameIdentity j₀ j ∧ j.Finished ∧
      e.after.jobs.lookup a = none ∧ e.out.transfers = [.close a creator]
  /-- No other call moves its rent. -/
  rent : ∀ e ∈ log, ∀ destination, .close a destination ∈ e.out.transfers → Entry.Closes a e

/-! ## One step -/

/-- An operation other than a close keeps a live job and its identity, and changes nothing of a
finished one. -/
theorem JobChange.custody {D : Derivation Pubkey} {σ : Ledger Pubkey} {now : Int64} {a : Pubkey}
    {op : Option (JobOp Pubkey)} {j : Job Pubkey} {new : Option (Job Pubkey)}
    (h : JobChange D σ now a op (some j) new) :
    (∃ j', new = some j' ∧ SameIdentity j j' ∧ (j.Finished → j' = j)) ∨
      (new = none ∧ op = some (.close j.creator) ∧ j.Finished) := by
  -- a finished job is neither Pending nor Processing, which all other operations ask for
  have unfinished {P : Prop} (hstatus : j.status = .pending ∨ j.status = .processing)
      (hfinished : j.Finished) : P := by
    rcases hstatus with hs | hs <;> rcases hfinished with hf | hf <;> cases hs.symm.trans hf
  cases h with
  | keep => exact .inl ⟨j, rfl, .refl j, fun _ => rfl⟩
  | claim pending active =>
    exact .inl ⟨_, rfl, ⟨rfl, rfl, rfl, rfl, rfl, rfl, rfl, rfl, rfl⟩, unfinished (.inl pending)⟩
  | complete held | failPermanent held | failRetry held =>
    exact .inl ⟨_, rfl, ⟨rfl, rfl, rfl, rfl, rfl, rfl, rfl, rfl, rfl⟩,
      unfinished (.inr held.processing)⟩
  | expire queue processing expired =>
    exact .inl ⟨_, rfl, ⟨rfl, rfl, rfl, rfl, rfl, rfl, rfl, rfl, rfl⟩,
      unfinished (.inr processing)⟩
  | close finished => exact .inr ⟨rfl, rfl, finished⟩

section Runs

variable [Inhabited Pubkey] {D : Derivation Pubkey} {σ σ' : Ledger Pubkey} {c : Call Pubkey}
  {o : Outcome Pubkey} {a : Pubkey} {j : Job Pubkey}

/-- Only a `closeJob` call operates on a job by closing it. -/
theorem Step.closed_by_close (h : Step D σ c σ' o) {creator : Pubkey}
    (hop : Entry.opOn a ⟨σ, c, o, σ'⟩ = some (.close creator)) :
    Entry.Closes a ⟨σ, c, o, σ'⟩ := by
  have hjob := Entry.jobOp_of_opOn hop
  cases h with
  | closeJob =>
    cases hjob
    exact ⟨_, _, _, rfl, rfl⟩
  | _ => cases hjob

/-- A call that does not close a live job keeps it and its identity, and changes nothing of a
finished one. -/
theorem Step.custody (h : Step D σ c σ' o) (hj : σ.jobs.lookup a = some j)
    (hcloses : ¬Entry.Closes a ⟨σ, c, o, σ'⟩) :
    ∃ j', σ'.jobs.lookup a = some j' ∧ SameIdentity j j' ∧ (j.Finished → j' = j) := by
  have hchange := h.jobChange a
  rw [hj] at hchange
  rcases hchange.custody with hkept | ⟨-, hop, -⟩
  · exact hkept
  · exact absurd (h.closed_by_close hop) hcloses

/-- A call that closes a live job is signed by its creator, finds it finished, removes it and
returns its rent. -/
theorem Step.closes (h : Step D σ c σ' o) (hj : σ.jobs.lookup a = some j)
    (hcloses : Entry.Closes a ⟨σ, c, o, σ'⟩) :
    ∃ ctx n s, c.instruction = .closeJob ctx n s ∧ ctx.job = a ∧ ctx.creator = j.creator ∧
      j.Finished ∧ σ'.jobs.lookup a = none ∧ o.transfers = [.close a j.creator] := by
  obtain ⟨ctx, n, s, hc, rfl⟩ := hcloses
  obtain ⟨now, _⟩ := c
  obtain rfl : _ = _ := hc
  cases h with
  | closeJob queue job creator finished =>
    obtain rfl := Option.some.inj (hj.symm.trans job.lookup)
    exact ⟨ctx, n, s, rfl, rfl, creator.symm, finished, Finmap.lookup_erase _ _,
      by rw [creator]⟩

/-- Only the call that closes a job account moves its lamports. -/
theorem Step.closes_of_transfer (h : Step D σ c σ' o) {destination : Pubkey}
    (htransfer : .close a destination ∈ o.transfers) : Entry.Closes a ⟨σ, c, o, σ'⟩ := by
  cases h with
  | @closeJob _ ctx n s =>
    simp only [List.mem_singleton, Transfer.close.injEq] at htransfer
    exact ⟨ctx, n, s, rfl, htransfer.1.symm⟩
  | _ => simp [Outcome.emit] at htransfer

/-- An `enqueueJob` call pays for the account it creates, and stores who paid. -/
theorem Step.enqueueJob_pays {now : Int64} {ctx : EnqueueJob Pubkey} {n : String} {s : UInt64}
    {params : EnqueueJobParams} (h : Step D σ ⟨now, .enqueueJob ctx n s params⟩ σ' o) :
    ∃ j, σ'.jobs.lookup ctx.job = some j ∧ j.creator = ctx.creator ∧
      o.transfers = [.rent ctx.creator ctx.job Job.LEN] := by
  cases h with
  | enqueueJob => exact ⟨_, Finmap.lookup_insert _, rfl, rfl⟩

/-! ## Whole runs -/

/-- Calls that do not close a live job keep it and its identity, and change nothing of a finished
one. -/
theorem custody_runFrom (calls : List (Call Pubkey)) (hj : σ.jobs.lookup a = some j)
    (hcloses : ∀ e ∈ (program D).logFrom σ calls, ¬Entry.Closes a e) :
    ∃ j', ((program D).runFrom σ calls).jobs.lookup a = some j' ∧ SameIdentity j j' ∧
      (j.Finished → j' = j) := by
  refine Machine.runFrom_induction_of_log (M := program D) (P := fun σ' => ∃ j',
    σ'.jobs.lookup a = some j' ∧ SameIdentity j j' ∧ (j.Finished → j' = j))
    ?_ ⟨j, hj, .refl j, fun _ => rfl⟩ calls hcloses
  intro σ₁ c σ₂ o ⟨j₁, hj₁, hsame₁, hfinal₁⟩ hstep hcloses
  obtain ⟨j₂, hj₂, hsame₂, hfinal₂⟩ := (execute_eq_ok.mp hstep).custody hj₁ hcloses
  refine ⟨j₂, hj₂, hsame₁.trans hsame₂, fun hfinished => ?_⟩
  obtain rfl := hfinal₁ hfinished
  exact hfinal₂ hfinished

/-- From the call that enqueues a job and pays for its account, the job is in custody whatever calls
are made. -/
theorem job_custody {calls₁ : List (Call Pubkey)} {now : Int64} {ctx : EnqueueJob Pubkey}
    {n : String} {s : UInt64} {params : EnqueueJobParams} {r : Ledger Pubkey × Outcome Pubkey}
    (henqueue : execute D ((program D).run calls₁) ⟨now, .enqueueJob ctx n s params⟩ = .ok r)
    (calls₂ : List (Call Pubkey)) :
    ∃ j₀, r.1.jobs.lookup ctx.job = some j₀ ∧
      r.2.transfers = [.rent ctx.creator ctx.job Job.LEN] ∧
      Custody ctx.job ctx.creator j₀ ((program D).logFrom r.1 calls₂)
        ((program D).run (calls₁ ++ ⟨now, .enqueueJob ctx n s params⟩ :: calls₂)) := by
  obtain ⟨σ₀, o₀⟩ := r
  have hrun : (program D).run (calls₁ ++ ⟨now, .enqueueJob ctx n s params⟩ :: calls₂) =
      (program D).runFrom σ₀ calls₂ := Machine.run_append_cons_of_ok henqueue
  obtain ⟨j₀, hj₀, hcreator, hrent⟩ := (execute_eq_ok.mp henqueue).enqueueJob_pays
  refine ⟨j₀, hj₀, hrent, ?_⟩
  rw [hrun]
  refine ⟨fun hcloses => ?_, fun hcloses e he j hj hfinished => ?_,
    fun pre e post hlog hpre hcloses => ?_,
    fun e he destination htransfer => ?_⟩
  · obtain ⟨j, hj, hsame, -⟩ := custody_runFrom calls₂ hj₀ hcloses
    exact ⟨j, hj, hsame⟩
  · -- from the ledger in which the job is finished, over the calls still to come
    obtain ⟨pre, post, hlog⟩ := List.append_of_mem he
    obtain ⟨l, m, rfl, hpre, hbefore, hok, hpost⟩ := Machine.logFrom_eq_append_cons hlog
    rw [Machine.runFrom_append, hbefore]
    obtain ⟨j', hj', -, hfinal⟩ := custody_runFrom (D := D) (e.call :: m) hj fun e' he' => by
      rw [Machine.logFrom_cons_of_ok hok, hpost] at he'
      exact hcloses e' (hlog ▸ List.mem_append_right _ he')
    rwa [hfinal hfinished] at hj'
  · -- up to the first close the job is live
    obtain ⟨l, m, rfl, rfl, hbefore, hok, -⟩ := Machine.logFrom_eq_append_cons hlog
    obtain ⟨j, hj, hsame, -⟩ := custody_runFrom l hj₀ hpre
    rw [hbefore] at hj
    obtain ⟨ctx', n', s', hc, ha, hsigner, hfinished, hgone, htransfers⟩ :=
      (execute_eq_ok.mp hok).closes hj hcloses
    rw [hsame.creator, hcreator] at hsigner htransfers
    exact ⟨ctx', n', s', j, hc, ha, hsigner, hj, hsame, hfinished, hgone, htransfers⟩
  · obtain ⟨_, -, -, -, hstep⟩ := step_of_mem_logFrom he
    exact hstep.closes_of_transfer htransfer

/-- The sample job after its creator has enqueued it: claimed and completed, it is what it was when
completed, and its creator closes it. -/
theorem job_custody_day :
    ∃ j₀, Custody (Sample.job 0) Sample.producer j₀
      ((program Derivation.free).logFrom ((program Derivation.free).run (Sample.day.take 3))
        (Sample.day.drop 3))
      ((program Derivation.free).run Sample.day) := by
  have henqueue : execute Derivation.free ((program Derivation.free).run (Sample.day.take 2))
      (Sample.enqueue Sample.producer 0 none) = .ok _ := rfl
  obtain ⟨j₀, -, -, hcustody⟩ := job_custody henqueue (Sample.day.drop 3)
  exact ⟨j₀, hcustody⟩

end Runs

end SolQueue
