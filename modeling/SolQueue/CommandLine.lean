import SolQueue.Correctness
import SolQueue.PendingCounts
import SolQueue.Wire

/-!
# The command line

A command names a queue and a number; the accounts of the one instruction it builds are derived from
these. Between the moment it reads the ledger and the moment its transaction arrives, others go on.

* `Command.instruction`: the instruction that a command builds.
* `Command.request`: what it asks of the store of names.
* `Transaction`, `receive`: the way of an instruction to the program.
* `cli_answered`: every command is answered as its request is.
-/

namespace SolQueue

open Except (Agree)
open Spec.QueueName (queueSeeds workerSeeds jobSeeds)

variable {Pubkey : Type}

/-! ## Commands -/

/-- A command that sends a transaction. A number is none if `parseInt` finds none in the argument,
which is then `NaN`. -/
inductive Command (Pubkey : Type) where
  | init (queueName : String) (maxRetries timeout : Option ℤ)
  | workerRegister (queueName : String) (workerPubkey : Option Pubkey)
  | enqueue (queueName jobType payload : String) (priority : Option ℤ)
  | claim (queueName : String) (seq : Option ℤ)
  | complete (queueName : String) (seq : Option ℤ) (result : String)
  | fail (queueName : String) (seq : Option ℤ) (reason : String)

/-- What the libraries of the command line make of numbers. -/
structure Numbers extends BigNumber where
  /-- `new BN(..)`, which is 0 if there is no number and throws for one of more than 53 bits. -/
  ofNumber : Option ℤ → Option ℤ
  ofNumber_eq_some_iff : ∀ {x v}, ofNumber x = some v ↔ v = x.getD 0 ∧ v.natAbs < 2 ^ 53
  /-- `toNumber` of a time. -/
  timeNumber : Int64 → Option ℤ
  timeNumber_eq_some_iff : ∀ {t v}, timeNumber t = some v ↔ v = t.toInt ∧ v.natAbs < 2 ^ 53
  /-- The byte written for a number. What is no byte may be refused or changed. -/
  byte : Option ℤ → Option UInt8
  byte_toNat : ∀ b : UInt8, byte (some b.toNat) = some b

/-- Numbers as they are, with those refused that are out of range. -/
def Numbers.limited : Numbers where
  toBigNumber := .limited
  ofNumber x := (some (x.getD 0)).filter fun v => v.natAbs < 2 ^ 53
  ofNumber_eq_some_iff {x v} := by
    rw [Option.filter_eq_some_iff, decide_eq_true_iff, Option.some.injEq, eq_comm]
  timeNumber t := if t.toInt.natAbs < 2 ^ 53 then some t.toInt else none
  timeNumber_eq_some_iff {t v} := by
    split_ifs with h
    · constructor
      · rintro ⟨⟩
        exact ⟨rfl, h⟩
      · rintro ⟨rfl, -⟩
        rfl
    · constructor
      · rintro ⟨⟩
      · rintro ⟨rfl, hsmall⟩
        exact absurd hsmall h
  byte x := (x.filter fun v => 0 ≤ v ∧ v < 256).map fun v => UInt8.ofNat v.toNat
  byte_toNat b := by
    have hlt := b.toNat_lt
    simp [Option.filter_some, show (b.toNat : ℤ) < 256 by omega]

section Instructions

variable (D : Derivation Pubkey) (N : Numbers)

/-- The address of a queue. -/
def deriveQueuePDA (queueName : String) : Option Pubkey :=
  D.addressOf (.queue queueName.asBytes)

/-- The address of a job. The number is written as eight bytes, which throws if there is none, and
if it needs more or is negative. -/
def deriveJobPDA (queueName : String) (seq : Option ℤ) : Option Pubkey := do
  let seq ← seq
  guard (0 ≤ seq ∧ seq < 2 ^ 64)
  D.addressOf (.job queueName.asBytes (UInt64.ofNat seq.toNat))

/-- The address of a registry. -/
def deriveWorkerPDA (queueName : String) (workerPubkey : Pubkey) : Option Pubkey :=
  D.addressOf (.worker queueName.asBytes workerPubkey)

/-- The accounts that the commands of a worker derive. -/
def deriveWorkerJob (keypair : Pubkey) (queueName : String) (seq : Option ℤ) :
    Option (WorkerJob Pubkey) := do
  let queuePDA ← deriveQueuePDA D queueName
  let jobPDA ← deriveJobPDA D queueName seq
  let workerPDA ← deriveWorkerPDA D queueName keypair
  return ⟨keypair, queuePDA, workerPDA, jobPDA⟩

/-- The instruction that a command builds and signs with `keypair`, or none if it throws before. The
command `enqueue` fetches the queue first. -/
def Command.instruction (keypair : Pubkey) (fetch : Pubkey → Option (QueueConfig Pubkey)) :
    Command Pubkey → Option (Instruction Pubkey)
  | .init queueName maxRetries timeout => do
    let queuePDA ← deriveQueuePDA D queueName
    let maxRetries ← N.byte maxRetries
    let jobTimeoutSecs ← N.ofNumber timeout
    return .initializeQueue ⟨keypair, queuePDA⟩
      ⟨queueName, maxRetries, Int64.ofInt jobTimeoutSecs⟩
  | .workerRegister queueName workerPubkey => do
    let workerKey := workerPubkey.getD keypair
    let queuePDA ← deriveQueuePDA D queueName
    let workerPDA ← deriveWorkerPDA D queueName workerKey
    return .registerWorker ⟨keypair, queuePDA, workerKey, workerPDA⟩ queueName
  | .enqueue queueName jobType payload priority => do
    let queuePDA ← deriveQueuePDA D queueName
    let queueAccount ← fetch queuePDA
    let seq ← N.toNumber queueAccount.nextJobSeq
    let jobPDA ← deriveJobPDA D queueName seq
    let number ← N.ofNumber seq
    let priority ← N.byte priority
    return .enqueueJob ⟨keypair, queuePDA, jobPDA⟩ queueName (UInt64.ofNat number.toNat)
      ⟨queueName, jobType, payload.asBytes, priority, none⟩
  | .claim queueName seq => do
    let ctx ← deriveWorkerJob D keypair queueName seq
    let number ← N.ofNumber seq
    return .claimJob ctx queueName (UInt64.ofNat number.toNat)
  | .complete queueName seq result => do
    let ctx ← deriveWorkerJob D keypair queueName seq
    let number ← N.ofNumber seq
    return .completeJob ctx queueName (UInt64.ofNat number.toNat) ⟨result.asBytes⟩
  | .fail queueName seq reason => do
    let ctx ← deriveWorkerJob D keypair queueName seq
    let number ← N.ofNumber seq
    return .failJob ctx queueName (UInt64.ofNat number.toNat) ⟨reason⟩

end Instructions

/-! ## What a command asks for -/

/-- A text that fits a seed. -/
def Spec.QueueName.ofString (n : String) : Option Spec.QueueName :=
  if h : n.asBytes.length ≤ 32 then some ⟨n, h⟩ else none

/-- The slot of a number below `bound`. -/
def Spec.slotBelow (bound : ℤ) (seq : Option ℤ) : Option UInt64 := do
  let seq ← seq
  guard (0 ≤ seq ∧ seq < bound)
  return UInt64.ofNat seq.toNat

/-- What a command asks of the store `S` when `signer` gives it, or none if it asks for nothing. -/
def Command.request (N : Numbers) (S : Spec.Store Pubkey) (now : ℤ) (signer : Pubkey) :
    Command Pubkey → Option (Spec.Request Pubkey)
  | .init queueName maxRetries timeout => do
    let name ← Spec.QueueName.ofString queueName
    let maxRetries ← N.byte maxRetries
    -- a timeout that is no number is 0
    let timeout := timeout.getD 0
    guard (timeout.natAbs < 2 ^ 53)
    return ⟨now, name, signer, .create maxRetries.toNat timeout⟩
  | .workerRegister queueName workerPubkey => do
    let name ← Spec.QueueName.ofString queueName
    return ⟨now, name, signer, .register (workerPubkey.getD signer)⟩
  | .enqueue queueName jobType payload priority => do
    let name ← Spec.QueueName.ofString queueName
    let queue ← S.queues name
    let slot ← Spec.slotBelow (2 ^ 53) (some queue.enqueued)
    let priority ← N.byte priority
    return ⟨now, name, signer, .enqueue slot ⟨queueName, jobType, payload.asBytes, priority, none⟩⟩
  | .claim queueName seq => do
    let name ← Spec.QueueName.ofString queueName
    let slot ← Spec.slotBelow (2 ^ 53) seq
    return ⟨now, name, signer, .claim slot⟩
  | .complete queueName seq result => do
    let name ← Spec.QueueName.ofString queueName
    let slot ← Spec.slotBelow (2 ^ 53) seq
    return ⟨now, name, signer, .complete slot result.asBytes⟩
  | .fail queueName seq reason => do
    let name ← Spec.QueueName.ofString queueName
    let slot ← Spec.slotBelow (2 ^ 53) seq
    return ⟨now, name, signer, .fail slot reason⟩

section Requests

variable [DecidableEq Pubkey] {D : Derivation Pubkey} {N : Numbers} {S : Spec.Store Pubkey}
  {σ : Ledger Pubkey} {keypair : Pubkey} {queueName : String} {seq : Option ℤ}

omit [DecidableEq Pubkey] in
/-- The address of a queue is derived exactly if its name fits. -/
theorem deriveQueuePDA_rel : Option.Rel
    (fun n k => n.1 = queueName ∧ D.addressOf (queueSeeds n) = some k)
    (Spec.QueueName.ofString queueName) (deriveQueuePDA D queueName) := by
  unfold Spec.QueueName.ofString deriveQueuePDA
  split_ifs with h
  · obtain ⟨k, hk⟩ := D.exists_addressOf (s := .queue queueName.asBytes) h
    rw [hk]
    exact .some ⟨rfl, hk⟩
  · cases hk : D.addressOf (.queue queueName.asBytes) with
    | none => exact .none
    | some k => exact absurd (Derivation.length_le_of_addressOf hk) h

/-- A number below the bound has a slot. -/
theorem Spec.slotBelow_eq_some {bound : ℤ} {s : UInt64} : Spec.slotBelow bound seq = some s ↔
    ∃ v, seq = some v ∧ (0 ≤ v ∧ v < bound) ∧ UInt64.ofNat v.toNat = s := by
  simp [Spec.slotBelow, Option.bind_eq_some_iff]

omit [DecidableEq Pubkey] in
/-- The number of a job has eight bytes. -/
theorem deriveJobPDA_eq : deriveJobPDA D queueName seq =
    (Spec.slotBelow (2 ^ 64) seq).bind fun s => D.addressOf (.job queueName.asBytes s) := by
  cases seq with
  | none => rfl
  | some v =>
    simp only [deriveJobPDA, Spec.slotBelow, Option.bind_eq_bind, Option.bind_some, Option.pure_def,
      Option.bind_assoc]

omit [DecidableEq Pubkey] in
/-- A command on a job derives its address and encodes its number exactly if the number is one of
53 bits. -/
theorem jobNumber_rel {β β' : Type} {R : β → β' → Prop} (n : Spec.QueueName)
    {f : UInt64 → Option β} {f' : Pubkey → ℤ → Option β'}
    (hf : ∀ v a, D.addressOf (jobSeeds (n, UInt64.ofNat v.toNat)) = some a →
      Option.Rel R (f (UInt64.ofNat v.toNat)) (f' a v)) :
    Option.Rel R (Spec.slotBelow (2 ^ 53) seq >>= f)
      (deriveJobPDA D n.1 seq >>= fun a => N.ofNumber seq >>= fun number => f' a number) := by
  rw [deriveJobPDA_eq]
  cases hslot : Spec.slotBelow (2 ^ 53) seq with
  | some s =>
    obtain ⟨v, rfl, hv, rfl⟩ := Spec.slotBelow_eq_some.mp hslot
    obtain ⟨a, ha⟩ := D.exists_addressOf (s := .job n.1.asBytes (UInt64.ofNat v.toNat)) n.2
    -- 53 bits fit eight bytes, and are a big number
    have hbytes : Spec.slotBelow (2 ^ 64) (some v) = some (UInt64.ofNat v.toNat) :=
      Spec.slotBelow_eq_some.mpr ⟨v, rfl, by omega, rfl⟩
    have hnumber : N.ofNumber (some v) = some v :=
      N.ofNumber_eq_some_iff.mpr ⟨rfl, by omega⟩
    rw [hbytes, Option.bind_some, ha, hnumber]
    exact hf v a ha
  | none =>
    -- a larger number may have an address, but is refused as a big number
    have hthrows : ∀ a number, ((Spec.slotBelow (2 ^ 64) seq).bind fun s =>
        D.addressOf (.job n.1.asBytes s)) = some a → N.ofNumber seq ≠ some number := by
      intro a number ha hnumber
      obtain ⟨s, hs, -⟩ := Option.bind_eq_some_iff.mp ha
      obtain ⟨v, rfl, hv, rfl⟩ := Spec.slotBelow_eq_some.mp hs
      obtain ⟨hnumber, hlt⟩ := N.ofNumber_eq_some_iff.mp hnumber
      obtain rfl : number = v := hnumber
      cases hslot.symm.trans (Spec.slotBelow_eq_some.mpr ⟨number, rfl, ⟨hv.1, by omega⟩, rfl⟩)
    generalize ((Spec.slotBelow (2 ^ 64) seq).bind _) = job at hthrows ⊢
    generalize N.ofNumber seq = number at hthrows ⊢
    -- either of the two throws
    cases job with
    | none => exact .none
    | some a =>
      cases number with
      | none => exact .none
      | some number => exact absurd rfl (hthrows a number rfl)

omit [DecidableEq Pubkey] in
/-- A worker's command derives its accounts and encodes its number exactly if the name fits and the
number is one of 53 bits. -/
theorem workerJob_rel {β β' : Type} {R : β → β' → Prop} {f : Spec.QueueName → UInt64 → Option β}
    {f' : WorkerJob Pubkey → ℤ → Option β'}
    (hf : ∀ n v ctx, n.1 = queueName → ctx.worker = keypair →
      D.addressOf (queueSeeds n) = some ctx.queueConfig →
      D.addressOf (workerSeeds (n, keypair)) = some ctx.workerRegistry →
      D.addressOf (jobSeeds (n, UInt64.ofNat v.toNat)) = some ctx.job →
      Option.Rel R (f n (UInt64.ofNat v.toNat)) (f' ctx v)) :
    Option.Rel R
      (do
        let name ← Spec.QueueName.ofString queueName
        let slot ← Spec.slotBelow (2 ^ 53) seq
        f name slot)
      (do
        let ctx ← deriveWorkerJob D keypair queueName seq
        let number ← N.ofNumber seq
        f' ctx number) := by
  simp only [deriveWorkerJob, bind_assoc, pure_bind]
  refine (deriveQueuePDA_rel (D := D)).bind fun n k hk => ?_
  obtain ⟨rfl, hk⟩ := hk
  obtain ⟨x, hx⟩ := D.exists_addressOf (s := .worker n.1.asBytes keypair) n.2
  have hworker : deriveWorkerPDA D n.1 keypair = some x := hx
  simp only [hworker, Option.bind_eq_bind, Option.bind_some]
  exact jobNumber_rel n fun v a ha => hf n v ⟨keypair, k, x, a⟩ rfl rfl hk hx ha

/-- An instruction on derived accounts makes a request. -/
theorem request_of_canonical {now : Int64} {i : Instruction Pubkey} {n : Spec.QueueName}
    (hi : i.Canonical D) (hname : n.1 = i.queueName) :
    Call.request D ⟨now, i⟩ = some ⟨now.toInt, n, i.signer, i.action⟩ := by
  obtain ⟨_, _⟩ := n
  obtain rfl := hname
  exact dif_pos hi

omit [DecidableEq Pubkey] in
/-- A time is encoded exactly if it has 53 bits. -/
theorem bigNumber_rel {x : Option ℤ} : Option.Rel
    (fun _ v => v = x.getD 0 ∧ v.natAbs < 2 ^ 53)
    (guard ((x.getD 0).natAbs < 2 ^ 53) : Option Unit) (N.ofNumber x) := by
  by_cases hlt : (x.getD 0).natAbs < 2 ^ 53
  · rw [guard, if_pos hlt, N.ofNumber_eq_some_iff.mpr ⟨rfl, hlt⟩]
    exact .some ⟨rfl, hlt⟩
  · have hthrows : N.ofNumber x = none := by
      refine Option.eq_none_iff_forall_ne_some.mpr fun v hv => ?_
      obtain ⟨rfl, hsmall⟩ := N.ofNumber_eq_some_iff.mp hv
      exact hlt hsmall
    rw [guard, if_neg hlt, hthrows]
    exact .none

/-- A command builds an instruction exactly if it asks for something, and then it asks for that. -/
theorem Command.instruction_rel (h : Represents D S σ) (now : Int64) (command : Command Pubkey) :
    Option.Rel (fun r i => Call.request D ⟨now, i⟩ = some r)
      (command.request N S now.toInt keypair)
      (command.instruction D N keypair fun k => σ.queueConfigs.lookup k) := by
  cases command with
  | init queueName maxRetries timeout =>
    refine deriveQueuePDA_rel.bind fun n k ⟨hn, hk⟩ => ?_
    refine .bind_same fun byte => ?_
    -- 53 bits fit an `i64`, so the timeout arrives as it was given
    refine (bigNumber_rel (N := N)).bind fun _ t ht => ?_
    obtain ⟨rfl, hlt⟩ := ht
    subst hn
    have htimeout : (Int64.ofInt (timeout.getD 0)).toInt = timeout.getD 0 :=
      Int64.toInt_ofInt_of_le (by omega) (by omega)
    have hrequest : Call.request D
        ⟨now, .initializeQueue ⟨keypair, k⟩ ⟨n.1, byte, Int64.ofInt (timeout.getD 0)⟩⟩ =
          some ⟨now.toInt, n, keypair, .create byte.toNat (Int64.ofInt (timeout.getD 0)).toInt⟩ :=
      request_of_canonical (D := D) hk rfl
    rw [htimeout] at hrequest
    exact .some hrequest
  | workerRegister queueName workerPubkey =>
    refine deriveQueuePDA_rel.bind fun n k ⟨hn, hk⟩ => ?_
    obtain ⟨x, hx⟩ :=
      D.exists_addressOf (s := .worker n.1.asBytes (workerPubkey.getD keypair)) n.2
    subst hn
    -- the worker is the one named, or else who signs
    have hworker : deriveWorkerPDA D n.1 (workerPubkey.getD keypair) = some x := hx
    rw [hworker]
    exact .some (request_of_canonical ⟨hk, hx⟩ rfl)
  | enqueue queueName jobType payload priority =>
    refine deriveQueuePDA_rel.bind fun n k ⟨hn, hk⟩ => ?_
    subst hn
    refine Option.Rel.bind (h.queues n k hk) fun queue q hq => ?_
    -- the slot is the counter at the moment of the fetch
    by_cases hlt : queue.enqueued < 2 ^ 53
    · have hseq : N.toNumber q.nextJobSeq = some (queue.enqueued : ℤ) := by
        rw [N.toNumber_of_lt (hq.next ▸ hlt), hq.next]
      refine .seq_right hseq ?_
      refine jobNumber_rel n fun v a ha => .bind_same fun priority => ?_
      exact .some (request_of_canonical ⟨hk, ha⟩ rfl)
    · have hslot : Spec.slotBelow (2 ^ 53) (some (queue.enqueued : ℤ)) = none := by
        refine Option.eq_none_iff_forall_ne_some.mpr fun s hs => ?_
        obtain ⟨v, hv, ⟨-, hsmall⟩, -⟩ := Spec.slotBelow_eq_some.mp hs
        obtain rfl := Option.some.inj hv
        omega
      rw [hslot, N.toNumber_of_le (by rw [hq.next]; omega)]
      exact .none
  | claim queueName seq =>
    refine workerJob_rel fun n v ctx hn hw hk hx ha => ?_
    subst hn hw
    exact .some (request_of_canonical ⟨hk, hx, ha⟩ rfl)
  | complete queueName seq result =>
    refine workerJob_rel fun n v ctx hn hw hk hx ha => ?_
    subst hn hw
    exact .some (request_of_canonical ⟨hk, hx, ha⟩ rfl)
  | fail queueName seq reason =>
    refine workerJob_rel fun n v ctx hn hw hk hx ha => ?_
    subst hn hw
    exact .some (request_of_canonical ⟨hk, hx, ha⟩ rfl)

end Requests

/-! ## The way to the program -/

/-- An instruction as it reaches the program: its accounts, and the bytes of its arguments. -/
structure Transaction (Pubkey : Type) where
  accounts : List (AccountMeta Pubkey)
  data : List UInt8

section Transactions

variable [DecidableEq Pubkey]

/-- The account with the privileges it has anywhere among the accounts: a transaction lists every
key once. -/
def AccountMeta.merged (accounts : List (AccountMeta Pubkey)) (account : AccountMeta Pubkey) :
    AccountMeta Pubkey where
  key := account.key
  isSigner := accounts.any fun a => a.key = account.key && a.isSigner
  isWritable := accounts.any fun a => a.key = account.key && a.isWritable

/-- The transaction that carries an instruction. -/
def Instruction.transaction (system : Pubkey) (i : Instruction Pubkey) : Transaction Pubkey where
  accounts := (i.accounts system).map (AccountMeta.merged (i.accounts system))
  data := instructionData.write i.method

/-- The bytes that a length takes in front of a list: one for every seven bits. -/
def compactLength (n : ℕ) : ℕ :=
  if n < 2 ^ 7 then 1 else if n < 2 ^ 14 then 2 else 3

/-- The bytes of the whole transaction, with its one instruction for the program `programId` and its
fee paid by `payer`: the signatures, a header of three bytes, every key once, a recent blockhash and
the instruction, which refers to the program and to its accounts by one byte each. -/
def Transaction.size (programId payer : Pubkey) (t : Transaction Pubkey) : ℕ :=
  let signers := (payer :: (t.accounts.filter (·.isSigner)).map (·.key)).dedup
  let keys := (payer :: programId :: t.accounts.map (·.key)).dedup
  compactLength signers.length + 64 * signers.length + 3 +
    compactLength keys.length + 32 * keys.length + 32 +
    compactLength 1 + 1 + compactLength t.accounts.length + t.accounts.length +
    compactLength t.data.length + t.data.length

/-- The program receives a transaction: it finds the instruction and executes it. -/
def receive [Inhabited Pubkey] (D : Derivation Pubkey) (σ : Ledger Pubkey) (system : Pubkey)
    (now : Int64) (t : Transaction Pubkey) :
    Option (Except Error (Ledger Pubkey × Outcome Pubkey)) :=
  (dispatch system t.accounts t.data).map fun i => execute D σ ⟨now, i⟩

/-- Privileges are not lost when they are merged. -/
theorem AccountMeta.meets_merged {accounts : List (AccountMeta Pubkey)}
    {account : AccountMeta Pubkey} (h : account ∈ accounts) :
    account.Meets (account.merged accounts) where
  key := rfl
  signer hsigner := List.any_eq_true.mpr ⟨account, h, by simp [hsigner]⟩
  writable hwritable := List.any_eq_true.mpr ⟨account, h, by simp [hwritable]⟩

end Transactions

open Borsh.Format in
/-- Arguments that are short fit. -/
theorem Method.short_format : (m : Method) → m.format.Short
  | .initializeQueue => (short_string.prod (short_u8.prod short_i64)).map _
  | .setQueuePaused => short_string.prod short_bool
  | .registerWorker | .deactivateWorker => short_string
  | .enqueueJob =>
    short_string.prod (short_u64.prod ((short_string.prod (short_string.prod (short_bytes.prod
      (short_u8.prod short_u8.option)))).map _))
  | .claimJob | .expireJob | .closeJob => short_string.prod short_u64
  | .completeJob => short_string.prod (short_u64.prod (short_bytes.map _))
  | .failJob => short_string.prod (short_u64.prod (short_string.map _))

section Answers

variable [DecidableEq Pubkey] [Inhabited Pubkey] {D : Derivation Pubkey} {N : Numbers}
  {σ : Ledger Pubkey} {system keypair : Pubkey} {now : Int64} {i : Instruction Pubkey}

/-- A transaction that fits a packet arrives as the instruction it carries. -/
theorem receive_transaction {programId payer : Pubkey}
    (hpacket : (i.transaction system).size programId payer ≤ 1232) :
    receive D σ system now (i.transaction system) = some (execute D σ ⟨now, i⟩) := by
  -- the data are a part of the transaction
  have hdata : (i.transaction system).data.length ≤ 1232 := (Nat.le_add_left _ _).trans hpacket
  have hfits : instructionData.Fits i.method :=
    Borsh.Format.Short.tagged Method.short_format _ (hdata.trans_lt (by decide))
  -- privileges are merged but none is lost
  have hmeets : List.Forall₂ AccountMeta.Meets (i.accounts system)
      (i.transaction system).accounts := by
    refine List.forall₂_map_right_iff.mpr (List.forall₂_same.mpr fun account haccount => ?_)
    exact AccountMeta.meets_merged haccount
  -- nothing is left over, neither bytes nor accounts
  have hdispatch : dispatch system (i.transaction system).accounts (i.transaction system).data =
      some i := by
    refine dispatch_eq_some_iff.mpr ⟨⟨[], hfits, ?_⟩, _, [], ?_, hmeets⟩
    · exact (List.append_nil _).symm
    · exact (List.append_nil _).symm
  rw [receive, hdispatch, Option.map_some]

/-- A command reads the ledger, if at all, after any run. It builds an instruction exactly if it
asks the store for something there. The instruction is sent if its transaction fits a packet, and
then, whatever calls are made before it arrives, the program finds the instruction in it and answers
as the store then answers the request. -/
theorem cli_answered (calls later : List (Call Pubkey)) (system programId keypair : Pubkey)
    (now : Int64) (command : Command Pubkey) :
    Option.Rel
      (fun r i => (i.transaction system).size programId keypair ≤ 1232 →
        ∃ answer, receive D ((program D).run (calls ++ later)) system now
          (i.transaction system) = some answer ∧
        Agree Eq (Answers D) answer
          ((Spec.machine.run ((calls ++ later).filterMap (Call.request D))).serve r))
      (command.request N (Spec.machine.run (calls.filterMap (Call.request D))) now.toInt keypair)
      (command.instruction D N keypair fun k => ((program D).run calls).queueConfigs.lookup k) := by
  -- the ledger read and the ledger found on arrival each hold a store
  obtain ⟨-, hread⟩ := (program_refines (D := D)).run calls
  obtain ⟨haddr, harrived⟩ := (program_refines (D := D)).run (calls ++ later)
  refine (command.instruction_rel hread now).imp fun r i _ hi hr hpacket => ?_
  exact ⟨_, receive_transaction hpacket, execute_agrees harrived haddr hr⟩

end Answers

/-- The `enqueue` command of a producer. -/
def Sample.enqueueCommand : Command Key :=
  .enqueue name "email" "hi" (some 7)

/-- Another producer enqueues a job between the moment the command reads the counter and the moment
its transaction arrives. The store answers the two alike. -/
theorem cli_answered_late :
    ∃ i answer r, Sample.enqueueCommand.instruction Derivation.free .limited Sample.producer
        (fun k => ((program Derivation.free).run [Sample.create 3 60]).queueConfigs.lookup k) =
          some i ∧
      receive Derivation.free ((program Derivation.free).run
        ([Sample.create 3 60] ++ [Sample.enqueue (.wallet 9) 0 none])) (.wallet 0) 1
          (i.transaction (.wallet 0)) = some answer ∧
      Agree Eq (Answers Derivation.free) answer ((Spec.machine.run
        (([Sample.create 3 60] ++ [Sample.enqueue (.wallet 9) 0 none]).filterMap
          (Call.request Derivation.free))).serve r) := by
  have hsent : (Sample.enqueueCommand.instruction Derivation.free .limited Sample.producer
      fun k => ((program Derivation.free).run [Sample.create 3 60]).queueConfigs.lookup k).any
        (fun i => (i.transaction (.wallet 0)).size (.wallet 6) Sample.producer ≤ 1232) := by
    decide +kernel
  obtain ⟨i, hi, hpacket⟩ := (Option.any_eq_true _ _).mp hsent
  have hanswered := cli_answered (D := Derivation.free) (N := .limited) [Sample.create 3 60]
    [Sample.enqueue (.wallet 9) 0 none] (.wallet 0) (.wallet 6) Sample.producer 1
    Sample.enqueueCommand
  rw [hi] at hanswered
  generalize Sample.enqueueCommand.request _ _ _ _ = request at hanswered
  cases hanswered with
  | some hanswer =>
    obtain ⟨answer, hreceived, hagree⟩ := hanswer (of_decide_eq_true hpacket)
    exact ⟨i, answer, _, hi, hreceived, hagree⟩

end SolQueue
