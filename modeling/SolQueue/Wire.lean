import SolQueue.Lib.Formats
import SolQueue.Scheduling

/-!
# Instructions on the wire

A transaction carries an instruction as its accounts, in the order of the accounts structure, and
the bytes of its arguments after a discriminator.

* `Method`, `Method.Args`, `Method.format`: the instructions by name, and their arguments.
* `dispatch`: from the accounts and the bytes of a transaction to the instruction.
* `dispatch_exact`: exactly the encodings of instructions are accepted, each as its instruction, and
  the accounts are checked against the arguments that the handler gets.

Anchor adds instructions of its own to the program, which keep its IDL and have data that start with
`idlTag`. They are left out here: `dispatch` finds the instructions of the program only.
-/

namespace SolQueue

open Borsh (Format Reader)

/-! ## Methods and their arguments -/

/-- The instructions by name. -/
inductive Method where
  | initializeQueue
  | setQueuePaused
  | registerWorker
  | deactivateWorker
  | enqueueJob
  | claimJob
  | completeJob
  | failJob
  | expireJob
  | closeJob
  deriving DecidableEq

namespace Method

/-- The methods in the order of the program. -/
def all : List Method :=
  [initializeQueue, setQueuePaused, registerWorker, deactivateWorker, enqueueJob, claimJob,
    completeJob, failJob, expireJob, closeJob]

/-- The first bytes of the instruction data. -/
def discriminator : Method → Vector UInt8 8
  | initializeQueue => #v[174, 102, 132, 232, 90, 202, 27, 20]
  | setQueuePaused => #v[75, 37, 8, 150, 81, 113, 10, 209]
  | registerWorker => #v[22, 253, 23, 225, 230, 31, 6, 192]
  | deactivateWorker => #v[103, 180, 172, 161, 101, 108, 191, 56]
  | enqueueJob => #v[15, 126, 169, 237, 239, 18, 69, 7]
  | claimJob => #v[9, 160, 5, 231, 116, 123, 198, 14]
  | completeJob => #v[221, 216, 225, 72, 101, 250, 3, 11]
  | failJob => #v[211, 222, 65, 39, 115, 107, 125, 43]
  | expireJob => #v[127, 5, 119, 250, 214, 255, 102, 168]
  | closeJob => #v[90, 100, 180, 200, 200, 163, 120, 182]

theorem mem_all (m : Method) : m ∈ all := by
  cases m <;> simp [all]

/-- The discriminators tell the methods apart. -/
theorem nodup_discriminators : (all.map discriminator).Nodup := by decide

/-- The arguments of a method, in the order of the handler. -/
abbrev Args : Method → Type
  | initializeQueue => InitializeQueueParams
  | setQueuePaused => String × Bool
  | registerWorker | deactivateWorker => String
  | enqueueJob => String × UInt64 × EnqueueJobParams
  | claimJob | expireJob | closeJob => String × UInt64
  | completeJob => String × UInt64 × CompleteJobParams
  | failJob => String × UInt64 × FailJobParams

end Method

/-- The fields of the parameters in the order of their declaration. -/
def InitializeQueueParams.equiv : String × UInt8 × Int64 ≃ InitializeQueueParams where
  toFun x := ⟨x.1, x.2.1, x.2.2⟩
  invFun p := (p.queueName, p.maxRetries, p.jobTimeoutSecs)

/-- The fields of the parameters in the order of their declaration. -/
def EnqueueJobParams.equiv :
    String × String × List UInt8 × UInt8 × Option UInt8 ≃ EnqueueJobParams where
  toFun x := ⟨x.1, x.2.1, x.2.2.1, x.2.2.2.1, x.2.2.2.2⟩
  invFun p := (p.queueName, p.jobType, p.payload, p.priority, p.maxRetriesOverride)

/-- The one field of the parameters. -/
def CompleteJobParams.equiv : List UInt8 ≃ CompleteJobParams where
  toFun result := ⟨result⟩
  invFun p := p.result

/-- The one field of the parameters. -/
def FailJobParams.equiv : String ≃ FailJobParams where
  toFun reason := ⟨reason⟩
  invFun p := p.reason

/-- How the arguments of a method are written. -/
def Method.format : (m : Method) → Format m.Args
  | .initializeQueue =>
    (Format.string.prod (Format.u8.prod Format.i64)).map InitializeQueueParams.equiv
  | .setQueuePaused => Format.string.prod Format.bool
  | .registerWorker | .deactivateWorker => Format.string
  | .enqueueJob =>
    Format.string.prod (Format.u64.prod
      ((Format.string.prod (Format.string.prod (Format.bytes.prod (Format.u8.prod
        Format.u8.option)))).map EnqueueJobParams.equiv))
  | .claimJob | .expireJob | .closeJob => Format.string.prod Format.u64
  | .completeJob =>
    Format.string.prod (Format.u64.prod (Format.bytes.map CompleteJobParams.equiv))
  | .failJob => Format.string.prod (Format.u64.prod (Format.string.map FailJobParams.equiv))

/-- The data of an instruction: the arguments of a method after its discriminator. -/
def instructionData : Format (Σ m : Method, m.Args) :=
  Format.tagged Method.all Method.discriminator Method.mem_all Method.nodup_discriminators
    Method.format

/-- The first bytes of the data of the instructions that Anchor adds to the program. -/
def idlTag : Vector UInt8 8 := #v[64, 244, 188, 120, 167, 233, 105, 10]

/-- They are not those of a method. -/
theorem Method.discriminator_ne_idlTag (m : Method) : m.discriminator ≠ idlTag := by
  cases m <;> decide

/-! ## Transactions -/

section Transactions

variable {Pubkey : Type}

/-- The method of an instruction, with its arguments. -/
def Instruction.method : Instruction Pubkey → Σ m : Method, m.Args
  | .initializeQueue _ params => ⟨.initializeQueue, params⟩
  | .setQueuePaused _ n pause => ⟨.setQueuePaused, n, pause⟩
  | .registerWorker _ n => ⟨.registerWorker, n⟩
  | .deactivateWorker _ n => ⟨.deactivateWorker, n⟩
  | .enqueueJob _ n s params => ⟨.enqueueJob, n, s, params⟩
  | .claimJob _ n s => ⟨.claimJob, n, s⟩
  | .completeJob _ n s params => ⟨.completeJob, n, s, params⟩
  | .failJob _ n s params => ⟨.failJob, n, s, params⟩
  | .expireJob _ n s => ⟨.expireJob, n, s⟩
  | .closeJob _ n s => ⟨.closeJob, n, s⟩

/-- The `seq` argument of an instruction on a job. -/
def Instruction.seq : Instruction Pubkey → Option UInt64
  | .initializeQueue .. | .setQueuePaused .. | .registerWorker .. | .deactivateWorker .. => none
  | .enqueueJob _ _ s _ | .claimJob _ _ s | .completeJob _ _ s _ | .failJob _ _ s _
  | .expireJob _ _ s | .closeJob _ _ s => some s

/-- All accounts of an instruction. The system program is the last one where an account is
created. -/
def Instruction.accounts (system : Pubkey) (instruction : Instruction Pubkey) :
    List (AccountMeta Pubkey) :=
  instruction.accountMetas ++
    match instruction with
    | .initializeQueue .. | .registerWorker .. | .enqueueJob .. => [.readonly system]
    | .setQueuePaused .. | .deactivateWorker .. | .claimJob .. | .completeJob .. | .failJob ..
    | .expireJob .. | .closeJob .. => []

/-- An account of a transaction is the declared one, and signs and is writable if that one does. -/
structure AccountMeta.Meets (declared given : AccountMeta Pubkey) : Prop where
  key : given.key = declared.key
  signer : declared.isSigner = true → given.isSigner = true
  writable : declared.isWritable = true → given.isWritable = true

/-- Whether an account is listed as the instruction declares it is decidable. -/
instance [DecidableEq Pubkey] (declared given : AccountMeta Pubkey) :
    Decidable (declared.Meets given) :=
  decidable_of_iff (given.key = declared.key ∧ (declared.isSigner = true → given.isSigner = true) ∧
      (declared.isWritable = true → given.isWritable = true))
    ⟨fun h => ⟨h.1, h.2.1, h.2.2⟩, fun h => ⟨h.key, h.signer, h.writable⟩⟩

/-- The accounts of a transaction start with the declared ones. -/
def AccountMeta.covers [DecidableEq Pubkey] :
    List (AccountMeta Pubkey) → List (AccountMeta Pubkey) → Bool
  | [], _ => true
  | _ :: _, [] => false
  | declared :: rest, given :: rest' => declared.Meets given && covers rest rest'

/-- The instruction of a method with the given arguments and keys. Keys after the declared ones are
allowed. -/
def Method.assemble : (m : Method) → m.Args → List Pubkey → Option (Instruction Pubkey)
  | .initializeQueue, params, keys =>
    match keys with
    | authority :: queueConfig :: _ => some (.initializeQueue ⟨authority, queueConfig⟩ params)
    | _ => none
  | .setQueuePaused, (n, pause), keys =>
    match keys with
    | authority :: queueConfig :: _ => some (.setQueuePaused ⟨authority, queueConfig⟩ n pause)
    | _ => none
  | .registerWorker, n, keys =>
    match keys with
    | authority :: queueConfig :: worker :: workerRegistry :: _ =>
      some (.registerWorker ⟨authority, queueConfig, worker, workerRegistry⟩ n)
    | _ => none
  | .deactivateWorker, n, keys =>
    match keys with
    | authority :: queueConfig :: worker :: workerRegistry :: _ =>
      some (.deactivateWorker ⟨authority, queueConfig, worker, workerRegistry⟩ n)
    | _ => none
  | .enqueueJob, (n, s, params), keys =>
    match keys with
    | creator :: queueConfig :: job :: _ =>
      some (.enqueueJob ⟨creator, queueConfig, job⟩ n s params)
    | _ => none
  | .claimJob, (n, s), keys =>
    match keys with
    | worker :: queueConfig :: workerRegistry :: job :: _ =>
      some (.claimJob ⟨worker, queueConfig, workerRegistry, job⟩ n s)
    | _ => none
  | .completeJob, (n, s, params), keys =>
    match keys with
    | worker :: queueConfig :: workerRegistry :: job :: _ =>
      some (.completeJob ⟨worker, queueConfig, workerRegistry, job⟩ n s params)
    | _ => none
  | .failJob, (n, s, params), keys =>
    match keys with
    | worker :: queueConfig :: workerRegistry :: job :: _ =>
      some (.failJob ⟨worker, queueConfig, workerRegistry, job⟩ n s params)
    | _ => none
  | .expireJob, (n, s), keys =>
    match keys with
    | caller :: queueConfig :: job :: _ => some (.expireJob ⟨caller, queueConfig, job⟩ n s)
    | _ => none
  | .closeJob, (n, s), keys =>
    match keys with
    | creator :: queueConfig :: job :: _ => some (.closeJob ⟨creator, queueConfig, job⟩ n s)
    | _ => none

/-- The instruction of a transaction, if it is one of the program's own and the program accepts its
data and its accounts are as declared. Bytes and accounts that are left over are allowed. -/
def dispatch [DecidableEq Pubkey] (system : Pubkey) (accounts : List (AccountMeta Pubkey))
    (data : List UInt8) : Option (Instruction Pubkey) := do
  let (⟨m, args⟩, _) ← instructionData.read.run data
  let instruction ← m.assemble args (accounts.map (·.key))
  guard (AccountMeta.covers (instruction.accounts system) accounts)
  return instruction

/-- What the accounts structure of a method reads of the arguments, before its handler does: the
names in `#[instruction(queue_name, seq)]`. -/
def Method.attribute : Method → Reader (String × Option UInt64)
  | .initializeQueue | .setQueuePaused | .registerWorker | .deactivateWorker => do
    return (← Format.string.read, none)
  | .enqueueJob | .claimJob | .completeJob | .failJob | .expireJob | .closeJob => do
    return (← Format.string.read, some (← Format.u64.read))

variable {m : Method} {args : m.Args} {keys : List Pubkey} {instruction : Instruction Pubkey}

/-- An instruction is assembled from its own method and keys. -/
theorem Method.assemble_eq_some_iff :
    m.assemble args keys = some instruction ↔
      instruction.method = ⟨m, args⟩ ∧
        ∃ extra, keys = instruction.accountMetas.map (·.key) ++ extra := by
  constructor
  · intro h
    -- every method takes as many keys as it declares, and leaves the rest
    cases m <;> simp only [assemble] at h <;> split at h <;> cases h <;> exact ⟨rfl, _, rfl⟩
  · rintro ⟨hmethod, extra, rfl⟩
    cases instruction <;> cases hmethod <;> rfl

/-- Accounts start with the declared ones if the first of them meet these. -/
theorem AccountMeta.covers_iff [DecidableEq Pubkey]
    {declared accounts : List (AccountMeta Pubkey)} :
    covers declared accounts = true ↔
      ∃ given extra, accounts = given ++ extra ∧ List.Forall₂ Meets declared given := by
  induction declared generalizing accounts with
  | nil => simp [covers]
  | cons d declared ih =>
    cases accounts with
    | nil => simp [covers]
    | cons g accounts =>
      rw [covers, Bool.and_eq_true, decide_eq_true_eq, ih]
      constructor
      · rintro ⟨hmeets, given, extra, rfl, hrest⟩
        exact ⟨g :: given, extra, rfl, .cons hmeets hrest⟩
      · rintro ⟨_, extra, haccounts, _ | ⟨hmeets, hrest⟩⟩
        obtain ⟨rfl, rfl⟩ := List.cons.inj haccounts
        exact ⟨hmeets, _, extra, rfl, hrest⟩

/-- The keys of covering accounts start with those of the declared ones. -/
theorem AccountMeta.keys_of_forall₂ {declared given : List (AccountMeta Pubkey)}
    (h : List.Forall₂ Meets declared given) : given.map (·.key) = declared.map (·.key) := by
  induction h with
  | nil => rfl
  | cons hmeets _ ih => rw [List.map_cons, List.map_cons, hmeets.key, ih]

/-- The accounts structure reads the name and the number that the handler gets. -/
theorem Method.run_attribute (instruction : Instruction Pubkey)
    (hfits : instructionData.Fits instruction.method) (rest : List UInt8) :
    ∃ rest', instruction.method.1.attribute.run
      (instruction.method.1.format.write instruction.method.2 ++ rest) =
        some ((instruction.queueName, instruction.seq), rest') := by
  -- instructions on queues and workers start with the name
  have hname {bytes tail : List UInt8} {n : String} (hn : Format.string.Fits n)
      (hbytes : bytes = Format.string.write n ++ tail) :
      ∃ rest', (do return (← Format.string.read, none) : Reader (String × Option UInt64)).run
        bytes = some ((n, none), rest') :=
    ⟨tail, Borsh.run_bind_eq_some.mpr
      ⟨n, tail, Format.string.run_eq_some_iff.mpr ⟨hn, hbytes⟩, rfl⟩⟩
  -- those on jobs with the name and the number
  have hnumber {bytes tail : List UInt8} {n : String} {s : UInt64} (hn : Format.string.Fits n)
      (hbytes : bytes = Format.string.write n ++ (Format.u64.write s ++ tail)) :
      ∃ rest', (do return (← Format.string.read, some (← Format.u64.read)) :
        Reader (String × Option UInt64)).run bytes = some ((n, some s), rest') :=
    ⟨tail, Borsh.run_bind_eq_some.mpr
      ⟨n, _, Format.string.run_eq_some_iff.mpr ⟨hn, hbytes⟩, Borsh.run_bind_eq_some.mpr
        ⟨s, tail, Format.u64.run_eq_some_iff.mpr ⟨trivial, rfl⟩, rfl⟩⟩⟩
  cases instruction with
  | registerWorker ctx n | deactivateWorker ctx n => exact hname hfits rfl
  | initializeQueue ctx params | setQueuePaused ctx n pause =>
    exact hname hfits.1 (List.append_assoc _ _ _)
  | claimJob ctx n s | expireJob ctx n s | closeJob ctx n s =>
    exact hnumber hfits.1 (List.append_assoc _ _ _)
  | enqueueJob ctx n s params | completeJob ctx n s params | failJob ctx n s params =>
    -- the name and the number come before the other parameters
    have hassoc (a b c d : List UInt8) : a ++ (b ++ c) ++ d = a ++ (b ++ (c ++ d)) := by simp
    exact hnumber hfits.1 (hassoc _ _ _ _)

/-- A transaction is accepted as an instruction exactly if its data start with the encoding of the
instruction and its accounts with those of the instruction. -/
theorem dispatch_eq_some_iff [DecidableEq Pubkey] {system : Pubkey}
    {accounts : List (AccountMeta Pubkey)} {data : List UInt8} :
    dispatch system accounts data = some instruction ↔
      (∃ rest, instructionData.Fits instruction.method ∧
        data = instructionData.write instruction.method ++ rest) ∧
      ∃ given extra, accounts = given ++ extra ∧
        List.Forall₂ AccountMeta.Meets (instruction.accounts system) given := by
  rw [← AccountMeta.covers_iff]
  constructor
  · intro h
    -- the data are read, the instruction assembled, and the accounts checked
    obtain ⟨⟨⟨m, args⟩, rest⟩, hread, h⟩ := Option.bind_eq_some_iff.mp h
    obtain ⟨i, hassemble, h⟩ := Option.bind_eq_some_iff.mp h
    obtain ⟨⟨⟩, hcovers, h⟩ := Option.bind_eq_some_iff.mp h
    obtain rfl := Option.some.inj h
    obtain ⟨hfits, rfl⟩ := instructionData.run_eq_some_iff.mp hread
    obtain ⟨hmethod, -⟩ := Method.assemble_eq_some_iff.mp hassemble
    rw [hmethod]
    exact ⟨⟨rest, hfits, rfl⟩, (Option.guard_eq_some' _).mp hcovers⟩
  · rintro ⟨⟨rest, hfits, rfl⟩, hcovers⟩
    obtain ⟨given, extra, rfl, hgiven⟩ := AccountMeta.covers_iff.mp hcovers
    -- the declared keys come first, and the system program, if listed, right after them
    have hkeys : ∃ extra', (given ++ extra).map (·.key) =
        instruction.accountMetas.map (·.key) ++ extra' := by
      rw [List.map_append, AccountMeta.keys_of_forall₂ hgiven]
      unfold Instruction.accounts
      rw [List.map_append, List.append_assoc]
      exact ⟨_, rfl⟩
    refine Option.bind_eq_some_iff.mpr ⟨(instruction.method, rest),
      instructionData.run_eq_some_iff.mpr ⟨hfits, rfl⟩, ?_⟩
    refine Option.bind_eq_some_iff.mpr ⟨instruction,
      Method.assemble_eq_some_iff.mpr ⟨rfl, hkeys⟩, ?_⟩
    exact Option.bind_eq_some_iff.mpr ⟨(), (Option.guard_eq_some' _).mpr hcovers, rfl⟩

/-- The data of an instruction start with the discriminator of its method. -/
theorem instructionData_append (instruction : Instruction Pubkey) (rest : List UInt8) :
    instructionData.write instruction.method ++ rest =
      instruction.method.1.discriminator.toList ++
        (instruction.method.1.format.write instruction.method.2 ++ rest) :=
  List.append_assoc _ _ _

/-- Data that start with the tag carry no instruction of the program's own. -/
theorem dispatch_of_idlTag [DecidableEq Pubkey] {system : Pubkey}
    {accounts : List (AccountMeta Pubkey)} {data : List UInt8} (h : idlTag.toList <+: data) :
    dispatch system accounts data = none := by
  refine Option.eq_none_iff_forall_ne_some.mpr fun i hi => ?_
  obtain ⟨⟨rest, -, rfl⟩, -⟩ := dispatch_eq_some_iff.mp hi
  obtain ⟨rest', hdata⟩ := h
  rw [instructionData_append] at hdata
  obtain ⟨htag, -⟩ := List.append_inj hdata (by rw [Vector.length_toList, Vector.length_toList])
  exact i.method.1.discriminator_ne_idlTag (Vector.toList_inj.mp htag).symm

/-- A transaction is accepted as an instruction exactly if its data start with the encoding of the
instruction and its accounts with those of the instruction. The name and the number by which its
accounts are checked are then those that its handler gets. -/
theorem dispatch_exact [DecidableEq Pubkey] (system : Pubkey) (accounts : List (AccountMeta Pubkey))
    (data : List UInt8) (instruction : Instruction Pubkey) :
    (dispatch system accounts data = some instruction ↔
      (∃ rest, instructionData.Fits instruction.method ∧
        data = instructionData.write instruction.method ++ rest) ∧
      ∃ given extra, accounts = given ++ extra ∧
        List.Forall₂ AccountMeta.Meets (instruction.accounts system) given) ∧
    (dispatch system accounts data = some instruction →
      ∃ rest, instruction.method.1.attribute.run (data.drop 8) =
        some ((instruction.queueName, instruction.seq), rest)) := by
  refine ⟨dispatch_eq_some_iff, fun h => ?_⟩
  obtain ⟨⟨rest, hfits, rfl⟩, -⟩ := dispatch_eq_some_iff.mp h
  obtain ⟨rest', hread⟩ := Method.run_attribute instruction hfits rest
  refine ⟨rest', ?_⟩
  -- the accounts structure reads right after the discriminator
  rw [instructionData_append, List.drop_left' Vector.length_toList, hread]

end Transactions

end SolQueue
