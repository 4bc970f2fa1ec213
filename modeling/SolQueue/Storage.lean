import SolQueue.CommandLine
import SolQueue.EventLog
import SolQueue.Listings

/-!
# The program on bytes

On the chain there are no ledgers: an account is a buffer, a transaction is a list of keys with the
bytes of an instruction, and an event is a line of the log. The runtime reads the accounts that an
instruction lists, each as one of the type it is declared with, runs the handler, and saves those
declared as writable over the front of their buffers.

* `AccountKind`: the account types, with their discriminators, spaces and layouts.
* `Storage`, `Storage.view`, `Storage.exit`: the buffers, what is read of them, and how an account
  is saved.
* `IdlInstructions`: what Anchor adds to the program to keep its IDL, which is a parameter.
* `Delivery`, `process`, `runtime`: the program as a machine on bytes.
* `Storage.Holds`: the buffers hold a ledger.
* `storage_exact`: the machine on bytes does what the program does on ledgers.

Accounts that others make and assign to the program are left out. They are at no derived address.
-/

/-! ## Parts of maps -/

namespace Finmap

variable {α β : Type*} [DecidableEq α]

/-- The entries that `f` finds under the given keys. -/
def collect (f : α → Option β) (keys : List α) : Finmap fun _ : α => β :=
  keys.foldr (fun k m => match f k with | some v => m.insert k v | none => m) ∅

/-- What is found in a part of a map. -/
theorem lookup_collect {f : α → Option β} {keys : List α} {k : α} :
    (collect f keys).lookup k = if k ∈ keys then f k else none := by
  induction keys with
  | nil => rfl
  | cons k' keys ih =>
    rw [collect, List.foldr_cons, ← collect]
    by_cases hsame : k = k'
    · subst hsame
      rw [if_pos List.mem_cons_self]
      cases hf : f k with
      | some v => exact lookup_insert _
      | none => rw [ih, hf, ite_self]
    · have hmem : k ∈ k' :: keys ↔ k ∈ keys := by simp [hsame]
      rw [if_congr hmem rfl rfl, ← ih]
      cases f k' with
      | some v => exact lookup_insert_of_ne _ hsame
      | none => rfl

end Finmap

namespace SolQueue

open Borsh (Record)
open Except (Agree)

/-! ## Account types -/

/-- The types of accounts. -/
inductive AccountKind where
  | queueConfig
  | workerRegistry
  | job
  deriving DecidableEq

/-- The registry with other keys in it. -/
def WorkerRegistry.map {α β : Type} (f : α → β) (r : WorkerRegistry α) : WorkerRegistry β where
  queue := f r.queue
  worker := f r.worker
  registeredAt := r.registeredAt
  jobsCompleted := r.jobsCompleted
  jobsFailed := r.jobsFailed
  jobsClaimed := r.jobsClaimed
  isActive := r.isActive
  bump := r.bump

namespace AccountKind

/-- All account types. -/
def all : List AccountKind := [queueConfig, workerRegistry, job]

/-- The first bytes of an account. -/
def discriminator : AccountKind → Vector UInt8 8
  | queueConfig => #v[60, 225, 7, 92, 142, 69, 96, 68]
  | workerRegistry => #v[128, 105, 74, 221, 50, 223, 42, 195]
  | job => #v[75, 124, 80, 203, 161, 180, 202, 80]

/-- The discriminators tell the account types apart. -/
theorem discriminator_injective : Function.Injective discriminator := by
  intro kind kind' h
  cases kind <;> cases kind' <;> first | rfl | exact absurd h (by decide)

/-- The accounts of a type. -/
abbrev Fields (Pubkey : Type) : AccountKind → Type
  | queueConfig => QueueConfig Pubkey
  | workerRegistry => WorkerRegistry Pubkey
  | job => Job Pubkey

/-- The space of an account. -/
def space : AccountKind → ℕ
  | queueConfig => QueueConfig.LEN
  | workerRegistry => WorkerRegistry.LEN
  | job => Job.LEN

/-- How accounts are stored. -/
def layout : (kind : AccountKind) → Record (kind.Fields PublicKey) kind.space
  | queueConfig => QueueConfig.layout queueConfig.discriminator
  | workerRegistry => WorkerRegistry.layout workerRegistry.discriminator
  | job => Job.layout job.discriminator

theorem discriminator_layout (kind : AccountKind) :
    kind.layout.discriminator = kind.discriminator := by
  cases kind <;> rfl

/-- The account with other keys in it. -/
def map {α β : Type} (f : α → β) : (kind : AccountKind) → kind.Fields α → kind.Fields β
  | queueConfig => QueueConfig.map f
  | workerRegistry => WorkerRegistry.map f
  | job => Job.map f

/-- The keys in an account. -/
def keys {α : Type} : (kind : AccountKind) → kind.Fields α → List α
  | queueConfig, q => [q.authority]
  | workerRegistry, r => [r.queue, r.worker]
  | job, j => j.queue :: j.creator :: j.assignedWorker.toList

end AccountKind

/-! ## Ledgers by account type -/

section Kinds

variable {Pubkey : Type} [DecidableEq Pubkey]

/-- The account of a type at an address. -/
def Ledger.lookupAs (σ : Ledger Pubkey) : (kind : AccountKind) → Pubkey →
    Option (kind.Fields Pubkey)
  | .queueConfig, x => σ.queueConfigs.lookup x
  | .workerRegistry, x => σ.workerRegistries.lookup x
  | .job, x => σ.jobs.lookup x

/-- The account at an address, with its type. -/
def Ledger.accountAt (σ : Ledger Pubkey) (x : Pubkey) :
    Option (Σ kind : AccountKind, kind.Fields Pubkey) :=
  AccountKind.all.findSome? fun kind => (σ.lookupAs kind x).map (Sigma.mk kind)

/-- The type of the accounts at addresses of these seeds. -/
def Seeds.kind {Pubkey : Type} : Seeds Pubkey → AccountKind
  | .queue _ => .queueConfig
  | .worker _ _ => .workerRegistry
  | .job _ _ => .job

variable {D : Derivation Pubkey} {σ σ' τ : Ledger Pubkey} {x : Pubkey}

/-- Ledgers agree at an address if they do for each type. -/
theorem sameAt_iff : SameAt x σ τ ↔ ∀ kind, σ.lookupAs kind x = τ.lookupAs kind x := by
  constructor
  · rintro ⟨hqueue, hregistry, hjob⟩ kind
    cases kind <;> assumption
  · intro h
    exact ⟨h .queueConfig, h .workerRegistry, h .job⟩

/-- An address tells the type of the account at it. -/
theorem Addressed.seeds_kind (h : Addressed D σ) {kind : AccountKind} {v : kind.Fields Pubkey}
    (hv : σ.lookupAs kind x = some v) :
    ∃ s b, D.findProgramAddress s = some (x, b) ∧ s.kind = kind := by
  cases kind with
  | queueConfig =>
    obtain ⟨n, hfind⟩ := h.queue x v hv
    exact ⟨_, _, hfind, rfl⟩
  | workerRegistry =>
    obtain ⟨n, q, hfind, -⟩ := h.registry x v hv
    exact ⟨_, _, hfind, rfl⟩
  | job =>
    obtain ⟨n, s, q, hfind, -⟩ := h.job x v hv
    exact ⟨_, _, hfind, rfl⟩

/-- Every account is at a derived address. -/
theorem Addressed.exists_addressOf (h : Addressed D σ) {kind : AccountKind}
    {v : kind.Fields Pubkey} (hv : σ.lookupAs kind x = some v) : ∃ s, D.addressOf s = some x := by
  obtain ⟨s, b, hfind, -⟩ := h.seeds_kind hv
  exact ⟨s, Derivation.addressOf_eq_some.mpr ⟨b, hfind⟩⟩

/-- In all ledgers of the program, the accounts at an address are of one type. -/
theorem Addressed.kind_unique (h : Addressed D σ) (h' : Addressed D σ') {kind kind' : AccountKind}
    {v : kind.Fields Pubkey} {v' : kind'.Fields Pubkey} (hv : σ.lookupAs kind x = some v)
    (hv' : σ'.lookupAs kind' x = some v') : kind = kind' := by
  obtain ⟨s, b, hfind, rfl⟩ := h.seeds_kind hv
  obtain ⟨s', b', hfind', rfl⟩ := h'.seeds_kind hv'
  rw [D.find_injective hfind hfind']

/-- What is found of an account is what is found of its type. -/
theorem Ledger.lookupAs_of_accountAt {kind : AccountKind} {v : kind.Fields Pubkey}
    (h : σ.accountAt x = some ⟨kind, v⟩) : σ.lookupAs kind x = some v := by
  obtain ⟨kind', -, hfound⟩ := List.exists_of_findSome?_eq_some h
  obtain ⟨v', hv', hsame⟩ := Option.map_eq_some_iff.mp hfound
  cases hsame
  exact hv'

/-- Nothing is found at an address without an account. -/
theorem Ledger.accountAt_eq_none :
    σ.accountAt x = none ↔ ∀ kind, σ.lookupAs kind x = none := by
  rw [accountAt, List.findSome?_eq_none_iff]
  constructor
  · intro h kind
    exact Option.map_eq_none_iff.mp (h kind (by cases kind <;> simp [AccountKind.all]))
  · intro h kind _
    rw [h kind, Option.map_none]

/-- The account of a type is the account at its address. -/
theorem Addressed.accountAt_of_lookupAs (h : Addressed D σ) {kind : AccountKind}
    {v : kind.Fields Pubkey} (hv : σ.lookupAs kind x = some v) :
    σ.accountAt x = some ⟨kind, v⟩ := by
  cases haccount : σ.accountAt x with
  | none => cases (Ledger.accountAt_eq_none.mp haccount kind).symm.trans hv
  | some account =>
    -- the address has one account, whatever its type
    obtain ⟨kind', v'⟩ := account
    have hv' := Ledger.lookupAs_of_accountAt haccount
    obtain rfl := h.kind_unique h hv hv'
    rw [Option.some.inj (hv.symm.trans hv')]

end Kinds

/-! ## Accounts in buffers -/

section Buffers

/-- How keys are written, and how they are read. -/
structure KeyBytes (Pubkey : Type) where
  bytes : Pubkey → PublicKey
  ofBytes : PublicKey → Pubkey

variable {Pubkey : Type}

/-- The keys that are read as they were written. No two of them have the same bytes. -/
def KeyBytes.known (B : KeyBytes Pubkey) : Set Pubkey :=
  {k | B.ofBytes (B.bytes k) = k}

/-- The data of the accounts that the program has made. -/
abbrev Storage (Pubkey : Type) := Finmap fun _ : Pubkey => List UInt8

variable [DecidableEq Pubkey] (B : KeyBytes Pubkey)

/-- The account of a type that is read at an address: `Account<'info, T>`. -/
def Storage.loadAs (m : Storage Pubkey) (kind : AccountKind) (x : Pubkey) :
    Option (kind.Fields Pubkey) := do
  let data ← m.lookup x
  let v ← kind.layout.load data
  return kind.map B.ofBytes v

/-- What is read under the given keys. -/
def Storage.view (m : Storage Pubkey) (keys : List Pubkey) : Ledger Pubkey where
  queueConfigs := Finmap.collect (m.loadAs B .queueConfig) keys
  workerRegistries := Finmap.collect (m.loadAs B .workerRegistry) keys
  jobs := Finmap.collect (m.loadAs B .job) keys

/-- Save the account at `x` of the ledger, which fails if it does not fit. A new account starts as
zeros, and the buffer of one that is gone is given back. -/
def Storage.exit (σ : Ledger Pubkey) (m : Storage Pubkey) (x : Pubkey) : Option (Storage Pubkey) :=
  match σ.accountAt x with
  | none => some (m.erase x)
  | some ⟨kind, v⟩ => do
    let data := (m.lookup x).getD (List.replicate kind.space 0)
    return m.insert x (← kind.layout.save data (kind.map B.bytes v))

/-- The data are those of no account type, as those of an account of the IDL. -/
def Foreign (data : List UInt8) : Prop :=
  ∀ kind : AccountKind, kind.layout.load data = none

/-- The buffer has the space of the account and starts with its encoding. -/
structure SavedAs (kind : AccountKind) (v : kind.Fields Pubkey) (data : List UInt8) : Prop where
  length : data.length = kind.space
  front : ∃ rest, data = kind.layout.bytes (kind.map B.bytes v) ++ rest

/-- The buffers hold the ledger: each of its accounts at its address, nothing at the other derived
addresses, and no accounts elsewhere but those of the IDL. -/
structure Storage.Holds (D : Derivation Pubkey) (m : Storage Pubkey) (σ : Ledger Pubkey) :
    Prop where
  live : ∀ kind x v, σ.lookupAs kind x = some v →
    ∃ data, m.lookup x = some data ∧ SavedAs B kind v data
  free : ∀ s x, D.addressOf s = some x → (∀ kind, σ.lookupAs kind x = none) → m.lookup x = none
  foreign : ∀ x data, (∀ s, D.addressOf s ≠ some x) → m.lookup x = some data → Foreign data

variable {D : Derivation Pubkey} {B} {m : Storage Pubkey} {σ : Ledger Pubkey} {kind : AccountKind}
  {v : kind.Fields Pubkey} {data : List UInt8} {x : Pubkey}

omit [DecidableEq Pubkey] in
/-- Known keys are read as they were written. -/
theorem AccountKind.map_map (h : ∀ k ∈ kind.keys v, k ∈ B.known) :
    kind.map B.ofBytes (kind.map B.bytes v) = v := by
  cases kind with
  | queueConfig =>
    have hauthority : B.ofBytes (B.bytes v.authority) = v.authority := h _ (by simp [keys])
    simp only [map, QueueConfig.map, hauthority]
  | workerRegistry =>
    have hqueue : B.ofBytes (B.bytes v.queue) = v.queue := h _ (by simp [keys])
    have hworker : B.ofBytes (B.bytes v.worker) = v.worker := h _ (by simp [keys])
    simp only [map, WorkerRegistry.map, hqueue, hworker]
  | job =>
    have hqueue : B.ofBytes (B.bytes v.queue) = v.queue := h _ (by simp [keys])
    have hcreator : B.ofBytes (B.bytes v.creator) = v.creator := h _ (by simp [keys])
    have hassigned : (v.assignedWorker.map B.bytes).map B.ofBytes = v.assignedWorker := by
      cases hw : v.assignedWorker with
      | none => rfl
      | some w => exact congrArg some (h w (by simp [keys, hw]))
    simp only [map, Job.map, hqueue, hcreator, hassigned]

namespace SavedAs

omit [DecidableEq Pubkey] in
/-- An account is loaded as it was saved. -/
theorem load (h : SavedAs B kind v data) :
    kind.layout.load data = some (kind.map B.bytes v) := by
  obtain ⟨rest, rfl⟩ := h.front
  exact Record.load_bytes_append _ rest

omit [DecidableEq Pubkey] in
/-- It is not loaded as an account of another type. -/
theorem load_eq_none (h : SavedAs B kind v data) {kind' : AccountKind} (hne : kind' ≠ kind) :
    kind'.layout.load data = none := by
  obtain ⟨rest, rfl⟩ := h.front
  refine Record.load_eq_none (fun hsame => hne ?_) _ rest
  rw [kind.discriminator_layout, kind'.discriminator_layout] at hsame
  exact AccountKind.discriminator_injective hsame.symm

end SavedAs

/-- All keys in the accounts of the ledger are in `K`. -/
structure Ledger.Within (K : Set Pubkey) (σ : Ledger Pubkey) : Prop where
  queue : ∀ x q, σ.queueConfigs.lookup x = some q → q.authority ∈ K
  registry : ∀ x r, σ.workerRegistries.lookup x = some r → r.queue ∈ K ∧ r.worker ∈ K
  job : ∀ x j, σ.jobs.lookup x = some j →
    j.queue ∈ K ∧ j.creator ∈ K ∧ ∀ w, j.assignedWorker = some w → w ∈ K

theorem Ledger.Within.keys {K : Set Pubkey} (h : σ.Within K) (hv : σ.lookupAs kind x = some v) :
    ∀ k ∈ kind.keys v, k ∈ K := by
  cases kind with
  | queueConfig => simpa [AccountKind.keys] using h.queue x v hv
  | workerRegistry => simpa [AccountKind.keys] using h.registry x v hv
  | job => simpa [AccountKind.keys] using h.job x v hv

namespace Storage.Holds

/-- What is read at an address, for each type, is what the ledger has there. -/
theorem loadAs_eq (h : m.Holds B D σ) (haddr : Addressed D σ) (hwithin : σ.Within B.known) :
    m.loadAs B kind x = σ.lookupAs kind x := by
  by_cases hnone : ∀ kind, σ.lookupAs kind x = none
  · rw [hnone kind]
    by_cases hderived : ∃ s, D.addressOf s = some x
    · obtain ⟨s, hs⟩ := hderived
      rw [loadAs, h.free s x hs hnone]
      rfl
    · -- an account of the IDL is read as none of the program's own
      cases hdata : m.lookup x with
      | none => simp [loadAs, hdata]
      | some data => simp [loadAs, hdata, h.foreign x data (not_exists.mp hderived) hdata kind]
  · obtain ⟨kind', hsome⟩ := not_forall.mp hnone
    obtain ⟨v, hv⟩ := Option.ne_none_iff_exists'.mp hsome
    obtain ⟨data, hdata, hsaved⟩ := h.live kind' x v hv
    by_cases hkind : kind = kind'
    · subst hkind
      simp [loadAs, hdata, hsaved.load, AccountKind.map_map (hwithin.keys hv), hv]
    · -- the account is of another type, and is not read as one of this type
      have hother : σ.lookupAs kind x = none := by
        cases hv' : σ.lookupAs kind x with
        | none => rfl
        | some v' => exact absurd (haddr.kind_unique haddr hv' hv) hkind
      simp [loadAs, hdata, hsaved.load_eq_none hkind, hother]

/-- What is read under the given keys agrees with the ledger there. -/
theorem sameAt_view (h : m.Holds B D σ) (haddr : Addressed D σ) (hwithin : σ.Within B.known)
    {keys : List Pubkey} (hx : x ∈ keys) : SameAt x (m.view B keys) σ := by
  refine sameAt_iff.mpr fun kind => ?_
  rw [← h.loadAs_eq haddr hwithin]
  cases kind <;> exact Finmap.lookup_collect.trans (if_pos hx)

end Storage.Holds

/-! ## Saving accounts -/

/-- The buffers have the space of the accounts that are to be saved in them. -/
def Storage.Spaced (m : Storage Pubkey) (σ : Ledger Pubkey) : Prop :=
  ∀ kind x v data, σ.accountAt x = some ⟨kind, v⟩ → m.lookup x = some data →
    data.length = kind.space

/-- The buffer at `x` holds the account of the ledger there, if there is one. -/
def Storage.HoldsAt (B : KeyBytes Pubkey) (m : Storage Pubkey) (σ : Ledger Pubkey) (x : Pubkey) :
    Prop :=
  Option.Rel (fun data account => SavedAs B account.1 account.2 data) (m.lookup x) (σ.accountAt x)

namespace Storage

/-- One account is saved, and the other buffers are kept. -/
theorem exists_exit (h : m.Spaced σ) (x : Pubkey) :
    ∃ m', exit B σ m x = some m' ∧ m'.HoldsAt B σ x ∧ (∀ y, y ≠ x → m'.lookup y = m.lookup y) ∧
      m'.Spaced σ := by
  unfold exit HoldsAt
  cases haccount : σ.accountAt x with
  | none =>
    refine ⟨_, rfl, ?_, fun y hy => Finmap.lookup_erase_ne hy, fun kind y v data hv hdata => ?_⟩
    · rw [Finmap.lookup_erase]
      exact .none
    · have hne : y ≠ x := by
        rintro rfl
        cases haccount.symm.trans hv
      exact h kind y v data hv ((Finmap.lookup_erase_ne hne).symm.trans hdata)
  | some account =>
    obtain ⟨kind, v⟩ := account
    -- an account that is new starts in a buffer of its space
    have hlength : ((m.lookup x).getD (List.replicate kind.space 0)).length = kind.space := by
      cases hdata : m.lookup x with
      | none => exact List.length_replicate
      | some data => exact h kind x v data haccount hdata
    obtain ⟨rest, hsave, hspace⟩ :=
      Record.exists_save (R := kind.layout) (kind.map B.bytes v) hlength
    simp only [hsave]
    refine ⟨_, rfl, ?_, fun y hy => Finmap.lookup_insert_of_ne m hy,
      fun kind' y v' data hv' hdata => ?_⟩
    · rw [Finmap.lookup_insert]
      exact .some ⟨hspace, rest, rfl⟩
    -- saving keeps the space, so the rest of the list can be saved too
    · rw [Finmap.lookup_insert_eq_ite] at hdata
      split_ifs at hdata with hy
      · subst hy
        cases haccount.symm.trans hv'
        rw [← Option.some.inj hdata]
        exact hspace
      · exact h kind' y v' data hv' hdata

/-- All accounts of a list are saved, and the other buffers are kept. -/
theorem exists_exits (keys : List Pubkey) (h : m.Spaced σ) :
    ∃ m', keys.foldlM (exit B σ) m = some m' ∧ (∀ x ∈ keys, m'.HoldsAt B σ x) ∧
      ∀ x, x ∉ keys → m'.lookup x = m.lookup x := by
  induction keys generalizing m with
  | nil =>
    refine ⟨m, rfl, fun x hx => ?_, fun _ _ => rfl⟩
    cases hx
  | cons k keys ih =>
    obtain ⟨m₁, hexit, hsaved, hothers, hspaced⟩ := exists_exit (B := B) h k
    obtain ⟨m', hexits, hall, hrest⟩ := ih hspaced
    refine ⟨m', ?_, fun x hx => ?_, fun x hx => ?_⟩
    · rw [List.foldlM_cons, hexit]
      exact hexits
    · by_cases hmem : x ∈ keys
      · exact hall x hmem
      · -- it was saved first, and not again
        obtain rfl := (List.mem_cons.mp hx).resolve_right hmem
        rw [HoldsAt, hrest x hmem]
        exact hsaved
    · obtain ⟨hne, hnot⟩ := not_or.mp (mt List.mem_cons.mpr hx)
      rw [hrest x hnot, hothers x hne]

end Storage

end Buffers

/-! ## The machine on bytes -/

section Machines

variable {Pubkey : Type} [DecidableEq Pubkey] [Inhabited Pubkey]

/-- A transaction, with the time at which it is executed. -/
structure Delivery (Pubkey : Type) where
  now : Int64
  transaction : Transaction Pubkey

omit [Inhabited Pubkey] in
/-- The call that a transaction makes, if the program accepts it. -/
def Delivery.call (system : Pubkey) (d : Delivery Pubkey) : Option (Call Pubkey) :=
  (dispatch system d.transaction.accounts d.transaction.data).map fun i => ⟨d.now, i⟩

omit [DecidableEq Pubkey] [Inhabited Pubkey] in
/-- The accounts that are saved after an instruction. Signers are not accounts of the program. -/
def Instruction.saved (i : Instruction Pubkey) : List Pubkey :=
  (i.accountMetas.filter fun a => a.isWritable && !a.isSigner).map (·.key)

omit [DecidableEq Pubkey] [Inhabited Pubkey] in
/-- The transaction is for one of the instructions that Anchor adds to the program. -/
def Delivery.IsIdl (d : Delivery Pubkey) : Prop :=
  idlTag.toList <+: d.transaction.data

/-- Whether a transaction is for an IDL instruction is decidable. -/
instance (d : Delivery Pubkey) : Decidable d.IsIdl := by
  unfold Delivery.IsIdl
  infer_instance

/-- The instructions that Anchor adds to the program to keep its IDL, and what is relied on: their
accounts are at no derived address and have a discriminator of their own. -/
structure IdlInstructions (D : Derivation Pubkey) where
  /-- What is stored after a transaction, or none if it is refused. -/
  run : Storage Pubkey → Delivery Pubkey → Option (Storage Pubkey)
  lookup_eq : ∀ {m d m' s x}, run m d = some m' → D.addressOf s = some x →
    m'.lookup x = m.lookup x
  lookup_or_foreign : ∀ {m d m' x data}, run m d = some m' → m'.lookup x = some data →
    m.lookup x = some data ∨ Foreign data

variable {D : Derivation Pubkey} (I : IdlInstructions D) (B : KeyBytes Pubkey) (system : Pubkey)

/-- What the runtime does for a transaction: it reads the accounts of the instruction, runs it on
them, saves them and writes its events to the log. The error is none for a transaction that is not
accepted, or if an account does not fit. -/
def process (m : Storage Pubkey) (d : Delivery Pubkey) :
    Except (Option Error) (Storage Pubkey × List (List UInt8)) :=
  if d.IsIdl then
    -- these emit no events
    match I.run m d with
    | none => .error none
    | some m' => .ok (m', [])
  else match d.call system with
  | none => .error none
  | some c =>
    match execute D (m.view B (c.instruction.accountMetas.map (·.key))) c with
    | .error e => .error (some e)
    | .ok (σ, o) =>
      match c.instruction.saved.foldlM (Storage.exit B σ) m with
      | none => .error none
      | some m' => .ok (m', o.events.map (Event.line B.bytes))

/-- The program on bytes, from the moment it is deployed. -/
def runtime : Machine (Storage Pubkey) (Delivery Pubkey) (List (List UInt8)) (Option Error) where
  init := ∅
  step := process I B system

variable {I B system} {m : Storage Pubkey} {σ σ' τ : Ledger Pubkey} {c : Call Pubkey}
  {o : Outcome Pubkey} {x : Pubkey}

omit [DecidableEq Pubkey] [Inhabited Pubkey] in
theorem Instruction.mem_saved {i : Instruction Pubkey} :
    x ∈ i.saved ↔ AccountMeta.writable x ∈ i.accountMetas := by
  rw [saved, List.mem_map]
  constructor
  · rintro ⟨⟨key, signer, writable⟩, ha, rfl⟩
    obtain ⟨hmem, hflags⟩ := List.mem_filter.mp ha
    obtain ⟨rfl, rfl⟩ : writable = true ∧ signer = false := by simpa using hflags
    exact hmem
  · intro hmem
    exact ⟨_, List.mem_filter.mpr ⟨hmem, rfl⟩, rfl⟩

omit [Inhabited Pubkey] in
/-- Ledgers that agree at an address have the same account there. -/
theorem SameAt.accountAt_eq (h : SameAt x σ τ) : σ.accountAt x = τ.accountAt x := by
  simp only [Ledger.accountAt, sameAt_iff.mp h]

omit [Inhabited Pubkey] in
/-- What is saved of ledgers that agree is the same. -/
theorem Storage.exits_congr {keys : List Pubkey} (h : ∀ x ∈ keys, SameAt x σ τ) :
    keys.foldlM (exit B σ) m = keys.foldlM (exit B τ) m := by
  induction keys generalizing m with
  | nil => rfl
  | cons k keys ih =>
    have hexit : exit B σ m k = exit B τ m k := by
      rw [exit, exit, (h k List.mem_cons_self).accountAt_eq]
    rw [List.foldlM_cons, List.foldlM_cons, hexit]
    refine congrArg (exit B τ m k >>= ·) (funext fun m' => ?_)
    exact ih fun x hx => h x (List.mem_cons_of_mem k hx)

/-- The keys in the accounts after a step were there before or are listed by the call. -/
theorem Ledger.Within.step {K : Set Pubkey} (h : σ.Within K) (hstep : Step D σ c σ' o)
    (hK : ∀ a ∈ c.instruction.accountMetas, a.key ∈ K) : σ'.Within K := by
  cases hstep with
  | initializeQueue fresh =>
    have hauthority := hK _ List.mem_cons_self
    exact ⟨Finmap.forall_lookup_insert h.queue hauthority, h.registry, h.job⟩
  | setQueuePaused queue =>
    have hauthority := h.queue _ _ queue.lookup
    exact ⟨Finmap.forall_lookup_insert h.queue hauthority, h.registry, h.job⟩
  | @registerWorker _ ctx _ _ _ queue =>
    have hqueue : ctx.queueConfig ∈ K := hK (.readonly _) (by simp [Instruction.accountMetas])
    have hworker : ctx.worker ∈ K := hK (.readonly _) (by simp [Instruction.accountMetas])
    exact ⟨h.queue, Finmap.forall_lookup_insert h.registry ⟨hqueue, hworker⟩, h.job⟩
  | deactivateWorker queue authority registry =>
    have hkeys := h.registry _ _ registry.lookup
    exact ⟨h.queue, Finmap.forall_lookup_insert h.registry hkeys, h.job⟩
  | @enqueueJob _ ctx _ _ _ _ _ _ _ queue =>
    have hauthority := h.queue _ _ queue.lookup
    have hqueue : ctx.queueConfig ∈ K := hK (.writable _) (by simp [Instruction.accountMetas])
    have hcreator : ctx.creator ∈ K := hK (.payer _) (by simp [Instruction.accountMetas])
    refine ⟨Finmap.forall_lookup_insert h.queue hauthority, h.registry,
      Finmap.forall_lookup_insert h.job ⟨hqueue, hcreator, fun w hw => ?_⟩⟩
    cases hw
  | @claimJob _ ctx _ _ _ _ _ _ valid =>
    have hworker : ctx.worker ∈ K := hK (.payer _) (by simp [Instruction.accountMetas])
    have hkeys := h.registry _ _ valid.registry.lookup
    obtain ⟨hqueue, hcreator, -⟩ := h.job _ _ valid.job.lookup
    refine ⟨h.queue, Finmap.forall_lookup_insert h.registry hkeys,
      Finmap.forall_lookup_insert h.job ⟨hqueue, hcreator, fun w hw => ?_⟩⟩
    exact Option.some.inj hw ▸ hworker
  | completeJob valid | failJobPermanent valid =>
    have hauthority := h.queue _ _ valid.queue.lookup
    have hkeys := h.registry _ _ valid.registry.lookup
    obtain hjob := h.job _ _ valid.job.lookup
    exact ⟨Finmap.forall_lookup_insert h.queue hauthority,
      Finmap.forall_lookup_insert h.registry hkeys, Finmap.forall_lookup_insert h.job hjob⟩
  | failJobRetry valid =>
    have hkeys := h.registry _ _ valid.registry.lookup
    obtain ⟨hqueue, hcreator, -⟩ := h.job _ _ valid.job.lookup
    refine ⟨h.queue, Finmap.forall_lookup_insert h.registry hkeys,
      Finmap.forall_lookup_insert h.job ⟨hqueue, hcreator, fun w hw => ?_⟩⟩
    cases hw
  | expireJob queue job =>
    obtain ⟨hqueue, hcreator, -⟩ := h.job _ _ job.lookup
    refine ⟨h.queue, h.registry,
      Finmap.forall_lookup_insert h.job ⟨hqueue, hcreator, fun w hw => ?_⟩⟩
    cases hw
  | closeJob => exact ⟨h.queue, h.registry, Finmap.forall_lookup_erase h.job⟩

omit [Inhabited Pubkey] in
/-- A transaction for the IDL makes no call. -/
theorem Delivery.call_of_isIdl (d : Delivery Pubkey) (h : d.IsIdl) : d.call system = none := by
  rw [Delivery.call, dispatch_of_idlTag h, Option.map_none]

namespace Storage.Holds

/-- Saving the accounts a committed call lists as writable makes the buffers hold its ledger. -/
theorem step (h : m.Holds B D σ) (haddr : Addressed D σ) (hstep : Step D σ c σ' o) :
    ∃ m', c.instruction.saved.foldlM (exit B σ') m = some m' ∧ m'.Holds B D σ' := by
  have haddr' := haddr.step hstep
  -- an account that was there before is of the same type
  have hspaced : m.Spaced σ' := by
    intro kind x v data haccount hdata
    by_cases hnone : ∀ kind, σ.lookupAs kind x = none
    · obtain ⟨s, hs⟩ := haddr'.exists_addressOf (Ledger.lookupAs_of_accountAt haccount)
      cases (h.free s x hs hnone).symm.trans hdata
    · obtain ⟨kind', hsome⟩ := not_forall.mp hnone
      obtain ⟨v', hv'⟩ := Option.ne_none_iff_exists'.mp hsome
      obtain ⟨data', hdata', hsaved⟩ := h.live kind' x v' hv'
      obtain rfl := Option.some.inj (hdata.symm.trans hdata')
      obtain rfl := haddr.kind_unique haddr' hv' (Ledger.lookupAs_of_accountAt haccount)
      exact hsaved.length
  obtain ⟨m', hexits, hsaved, hrest⟩ := exists_exits (B := B) c.instruction.saved hspaced
  -- what is not saved has not changed
  have hkept {x : Pubkey} (hx : x ∉ c.instruction.saved) (kind : AccountKind) :
      σ'.lookupAs kind x = σ.lookupAs kind x := by
    have hsame := hstep.keeps_of_notMem (mt Instruction.mem_saved.mpr hx)
    exact (sameAt_iff.mp hsame kind).symm
  -- nothing is left in a buffer that is saved without an account
  have hgiven {x : Pubkey} (hx : x ∈ c.instruction.saved)
      (hnone : ∀ kind, σ'.lookupAs kind x = none) : m'.lookup x = none := by
    have hat := hsaved x hx
    rw [HoldsAt, Ledger.accountAt_eq_none.mpr hnone] at hat
    generalize m'.lookup x = found at hat ⊢
    cases hat
    rfl
  refine ⟨m', hexits, fun kind x v hv => ?_, fun s x hs hnone => ?_, fun x data hx hdata => ?_⟩
  · by_cases hx : x ∈ c.instruction.saved
    · have hat := hsaved x hx
      rw [HoldsAt, haddr'.accountAt_of_lookupAs hv] at hat
      generalize m'.lookup x = found at hat
      cases hat with
      | some hdata => exact ⟨_, rfl, hdata⟩
    · rw [hrest x hx]
      exact h.live kind x v ((hkept hx kind).symm.trans hv)
  · by_cases hx : x ∈ c.instruction.saved
    · exact hgiven hx hnone
    · rw [hrest x hx]
      exact h.free s x hs fun kind => (hkept hx kind).symm.trans (hnone kind)
  · by_cases hmem : x ∈ c.instruction.saved
    · -- an account would be at a derived address
      have hnone (kind : AccountKind) : σ'.lookupAs kind x = none := by
        refine Option.eq_none_iff_forall_ne_some.mpr fun v hv => ?_
        obtain ⟨s, hs⟩ := haddr'.exists_addressOf hv
        exact hx s hs
      cases (hgiven hmem hnone).symm.trans hdata
    · exact h.foreign x data hx ((hrest x hmem).symm.trans hdata)

/-- A transaction that is accepted is answered as its call is: with the same error, or with buffers
that hold the same ledger and the lines of the same events. -/
theorem process_agrees (h : m.Holds B D σ) (haddr : Addressed D σ) (hwithin : σ.Within B.known)
    {d : Delivery Pubkey} (hc : d.call system = some c) :
    Agree (fun e e' => e = some e')
      (fun r r' => r.1.Holds B D r'.1 ∧ r.2 = r'.2.events.map (Event.line B.bytes))
      (process I B system m d) (execute D σ c) := by
  -- the handler reads only the accounts listed, and these are read as the ledger has them
  have hview : SameOn c.Lists (m.view B (c.instruction.accountMetas.map (·.key))) σ := by
    rintro x ⟨a, ha, rfl⟩
    exact h.sameAt_view haddr hwithin (List.mem_map_of_mem ha)
  have hagree := execute_congr (D := D) hview
  have hplain : ¬d.IsIdl := by
    intro hidl
    rw [d.call_of_isIdl hidl] at hc
    cases hc
  unfold process
  simp only [if_neg hplain, hc]
  cases hexecute : execute D (m.view B (c.instruction.accountMetas.map (·.key))) c with
  | error e =>
    obtain ⟨_, herror, rfl⟩ := hagree.of_error hexecute
    rw [herror]
    exact .error rfl
  | ok r =>
    obtain ⟨⟨σ', o⟩, hok, hsame, hout⟩ := hagree.of_ok hexecute
    obtain ⟨m', hexits, hholds⟩ := h.step haddr (execute_eq_ok.mp hok)
    -- the accounts that are saved are listed, so what was executed on them is what is saved
    have hlisted : ∀ x ∈ c.instruction.saved, SameAt x r.1 σ' := fun x hx =>
      hsame x ⟨_, Instruction.mem_saved.mp hx, rfl⟩
    rw [hok]
    simp only [exits_congr hlisted, hexits]
    exact .ok ⟨hholds, by rw [hout]⟩

omit [Inhabited Pubkey] in
/-- The instructions for the IDL keep all accounts of the program. -/
theorem run_idl (h : m.Holds B D σ) (haddr : Addressed D σ) {d : Delivery Pubkey}
    {m' : Storage Pubkey} (hrun : I.run m d = some m') : m'.Holds B D σ where
  live kind x v hv := by
    obtain ⟨s, hs⟩ := haddr.exists_addressOf hv
    rw [I.lookup_eq hrun hs]
    exact h.live kind x v hv
  free s x hs hnone := by
    rw [I.lookup_eq hrun hs]
    exact h.free s x hs hnone
  foreign x data hx hdata := by
    rcases I.lookup_or_foreign hrun hdata with hbefore | hforeign
    · exact h.foreign x data hx hbefore
    · exact hforeign

/-- A transaction for the IDL keeps all accounts of the program, and emits nothing. -/
theorem process_idl (h : m.Holds B D σ) (haddr : Addressed D σ) {d : Delivery Pubkey}
    (hidl : d.IsIdl) {r : Storage Pubkey × List (List UInt8)}
    (hr : process I B system m d = .ok r) : r.1.Holds B D σ ∧ r.2 = [] := by
  rw [process, if_pos hidl] at hr
  cases hrun : I.run m d with
  | none =>
    rw [hrun] at hr
    cases hr
  | some m' =>
    rw [hrun] at hr
    cases hr
    exact ⟨h.run_idl haddr hrun, rfl⟩

end Storage.Holds

/-! ## Whole runs -/

omit [Inhabited Pubkey] in
/-- The accounts of an instruction are among those of its transaction. -/
theorem Delivery.mem_accounts {d : Delivery Pubkey} (hc : d.call system = some c)
    {a : AccountMeta Pubkey} (ha : a ∈ c.instruction.accountMetas) :
    ∃ a' ∈ d.transaction.accounts, a'.key = a.key := by
  obtain ⟨i, hi, rfl⟩ := Option.map_eq_some_iff.mp hc
  obtain ⟨-, given, extra, haccounts, hgiven⟩ := dispatch_eq_some_iff.mp hi
  -- the accounts given have the keys of the accounts declared, in their order
  have hmem : a.key ∈ (i.accounts system).map (·.key) :=
    List.mem_map_of_mem (List.mem_append_left _ ha)
  rw [← AccountMeta.keys_of_forall₂ hgiven] at hmem
  obtain ⟨a', ha', hkey⟩ := List.mem_map.mp hmem
  exact ⟨a', haccounts ▸ List.mem_append_left _ ha', hkey⟩

/-- The keys of a transaction are known. -/
def Delivery.Known (B : KeyBytes Pubkey) (d : Delivery Pubkey) : Prop :=
  ∀ a ∈ d.transaction.accounts, a.key ∈ B.known

/-- Transactions lead from buffers that hold a ledger to buffers that hold the ledger their calls
lead to, and the log has the events of these calls. -/
theorem Storage.Holds.runFrom_logFrom (h : m.Holds B D σ) (haddr : Addressed D σ)
    (hwithin : σ.Within B.known) {deliveries : List (Delivery Pubkey)}
    (hknown : ∀ d ∈ deliveries, d.Known B) :
    ((runtime I B system).runFrom m deliveries).Holds B D
        ((program D).runFrom σ (deliveries.filterMap (Delivery.call system))) ∧
      ((program D).runFrom σ (deliveries.filterMap (Delivery.call system))).Within B.known ∧
      ((runtime I B system).logFrom m deliveries).flatMap (·.out) =
        lines B.bytes ((program D).logFrom σ (deliveries.filterMap (Delivery.call system))) := by
  induction deliveries generalizing m σ with
  | nil => exact ⟨h, hwithin, rfl⟩
  | cons d deliveries ih =>
    have hrest : ∀ d ∈ deliveries, d.Known B := fun d' hd' =>
      hknown d' (List.mem_cons_of_mem d hd')
    rw [Machine.runFrom, List.foldl_cons]
    cases hc : d.call system with
    | none =>
      rw [List.filterMap_cons_none hc]
      cases hstep : (runtime I B system).step m d with
      | error e =>
        rw [Machine.next_of_error hstep, Machine.logFrom_cons_of_error hstep]
        exact ih h haddr hwithin hrest
      | ok r =>
        -- without a call, only a transaction for the IDL is accepted
        have hidl : d.IsIdl := by
          by_contra hplain
          simp [runtime, process, hplain, hc] at hstep
        obtain ⟨hholds, hout⟩ := h.process_idl haddr hidl hstep
        rw [Machine.next_of_ok hstep, Machine.logFrom_cons_of_ok hstep, List.flatMap_cons, hout]
        exact ih hholds haddr hwithin hrest
    | some c =>
      have hagree := h.process_agrees (I := I) haddr hwithin hc
      rw [List.filterMap_cons_some hc, Machine.runFrom, List.foldl_cons]
      cases hstep : (runtime I B system).step m d with
      | error e =>
        obtain ⟨e', hstep', -⟩ := hagree.of_error hstep
        have hreject : (program D).step σ c = .error e' := hstep'
        rw [Machine.next_of_error hstep, Machine.next_of_error hreject,
          Machine.logFrom_cons_of_error hstep, Machine.logFrom_cons_of_error hreject]
        exact ih h haddr hwithin hrest
      | ok r =>
        obtain ⟨r', hstep', hholds, hout⟩ := hagree.of_ok hstep
        have hok : (program D).step σ c = .ok r' := hstep'
        have hcommit := execute_eq_ok.mp hstep'
        have hlisted : ∀ a ∈ c.instruction.accountMetas, a.key ∈ B.known := by
          intro a ha
          obtain ⟨a', ha', hkey⟩ := Delivery.mem_accounts hc ha
          exact hkey ▸ hknown d List.mem_cons_self a' ha'
        obtain ⟨hrun, hkeys, hlog⟩ :=
          ih hholds (haddr.step hcommit) (hwithin.step hcommit hlisted) hrest
        rw [Machine.next_of_ok hstep, Machine.next_of_ok hok, Machine.logFrom_cons_of_ok hstep,
          Machine.logFrom_cons_of_ok hok]
        refine ⟨hrun, hkeys, ?_⟩
        rw [List.flatMap_cons, hlog, hout, lines, lines, Machine.trace, Machine.trace,
          List.flatMap_cons, List.map_append]

omit [Inhabited Pubkey] in
/-- Clients that ask for the accounts of jobs get what the ledger has. -/
theorem Storage.Holds.serves (h : m.Holds B D σ) (haddr : Addressed D σ) :
    Serves D B.bytes σ fun a => m.lookup a where
  live a j hj := by
    obtain ⟨data, hdata, hsaved⟩ := h.live .job a j hj
    obtain ⟨rest, hfront⟩ := hsaved.front
    refine ⟨data, hdata, hsaved.length, AccountKind.job.discriminator.toList, rest,
      Vector.length_toList, ?_⟩
    rw [hfront]
    exact List.append_assoc _ _ _
  missing n s a ha hnone := by
    obtain ⟨b, hfind⟩ := Derivation.addressOf_eq_some.mp ha
    refine h.free _ a ha fun kind => ?_
    cases hv : σ.lookupAs kind a with
    | none => rfl
    | some v =>
      -- whatever is found at the address of a job is a job
      obtain ⟨s', b', hfind', rfl⟩ := haddr.seeds_kind hv
      obtain rfl := D.find_injective hfind hfind'
      exact hv.symm.trans hnone

/-- The transaction is for the program's own instructions, and lists no account of the IDL. If such
an account is passed for another one, the transaction is refused with an error that is left out. -/
structure Delivery.Plain (m : Storage Pubkey) (d : Delivery Pubkey) : Prop where
  own : ¬d.IsIdl
  accounts : ∀ a ∈ d.transaction.accounts, ∀ data, m.lookup a.key = some data → ¬Foreign data

variable (I) (system) in
/-- The program on bytes, with transactions whose keys are known. Whatever transactions are
delivered, accepted or not, for the program's own instructions or for the IDL, the buffers hold the
ledger that the calls among them lead to, the log has the lines of its events, and clients are
served from it. The next transaction, if it is a plain one, is refused if it is not accepted, and
otherwise answered as its call is. -/
theorem storage_exact {deliveries : List (Delivery Pubkey)}
    (hknown : ∀ d ∈ deliveries, d.Known B) :
    let m := (runtime I B system).run deliveries
    let calls := deliveries.filterMap (Delivery.call system)
    m.Holds B D ((program D).run calls) ∧
      ((runtime I B system).log deliveries).flatMap (·.out) =
        lines B.bytes ((program D).log calls) ∧
      Serves D B.bytes ((program D).run calls) (fun a => m.lookup a) ∧
      ∀ d : Delivery Pubkey, d.Plain m → match d.call system with
        | none => process I B system m d = .error none
        | some c =>
          Agree (fun e e' => e = some e')
            (fun r r' => r.1.Holds B D r'.1 ∧ r.2 = r'.2.events.map (Event.line B.bytes))
            (process I B system m d) (execute D ((program D).run calls) c) := by
  intro m calls
  -- nothing is stored at first
  have hempty : Storage.Holds B D (∅ : Storage Pubkey) Ledger.empty := by
    refine ⟨fun kind x v hv => ?_, fun s x _ _ => rfl, fun x data _ hdata => ?_⟩
    · cases kind <;> cases hv
    · cases hdata
  have hnone : Ledger.Within B.known (Ledger.empty : Ledger Pubkey) :=
    ⟨fun x q hq => (nomatch hq), fun x r hr => (nomatch hr), fun x j hj => (nomatch hj)⟩
  have hrun : m.Holds B D ((program D).run calls) ∧ ((program D).run calls).Within B.known ∧
      ((runtime I B system).log deliveries).flatMap (·.out) =
        lines B.bytes ((program D).log calls) :=
    hempty.runFrom_logFrom (addressed_run []) hnone hknown
  obtain ⟨hholds, hwithin, hlog⟩ := hrun
  have haddr : Addressed D ((program D).run calls) := addressed_run calls
  refine ⟨hholds, hlog, hholds.serves haddr, fun d hplain => ?_⟩
  split
  next hc => simp only [process, if_neg hplain.own, hc]
  next c hc => exact hholds.process_agrees haddr hwithin hc

/-- Keys of the sample day by their bytes. -/
def Sample.keyBytes : KeyBytes Key where
  bytes := bytes
  ofBytes v :=
    if v = bytes queue then queue
    else if v = bytes (registry worker) then registry worker
    else if v = bytes (job 0) then job 0
    else .wallet (v.toList.headD 0).toNat

/-- The first bytes of an account of the IDL. -/
def Sample.idlDiscriminator : Vector UInt8 8 := #v[24, 70, 98, 191, 58, 144, 123, 158]

/-- An IDL without content is created, in an account at no derived address. Everything else is
refused. -/
def Sample.idl : IdlInstructions Derivation.free where
  run m d :=
    match d.transaction.accounts with
    | [⟨authority, true, _⟩, ⟨.wallet n, _, true⟩, _base, _system, _program] =>
      if d.transaction.data = idlTag.toList ++ List.replicate 9 0 then
        some (m.insert (.wallet n)
          (idlDiscriminator.toList ++ ((bytes authority).toList ++ List.replicate 4 0)))
      else none
    | _ => none
  lookup_eq {m d m' s x} hrun hx := by
    split at hrun
    next authority _ n _ _ _ _ _ =>
      split_ifs at hrun
      obtain rfl := Option.some.inj hrun
      refine Finmap.lookup_insert_of_ne m ?_
      rintro rfl
      cases s <;> simp [Derivation.addressOf, Derivation.free, Key.ofSeeds] at hx
    next => cases hrun
  lookup_or_foreign {m d m' x data} hrun hdata := by
    split at hrun
    next authority _ n _ _ _ _ _ =>
      split_ifs at hrun
      obtain rfl := Option.some.inj hrun
      rw [Finmap.lookup_insert_eq_ite] at hdata
      split_ifs at hdata with hx
      · refine .inr fun kind => ?_
        rw [← Option.some.inj hdata]
        exact Record.load_append_of_ne (by cases kind <;> decide) _
      · exact .inl hdata
    next => cases hrun

/-- The transactions of the sample day but for the close, after the IDL is created. -/
def Sample.deliveries : List (Delivery Key) :=
  ⟨0, ⟨[⟨authority, true, true⟩, .writable (.wallet 8), .readonly (.wallet 7),
      .readonly (.wallet 0), .readonly (.wallet 6)], idlTag.toList ++ List.replicate 9 0⟩⟩ ::
    day.dropLast.map fun c => ⟨c.now, c.instruction.transaction (.wallet 0)⟩

/-- After the sample day, the buffer of the sample job starts with a job that is completed. -/
theorem storage_exact_day :
    ∃ data j, ((runtime Sample.idl Sample.keyBytes (.wallet 0)).run Sample.deliveries).lookup
        (Sample.job 0) = some data ∧
      SavedAs Sample.keyBytes .job j data ∧ j.status = .completed := by
  have hknown : ∀ d ∈ Sample.deliveries, ∀ a ∈ d.transaction.accounts,
      Sample.keyBytes.ofBytes (Sample.keyBytes.bytes a.key) = a.key := by decide +kernel
  obtain ⟨hholds, -⟩ := storage_exact Sample.idl (B := Sample.keyBytes) (.wallet 0) hknown
  have hjob : ((program Derivation.free).run (Sample.deliveries.filterMap
      (Delivery.call (.wallet 0)))).statusAt (Sample.job 0) = some .completed := by decide +kernel
  obtain ⟨j, hj, hstatus⟩ := Option.map_eq_some_iff.mp hjob
  obtain ⟨data, hdata, hsaved⟩ := hholds.live .job _ j hj
  exact ⟨data, j, hdata, hsaved, hstatus⟩

end Machines

end SolQueue
