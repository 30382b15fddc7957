import ServeProof.Chain
import ServeProof.Interleave.Pool

/-!
# ServeProof.World

The store all calls share: the database and the chain, with the table
operations the services write with.  An operation that would break a foreign
key does nothing, as the failed statement does.
-/

namespace ServeProof

open Interleave

structure World where
  db : Db
  chain : Chain
  usdcMint : Option Address

/-- A new allocation row, before it has an id and a batch. -/
structure NewAllocation where
  workerId : Option WorkerId
  provider : Option String
  externalWorkerId : Option String
  pooledTipUsdCents : Int
  netAllocatedUsdCents : Int
  plannedPayoutRail : Option WorkerPayoutRail
  deriving DecidableEq, Repr

def NewAllocation.row (x : NewAllocation) (id : AllocationId) (b : BatchId) :
    WorkerAllocation where
  id := id
  batchId := b
  workerId := x.workerId
  provider := x.provider
  externalWorkerId := x.externalWorkerId
  pooledTipUsdCents := x.pooledTipUsdCents
  netAllocatedUsdCents := x.netAllocatedUsdCents
  plannedPayoutRail := x.plannedPayoutRail
  payoutRail := none
  payoutStatus := .unpaid

/-- How a request fails. -/
inductive ApiError where
  | notFound (message : String)
  | badRequest (message : String)
  | conflict (message : String)
  | forbidden (message : String)
  | unauthorized (message : String)
  | tooManyRequests (message : String)
  | internal (message : String)
  deriving DecidableEq, Repr

/-- The tables that are neither written by payouts nor by batches. -/
structure Records where
  venues : Table Venue.id
  workers : Table Worker.id
  wallets : Table WorkerWallet.id
  accounts : Table ExternalWorkerAccount.id
  tips : Table TipEvidence.id
  shifts : Table ShiftEvidence.id
  policies : Table AllocationPolicy.id

namespace Db

def records (d : Db) : Records where
  venues := d.venues
  workers := d.workers
  wallets := d.wallets
  accounts := d.accounts
  tips := d.tips
  shifts := d.shifts
  policies := d.policies

/-! ## Payouts -/

/-- Write a payout row; its allocation must exist. -/
def setPayout (d : Db) (row : Payout) : Db :=
  if h : (d.allocations.find row.paymentId).isSome then
    { d with
      payouts := d.payouts.set row
      allocation_of_payout := by
        intro p hp
        rcases (d.payouts.mem_set).mp hp with rfl | ⟨hp, -⟩
        · exact h
        · exact d.allocation_of_payout p hp }
  else d

@[simp] theorem setPayout_allocations (d : Db) (row : Payout) :
    (d.setPayout row).allocations = d.allocations := by
  unfold setPayout; split <;> rfl

@[simp] theorem setPayout_batches (d : Db) (row : Payout) :
    (d.setPayout row).batches = d.batches := by
  unfold setPayout; split <;> rfl

@[simp] theorem setPayout_records (d : Db) (row : Payout) :
    (d.setPayout row).records = d.records := by
  unfold setPayout; split <;> rfl

@[simp] theorem setPayout_nextAllocationId (d : Db) (row : Payout) :
    (d.setPayout row).nextAllocationId = d.nextAllocationId := by
  unfold setPayout; split <;> rfl

theorem setPayout_payouts {d : Db} {row : Payout}
    (h : (d.allocations.find row.paymentId).isSome) :
    (d.setPayout row).payouts = d.payouts.set row := by
  rw [setPayout, dif_pos h]

/-- The allocation a payout pays. -/
theorem find_allocation_of_payout (d : Db) {p : AllocationId} {row : Payout}
    (h : d.payouts.find p = some row) : ∃ a, d.allocations.find p = some a := by
  have hrow := d.allocation_of_payout row (Table.mem_of_find h)
  rw [Table.key_of_find h] at hrow
  exact Option.isSome_iff_exists.mp hrow

/-! ## Allocations -/

/-- Change the allocation `p`; its id and its batch stay. -/
def updateAllocation (d : Db) (p : AllocationId) (f : WorkerAllocation → WorkerAllocation)
    (hf : ∀ a, (f a).id = a.id ∧ (f a).batchId = a.batchId) : Db :=
  have hid : ∀ a, (f a).id = a.id := fun a => (hf a).1
  { d with
    allocations := d.allocations.update p f
    batch_of_allocation := by
      intro a ha
      rcases (d.allocations.mem_update hid).mp ha with ⟨ha, -⟩ | ⟨b, hb, -, rfl⟩
      · exact d.batch_of_allocation a ha
      · rw [(hf b).2]
        exact d.batch_of_allocation b hb
    allocation_of_payout := by
      intro x hx
      have h := d.allocation_of_payout x hx
      rw [Table.find_update _ hid]
      split
      · next hp => simpa [hp] using h
      · exact h
    fresh := by
      intro a ha
      rcases (d.allocations.mem_update hid).mp ha with ⟨ha, -⟩ | ⟨b, hb, -, rfl⟩
      · exact d.fresh a ha
      · rw [hid]
        exact d.fresh b hb }

@[simp] theorem updateAllocation_payouts (d : Db) (p : AllocationId)
    (f : WorkerAllocation → WorkerAllocation) (hf) :
    (d.updateAllocation p f hf).payouts = d.payouts := rfl

@[simp] theorem updateAllocation_batches (d : Db) (p : AllocationId)
    (f : WorkerAllocation → WorkerAllocation) (hf) :
    (d.updateAllocation p f hf).batches = d.batches := rfl

@[simp] theorem updateAllocation_allocations (d : Db) (p : AllocationId)
    (f : WorkerAllocation → WorkerAllocation) (hf) :
    (d.updateAllocation p f hf).allocations = d.allocations.update p f := rfl

@[simp] theorem updateAllocation_records (d : Db) (p : AllocationId)
    (f : WorkerAllocation → WorkerAllocation) (hf) :
    (d.updateAllocation p f hf).records = d.records := rfl

@[simp] theorem updateAllocation_nextAllocationId (d : Db) (p : AllocationId)
    (f : WorkerAllocation → WorkerAllocation) (hf) :
    (d.updateAllocation p f hf).nextAllocationId = d.nextAllocationId := rfl

/-- No payout pays an allocation that satisfies `P`. -/
def Unreferenced (d : Db) (P : WorkerAllocation → Bool) : Prop :=
  ∀ x ∈ d.payouts.rows, ∀ a ∈ d.allocations.rows, a.id = x.paymentId → P a = false

instance (d : Db) (P : WorkerAllocation → Bool) : Decidable (d.Unreferenced P) :=
  inferInstanceAs (Decidable (∀ x ∈ _, _))

/-- Delete the allocations that satisfy `P`; no payout may pay one of them. -/
def eraseAllocations (d : Db) (P : WorkerAllocation → Bool) : Db :=
  if h : d.Unreferenced P then
    { d with
      allocations := d.allocations.erase P
      batch_of_allocation := fun a ha =>
        d.batch_of_allocation a ((d.allocations.mem_erase).mp ha).1
      allocation_of_payout := by
        intro x hx
        obtain ⟨a, ha⟩ := Option.isSome_iff_exists.mp (d.allocation_of_payout x hx)
        have hP := h x hx a (Table.mem_of_find ha) (Table.key_of_find ha)
        simp [Table.find_erase, ha, hP]
      fresh := fun a ha => d.fresh a ((d.allocations.mem_erase).mp ha).1 }
  else d

@[simp] theorem eraseAllocations_payouts (d : Db) (P : WorkerAllocation → Bool) :
    (d.eraseAllocations P).payouts = d.payouts := by
  unfold eraseAllocations; split <;> rfl

@[simp] theorem eraseAllocations_batches (d : Db) (P : WorkerAllocation → Bool) :
    (d.eraseAllocations P).batches = d.batches := by
  unfold eraseAllocations; split <;> rfl

@[simp] theorem eraseAllocations_records (d : Db) (P : WorkerAllocation → Bool) :
    (d.eraseAllocations P).records = d.records := by
  unfold eraseAllocations; split <;> rfl

@[simp] theorem eraseAllocations_nextAllocationId (d : Db) (P : WorkerAllocation → Bool) :
    (d.eraseAllocations P).nextAllocationId = d.nextAllocationId := by
  unfold eraseAllocations; split <;> rfl

theorem eraseAllocations_allocations {d : Db} {P : WorkerAllocation → Bool}
    (h : d.Unreferenced P) : (d.eraseAllocations P).allocations = d.allocations.erase P := by
  rw [eraseAllocations, dif_pos h]

/-- Insert an allocation into the batch `b`, which must exist, under the next
id. -/
def insertAllocation (d : Db) (b : BatchId) (x : NewAllocation) : Db :=
  if h : (d.batches.find b).isSome then
    { d with
      allocations := d.allocations.set (x.row d.nextAllocationId b)
      nextAllocationId := d.nextAllocationId + 1
      batch_of_allocation := by
        intro a ha
        rcases (d.allocations.mem_set).mp ha with rfl | ⟨ha, -⟩
        · exact h
        · exact d.batch_of_allocation a ha
      allocation_of_payout := by
        intro p hp
        rw [Table.find_set]
        split
        · rfl
        · exact d.allocation_of_payout p hp
      fresh := by
        intro a ha
        rcases (d.allocations.mem_set).mp ha with rfl | ⟨ha, -⟩
        · exact Nat.lt_succ_self _
        · exact Nat.lt_succ_of_lt (d.fresh a ha) }
  else d

/-- `createMany`. -/
def insertAllocations (d : Db) (b : BatchId) (xs : List NewAllocation) : Db :=
  xs.foldl (fun d x => d.insertAllocation b x) d

@[simp] theorem insertAllocation_payouts (d : Db) (b : BatchId) (x : NewAllocation) :
    (d.insertAllocation b x).payouts = d.payouts := by
  unfold insertAllocation; split <;> rfl

@[simp] theorem insertAllocation_batches (d : Db) (b : BatchId) (x : NewAllocation) :
    (d.insertAllocation b x).batches = d.batches := by
  unfold insertAllocation; split <;> rfl

@[simp] theorem insertAllocation_records (d : Db) (b : BatchId) (x : NewAllocation) :
    (d.insertAllocation b x).records = d.records := by
  unfold insertAllocation; split <;> rfl

@[simp] theorem insertAllocations_payouts (d : Db) (b : BatchId) (xs : List NewAllocation) :
    (d.insertAllocations b xs).payouts = d.payouts := by
  induction xs generalizing d with
  | nil => rfl
  | cons x xs ih => exact (ih _).trans (insertAllocation_payouts d b x)

@[simp] theorem insertAllocations_batches (d : Db) (b : BatchId) (xs : List NewAllocation) :
    (d.insertAllocations b xs).batches = d.batches := by
  induction xs generalizing d with
  | nil => rfl
  | cons x xs ih => exact (ih _).trans (insertAllocation_batches d b x)

@[simp] theorem insertAllocations_records (d : Db) (b : BatchId) (xs : List NewAllocation) :
    (d.insertAllocations b xs).records = d.records := by
  induction xs generalizing d with
  | nil => rfl
  | cons x xs ih => exact (ih _).trans (insertAllocation_records d b x)

/-- Ids are only drawn. -/
theorem insertAllocations_nextAllocationId (d : Db) (b : BatchId) (xs : List NewAllocation) :
    d.nextAllocationId ≤ (d.insertAllocations b xs).nextAllocationId := by
  induction xs generalizing d with
  | nil => exact le_refl _
  | cons x xs ih =>
      have hone : d.nextAllocationId ≤ (d.insertAllocation b x).nextAllocationId := by
        unfold insertAllocation; split <;> simp
      exact hone.trans (ih _)

/-- No row has the next id. -/
theorem find_nextAllocationId (d : Db) : d.allocations.find d.nextAllocationId = none := by
  rw [Table.find_eq_none_iff]
  exact fun a ha h => absurd (d.fresh a ha) (h ▸ Nat.lt_irrefl _)

/-- The rows that were there stay. -/
theorem find_insertAllocation {d : Db} {b : BatchId} {x : NewAllocation} {p : AllocationId}
    {a : WorkerAllocation} (h : d.allocations.find p = some a) :
    (d.insertAllocation b x).allocations.find p = some a := by
  unfold insertAllocation
  split
  · rw [Table.find_set, if_neg, h]
    rintro rfl
    exact absurd (h.symm.trans d.find_nextAllocationId) (Option.some_ne_none a)
  · exact h

theorem find_insertAllocations {d : Db} {b : BatchId} {xs : List NewAllocation} {p : AllocationId}
    {a : WorkerAllocation} (h : d.allocations.find p = some a) :
    (d.insertAllocations b xs).allocations.find p = some a := by
  induction xs generalizing d with
  | nil => exact h
  | cons x xs ih => exact ih (find_insertAllocation h)

/-- The new rows are appended, in order. -/
theorem rows_insertAllocations (d : Db) {b : BatchId} (hb : (d.batches.find b).isSome)
    (xs : List NewAllocation) :
    (d.insertAllocations b xs).allocations.rows =
      d.allocations.rows ++ xs.mapIdx fun i x => x.row (d.nextAllocationId + i) b := by
  induction xs generalizing d with
  | nil => simp [insertAllocations]
  | cons x xs ih =>
      have hrows : (d.insertAllocation b x).allocations.rows =
          d.allocations.rows ++ [x.row d.nextAllocationId b] := by
        rw [insertAllocation, dif_pos hb]
        exact d.allocations.rows_set_of_not_mem d.find_nextAllocationId
      have hnext : (d.insertAllocation b x).nextAllocationId = d.nextAllocationId + 1 := by
        rw [insertAllocation, dif_pos hb]
      have hb' : ((d.insertAllocation b x).batches.find b).isSome := by simpa using hb
      refine (ih _ hb').trans ?_
      rw [hrows, hnext, List.mapIdx_cons, List.append_assoc, List.singleton_append]
      simp only [Nat.add_assoc, Nat.add_comm 1, Nat.add_zero]

/-- `d'` is `d` some commands later, as far as ids go: none is drawn twice, and
an allocation stays in its batch. -/
structure KeepsIds (d d' : Db) : Prop where
  next : d.nextAllocationId ≤ d'.nextAllocationId
  batch : ∀ p a', p < d.nextAllocationId → d'.allocations.find p = some a' →
    ∃ a, d.allocations.find p = some a ∧ a.batchId = a'.batchId

theorem KeepsIds.refl (d : Db) : d.KeepsIds d := ⟨le_refl _, fun _ a' _ ha' => ⟨a', ha', rfl⟩⟩

theorem KeepsIds.trans {d d' d'' : Db} (h : d.KeepsIds d') (h' : d'.KeepsIds d'') :
    d.KeepsIds d'' where
  next := h.next.trans h'.next
  batch p a'' hp ha'' := by
    obtain ⟨a', ha', hid'⟩ := h'.batch p a'' (hp.trans_le h.next) ha''
    obtain ⟨a, ha, hid⟩ := h.batch p a' hp ha'
    exact ⟨a, ha, hid.trans hid'⟩

/-- An allocation that was there is still in its batch. -/
theorem KeepsIds.batchId {d d' : Db} (h : d.KeepsIds d') {p : AllocationId}
    {a a' : WorkerAllocation} (ha : d.allocations.find p = some a)
    (ha' : d'.allocations.find p = some a') : a'.batchId = a.batchId := by
  have hp : p < d.nextAllocationId := Table.key_of_find ha ▸ d.fresh a (Table.mem_of_find ha)
  obtain ⟨a₀, ha₀, hid⟩ := h.batch p a' hp ha'
  obtain rfl := Option.some.inj (ha.symm.trans ha₀)
  exact hid.symm

/-! ## Batches -/

/-- Write a batch row. -/
def setBatch (d : Db) (row : AllocationBatch) : Db :=
  { d with
    batches := d.batches.set row
    batch_of_allocation := by
      intro a ha
      rw [Table.find_set]
      split
      · rfl
      · exact d.batch_of_allocation a ha }

/-- Change the batch `b`; its id stays. -/
def updateBatch (d : Db) (b : BatchId) (f : AllocationBatch → AllocationBatch)
    (hf : ∀ r, (f r).id = r.id) : Db :=
  { d with
    batches := d.batches.update b f
    batch_of_allocation := by
      intro a ha
      have h := d.batch_of_allocation a ha
      rw [Table.find_update _ hf]
      split
      · next hb => simpa [hb] using h
      · exact h }

@[simp] theorem setBatch_payouts (d : Db) (row : AllocationBatch) :
    (d.setBatch row).payouts = d.payouts := rfl

@[simp] theorem setBatch_allocations (d : Db) (row : AllocationBatch) :
    (d.setBatch row).allocations = d.allocations := rfl

@[simp] theorem setBatch_batches (d : Db) (row : AllocationBatch) :
    (d.setBatch row).batches = d.batches.set row := rfl

@[simp] theorem setBatch_records (d : Db) (row : AllocationBatch) :
    (d.setBatch row).records = d.records := rfl

@[simp] theorem setBatch_nextAllocationId (d : Db) (row : AllocationBatch) :
    (d.setBatch row).nextAllocationId = d.nextAllocationId := rfl

@[simp] theorem updateBatch_payouts (d : Db) (b : BatchId)
    (f : AllocationBatch → AllocationBatch) (hf) : (d.updateBatch b f hf).payouts = d.payouts := rfl

@[simp] theorem updateBatch_allocations (d : Db) (b : BatchId)
    (f : AllocationBatch → AllocationBatch) (hf) :
    (d.updateBatch b f hf).allocations = d.allocations := rfl

@[simp] theorem updateBatch_batches (d : Db) (b : BatchId)
    (f : AllocationBatch → AllocationBatch) (hf) :
    (d.updateBatch b f hf).batches = d.batches.update b f := rfl

end Db
end ServeProof
