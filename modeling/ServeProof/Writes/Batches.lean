import ServeProof.Engine
import ServeProof.World

/-!
# ServeProof.Writes.Batches

The transactions that write a batch and its allocations: a calculation is
saved, a batch is approved, rejected or rolled up, a held share is attached to
the worker who connected an account.
-/

namespace ServeProof

/-! ## A calculation -/

/-- What `calculate` computed, before it is saved: the evidence it read, by
source hash, and the result of the engine. -/
structure Calculation where
  batchId : BatchId
  tipHashes : List Nat
  shiftHashes : List Nat
  result : AllocationBatchResult
  plannedRail : List (WorkerId × WorkerPayoutRail)
  calculatedAt : Time
  calculatedBy : Option UserId

namespace Calculation

def status (c : Calculation) : AllocationBatchStatus :=
  if c.result.HasBlockingIssue then .reviewRequired else .calculated

def evidenceHash (c : Calculation) : Digest :=
  .evidence (c.tipHashes.insertionSort (· ≤ ·)) (c.shiftHashes.insertionSort (· ≤ ·))

def allocationHash (c : Calculation) : Digest :=
  .allocation c.batchId.policyVersion c.result.poolUsdCents c.result.allocations

/-- The batch row: what the upsert writes, whether it creates or updates. -/
def batch (c : Calculation) : AllocationBatch where
  id := c.batchId
  tipPoolAmountUsdCents := c.result.poolUsdCents
  status := c.status
  evidenceHash := some c.evidenceHash
  allocationHash := some c.allocationHash
  reviewIssues := c.result.issues
  calculatedAt := some c.calculatedAt
  calculatedBy := c.calculatedBy
  approvedAt := none
  approvedBy := none

/-- The row of a share. -/
def allocation (c : Calculation) (a : WorkerAllocationResult) : NewAllocation where
  workerId := a.workerId
  provider := a.provider
  externalWorkerId := a.externalWorkerId
  pooledTipUsdCents := a.pooledTipUsdCents
  netAllocatedUsdCents := a.netAllocatedUsdCents
  plannedPayoutRail := a.workerId.bind fun id => if id = "" then none else c.plannedRail.lookup id

def allocations (c : Calculation) : List NewAllocation := c.result.allocations.map c.allocation

theorem status_recalculable (c : Calculation) : c.status.Recalculable := by
  unfold status; split <;> decide

end Calculation

/-- Two rows of one batch that the unique constraints do not allow: the same
worker, or the same external worker. -/
def NewAllocation.Clashes (x y : NewAllocation) : Prop :=
  (x.workerId.isSome ∧ x.workerId = y.workerId) ∨
    (x.provider.isSome ∧ x.externalWorkerId.isSome ∧ x.provider = y.provider ∧
      x.externalWorkerId = y.externalWorkerId)

instance (x y : NewAllocation) : Decidable (x.Clashes y) :=
  inferInstanceAs (Decidable (_ ∨ _))

/-- The columns of a stored row that a new row can clash with. -/
def WorkerAllocation.asNew (a : WorkerAllocation) : NewAllocation where
  workerId := a.workerId
  provider := a.provider
  externalWorkerId := a.externalWorkerId
  pooledTipUsdCents := a.pooledTipUsdCents
  netAllocatedUsdCents := a.netAllocatedUsdCents
  plannedPayoutRail := a.plannedPayoutRail

/-! ## The commands -/

inductive BatchWrite where
  /-- Replace the allocations of the batch and its results.  The rows are
  deleted when the batch had been read. -/
  | saveCalculation (seen : Option AllocationBatch) (calculation : Calculation)
  /-- Set `PAYABLE`, by id, with an audit entry of the values read. -/
  | approve (seen : AllocationBatch) (approvedBy : UserId) (approvedAt : Time)
  /-- Set `DRAFT`, by id. -/
  | reject (seen : AllocationBatch) (rejectedBy : UserId) (reason : String)
  /-- Set the payment status of an approved batch. -/
  | rollup (batchId : BatchId) (status : AllocationBatchStatus)
  /-- Attach a held share, as it was read, to a worker. -/
  | attach (held : WorkerAllocation) (workerId : WorkerId)

namespace BatchWrite

/-- The rows a saved calculation deletes. -/
def replaced (seen : Option AllocationBatch) (c : Calculation) (a : WorkerAllocation) : Bool :=
  seen.isSome && decide (a.batchId = c.batchId)

/-- The worker's own row in the batch of a held share. -/
def ownRow (d : Db) (held : WorkerAllocation) (workerId : WorkerId) : Option WorkerAllocation :=
  d.allocations.rows.find? fun a =>
    decide (a.batchId = held.batchId ∧ a.workerId = some workerId)

/-- The transaction goes through: no deleted row is paid, no inserted row
clashes, the updated rows exist. -/
def Applies : BatchWrite → Db → Prop
  | saveCalculation seen c, d =>
      d.Unreferenced (replaced seen c) ∧
      c.allocations.Pairwise (fun x y => ¬ x.Clashes y) ∧
      ∀ a ∈ d.allocations.rows, a.batchId = c.batchId → replaced seen c a = false →
        ∀ x ∈ c.allocations, ¬ x.Clashes a.asNew
  | approve seen .., d | reject seen .., d => (d.batches.find seen.id).isSome
  | rollup id _, d => ∃ b ∈ d.batches.rows, b.id = id ∧ b.status.Approved
  | attach held workerId, d =>
      (d.allocations.find held.id).isSome ∧
        ((ownRow d held workerId).isSome → d.Unreferenced fun a => decide (a.id = held.id))

instance decidableApplies (c : BatchWrite) (d : Db) : Decidable (c.Applies d) :=
  match c with
  | saveCalculation .. => inferInstanceAs (Decidable (_ ∧ _ ∧ ∀ a ∈ _, _))
  | approve .. | reject .. => inferInstanceAs (Decidable (_ = true))
  | rollup .. => inferInstanceAs (Decidable (∃ b ∈ _, _))
  | attach .. => inferInstanceAs (Decidable (_ ∧ _))

/-- `APPROVED` and `PAYABLE` in one step. -/
def setPayable (approvedBy : UserId) (approvedAt : Time) (b : AllocationBatch) :
    AllocationBatch :=
  { b with status := .payable, approvedBy := some approvedBy, approvedAt := some approvedAt }

def setStatus (status : AllocationBatchStatus) (b : AllocationBatch) : AllocationBatch :=
  { b with status := status }

/-- Add a held share to the worker's own row. -/
def addShare (held a : WorkerAllocation) : WorkerAllocation :=
  { a with
    pooledTipUsdCents := a.pooledTipUsdCents + held.pooledTipUsdCents
    netAllocatedUsdCents := a.netAllocatedUsdCents + held.netAllocatedUsdCents }

def setWorker (workerId : WorkerId) (a : WorkerAllocation) : WorkerAllocation :=
  { a with workerId := some workerId }

/-- The audit entry of an approval. -/
def approvedEntry (seen : AllocationBatch) (approvedBy : UserId) : AuditLog where
  venueId := seen.id.venueId
  actorUserId := approvedBy
  entityId := seen.id
  action := .allocationBatchApproved seen.allocationHash seen.evidenceHash
    seen.tipPoolAmountUsdCents

def rejectedEntry (seen : AllocationBatch) (rejectedBy : UserId) (reason : String) :
    AuditLog where
  venueId := seen.id.venueId
  actorUserId := rejectedBy
  entityId := seen.id
  action := .allocationBatchRejected reason

def effect : BatchWrite → Db → Db
  | saveCalculation seen c, d =>
      ((d.eraseAllocations (replaced seen c)).setBatch c.batch).insertAllocations c.batchId
        c.allocations
  | approve seen approvedBy approvedAt, d =>
      { d.updateBatch seen.id (setPayable approvedBy approvedAt) fun _ => rfl with
        auditLog := d.auditLog ++ [approvedEntry seen approvedBy] }
  | reject seen rejectedBy reason, d =>
      { d.updateBatch seen.id (setStatus .draft) fun _ => rfl with
        auditLog := d.auditLog ++ [rejectedEntry seen rejectedBy reason] }
  | rollup id status, d => d.updateBatch id (setStatus status) fun _ => rfl
  | attach held workerId, d =>
      match ownRow d held workerId with
      | some own =>
          (d.updateAllocation own.id (addShare held) fun _ => ⟨rfl, rfl⟩).eraseAllocations
            fun a => decide (a.id = held.id)
      | none => d.updateAllocation held.id (setWorker workerId) fun _ => ⟨rfl, rfl⟩

def apply (c : BatchWrite) (d : Db) : Db := if c.Applies d then c.effect d else d

/-! ## What a command leaves alone -/

@[simp] theorem payouts_apply (c : BatchWrite) (d : Db) : (c.apply d).payouts = d.payouts := by
  unfold apply
  split
  · cases c with
    | saveCalculation seen c => simp [effect]
    | approve seen approvedBy approvedAt => rfl
    | reject seen rejectedBy reason => rfl
    | rollup id status => rfl
    | attach held workerId =>
        simp only [effect]
        split <;> simp
  · rfl

@[simp] theorem records_apply (c : BatchWrite) (d : Db) : (c.apply d).records = d.records := by
  unfold apply
  split
  · cases c with
    | saveCalculation seen c => simp [effect]
    | approve seen approvedBy approvedAt => rfl
    | reject seen rejectedBy reason => rfl
    | rollup id status => rfl
    | attach held workerId =>
        simp only [effect]
        split <;> simp
  · rfl

/-- The batches a calculation does not save stay. -/
theorem find_batches_saveCalculation {seen : Option AllocationBatch} {c : Calculation} {d : Db}
    (h : (saveCalculation seen c).Applies d) (b : BatchId) :
    ((saveCalculation seen c).apply d).batches.find b =
      if c.batchId = b then some c.batch else d.batches.find b := by
  rw [apply, if_pos h, effect, Db.insertAllocations_batches, Db.setBatch_batches, Table.find_set,
    Db.eraseAllocations_batches]
  rfl

theorem find_batches_approve {seen : AllocationBatch} {u : UserId} {t : Time} {d : Db}
    (h : (approve seen u t).Applies d) (b : BatchId) :
    ((approve seen u t).apply d).batches.find b =
      if seen.id = b then (d.batches.find seen.id).map (setPayable u t) else d.batches.find b := by
  rw [apply, if_pos h]
  exact Table.find_update (f := setPayable u t) _ (fun _ => rfl) b

theorem find_batches_reject {seen : AllocationBatch} {u : UserId} {reason : String} {d : Db}
    (h : (reject seen u reason).Applies d) (b : BatchId) :
    ((reject seen u reason).apply d).batches.find b =
      if seen.id = b then (d.batches.find seen.id).map (setStatus .draft)
      else d.batches.find b := by
  rw [apply, if_pos h]
  exact Table.find_update (f := setStatus .draft) _ (fun _ => rfl) b

theorem find_batches_rollup {id : BatchId} {status : AllocationBatchStatus} {d : Db}
    (h : (rollup id status).Applies d) (b : BatchId) :
    ((rollup id status).apply d).batches.find b =
      if id = b then (d.batches.find id).map (setStatus status) else d.batches.find b := by
  rw [apply, if_pos h]
  exact Table.find_update (f := setStatus status) _ (fun _ => rfl) b

@[simp] theorem allocations_approve (seen : AllocationBatch) (u : UserId) (t : Time) (d : Db) :
    ((approve seen u t).apply d).allocations = d.allocations := by
  unfold apply; split <;> rfl

@[simp] theorem allocations_reject (seen : AllocationBatch) (u : UserId) (reason : String)
    (d : Db) : ((reject seen u reason).apply d).allocations = d.allocations := by
  unfold apply; split <;> rfl

@[simp] theorem allocations_rollup (id : BatchId) (status : AllocationBatchStatus) (d : Db) :
    ((rollup id status).apply d).allocations = d.allocations := by
  unfold apply; split <;> rfl

@[simp] theorem batches_attach (held : WorkerAllocation) (workerId : WorkerId) (d : Db) :
    ((attach held workerId).apply d).batches = d.batches := by
  unfold apply
  split
  · simp only [effect]
    split <;> simp
  · rfl

/-- How a command leaves the row of the batch `b`. -/
inductive Leaves (d : Db) (b : BatchId) : BatchWrite → Option AllocationBatch → Prop where
  | kept (c : BatchWrite) : Leaves d b c (d.batches.find b)
  | saved (seen : Option AllocationBatch) (c : Calculation)
      (h : (saveCalculation seen c).Applies d) (hb : c.batchId = b) :
      Leaves d b (saveCalculation seen c) (some c.batch)
  | approved (seen : AllocationBatch) (u : UserId) (t : Time) (r : AllocationBatch)
      (hb : seen.id = b) (hr : d.batches.find b = some r) :
      Leaves d b (approve seen u t) (some (setPayable u t r))
  | rejected (seen : AllocationBatch) (u : UserId) (reason : String) (r : AllocationBatch)
      (hb : seen.id = b) (hr : d.batches.find b = some r) :
      Leaves d b (reject seen u reason) (some (setStatus .draft r))
  | rolledUp (status : AllocationBatchStatus) (r : AllocationBatch)
      (hr : d.batches.find b = some r) (hs : r.status.Approved) :
      Leaves d b (rollup b status) (some (setStatus status r))

/-- Every command leaves a batch in one of these ways. -/
theorem leaves (c : BatchWrite) (d : Db) (b : BatchId) :
    Leaves d b c ((c.apply d).batches.find b) := by
  by_cases h : c.Applies d
  · cases c with
    | saveCalculation seen c =>
        rw [find_batches_saveCalculation h]
        split
        · next hb => exact .saved seen c h hb
        · exact .kept _
    | approve seen u t =>
        rw [find_batches_approve h]
        split
        · next hb =>
          obtain ⟨r, hr⟩ := Option.isSome_iff_exists.mp h
          rw [hr]
          exact .approved seen u t r hb (hb ▸ hr)
        · exact .kept _
    | reject seen u reason =>
        rw [find_batches_reject h]
        split
        · next hb =>
          obtain ⟨r, hr⟩ := Option.isSome_iff_exists.mp h
          rw [hr]
          exact .rejected seen u reason r hb (hb ▸ hr)
        · exact .kept _
    | rollup id status =>
        rw [find_batches_rollup h]
        split
        · next hb =>
          subst hb
          obtain ⟨r, hr, rfl, hs⟩ := h
          rw [Table.find_key hr]
          exact .rolledUp status r (Table.find_key hr) hs
        · exact .kept _
    | attach held workerId =>
        rw [batches_attach]
        exact .kept _
  · rw [apply, if_neg h]
    exact .kept c

/-! ## Allocations -/

/-- The rows of a batch. -/
def rowsOf (d : Db) (b : BatchId) : List WorkerAllocation :=
  d.allocations.rows.filter fun a => decide (a.batchId = b)

theorem mem_rowsOf {d : Db} {b : BatchId} {a : WorkerAllocation} :
    a ∈ rowsOf d b ↔ a ∈ d.allocations.rows ∧ a.batchId = b := by
  simp [rowsOf]

/-- The rows a saved calculation appends. -/
def newRows (c : Calculation) (first : AllocationId) : List WorkerAllocation :=
  c.allocations.mapIdx fun i x => x.row (first + i) c.batchId

theorem batchId_of_newRows {c : Calculation} {first : AllocationId} {a : WorkerAllocation}
    (h : a ∈ newRows c first) : a.batchId = c.batchId := by
  obtain ⟨i, hi, rfl⟩ := List.mem_mapIdx.mp h
  rfl

/-- The new rows show the shares of the result. -/
theorem map_newRows {β : Type} (c : Calculation) (first : AllocationId) {f : WorkerAllocation → β}
    {g : WorkerAllocationResult → β}
    (hfg : ∀ x id, f ((c.allocation x).row id c.batchId) = g x) :
    (newRows c first).map f = c.result.allocations.map g := by
  refine List.ext_getElem (by simp [newRows, Calculation.allocations]) fun i _ _ => ?_
  simp only [newRows, Calculation.allocations, List.getElem_map, List.getElem_mapIdx, hfg]

/-- A saved calculation deletes the replaced rows, and appends its own. -/
theorem rows_saveCalculation {seen : Option AllocationBatch} {c : Calculation} {d : Db}
    (h : (saveCalculation seen c).Applies d) :
    ((saveCalculation seen c).apply d).allocations.rows =
      (d.allocations.rows.filter fun a => !replaced seen c a) ++ newRows c d.nextAllocationId := by
  rw [apply, if_pos h, effect, Db.rows_insertAllocations]
  · rw [Db.setBatch_allocations, Db.eraseAllocations_allocations h.1,
      Db.setBatch_nextAllocationId, Db.eraseAllocations_nextAllocationId]
    rfl
  · rw [Db.setBatch_batches, show c.batchId = c.batch.id from rfl, Table.find_set_self]
    rfl

/-- The rows of other batches stay. -/
theorem rowsOf_saveCalculation_of_ne {seen : Option AllocationBatch} {c : Calculation} {d : Db}
    (h : (saveCalculation seen c).Applies d) {b : BatchId} (hb : c.batchId ≠ b) :
    rowsOf ((saveCalculation seen c).apply d) b = rowsOf d b := by
  have hrows := rows_saveCalculation h
  have hnew : (newRows c d.nextAllocationId).filter (fun a => decide (a.batchId = b)) = [] := by
    rw [List.filter_eq_nil_iff]
    intro a ha
    simp [batchId_of_newRows ha, hb]
  have hold : ∀ a : WorkerAllocation, (decide (a.batchId = b) && !replaced seen c a) =
      decide (a.batchId = b) := by
    intro a
    by_cases ha : a.batchId = b
    · simp [replaced, ha, Ne.symm hb]
    · simp [ha]
  rw [rowsOf, hrows, List.filter_append, hnew, List.append_nil, List.filter_filter]
  simp only [hold]
  rfl

/-- The rows of the batch are the new ones, when every old one was replaced. -/
theorem rowsOf_saveCalculation {seen : Option AllocationBatch} {c : Calculation} {d : Db}
    (h : (saveCalculation seen c).Applies d) (hseen : seen = none → rowsOf d c.batchId = []) :
    rowsOf ((saveCalculation seen c).apply d) c.batchId = newRows c d.nextAllocationId := by
  have hrows := rows_saveCalculation h
  have hnew : (newRows c d.nextAllocationId).filter (fun a => decide (a.batchId = c.batchId)) =
      newRows c d.nextAllocationId := by
    rw [List.filter_eq_self]
    intro a ha
    simp [batchId_of_newRows ha]
  rw [rowsOf, hrows, List.filter_append, hnew, List.filter_filter]
  cases seen with
  | none =>
      have hempty := hseen rfl
      simp only [replaced, Option.isSome_none, Bool.false_and, Bool.not_false, Bool.and_true]
      rw [show d.allocations.rows.filter (fun a => decide (a.batchId = c.batchId)) = [] from hempty,
        List.nil_append]
  | some old =>
      have hnone : ∀ a : WorkerAllocation, (decide (a.batchId = c.batchId) &&
          !replaced (some old) c a) = false := by
        intro a
        by_cases ha : a.batchId = c.batchId <;> simp [replaced, ha]
      simp only [hnone]
      simp

theorem find_ownRow {d : Db} {held own : WorkerAllocation} {workerId : WorkerId}
    (h : ownRow d held workerId = some own) :
    d.allocations.find own.id = some own ∧ own.batchId = held.batchId ∧
      own.workerId = some workerId := by
  have hown := List.find?_some h
  simp only [decide_eq_true_eq] at hown
  exact ⟨Table.find_key (List.mem_of_find?_eq_some h), hown⟩

/-- A held share is merged into the worker's own row, and deleted. -/
theorem allocations_merge {d : Db} {held own : WorkerAllocation} {workerId : WorkerId}
    (h : (attach held workerId).Applies d) (hown : ownRow d held workerId = some own) :
    ((attach held workerId).apply d).allocations =
      (d.allocations.update own.id (addShare held)).erase fun a => decide (a.id = held.id) := by
  have hfree : (d.updateAllocation own.id (addShare held) fun _ => ⟨rfl, rfl⟩).Unreferenced
      fun a => decide (a.id = held.id) := by
    intro x hx a ha hax
    rcases (d.allocations.mem_update (f := addShare held) fun _ => rfl).mp ha with
      ⟨ha, -⟩ | ⟨r, hr, -, rfl⟩
    · exact h.2 (by rw [hown]; rfl) x hx a ha hax
    · exact h.2 (by rw [hown]; rfl) x hx r hr hax
  rw [apply, if_pos h, effect]
  simp only [hown]
  rw [Db.eraseAllocations_allocations hfree, Db.updateAllocation_allocations]

theorem find_allocations_merge {d : Db} {held own : WorkerAllocation} {workerId : WorkerId}
    (h : (attach held workerId).Applies d) (hown : ownRow d held workerId = some own)
    (p : AllocationId) :
    ((attach held workerId).apply d).allocations.find p =
      if held.id = p then none
      else if own.id = p then some (addShare held own) else d.allocations.find p := by
  rw [allocations_merge h hown, Table.find_erase_key,
    Table.find_update (f := addShare held) _ fun _ => rfl, (find_ownRow hown).1]
  rfl

/-- A held share goes to its worker. -/
theorem allocations_setWorker {d : Db} {held : WorkerAllocation} {workerId : WorkerId}
    (h : (attach held workerId).Applies d) (hown : ownRow d held workerId = none) :
    ((attach held workerId).apply d).allocations =
      d.allocations.update held.id (setWorker workerId) := by
  rw [apply, if_pos h, effect]
  simp only [hown]
  rw [Db.updateAllocation_allocations]

theorem find_allocations_setWorker {d : Db} {held : WorkerAllocation} {workerId : WorkerId}
    (h : (attach held workerId).Applies d) (hown : ownRow d held workerId = none)
    (p : AllocationId) :
    ((attach held workerId).apply d).allocations.find p =
      if held.id = p then (d.allocations.find held.id).map (setWorker workerId)
      else d.allocations.find p := by
  rw [allocations_setWorker h hown]
  exact Table.find_update (f := setWorker workerId) _ (fun _ => rfl) p

/-! An allocation that is paid, or being paid, is never deleted. -/

section Paid

variable {d : Db} {p : AllocationId} {a : WorkerAllocation} {x : Payout}

theorem find_allocations_saveCalculation {seen : Option AllocationBatch} {c : Calculation}
    (ha : d.allocations.find p = some a) (hkeep : replaced seen c a = true →
      (d.payouts.find p).isSome) :
    ((saveCalculation seen c).apply d).allocations.find p = some a := by
  unfold apply
  split
  · next h =>
    have hout : replaced seen c a = false := by
      by_contra hin
      obtain ⟨x, hx⟩ := Option.isSome_iff_exists.mp (hkeep (by simpa using hin))
      have hid : a.id = x.paymentId :=
        (Table.key_of_find ha).trans (Table.key_of_find hx).symm
      exact hin (h.1 x (Table.mem_of_find hx) a (Table.mem_of_find ha) hid)
    refine Db.find_insertAllocations ?_
    rw [Db.setBatch_allocations, Db.eraseAllocations_allocations h.1, Table.find_erase, ha]
    simp [hout]
  · exact ha

/-- Only attaching a held share changes an allocation with a payout: it may grow
by the share, or get its worker. -/
theorem find_allocations_apply (ha : d.allocations.find p = some a)
    (hx : d.payouts.find p = some x) (c : BatchWrite) :
    (c.apply d).allocations.find p = some a ∨
      ∃ held workerId, c = attach held workerId ∧
        ((ownRow d held workerId = some a ∧
            (c.apply d).allocations.find p = some (addShare held a)) ∨
          (held.id = p ∧ ownRow d held workerId = none ∧
            (c.apply d).allocations.find p = some (setWorker workerId a))) := by
  cases c with
  | saveCalculation seen c =>
      exact .inl (find_allocations_saveCalculation ha fun _ => by rw [hx]; rfl)
  | approve | reject | rollup => exact .inl (by simpa using ha)
  | attach held workerId =>
      by_cases h : (attach held workerId).Applies d
      · cases hown : ownRow d held workerId with
        | none =>
            rw [find_allocations_setWorker h hown]
            by_cases hp : held.id = p
            · exact .inr ⟨held, workerId, rfl, .inr ⟨hp, hown, by rw [if_pos hp, hp, ha]; rfl⟩⟩
            · exact .inl (by rw [if_neg hp, ha])
        | some own =>
            have hheld : held.id ≠ p := by
              intro hp
              have hfree := h.2 (by rw [hown]; rfl) x (Table.mem_of_find hx) a
                (Table.mem_of_find ha) ((Table.key_of_find ha).trans (Table.key_of_find hx).symm)
              simp [hp, Table.key_of_find ha] at hfree
            rw [find_allocations_merge h hown, if_neg hheld]
            by_cases hp : own.id = p
            · have : own = a := by
                rw [← hp, (find_ownRow hown).1] at ha
                exact Option.some.inj ha
              subst this
              exact .inr ⟨held, workerId, rfl, .inl ⟨hown, by rw [if_pos hp]⟩⟩
            · exact .inl (by rw [if_neg hp, ha])
      · exact .inl (by rw [apply, if_neg h, ha])

/-- Its payment status stays, and so does its worker. -/
theorem payoutStatus_apply (ha : d.allocations.find p = some a) (hx : d.payouts.find p = some x)
    (c : BatchWrite) :
    ∃ a', (c.apply d).allocations.find p = some a' ∧ a'.payoutStatus = a.payoutStatus ∧
      a'.batchId = a.batchId ∧ (a.workerId.isSome → a'.workerId.isSome) := by
  rcases find_allocations_apply ha hx c with
    h | ⟨held, workerId, rfl, ⟨-, h⟩ | ⟨-, -, h⟩⟩
  · exact ⟨a, h, rfl, rfl, id⟩
  · exact ⟨_, h, rfl, rfl, id⟩
  · exact ⟨_, h, rfl, rfl, fun _ => rfl⟩

end Paid

/-- An allocation after a command is a new one, or was in the same batch and of
the same payment status before. -/
theorem allocation_before {d : Db} {c : BatchWrite} {p : AllocationId} {a' : WorkerAllocation}
    (ha' : (c.apply d).allocations.find p = some a') :
    (d.nextAllocationId ≤ p ∧ a'.payoutStatus = .unpaid) ∨
      ∃ a, d.allocations.find p = some a ∧ a.batchId = a'.batchId ∧
        a.payoutStatus = a'.payoutStatus := by
  by_cases h : c.Applies d
  · cases c with
    | saveCalculation seen c =>
        have hmem := Table.mem_of_find ha'
        rw [rows_saveCalculation h, List.mem_append, List.mem_filter] at hmem
        rcases hmem with ⟨hold, -⟩ | hnew
        · obtain rfl := Table.key_of_find ha'
          exact .inr ⟨a', Table.find_key hold, rfl, rfl⟩
        · obtain ⟨i, hi, rfl⟩ := List.mem_mapIdx.mp hnew
          obtain rfl := Table.key_of_find ha'
          exact .inl ⟨Nat.le_add_right _ i, rfl⟩
    | approve | reject | rollup => exact .inr ⟨a', by simpa using ha', rfl, rfl⟩
    | attach held workerId =>
        cases hown : ownRow d held workerId with
        | none =>
            rw [find_allocations_setWorker h hown] at ha'
            split at ha'
            · next hp =>
              obtain ⟨a, ha, rfl⟩ := Option.map_eq_some_iff.mp ha'
              exact .inr ⟨a, hp ▸ ha, rfl, rfl⟩
            · exact .inr ⟨a', ha', rfl, rfl⟩
        | some own =>
            rw [find_allocations_merge h hown] at ha'
            split at ha'
            · contradiction
            · split at ha'
              · next hp =>
                obtain rfl := Option.some.inj ha'
                exact .inr ⟨own, hp ▸ (find_ownRow hown).1, rfl, rfl⟩
              · exact .inr ⟨a', ha', rfl, rfl⟩
  · rw [apply, if_neg h] at ha'
    exact .inr ⟨a', ha', rfl, rfl⟩

/-- Ids are only drawn. -/
theorem nextAllocationId_apply (c : BatchWrite) (d : Db) :
    d.nextAllocationId ≤ (c.apply d).nextAllocationId := by
  unfold apply
  split
  · cases c with
    | saveCalculation seen c =>
        refine le_trans (le_of_eq ?_) (Db.insertAllocations_nextAllocationId _ _ _)
        simp
    | approve | reject | rollup => exact le_refl _
    | attach held workerId =>
        simp only [effect]
        split <;> simp
  · exact le_refl _

end BatchWrite
end ServeProof
