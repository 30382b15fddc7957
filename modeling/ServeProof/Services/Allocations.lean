import ServeProof.Writes

/-!
# ServeProof.Services.Allocations

The allocation service of the API: a batch is calculated from the evidence of
a business date, approved, rejected.

Rows a query returns without an order are taken in the order of the table.
-/

namespace ServeProof

open Interleave
open Prog (get require orThrow)

/-! ## Engine input -/

def TipEvidence.input (t : TipEvidence) : AllocationTipInput where
  tipType := t.id.tipType
  grossAmountUsdCents := t.grossAmountUsdCents
  paymentStatus := t.paymentStatus
  refundStatus := t.refundStatus

def ShiftEvidence.input (s : ShiftEvidence) : AllocationShiftInput where
  workerId := s.mappedWorkerId
  externalWorkerId := s.externalWorkerId
  provider := s.id.provider
  role := s.role
  workedMinutes := s.workedMinutes
  shiftStatus := s.shiftStatus

def AllocationPolicy.input (p : AllocationPolicy) : AllocationPolicyInput where
  roleWeights := p.roleWeights
  excludedRoles := p.excludedRoles
  poolInclusion := p.poolInclusion

def World.tipsOn (w : World) (venueId : VenueId) (businessDate : String) : List TipEvidence :=
  w.db.tips.rows.filter fun t => decide (t.id.venueId = venueId ∧ t.businessDate = businessDate)

def World.shiftsOn (w : World) (venueId : VenueId) (businessDate : String) :
    List ShiftEvidence :=
  w.db.shifts.rows.filter fun s => decide (s.id.venueId = venueId ∧ s.businessDate = businessDate)

/-- The policy of the requested version, or the latest active one.  Version 0
is falsy. -/
def World.policyFor (w : World) (venueId : VenueId) (policyVersion : Option Nat) :
    Option AllocationPolicy :=
  match policyVersion.filter (· ≠ 0) with
  | some version => w.db.policies.find ⟨venueId, version⟩
  | none =>
      (w.db.policies.rows.filter fun p =>
        decide (p.id.venueId = venueId ∧ p.status = .active)).foldl
        (fun latest p =>
          match latest with
          | none => some p
          | some q => if q.id.version < p.id.version then some p else some q) none

/-! ## Planned rails -/

/-- `plannedRailByWorker` and `conflictingRailWorkers`. -/
structure PlannedRails where
  planned : List (WorkerId × WorkerPayoutRail)
  conflicting : List WorkerId

/-- The body of the loop over the shifts. -/
def addPlannedRail (rails : PlannedRails) (shift : ShiftEvidence) : PlannedRails :=
  match shift.mappedWorkerId.filter (· ≠ ""), shift.sourcePayoutRail with
  | some worker, some rail =>
      let others := rails.planned.filter fun x => decide (x.1 ≠ worker)
      match rails.planned.lookup worker with
      | some previous =>
          if previous ≠ rail then ⟨others, worker :: rails.conflicting⟩
          else if worker ∈ rails.conflicting then rails
          else { rails with planned := (worker, rail) :: others }
      | none =>
          if worker ∈ rails.conflicting then rails
          else { rails with planned := (worker, rail) :: others }
  | _, _ => rails

def plannedRailByWorker (shifts : List ShiftEvidence) : List (WorkerId × WorkerPayoutRail) :=
  (shifts.foldl addPlannedRail ⟨[], []⟩).planned

/-! ## calculate -/

/-- Load the evidence of the business date, run the engine, and store the batch
as `CALCULATED` or `REVIEW_REQUIRED`. -/
def calculate [Collation] (venueId : VenueId) (businessDate : String)
    (policyVersion : Option Nat) (calculatedBy : Option UserId) (now : Time) :
    Service AllocationBatch := do
  let venue ← get fun w => w.db.venues.find venueId
  let _ ← orThrow venue (.notFound s!"Venue {venueId} not found")
  let found ← get fun w => w.policyFor venueId policyVersion
  let policy ← orThrow found (.notFound "No allocation policy found for venue")
  let tips ← get fun w => w.tipsOn venueId businessDate
  let shifts ← get fun w => w.shiftsOn venueId businessDate
  require (¬ (tips = [] ∧ shifts = []))
    (.badRequest s!"No evidence for venue on business date {businessDate}")
  -- recalculation must not mutate an approved batch
  let batchId : BatchId := ⟨venueId, businessDate, policy.id.version⟩
  let existing ← get fun w => w.db.batches.find batchId
  require (∀ b ∈ existing, b.status.Recalculable)
    (.conflict ("Batch is " ++ (existing.map fun b => b.status.text).getD "UNKNOWN" ++
      "; corrections must go through the correction ledger"))
  let computed :=
    computeAllocationBatch (tips.map TipEvidence.input) (shifts.map ShiftEvidence.input)
      policy.input
  let result ← orThrow computed.toOption (.internal "Allocation invariant violated")
  let calculation : Calculation :=
    { batchId := batchId
      tipHashes := tips.map TipEvidence.sourceHash
      shiftHashes := shifts.map ShiftEvidence.sourceHash
      result := result
      plannedRail := plannedRailByWorker shifts
      calculatedAt := now
      calculatedBy := calculatedBy }
  transact (.batch (.saveCalculation existing calculation))
    (.internal "Constraint failed on WorkerAllocation")
  let saved ← get fun w => w.db.batches.find batchId
  orThrow saved (.notFound "Batch not found")

/-! ## approve, reject -/

/-- Approval: `CALCULATED` to `PAYABLE` in one step. -/
def approve (id : BatchId) (approvedBy : UserId) (now : Time) : Service Unit := do
  let found ← get fun w => w.db.batches.find id
  let batch ← orThrow found (.notFound "Batch not found")
  require (batch.status ≠ .reviewRequired)
    (.badRequest "Batch has blocking review issues; resolve them first")
  require (batch.status = .calculated)
    (.conflict ("Batch is " ++ batch.status.text ++ "; only CALCULATED can be approved"))
  transact (.batch (.approve batch approvedBy now)) (.internal "Record to update not found")

def reject (id : BatchId) (rejectedBy : UserId) (reason : String) : Service Unit := do
  let found ← get fun w => w.db.batches.find id
  let batch ← orThrow found (.notFound "Batch not found")
  require (batch.status ∈ [.calculated, .reviewRequired])
    (.conflict ("Batch is " ++ batch.status.text ++ "; cannot reject"))
  transact (.batch (.reject batch rejectedBy reason)) (.internal "Record to update not found")

end ServeProof
