import ServeProof.Requests
import ServeProof.Services.Income

/-!
# ServeProof.Services.Operations

The payout operations of the API and the jobs of the worker with the refreshes of
the income projection they end in, and the import of payroll records.

Every refresh is the last thing its operation does, or the last thing a turn of
its loop does; so an operation is one of the settlement core and a refresh.
-/

namespace ServeProof

open Interleave
open Prog (get put orThrow mapEach forEach when)

/-! ## Payout operations -/

/-- Refresh the venue of an allocation. -/
def refreshVenueOf (session : Nat) (allocationId : AllocationId) (actorUserId : Option UserId) :
    Action Unit := do
  let found ← get fun s => s.venueOf allocationId
  match found with
  | none => pure ()
  | some venueId => rebuildIncomeProjection session venueId actorUserId

/-- Refresh the venue of a payout that is final. -/
def refreshFinalized (session : Nat) (payoutId : AllocationId) : Action Unit := do
  let found ← get fun s =>
    (s.world.db.payouts.find payoutId).filter fun p => decide (p.status = .finalized)
  match found with
  | none => pure ()
  | some payout => rebuildIncomeProjection session payout.venueId none

/-- A payout that is final already is healed, and its venue refreshed. -/
def createAndRefresh (session : Nat) (allocationId : AllocationId)
    (initiatedByUserId : Option UserId) : Action Unit := do
  let payout ← settling (createUsdcPayout allocationId initiatedByUserId)
  when (payout.status = .finalized) (refreshVenueOf session allocationId initiatedByUserId)

/-- `processConfirmation`: the job of a payout that is final, or has become final,
refreshes its venue. -/
def confirmAndRefresh (session : Nat) (payoutId : AllocationId) (signature : Signature)
    (now : Time) : Action Unit := do
  settling (processConfirmation payoutId signature now)
  refreshFinalized session payoutId

/-- `reconcileStalePayouts`: a payout that has become final refreshes its venue
before the next one is looked at. -/
def reconcileAndRefresh (session : Nat) (now : Time) : Action Unit := do
  let stale ← get fun s => s.world.stalePayouts
  if stale = [] then pure ()
  else do
    let currentBlockHeight ← get fun s => s.world.chain.getBlockHeight .confirmed
    forEach stale fun payout => do
      settling (reconcilePayout currentBlockHeight now payout)
      refreshFinalized session payout.paymentId

/-- When the worker starts. -/
def backfillFinalizedIncomeProjections (session : Nat) : Action Unit := do
  let venues ← get fun s => ((s.world.db.payouts.rows.filter fun p =>
    decide (p.status = .finalized)).map Payout.venueId).dedup
  forEach venues fun venueId => rebuildIncomeProjection session venueId none

def payoutOperation (session : Nat) : PayoutCall → Action Unit
  | .createUsdcPayout p by' => createAndRefresh session p by'
  | .buildTransaction p by' now => settling (discardResult (buildTransaction p by' now))
  | .submitSigned p payload by' now sendError =>
      settling (discardResult (submitSigned p payload by' now sendError))
  | .registerLegacyEvidence p rail reference by' now =>
      Request.ignoreResult (finalizeLegacy session p rail reference by' now)

def workerJob (session : Nat) : WorkerCall → Action Unit
  | .processConfirmation p signature now => confirmAndRefresh session p signature now
  | .reconcileStalePayouts now => reconcileAndRefresh session now
  | .onPayoutSettled p => settling (onPayoutSettled p)

/-! ## importRecords -/

structure PayrollImportRecord where
  workerEmail : String
  periodStart : Date
  periodEnd : Date
  reportedTipUsdCents : Int
  federalWithholdingUsdCents : Option Int
  status : PayrollRecordStatus
  deriving DecidableEq, Repr

/-- The record of the worker over the period, if there is one. -/
def Books.findPayroll (b : Books) (venueId : VenueId) (workerId : WorkerId)
    (record : PayrollImportRecord) : Option PayrollRecord :=
  b.payrollRecords.rows.find? fun r => decide (r.workerId = workerId ∧ r.venueId = venueId ∧
    r.periodStart = record.periodStart ∧ r.periodEnd = record.periodEnd)

/-- The row of a record, under the id of the row that is there or a new one. -/
def Books.payrollRow (b : Books) (venueId : VenueId) (workerId : WorkerId)
    (record : PayrollImportRecord) : PayrollRecord where
  id := ((b.findPayroll venueId workerId record).map PayrollRecord.id).getD
    ((b.payrollRecords.rows.map PayrollRecord.id).foldr max 0 + 1)
  workerId := workerId
  venueId := venueId
  periodStart := record.periodStart
  periodEnd := record.periodEnd
  reportedTipUsdCents := record.reportedTipUsdCents
  federalWithholdingUsdCents := record.federalWithholdingUsdCents
  status := record.status

section Import

-- the worker profile of the user with an email
variable (workerOfEmail : String → Option WorkerId)

/-- One record: was it imported?  Without a worker it is skipped. -/
def importRecord (venueId : VenueId) (record : PayrollImportRecord) : Action Bool :=
  match workerOfEmail record.workerEmail with
  | none => pure false
  | some workerId => do
      let row ← get fun s => s.books.payrollRow venueId workerId record
      put (.books (.savePayroll row))
      return true

/-- The number of records that were imported.  Payroll changes shift the whole
picture, so the projection is rebuilt. -/
def importRecords (session : Nat) (venueId : VenueId) (records : List PayrollImportRecord) :
    Action Nat := do
  let found ← get fun s => s.world.db.venues.find venueId
  let _ ← orThrow found (.notFound s!"Venue {venueId} not found")
  let imported ← mapEach records (importRecord workerOfEmail venueId)
  let _ ← rebuildVenue session venueId none .payrollImport
  return imported.count true

end Import

end ServeProof
