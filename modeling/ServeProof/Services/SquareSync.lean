import ServeProof.Services.Evidence
import ServeProof.Sources.Square

/-!
# ServeProof.Services.SquareSync

How a sync of a Square connection stores what it has fetched.
-/

namespace ServeProof

open Interleave
open Prog (get forEach)

def ProviderTipEvidence.row (venueId : VenueId) (tip : ProviderTipEvidence) : TipEvidence where
  id := ⟨venueId, tip.provider, tip.externalPaymentId, tip.tipType⟩
  grossAmountUsdCents := tip.grossAmountUsdCents
  paymentStatus := tip.paymentStatus
  refundStatus := tip.refundStatus
  businessDate := tip.businessDate
  sourceHash := tip.sourceHash

/-- The row of a shift; what it says of payout and payroll stays. -/
def ProviderShiftEvidence.row (venueId : VenueId) (shift : ProviderShiftEvidence)
    (mappedWorkerId : Option WorkerId) (old : Option ShiftEvidence) : ShiftEvidence where
  id := ⟨venueId, shift.provider, shift.externalShiftId⟩
  ingestSource := .providerApi
  externalWorkerId := shift.externalWorkerId
  mappedWorkerId := mappedWorkerId
  role := shift.role
  clockIn := shift.clockIn
  clockOut := shift.clockOut
  workedMinutes := shift.workedMinutes
  shiftStatus := shift.shiftStatus
  businessDate := shift.businessDate
  sourceHash := shift.sourceHash
  sourcePayoutRail := old.bind ShiftEvidence.sourcePayoutRail
  sourcePayrollStatus := old.bind ShiftEvidence.sourcePayrollStatus

/-- The worker a confirmed Square account maps an external id to; the last account
with an id wins. -/
def squareWorkerByExternalId (accounts : List ExternalWorkerAccount) (externalWorkerId : String) :
    Option WorkerId :=
  (accounts.reverse.find? fun a => decide (a.id.provider = SquareClient.provider ∧
    a.id.externalWorkerId = externalWorkerId)).map ExternalWorkerAccount.workerId

def persist (venueId : VenueId) (tips : List ProviderTipEvidence)
    (shifts : List ProviderShiftEvidence) : Service Unit := do
  let mappings ← get fun w => w.confirmedAccounts venueId
  forEach tips fun tip => do
    let _ ← commit (.record (.saveTip (tip.row venueId)))
  forEach shifts fun shift => do
    let old ← get fun w => w.db.shifts.find ⟨venueId, shift.provider, shift.externalShiftId⟩
    let _ ← commit (.record (.saveShift (shift.row venueId
      (squareWorkerByExternalId mappings shift.externalWorkerId) old)))

end ServeProof
