import ServeProof.Money
import ServeProof.Services.Evidence
import ServeProof.Sources.Square

/-!
# ServeProof.Sources.Csv

`normalizeCsv`: what the rows of a CSV become, once they have passed their
schema.  The split of the text into rows is `Sources.CsvFile`.
-/

namespace ServeProof

/-! ## Rows -/

/-- A row that has passed its schema: its amount is one of dollars and cents, and
not negative. -/
structure CsvEvidenceRow where
  provider : String
  workerExternalId : String
  shiftExternalId : String
  tipType : TipType
  grossTip : String
  clockIn : Date
  clockOut : Date
  role : String
  payoutRoute : WorkerPayoutRail
  payrollStatus : String
  grossTip_valid : ∃ cents ∈ parseUsdToCents grossTip, 0 ≤ cents

/-- The amount of a row, in cents. -/
def CsvEvidenceRow.grossCents (row : CsvEvidenceRow) : Int :=
  (parseUsdToCents row.grossTip).getD 0

section Normalize

variable (businessDate : Date → String) (hash : CsvEvidenceRow → Nat)

/-- The tip of a row; an amount of nothing is none. -/
def csvTip (row : CsvEvidenceRow) : Option NormalizedTip :=
  if h : 0 < row.grossCents then
    some
      { provider := row.provider
        externalPaymentId := "csv:" ++ row.shiftExternalId
        tipType := row.tipType
        grossAmountUsdCents := row.grossCents
        businessDate := businessDate row.clockIn
        sourceHash := hash row
        positive := h }
  else none

def csvShift (row : CsvEvidenceRow) : NormalizedShift where
  provider := row.provider
  externalShiftId := row.shiftExternalId
  externalWorkerId := row.workerExternalId
  role := row.role
  clockIn := row.clockIn
  clockOut := row.clockOut
  workedMinutes := minutesBetween row.clockIn row.clockOut
  businessDate := businessDate row.clockIn
  sourceHash := hash row
  sourcePayoutRail := some row.payoutRoute
  sourcePayrollStatus := row.payrollStatus

def normalizeCsv (rows : List CsvEvidenceRow) : CsvNormalizationResult where
  tips := rows.filterMap (csvTip businessDate hash)
  shifts := rows.map (csvShift businessDate hash)

end Normalize

end ServeProof
