import Mathlib.Data.List.Sort
import Mathlib.Data.Rat.Floor
import ServeProof.Income.Schema
import ServeProof.Text

/-!
# ServeProof.Income.Projector

What a rebuild makes of the evidence of a venue: for each shift that is mapped
to a worker the columns of its income entry, and the alerts.

All of it is a function of what the rebuild reads (`Evidence`).  Amounts are
whole cents; the shares are computed in exact arithmetic.
-/

namespace ServeProof

/-! ## splitProportionally -/

/-- Hand out `remainder` cents, one at a time, along `order`. -/
def handOut (order : List Nat) : Nat → Nat → List Int → List Int
  | 0, _, slices => slices
  | remainder + 1, cursor, slices =>
      handOut order remainder ((cursor + 1) % order.length)
        (slices.modify (order.getD cursor 0) (· + 1))

/-- Larger fractions first, then in the order of the weights. -/
def FractionFirst (a b : ℚ × Nat) : Prop := b.1 < a.1 ∨ a.1 = b.1 ∧ a.2 ≤ b.2

instance : DecidableRel FractionFirst := fun _ _ => inferInstanceAs (Decidable (_ ∨ _))

/-- Split `totalCents` in proportion to the weights, evenly when they sum to
nothing; the cents that are left over go to the largest fractions. -/
def splitProportionally (totalCents : Int) (weights : List Int) : List Int :=
  if weights = [] then []
  else
    let effective := if 0 < weights.sum then weights else weights.map fun _ => 1
    let raw : List ℚ := effective.map fun weight => totalCents * weight / effective.sum
    let slices := raw.map fun r => ⌊r⌋
    let order := (raw.mapIdx fun index (r : ℚ) => (r - ⌊r⌋, index)).insertionSort FractionFirst
    handOut (order.map Prod.snd) (totalCents - slices.sum).toNat 0 slices

example : splitProportionally 100 [60, 60, 60] = [34, 33, 33] := by decide +kernel

/-! ## computeGrade -/

structure GradeInput where
  hasTipEvidence : Bool
  hasShiftEvidence : Bool
  hasApprovedAllocation : Bool
  usdcFinalized : Bool
  venueAttestedPayout : Bool
  payrollConfirmed : Bool

def computeGrade (input : GradeInput) : EvidenceGrade :=
  let base := input.hasTipEvidence && input.hasShiftEvidence
  if base && input.hasApprovedAllocation &&
      (input.usdcFinalized || input.venueAttestedPayout) && input.payrollConfirmed then .a
  else if base && input.hasApprovedAllocation && input.usdcFinalized then .b
  else if base && input.hasApprovedAllocation && input.venueAttestedPayout then .c
  else if base then .d
  else .e

/-! ## Dates -/

/-- The days of the years before `year`, from the year 0 on. -/
def daysBeforeYear (year : Nat) : Nat :=
  365 * year + (year + 3) / 4 - (year + 99) / 100 + (year + 399) / 400

def daysBeforeMonth (year month : Nat) : Nat :=
  [0, 31, 59, 90, 120, 151, 181, 212, 243, 273, 304, 334].getD (month - 1) 0 +
    if 2 < month ∧ (year % 4 = 0 ∧ year % 100 ≠ 0 ∨ year % 400 = 0) then 1 else 0

/-- ``new Date(`${businessDate}T12:00:00Z`)``: noon of a day written YYYY-MM-DD,
`none` for an invalid date. -/
def noonUtc (businessDate : String) : Option Date :=
  match businessDate.toList with
  | [y₁, y₂, y₃, y₄, '-', m₁, m₂, '-', d₁, d₂] => do
      let year ← digits [y₁, y₂, y₃, y₄]
      let month ← digits [m₁, m₂]
      let day ← digits [d₁, d₂]
      if 1 ≤ month ∧ month ≤ 12 ∧ 1 ≤ day ∧ day ≤ 31 then
        let days : Int := daysBeforeYear year + daysBeforeMonth year month + day - 1
        some (((days - daysBeforeYear 1970) * 24 + 12) * 60 * 60 * 1000)
      else none
  | _ => none

example : noonUtc "2026-07-01" = some 1782907200000 := by decide +kernel

/-- The business date lies between two dates. -/
def Within (first last : Date) (businessDate : String) : Prop :=
  ∃ noon ∈ noonUtc businessDate, first ≤ noon ∧ noon ≤ last

instance (first last : Date) (businessDate : String) :
    Decidable (Within first last businessDate) :=
  inferInstanceAs (Decidable (∃ _ ∈ _, _))

/-! ## What a rebuild reads -/

/-- An allocation with its payouts. -/
structure PaidAllocation where
  allocation : WorkerAllocation
  payouts : List Payout
  deriving DecidableEq, Repr

/-- A batch with its allocations. -/
structure DistributedBatch where
  batch : AllocationBatch
  allocations : List PaidAllocation
  deriving DecidableEq, Repr

structure Evidence where
  shifts : List ShiftEvidence
  tips : List TipEvidence
  batches : List DistributedBatch
  payrollRecords : List PayrollRecord
  deriving DecidableEq, Repr

def PaidAllocation.finalizedPayout (a : PaidAllocation) : Option Payout :=
  a.payouts.find? fun payout => decide (payout.status = .finalized)

namespace Evidence

variable (ev : Evidence)

def batchOn (businessDate : String) : Option DistributedBatch :=
  ev.batches.find? fun candidate => decide (candidate.batch.id.businessDate = businessDate)

/-- The allocation of a worker on a day. -/
def allocationOn (businessDate : String) (workerId : WorkerId) : Option PaidAllocation :=
  (ev.batchOn businessDate).bind fun batch =>
    batch.allocations.find? fun candidate => decide (candidate.allocation.workerId = some workerId)

def finalizedPayoutOn (businessDate : String) (workerId : WorkerId) : Option Payout :=
  (ev.allocationOn businessDate workerId).bind PaidAllocation.finalizedPayout

/-! ## Shares of a day -/

def mappedShifts : List ShiftEvidence := ev.shifts.filter fun shift => shift.mappedWorkerId.isSome

def workerDayKey (shift : ShiftEvidence) : String :=
  shift.mappedWorkerId.getD "" ++ ":" ++ shift.businessDate

/-- `shiftsByWorkerDay`: the shifts that share the day of a mapped shift. -/
def dayShifts (shift : ShiftEvidence) : List ShiftEvidence :=
  ev.mappedShifts.filter fun other => decide (workerDayKey other = workerDayKey shift)

/-- The slice of a shift when `total` of its day is split by worked minutes. -/
def shareOfDay (total : String → WorkerId → Int) (shift : ShiftEvidence) : Int :=
  let day := ev.dayShifts shift
  match day.head? with
  | none => 0
  | some first =>
      (splitProportionally (total first.businessDate (first.mappedWorkerId.getD ""))
        (day.map fun s => max s.workedMinutes 0)).getD (day.idxOf shift) 0

def allocationShare : ShiftEvidence → Int :=
  ev.shareOfDay fun businessDate workerId =>
    ((ev.allocationOn businessDate workerId).map fun a => a.allocation.netAllocatedUsdCents).getD 0

def paidShare : ShiftEvidence → Int :=
  ev.shareOfDay fun businessDate workerId =>
    ((ev.finalizedPayoutOn businessDate workerId).map Payout.amountUsdCents).getD 0

/-! ## Shares of a payroll period -/

/-- The mapped shifts a payroll record is about. -/
def periodShifts (record : PayrollRecord) : List ShiftEvidence :=
  ev.mappedShifts.filter fun shift => decide (shift.mappedWorkerId = some record.workerId ∧
    Within record.periodStart record.periodEnd shift.businessDate)

/-- The slice of the last record that is about the shift. -/
def payrollShare (shift : ShiftEvidence) : Int :=
  ev.payrollRecords.foldl (fun share record =>
    let period := ev.periodShifts record
    if shift ∈ period then
      (splitProportionally record.reportedTipUsdCents (period.map ev.allocationShare)).getD
        (period.idxOf shift) 0
    else share) 0

/-- The first record that is about a day of a worker. -/
def payrollOn (businessDate : String) (workerId : WorkerId) : Option PayrollRecord :=
  ev.payrollRecords.find? fun record => decide (record.workerId = workerId ∧
    Within record.periodStart record.periodEnd businessDate)

/-! ## Tips of a shift -/

/-- The id of a tip without the mark of a CSV import. -/
def withoutCsv (externalPaymentId : String) : String :=
  if "csv:".toList <+: externalPaymentId.toList then String.ofList (externalPaymentId.toList.drop 4)
  else externalPaymentId

/-- `tipsByShiftKey`: what was tipped under a key, refunded and canceled tips
left out. -/
def tipsOfShift (shift : ShiftEvidence) : Int :=
  ((ev.tips.filter fun tip => decide (tip.refundStatus ≠ .full ∧ tip.paymentStatus ≠ .canceled ∧
    tip.id.provider ++ ":" ++ withoutCsv tip.id.externalPaymentId =
      shift.id.provider ++ ":" ++ shift.id.externalShiftId)).map
        TipEvidence.grossAmountUsdCents).sum

/-! ## The entry of a shift -/

def withholdingStatus (payroll : Option PayrollRecord) : WithholdingStatus :=
  match payroll with
  | none => .unknown
  | some record =>
      if record.federalWithholdingUsdCents ≠ none ∧ record.status = .providerConfirmed
      then .confirmed else .pending

/-- The columns of the entry of a shift that is mapped to `workerId`. -/
def entryData (venueId : VenueId) (shift : ShiftEvidence) (workerId : WorkerId) : EntryData :=
  let earned := ev.tipsOfShift shift
  let batch := ev.batchOn shift.businessDate
  let allocation := ev.allocationOn shift.businessDate workerId
  let allocated := ev.allocationShare shift
  let finalizedPayout := ev.finalizedPayoutOn shift.businessDate workerId
  let payroll := ev.payrollOn shift.businessDate workerId
  let withholding := withholdingStatus payroll
  { workerId := workerId
    venueId := venueId
    shiftId := some shift.id
    payoutId := finalizedPayout.map Payout.paymentId
    earnedUsdCents := earned
    allocatedUsdCents := allocated
    paidUsdCents := ev.paidShare shift
    payrollReportedUsdCents := if payroll.isSome then ev.payrollShare shift else 0
    withholdingStatus := withholding
    payoutRail := (finalizedPayout.map Payout.rail).or
      (allocation.bind fun a => a.allocation.payoutRail)
    evidenceGrade := computeGrade
      { hasTipEvidence := decide (0 < earned ∨
          0 < (batch.map fun b => b.batch.tipPoolAmountUsdCents).getD 0)
        hasShiftEvidence := true
        hasApprovedAllocation := decide (0 < allocated)
        usdcFinalized := decide (finalizedPayout.map Payout.rail = some .usdc)
        venueAttestedPayout := finalizedPayout.any fun p => decide (p.rail ≠ .usdc)
        payrollConfirmed := decide (withholding = .confirmed) } }

/-! ## Alerts -/

def unmappedAlert (venueId : VenueId) (shift : ShiftEvidence) : DiscrepancyAlert where
  workerId := none
  venueId := venueId
  shiftId := some shift.id
  discrepancy := .unmappedWorker shift.externalWorkerId shift.id.provider
  resolvedAt := none

/-- The alerts about an entry. -/
def entryAlerts (d : EntryData) : List DiscrepancyAlert :=
  let alert (discrepancy : Discrepancy) : DiscrepancyAlert :=
    { workerId := some d.workerId
      venueId := d.venueId
      shiftId := d.shiftId
      discrepancy := discrepancy
      resolvedAt := none }
  (if 0 < d.earnedUsdCents ∧ d.allocatedUsdCents = 0 then
    [alert (.allocationGap d.earnedUsdCents d.allocatedUsdCents)] else []) ++
  (if 0 < d.allocatedUsdCents ∧ d.paidUsdCents = 0 then
    [alert (.payoutGap d.allocatedUsdCents d.paidUsdCents)] else []) ++
  (if 0 < d.paidUsdCents ∧ d.payrollReportedUsdCents = 0 then
    [alert (.payrollGap d.paidUsdCents d.payrollReportedUsdCents d.payoutRail)] else []) ++
  (if 0 < d.payrollReportedUsdCents ∧ d.withholdingStatus ≠ .confirmed then
    [alert (.withholdingUnknown d.payrollReportedUsdCents)] else [])

/-- Tips that were refunded after their day was paid. -/
def refundAlerts (venueId : VenueId) : List DiscrepancyAlert :=
  (ev.tips.filter fun tip => decide (tip.refundStatus ≠ .none) &&
    (ev.batchOn tip.businessDate).any fun batch =>
      batch.allocations.any fun a => decide (a.allocation.payoutStatus = .paid)).map fun tip =>
        { workerId := none
          venueId := venueId
          shiftId := none
          discrepancy := .refundAdjustmentRequired tip.id tip.refundStatus
          resolvedAt := none }

end Evidence
end ServeProof
