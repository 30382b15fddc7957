import ServeProof.Disclosure.Snapshot

/-!
# ServeProof.Sources.Square

What the Square client makes of the timecards of a location: a shift for each
timecard, and a tip for the cash that is declared on it.

The day of an instant at the venue and the hash of a timecard are parameters.
-/

namespace ServeProof

/-- Money as Square states it, in cents. -/
structure SquareMoney where
  amount : Option Int
  currency : Option String
  deriving DecidableEq, Repr

/-- A timecard as it is received; any field may be missing. -/
structure Timecard where
  id : Option String
  teamMemberId : Option String
  startAt : Option Date
  endAt : Option Date
  wageTitle : Option String
  status : Option String
  declaredCashTipMoney : Option SquareMoney
  deriving DecidableEq, Repr

structure ProviderTipEvidence where
  provider : String
  externalPaymentId : String
  externalOrderId : Option String := none
  tipType : TipType
  grossAmountUsdCents : Int
  paymentStatus : PaymentStatus
  refundStatus : RefundStatus
  businessDate : String
  sourceHash : Nat
  deriving DecidableEq, Repr

structure ProviderShiftEvidence where
  provider : String
  externalShiftId : String
  externalWorkerId : String
  role : String
  clockIn : Date
  clockOut : Option Date
  workedMinutes : Int
  shiftStatus : ShiftStatus
  businessDate : String
  sourceHash : Nat
  deriving DecidableEq, Repr

/-- A text that is there and not empty. -/
def present (text : Option String) : Option String := text.filter (· ≠ "")

/-- The whole minutes between two instants. -/
def minutesBetween (start finish : Date) : Int := mathRound (((finish - start : Int) : ℚ) / 60000)

namespace SquareClient

def provider : String := "square"

variable (businessDate : Date → String) (hash : Timecard → Nat)

def shiftEvidence (timecard : Timecard) : Option ProviderShiftEvidence := do
  let id ← present timecard.id
  let teamMemberId ← present timecard.teamMemberId
  let start ← timecard.startAt
  return {
    provider := provider
    externalShiftId := id
    externalWorkerId := teamMemberId
    role := timecard.wageTitle.getD "TEAM_MEMBER"
    clockIn := start
    clockOut := timecard.endAt
    workedMinutes := (timecard.endAt.map fun finish => max 0 (minutesBetween start finish)).getD 0
    shiftStatus := if timecard.status = some "OPEN" then .inProgress else .completed
    businessDate := businessDate start
    sourceHash := hash timecard }

def fetchShiftEvidence (timecards : List Timecard) : List ProviderShiftEvidence :=
  timecards.filterMap (shiftEvidence businessDate hash)

/-- `Number(money?.amount ?? 0)`. -/
def declaredCents (timecard : Timecard) : Int :=
  (timecard.declaredCashTipMoney.bind SquareMoney.amount).getD 0

def cashTipEvidence (timecard : Timecard) : Option ProviderTipEvidence := do
  let id ← present timecard.id
  let start ← timecard.startAt
  if declaredCents timecard ≤ 0 ∨
      timecard.declaredCashTipMoney.bind SquareMoney.currency ≠ some "USD" then none
  else
    return {
      provider := provider
      externalPaymentId := "timecard:" ++ id
      tipType := .cashTip
      grossAmountUsdCents := declaredCents timecard
      paymentStatus := if timecard.status = some "OPEN" then .pending else .completed
      refundStatus := .none
      businessDate := businessDate start
      sourceHash := hash timecard }

def fetchCashTipEvidence (timecards : List Timecard) : List ProviderTipEvidence :=
  timecards.filterMap (cashTipEvidence businessDate hash)

end SquareClient

end ServeProof
