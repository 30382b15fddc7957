import ServeProof.Disclosure.Schema
import ServeProof.Income.Projector

/-!
# ServeProof.Disclosure.Snapshot

`buildSnapshot`: what a report discloses of the ledger of a worker, by the
level of its grant.  Amounts are whole cents, averages and shares are rounded
from exact quotients.
-/

namespace ServeProof

/-- `Math.round`: to the nearest integer, halves up. -/
def mathRound (x : ℚ) : Int := ⌊x + 1 / 2⌋

/-- `toFixed(2)` of an amount of cents, in dollars. -/
def dollars (cents : Int) : String :=
  (if cents < 0 then "-" else "") ++ toString (cents.natAbs / 100) ++ "." ++
    toString (cents.natAbs % 100 / 10) ++ toString (cents.natAbs % 10)

example : dollars 123405 = "1234.05" := by decide +kernel

/-- `record[key] = (record[key] ?? 0) + amount`. -/
def addTo {κ : Type} [DecidableEq κ] (key : κ) (amount : Int) : List (κ × Int) → List (κ × Int)
  | [] => [(key, amount)]
  | (k, n) :: rest => if k = key then (k, n + amount) :: rest else (k, n) :: addTo key amount rest

/-- An entry with its shift and the name of its venue. -/
structure EntryView where
  entry : IncomeEntry
  shift : Option ShiftEvidence
  venueName : String
  deriving DecidableEq, Repr

namespace EntryView

def businessDate (e : EntryView) : String := (e.shift.map ShiftEvidence.businessDate).getD ""

/-- The calendar month of the shift, YYYY-MM. -/
def month (e : EntryView) : String := String.ofList (e.businessDate.toList.take 7)

def InRange (g : DisclosureGrant) (e : EntryView) : Prop :=
  ∃ shift ∈ e.shift, Within g.dateRangeStart g.dateRangeEnd shift.businessDate

instance (g : DisclosureGrant) (e : EntryView) : Decidable (e.InRange g) :=
  inferInstanceAs (Decidable (∃ _ ∈ _, _))

def corrected (e : EntryView) : Bool := e.entry.correctionOfId.isSome

def fromProvider (e : EntryView) : Bool :=
  e.shift.any fun shift => decide (shift.ingestSource = .providerApi)

def disclosed (e : EntryView) : DisclosedEntry where
  businessDate := e.businessDate
  venue := e.venueName
  role := (e.shift.map ShiftEvidence.role).getD ""
  allocatedUsdCents := e.entry.data.allocatedUsdCents
  paidUsdCents := e.entry.data.paidUsdCents
  payrollReportedUsdCents := e.entry.data.payrollReportedUsdCents
  withholdingStatus := e.entry.data.withholdingStatus
  payoutRail := e.entry.data.payoutRail
  evidenceGrade := e.entry.data.evidenceGrade
  ingestSource := (e.shift.map ShiftEvidence.ingestSource).getD .csvUpload
  corrected := e.corrected

end EntryView

/-- The entries a snapshot is computed from. -/
def inRange (g : DisclosureGrant) (entries : List EntryView) : List EntryView :=
  entries.filter fun e => decide (e.InRange g)

def totalAllocated (entries : List EntryView) : Int :=
  (entries.map fun e => e.entry.data.allocatedUsdCents).sum

def monthsCovered (entries : List EntryView) : Nat := (entries.map EntryView.month).dedup.length

/-- The average over the observed calendar months. -/
def averageMonthly (entries : List EntryView) : ℚ :=
  if monthsCovered entries = 0 then 0 else totalAllocated entries / monthsCovered entries

/-- The average in whole cents. -/
def avgMonthly (entries : List EntryView) : Int := mathRound (averageMonthly entries)

def summarize (level : DisclosureLevel) (entries : List EntryView) : DisclosedSummary :=
  let grades := entries.foldl (fun grades e => addTo e.entry.data.evidenceGrade 1 grades) []
  { level := level
    avgMonthlyIncomeUsdCents := avgMonthly entries
    monthsCovered := monthsCovered entries
    payerCount := (entries.map fun e => e.entry.data.venueId).dedup.length
    verificationGrades := grades
    bestGrade := ([.a, .b, .c, .d, .e].find? fun g => g ∈ grades.map Prod.fst).getD .e
    hasCorrections := entries.any EntryView.corrected
    totalVerifiedIncomeUsdCents := totalAllocated entries
    totalPaidUsdCents := (entries.map fun e => e.entry.data.paidUsdCents).sum
    posVerifiedSharePct := if entries = [] then 0 else
      mathRound ((entries.filter EntryView.fromProvider).length / entries.length * 100)
    monthlyBreakdown := entries.foldl
      (fun months e => addTo e.month e.entry.data.allocatedUsdCents months) []
    observedShiftDays := (entries.map EntryView.businessDate).dedup.length }

/-- The LEVEL_1 criterion, for which an absent threshold is 0. -/
def DisclosureGrant.threshold (g : DisclosureGrant) : Int := g.thresholdUsdCents.getD 0

def DisclosureGrant.criterion (g : DisclosureGrant) : String :=
  "평균 월소득 ≥ $" ++ dollars g.threshold

/-- What a report under the grant says about these entries.  LEVEL_1 says
only whether the criterion is met. -/
def buildSnapshot (g : DisclosureGrant) (entries : List EntryView) : Snapshot :=
  let entries := inRange g entries
  match g.level with
  | .level1 => .level1 g.criterion (decide (g.threshold ≤ avgMonthly entries))
  | .level2 => .level2 (summarize .level2 entries)
  | .level3 => .level3 (summarize .level3 entries) (entries.map EntryView.disclosed)

end ServeProof
