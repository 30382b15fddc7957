import ServeProof.Calendar.Civil
import ServeProof.Services.Disclosure
import ServeProof.Sources.Payments

/-!
# ServeProof.Services.TaxReadiness

What a worker is told about the year so far: `taxReadiness`, the amounts that no
payroll record reports, apart from those that were paid in the test asset.

The links and the disclaimer of the answer are left out.
-/

namespace ServeProof

open Interleave
open Prog (get)

/-- An entry with its payout, null when it has none. -/
abbrev TaxRow := IncomeEntry × Option Payout

namespace TaxRow

/-- What was paid and is not reported. -/
def unmatched (row : TaxRow) : Int :=
  max 0 (row.1.data.paidUsdCents - row.1.data.payrollReportedUsdCents)

/-- The payout is one of the test asset. -/
def TestAsset (row : TaxRow) : Prop := row.2.map Payout.asset = some "tUSDC"

instance (row : TaxRow) : Decidable row.TestAsset := inferInstanceAs (Decidable (_ = _))

end TaxRow

/-- `byRail` is under no rail what is `UNSPECIFIED`. -/
structure TaxReadiness where
  year : Int
  unmatchedUsdCents : Int
  withholdingUnknownUsdCents : Int
  devnetTestUsdCents : Int
  byRail : List (Option WorkerPayoutRail × Int)
  deriving DecidableEq, Repr

namespace TaxReadiness

def zero (year : Int) : TaxReadiness := ⟨year, 0, 0, 0, []⟩

/-- One turn of the loop over the entries. -/
def count (t : TaxReadiness) (row : TaxRow) : TaxReadiness :=
  if row.TestAsset then { t with devnetTestUsdCents := t.devnetTestUsdCents + row.unmatched }
  else
    { t with
      unmatchedUsdCents := t.unmatchedUsdCents + row.unmatched
      byRail := addTo row.1.data.payoutRail row.unmatched t.byRail
      withholdingUnknownUsdCents :=
        if row.1.data.withholdingStatus ≠ .confirmed then
          t.withholdingUnknownUsdCents + row.1.data.paidUsdCents
        else t.withholdingUnknownUsdCents }

end TaxReadiness

/-- `getUTCFullYear`. -/
def utcYear (t : Date) : Int := Calendar.yearOf (t / msPerDay)

/-- The instant falls into the UTC year. -/
def InUtcYear (year : Int) (t : Date) : Prop :=
  Calendar.yearStart year * msPerDay ≤ t ∧ t < Calendar.yearStart (year + 1) * msPerDay

instance (year : Int) (t : Date) : Decidable (InUtcYear year t) :=
  inferInstanceAs (Decidable (_ ∧ _))

section Read

variable (createdAt : EntryId → Date)

namespace Platform

/-- When the shift of the entry started; an entry without one counts when it was
created. -/
def instantOf (s : Platform) (e : IncomeEntry) : Option Date :=
  match e.data.shiftId with
  | some id => (s.world.db.shifts.find id).map ShiftEvidence.clockIn
  | none => some (createdAt e.id)

def EntryIn (s : Platform) (year : Int) (e : IncomeEntry) : Prop :=
  ∃ t ∈ s.instantOf createdAt e, InUtcYear year t

instance (s : Platform) (year : Int) (e : IncomeEntry) : Decidable (s.EntryIn createdAt year e) :=
  inferInstanceAs (Decidable (∃ t ∈ _, _))

/-- The ACTIVE entries of the worker in the year, with their payouts. -/
def taxRows (s : Platform) (workerId : WorkerId) (year : Int) : List TaxRow :=
  (s.books.entries.rows.filter fun e =>
    decide (e.data.workerId = workerId ∧ e.effectiveStatus = .active ∧
      s.EntryIn createdAt year e)).map fun e =>
    (e, e.data.payoutId.bind s.world.db.payouts.find)

end Platform

/-- `createdAt` is when an entry was created. -/
def taxReadiness (userId : UserId) : Action TaxReadiness := do
  let worker ← workerOf userId
  let year ← get fun s => utcYear s.clock
  let rows ← get fun s => s.taxRows createdAt worker.id year
  return rows.foldl TaxReadiness.count (.zero year)

end Read

end ServeProof
