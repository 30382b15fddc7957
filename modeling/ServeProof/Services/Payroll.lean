import Mathlib.Data.List.Sort
import ServeProof.Accounts.Access
import ServeProof.Income.Schema

/-!
# ServeProof.Services.Payroll

What a worker's payroll records answer to whoever asks for them:
`GET /workers/:workerId/payroll-status`.
-/

namespace ServeProof

/-- A payroll record with the columns that are only shown. -/
structure PayrollRow extends PayrollRecord where
  stateWithholdingUsdCents : Option Int
  socialSecurityUsdCents : Option Int
  medicareUsdCents : Option Int
  providerReference : Option String
  createdAt : Date
  deriving DecidableEq, Repr

def PayrollRow.key (r : PayrollRow) : PayrollRecordId := r.id

/-- The tables behind the payroll status; a record is one of a venue. -/
structure PayrollStore where
  directory : Directory
  workers : Table Worker.id
  entries : Table IncomeEntry.id
  payrollRecords : Table PayrollRow.key
  venue_of_record : ∀ r ∈ payrollRecords.rows, (directory.venues.find r.venueId).isSome

/-- A record of the answer, with the id and the name of its venue. -/
structure PayrollStatus where
  record : PayrollRow
  venue : Option (VenueId × String)
  deriving DecidableEq, Repr

namespace PayrollStore

variable (s : PayrollStore)

/-- Later periods first. -/
def PeriodLe (a b : PayrollRow) : Prop := b.periodStart ≤ a.periodStart

instance : DecidableRel PeriodLe := fun a b =>
  inferInstanceAs (Decidable (b.periodStart ≤ a.periodStart))

def recordsOf (workerId : WorkerId) : List PayrollRow :=
  s.payrollRecords.rows.filter fun r : PayrollRow => decide (r.workerId = workerId)

def shown (r : PayrollRow) : PayrollStatus where
  record := r
  venue := (s.directory.venues.find r.venueId).map fun v => (v.id, v.name)

def statusForWorker (workerId : WorkerId) : Except ApiError (List PayrollStatus) :=
  match s.workers.find workerId with
  | none => .error (.notFound s!"Worker {workerId} not found")
  | some _ => .ok (((s.recordsOf workerId).insertionSort PeriodLe).map s.shown)

/-- The entry of the worker that is found first. -/
def firstEntry (workerId : WorkerId) : Option IncomeEntry :=
  s.entries.rows.find? fun e => decide (e.data.workerId = workerId)

/-- The worker itself, or who has a role at a venue where the worker has
income. -/
def status (userId : UserId) (workerId : WorkerId) : Except ApiError (List PayrollStatus) := do
  if (s.workers.find workerId).map Worker.userId ≠ some userId then
    match s.firstEntry workerId with
    | none => .error (.forbidden "Not authorized for this worker")
    | some entry => s.directory.assertVenueRole userId entry.data.venueId venueReadRoles
  s.statusForWorker workerId

end PayrollStore
end ServeProof
