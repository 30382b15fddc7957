import ServeProof.Schema

/-!
# ServeProof.Income.Schema

The income tables: payroll records, the income ledger, and the alerts about
what does not add up.

`IncomeEntry` keeps its history: a correction never changes an entry beyond its
status, it adds an entry that points back at it.  The entries without
`correctionOfId` are the *base* entries, which the projector writes.
-/

namespace ServeProof

abbrev PayrollRecordId := Nat
abbrev EntryId := Nat

/-! ## Enumerations -/

inductive PayrollRecordStatus where
  | pending | providerConfirmed | disputed
  deriving DecidableEq, Repr

inductive WithholdingStatus where
  | unknown | pending | confirmed
  deriving DecidableEq, Repr

inductive EvidenceGrade where
  | a | b | c | d | e
  deriving DecidableEq, Repr

inductive IncomeEntryEffectiveStatus where
  | active | superseded | reversed
  deriving DecidableEq, Repr

/-! ## Rows -/

structure PayrollRecord where
  id : PayrollRecordId
  workerId : WorkerId
  venueId : VenueId
  periodStart : Date
  periodEnd : Date
  reportedTipUsdCents : Int
  federalWithholdingUsdCents : Option Int
  status : PayrollRecordStatus
  deriving DecidableEq, Repr

/-- What an entry says about a shift of a worker. -/
structure EntryData where
  workerId : WorkerId
  venueId : VenueId
  shiftId : Option ShiftId
  payoutId : Option AllocationId
  earnedUsdCents : Int
  allocatedUsdCents : Int
  paidUsdCents : Int
  payrollReportedUsdCents : Int
  withholdingStatus : WithholdingStatus
  payoutRail : Option WorkerPayoutRail
  evidenceGrade : EvidenceGrade
  deriving DecidableEq, Repr

/-- The (worker, shift) pair an entry is about. -/
def EntryData.pair (d : EntryData) : WorkerId × Option ShiftId := (d.workerId, d.shiftId)

structure IncomeEntry where
  id : EntryId
  data : EntryData
  effectiveStatus : IncomeEntryEffectiveStatus
  originalEntryId : Option EntryId
  correctionOfId : Option EntryId
  correctionReason : Option String
  deriving DecidableEq, Repr

namespace IncomeEntry

def pair (e : IncomeEntry) : WorkerId × Option ShiftId := e.data.pair

def Base (e : IncomeEntry) : Prop := e.correctionOfId = none

instance (e : IncomeEntry) : Decidable e.Base := inferInstanceAs (Decidable (_ = _))

end IncomeEntry

/-- The shift is mapped to the worker of the pair. -/
def ShiftEvidence.MappedTo (shift : ShiftEvidence) (pair : WorkerId × Option ShiftId) : Prop :=
  shift.mappedWorkerId = some pair.1 ∧ some shift.id = pair.2

instance (shift : ShiftEvidence) (pair : WorkerId × Option ShiftId) :
    Decidable (shift.MappedTo pair) := inferInstanceAs (Decidable (_ ∧ _))

/-- An alert, with its detail. -/
inductive Discrepancy where
  | unmappedWorker (externalWorkerId provider : String)
  | allocationGap (earnedUsdCents allocatedUsdCents : Int)
  | payoutGap (allocatedUsdCents paidUsdCents : Int)
  | payrollGap (paidUsdCents payrollReportedUsdCents : Int) (payoutRail : Option WorkerPayoutRail)
  | withholdingUnknown (payrollReportedUsdCents : Int)
  | refundAdjustmentRequired (tipEvidenceId : TipId) (refundStatus : RefundStatus)
  | staleProviderData (provider : String) (lastSuccessAt : Option Time)
  deriving DecidableEq, Repr

structure DiscrepancyAlert where
  workerId : Option WorkerId
  venueId : VenueId
  shiftId : Option ShiftId
  discrepancy : Discrepancy
  resolvedAt : Option Time
  deriving DecidableEq, Repr

/-- Why a projection is rebuilt. -/
inductive IncomeProjectionSource where
  | manual | payrollImport | system
  deriving DecidableEq, Repr

inductive IncomeAuditAction where
  | incomeEntriesRebuilt (source : IncomeProjectionSource) (entriesUpserted alerts : Nat)
  | incomeEntryCorrected (entryId : EntryId) (reason : String)
  deriving DecidableEq, Repr

structure IncomeAuditLog where
  venueId : VenueId
  actorUserId : Option UserId
  action : IncomeAuditAction
  deriving DecidableEq, Repr

/-! ## The tables -/

/-- Entry ids are drawn from a counter, like the ids of allocations. -/
structure Books where
  payrollRecords : Table PayrollRecord.id
  entries : Table IncomeEntry.id
  alerts : List DiscrepancyAlert
  auditLog : List IncomeAuditLog
  nextEntryId : EntryId
  fresh : ∀ e ∈ entries.rows, e.id < nextEntryId

def Books.empty : Books where
  payrollRecords := ∅
  entries := ∅
  alerts := []
  auditLog := []
  nextEntryId := 1
  fresh := fun _ h => absurd h List.not_mem_nil

end ServeProof
