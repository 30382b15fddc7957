import ServeProof.Query
import ServeProof.Services.Disclosure

/-!
# ServeProof.Services.Summary

What the income service tells a worker: `summaryForWorker`, two queries over
the ACTIVE entries of the worker, one of them joined with the shifts; and
`timelineForWorker`, the entries themselves, a page at a time.
-/

namespace ServeProof

/-- An entry with the columns of its shift, which are NULL when it has none. -/
abbrev IncomeRow := IncomeEntry × Option ShiftEvidence

structure IncomeTotals where
  earnedUsdCents : Int
  allocatedUsdCents : Int
  paidUsdCents : Int
  payrollReportedUsdCents : Int
  deriving DecidableEq, Repr

structure IncomeSummary where
  totals : IncomeTotals
  shiftCount : Nat
  monthCount : Nat
  avgMonthlyAllocatedUsdCents : Int
  payerCount : Nat
  gradeCounts : List (EvidenceGrade × Int)
  providerVerifiedShiftCount : Nat
  deriving DecidableEq, Repr

namespace Platform

/-- `"IncomeEntry" i LEFT JOIN "ShiftEvidence" s ON s.id = i."shiftId"`, the ACTIVE
entries of the worker. -/
def incomeRows (s : Platform) (workerId : WorkerId) : List IncomeRow :=
  (Query.leftJoin (fun e shift => decide (some shift.id = e.data.shiftId)) s.books.entries.rows
    s.world.db.shifts.rows).filter fun row =>
      decide (row.1.data.workerId = workerId ∧ row.1.effectiveStatus = .active)

/-- The ACTIVE entries of the worker by their grade. -/
def gradeGroups (s : Platform) (workerId : WorkerId) : List (EvidenceGrade × Int) :=
  Query.groupCounts (fun e => e.data.evidenceGrade) (s.books.entries.rows.filter fun e =>
    decide (e.data.workerId = workerId ∧ e.effectiveStatus = .active))

end Platform

/-- The sums of the amounts of the rows; of no rows they are 0. -/
def totalsOf (rows : List IncomeRow) : IncomeTotals where
  earnedUsdCents := (rows.map fun row => row.1.data.earnedUsdCents).sum
  allocatedUsdCents := (rows.map fun row => row.1.data.allocatedUsdCents).sum
  paidUsdCents := (rows.map fun row => row.1.data.paidUsdCents).sum
  payrollReportedUsdCents := (rows.map fun row => row.1.data.payrollReportedUsdCents).sum

/-- The months of the shifts that the rows have. -/
def monthCount (rows : List IncomeRow) : Nat :=
  Query.countDistinct (fun row => row.2.map fun shift => Query.left shift.businessDate 7) rows

/-- The summary of a worker, when both queries read the ledger as it is in `s`. -/
def Platform.summaryForWorker (s : Platform) (workerId : WorkerId) : IncomeSummary :=
  let rows := s.incomeRows workerId
  let totals := totalsOf rows
  { totals := totals
    shiftCount := rows.length
    monthCount := monthCount rows
    avgMonthlyAllocatedUsdCents :=
      if 0 < monthCount rows then mathRound (totals.allocatedUsdCents / monthCount rows) else 0
    payerCount := Query.countDistinct (fun row => some row.1.data.venueId) rows
    gradeCounts := s.gradeGroups workerId
    providerVerifiedShiftCount := rows.countP fun row =>
      decide (row.2.map ShiftEvidence.ingestSource = some .providerApi) }

/-- The join and the `include` of a snapshot find the same rows. -/
theorem Platform.incomeRows_eq (s : Platform) (workerId : WorkerId) :
    s.incomeRows workerId =
      (s.activeEntries workerId).map fun e => (e.entry, e.shift) := by
  rw [incomeRows, activeEntries, Query.leftJoin_find, List.filter_map, List.map_map]
  rfl

/-! ## timelineForWorker -/

structure TimelineItem where
  id : EntryId
  venue : Option (VenueId × String)
  businessDate : Option String
  role : Option String
  evidenceProvider : Option String
  ingestSource : Option EvidenceIngestSource
  earnedUsdCents : Int
  allocatedUsdCents : Int
  paidUsdCents : Int
  payrollReportedUsdCents : Int
  withholdingStatus : WithholdingStatus
  payoutRail : Option WorkerPayoutRail
  payoutTxSignature : Option Signature
  evidenceGrade : EvidenceGrade
  isCorrection : Bool
  correctionReason : Option String
  deriving DecidableEq, Repr

/-- An entry with its shift, its venue and its payout. -/
def Platform.timelineItem (s : Platform) (e : IncomeEntry) : TimelineItem :=
  let shift := e.data.shiftId.bind s.world.db.shifts.find
  { id := e.id
    venue := (s.world.db.venues.find e.data.venueId).map fun v => (v.id, v.name)
    businessDate := shift.map ShiftEvidence.businessDate
    role := shift.map ShiftEvidence.role
    evidenceProvider := shift.map fun shift => shift.id.provider
    ingestSource := shift.map ShiftEvidence.ingestSource
    earnedUsdCents := e.data.earnedUsdCents
    allocatedUsdCents := e.data.allocatedUsdCents
    paidUsdCents := e.data.paidUsdCents
    payrollReportedUsdCents := e.data.payrollReportedUsdCents
    withholdingStatus := e.data.withholdingStatus
    payoutRail := e.data.payoutRail
    payoutTxSignature := (e.data.payoutId.bind s.world.db.payouts.find).bind Payout.txSignature
    evidenceGrade := e.data.evidenceGrade
    isCorrection := e.correctionOfId.isSome
    correctionReason := e.correctionReason }

/-- `orderBy: [{ createdAt: "desc" }, { id: "desc" }]`, where `createdAt` is a column of
the entries that nothing else reads. -/
def LatestFirst (createdAt : EntryId → Time) (e f : IncomeEntry) : Prop :=
  createdAt f.id < createdAt e.id ∨ createdAt e.id = createdAt f.id ∧ f.id ≤ e.id

instance (createdAt : EntryId → Time) : DecidableRel (LatestFirst createdAt) :=
  fun _ _ => inferInstanceAs (Decidable (_ ∨ _ ∧ _))

namespace Platform

/-- `where: { workerId, effectiveStatus: "ACTIVE" }`. -/
def timelineEntries (s : Platform) (workerId : WorkerId) : List IncomeEntry :=
  s.books.entries.rows.filter fun e =>
    decide (e.data.workerId = workerId ∧ e.effectiveStatus = .active)

/-- The entries of a worker, `limit` at a time. -/
def timelineForWorker (s : Platform) (createdAt : EntryId → Time) (workerId : WorkerId)
    (cursor : Option EntryId) (limit : Nat) : Query.Page TimelineItem EntryId :=
  let rows := (s.timelineEntries workerId).insertionSort (LatestFirst createdAt)
  let entries := match cursor with
    | some id => Query.findMany IncomeEntry.id (some id) 1 (limit + 1) rows
    | none => Query.findMany IncomeEntry.id none 0 (limit + 1) rows
  let hasMore := limit < entries.length
  let page := if hasMore then entries.take limit else entries
  { items := page.map s.timelineItem
    nextCursor := if hasMore then page.getLast?.map IncomeEntry.id else none }

end Platform

end ServeProof
