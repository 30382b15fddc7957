import ServeProof.Platform
import ServeProof.Services.Evidence
import ServeProof.Services.Settlement

/-!
# ServeProof.Services.Income

The income service: the projection of a venue is rebuilt in one transaction
that holds the venue row, an entry is corrected, and an account that is confirmed
or a payout that is finalized refreshes the projection of its venue.
-/

namespace ServeProof

open Interleave
open Prog (attempt forEach get put putGet require orThrow mapEach when)

/-! ## What a rebuild reads -/

namespace Platform

variable (s : Platform) (venueId : VenueId)

def shiftsOf : List ShiftEvidence :=
  s.world.db.shifts.rows.filter fun shift => decide (shift.id.venueId = venueId)

def tipsOf : List TipEvidence :=
  s.world.db.tips.rows.filter fun tip => decide (tip.id.venueId = venueId)

/-- The allocations of a batch, each with its payouts. -/
def paidAllocations (batchId : BatchId) : List PaidAllocation :=
  (s.world.db.allocations.rows.filter fun a => decide (a.batchId = batchId)).map fun a =>
    ⟨a, (s.world.db.payouts.find a.id).toList⟩

def batchesOf : List DistributedBatch :=
  (s.world.db.batches.rows.filter fun b =>
    decide (b.id.venueId = venueId ∧ b.status ∈ [.payable, .partiallyPaid, .paid])).map fun b =>
      ⟨b, s.paidAllocations b.id⟩

def payrollOf : List PayrollRecord :=
  s.books.payrollRecords.rows.filter fun record => decide (record.venueId = venueId)

/-- The evidence of a venue as it stands. -/
def evidence : Evidence where
  shifts := s.shiftsOf venueId
  tips := s.tipsOf venueId
  batches := s.batchesOf venueId
  payrollRecords := s.payrollOf venueId

end Platform

/-! ## rebuildVenueIncome -/

/-- What came of one shift. -/
structure ShiftOutcome where
  upserted : Bool
  alerts : List DiscrepancyAlert

structure IncomeProjectionResult where
  entriesUpserted : Nat
  alerts : Nat
  deriving DecidableEq, Repr

/-- One shift.  A pair with a superseded entry is left to its corrections. -/
def projectShift (ev : Evidence) (venueId : VenueId) (shift : ShiftEvidence) :
    Action ShiftOutcome :=
  match shift.mappedWorkerId with
  | none => pure { upserted := false, alerts := [Evidence.unmappedAlert venueId shift] }
  | some workerId => do
      let data := ev.entryData venueId shift workerId
      let superseded ← get fun s => decide (s.books.Superseded (workerId, some shift.id))
      if superseded = true then return { upserted := false, alerts := [] }
      else do
        let existing ← get fun s => s.books.baseEntry (workerId, some shift.id)
        match existing with
        | some entry => put (.books (.updateEntry entry.id data))
        | none => put (.books (.createEntry data))
        return { upserted := true, alerts := Evidence.entryAlerts data }

def rebuildVenueIncomeLocked (venueId : VenueId) (actorUserId : Option UserId)
    (source : IncomeProjectionSource) : Action IncomeProjectionResult := do
  let shifts ← get fun s => s.shiftsOf venueId
  let tips ← get fun s => s.tipsOf venueId
  let batches ← get fun s => s.batchesOf venueId
  let payrollRecords ← get fun s => s.payrollOf venueId
  let ev : Evidence := ⟨shifts, tips, batches, payrollRecords⟩
  let outcomes ← mapEach shifts (projectShift ev venueId)
  let entriesUpserted := outcomes.countP ShiftOutcome.upserted
  let alerts := outcomes.flatMap ShiftOutcome.alerts ++ ev.refundAlerts venueId
  put (.books (.deleteAlerts venueId))
  put (.books (.createAlerts alerts))
  put (.books (.log ⟨venueId, actorUserId,
    .incomeEntriesRebuilt source entriesUpserted alerts.length⟩))
  return { entriesUpserted := entriesUpserted, alerts := alerts.length }

/-- One projection per venue at a time. -/
def rebuildVenueIncome (session : Nat) (venueId : VenueId) (actorUserId : Option UserId)
    (source : IncomeProjectionSource) : Action (Option IncomeProjectionResult) := do
  let locked ← putGet (.lockVenue session venueId) fun s =>
    (s.world.db.venues.find venueId).isSome
  if locked = false then return none
  else do
    let result ← rebuildVenueIncomeLocked venueId actorUserId source
    put (.unlockVenue session venueId)
    return some result

/-- `POST /venues/:id/income/rebuild`. -/
def rebuildVenue (session : Nat) (venueId : VenueId) (actorUserId : Option UserId)
    (source : IncomeProjectionSource) : Action IncomeProjectionResult := do
  let result ← rebuildVenueIncome session venueId actorUserId source
  orThrow result (.notFound s!"Venue {venueId} not found")

/-! ## correctEntry -/

/-- The original row is never mutated beyond its effectiveStatus; a new entry
carries the corrected values. -/
def correctEntry (entryId : EntryId) (actorUserId : UserId) (input : Correction) :
    Action IncomeEntry := do
  let found ← get fun s => s.books.entries.find entryId
  let original ← orThrow found (.notFound s!"Income entry {entryId} not found")
  require (original.effectiveStatus = .active)
    (.notFound "Only the ACTIVE entry of a lineage can be corrected")
  putGet (.correct original actorUserId input) fun s =>
    original.corrected input s.books.nextEntryId

/-! ## respondToMapping -/

/-- Does the confirmation of an account map a shift? -/
def World.backfills (w : World) (mapping : ExternalWorkerAccount) : Bool :=
  w.db.shifts.rows.any fun shift => decide (RecordWrite.backfill mapping shift ≠ shift)

/-- `verifyMapping` up to the refresh: was a shift mapped, or a held share
attached? -/
def verifyAndCount (id : AccountId) (verifiedBy : UserId) : Service Bool := do
  let found ← get fun w => w.db.accounts.find id
  let mapping ← orThrow found (.notFound "Mapping not found")
  require (mapping.mappingStatus ≠ .rejected)
    (.badRequest "Rejected mapping cannot be verified")
  let backfilled ← putGet (.record (.verify mapping verifiedBy)) fun w => w.backfills mapping
  let held ← get fun w => w.heldShares mapping.id
  forEach held fun allocation =>
    transact (.batch (.attach allocation mapping.workerId))
      (.internal "Record to update not found")
  return backfilled || !held.isEmpty

def respondAndCount (id : AccountId) (userId : UserId) (decision : MappingDecision) :
    Service Bool := do
  let found ← get fun w => (w.db.accounts.find id).map fun a => (a, w.db.workers.find a.workerId)
  let mapping ← orThrow found (.notFound "Mapping not found")
  require (mapping.2.map Worker.userId = some userId)
    (.forbidden "This connection request belongs to another worker")
  match decision with
  | .reject => do
      require (mapping.1.mappingStatus ≠ .confirmed)
        (.badRequest "A confirmed mapping cannot be rejected")
      let _ ← commit (.record (.rejectAccount mapping.1 userId))
      return false
  | .accept => do
      require (mapping.1.mappingStatus ≠ .rejected)
        (.badRequest "A rejected mapping requires a new venue request")
      if mapping.1.mappingStatus = .confirmed then return false
      else verifyAndCount id userId

/-- `respondToMapping` with the refresh of an acceptance that has linked
something. -/
def respondAndRefresh (session : Nat) (id : AccountId) (userId : UserId)
    (decision : MappingDecision) : Action Unit := do
  let linked ← settling (respondAndCount id userId decision)
  when (linked = true) do
    let _ ← attempt (rebuildVenueIncome session id.venueId (some userId) .system)

theorem forEach_bind_pure {β : Type} (xs : List β) (body : β → Service Unit) :
    (forEach xs body >>= fun _ => (pure () : Service Unit)) = forEach xs body := by
  induction xs with
  | nil => rfl
  | cons x xs ih =>
      change (body x >>= fun _ => forEach xs body) >>= _ = _
      rw [Prog.bind_assoc, ih]
      rfl

theorem verifyAndCount_eq (id : AccountId) (verifiedBy : UserId) :
    (verifyAndCount id verifiedBy >>= fun _ => pure ()) = verifyMapping id verifiedBy := by
  simp only [verifyAndCount, Prog.bind_assoc]
  refine bind_congr fun found => bind_congr fun mapping => bind_congr fun _ => ?_
  refine congrArg (Prog.commit _) (funext fun s => ?_)
  exact congrArg Prog.read (funext fun w => forEach_bind_pure _ _)

/-- The answer aside, it is `respondToMapping`. -/
theorem respondAndCount_eq (id : AccountId) (userId : UserId) (decision : MappingDecision) :
    (respondAndCount id userId decision >>= fun _ => pure ()) =
      respondToMapping id userId decision := by
  simp only [respondAndCount, Prog.bind_assoc]
  refine bind_congr fun found => bind_congr fun mapping => bind_congr fun _ => ?_
  cases decision with
  | reject =>
      simp only [Prog.bind_assoc]
      rfl
  | accept =>
      simp only [Prog.bind_assoc]
      refine bind_congr fun _ => ?_
      split
      · rfl
      · exact verifyAndCount_eq id userId

/-! ## Finalizing a payout -/

/-- A missing venue is only logged. -/
def rebuildIncomeProjection (session : Nat) (venueId : VenueId) (actorUserId : Option UserId) :
    Action Unit := do
  let _ ← rebuildVenueIncome session venueId actorUserId .system

/-- The venue of an allocation, which never changes. -/
def Platform.venueOf (s : Platform) (allocationId : AllocationId) : Option VenueId :=
  (s.world.db.allocations.find allocationId).map fun a => a.batchId.venueId

/-- `registerLegacyEvidence` with the refresh it ends in. -/
def finalizeLegacy (session : Nat) (allocationId : AllocationId) (rail : LegacyRail)
    (externalReference : String) (submittedByUserId : Option UserId) (now : Time) :
    Action Payout := do
  let found ← get fun s => s.venueOf allocationId
  let venueId ← orThrow found (.notFound s!"Allocation {allocationId} not found")
  let payout ← settling (registerLegacyEvidence allocationId rail externalReference
    submittedByUserId now)
  rebuildIncomeProjection session venueId submittedByUserId
  return payout

/-- `finalizeFromChain` with the refresh it ends in. -/
def finalizeSettled (session : Nat) (payoutId : AllocationId) (slot : Option Nat) :
    Action Unit := do
  let found ← get fun s => (s.world.db.payouts.find payoutId).map Payout.venueId
  match found with
  | none => pure ()
  | some venueId => do
      settling (finalizeFromChain payoutId slot)
      rebuildIncomeProjection session venueId none

end ServeProof
