import ServeProof.Services.Allocations

/-!
# ServeProof.Services.Close

The rails that shares are planned for, and the close of a business date over them:
`setPlannedRail`, `autoAssignRails` and `settlementClose`.

The audit entries, and the balance of the vault on the chain, are left out.
-/

namespace ServeProof

open Interleave
open Prog (get require orThrow)

/-! ## Planned rails -/

/-- The allocations whose planned rail a transaction writes. -/
structure RailWrite where
  assignments : List (AllocationId × WorkerPayoutRail)

def WorkerAllocation.plan (rail : WorkerPayoutRail) (a : WorkerAllocation) : WorkerAllocation :=
  { a with plannedPayoutRail := some rail }

namespace RailWrite

def Applies (c : RailWrite) (w : World) : Prop :=
  ∀ x ∈ c.assignments, (w.db.allocations.find x.1).isSome

instance (c : RailWrite) (w : World) : Decidable (c.Applies w) :=
  inferInstanceAs (Decidable (∀ _ ∈ _, _))

def planOne (d : Db) (x : AllocationId × WorkerPayoutRail) : Db :=
  d.updateAllocation x.1 (WorkerAllocation.plan x.2) fun _ => ⟨rfl, rfl⟩

def apply (c : RailWrite) (w : World) : World :=
  if c.Applies w then { w with db := c.assignments.foldl planOne w.db } else w

end RailWrite

abbrev RailService (α : Type) := Prog World RailWrite ApiError α

/-- The updates of a transaction, which all go through or none. -/
def planRails (assignments : List (AllocationId × WorkerPayoutRail)) : RailService Unit := do
  let done ← Prog.putGet ⟨assignments⟩ fun w => decide (RailWrite.Applies ⟨assignments⟩ w)
  require (done = true) (.internal "Record to update not found")

theorem only_planRails (l : List (AllocationId × WorkerPayoutRail)) (ok : RailWrite → Prop)
    (hok : ok ⟨l⟩) : (planRails l).Only ok :=
  Prog.only_putGet_bind.mpr ⟨hok, fun _ => Prog.only_require⟩

/-- Any of the six rails, on any share that is not paid. -/
def setPlannedRail (allocationId : AllocationId) (rail : WorkerPayoutRail) :
    RailService Unit := do
  let found ← get fun w => w.db.allocations.find allocationId
  let allocation ← orThrow found (.notFound s!"Allocation {allocationId} not found")
  require (allocation.payoutStatus ≠ .paid)
    (.conflict "A paid allocation's settlement route cannot be changed")
  planRails [(allocationId, rail)]

/-- The status of the default wallet of a worker. -/
def World.walletStatus (w : World) (workerId : WorkerId) : Option WalletStatus :=
  (((w.db.workers.find workerId).bind Worker.defaultWallet).bind w.db.wallets.find).map
    WorkerWallet.status

/-- A worker id that is neither null nor empty. -/
def WorkerAllocation.Connected (a : WorkerAllocation) : Prop := a.workerId.getD "" ≠ ""

instance (a : WorkerAllocation) : Decidable a.Connected := inferInstanceAs (Decidable (_ ≠ _))

/-- The rail of a worker whose share has none: USDC with an active default wallet,
else payroll. -/
def World.autoRail (w : World) (a : WorkerAllocation) : WorkerPayoutRail :=
  if a.workerId.bind w.walletStatus = some .active then .usdc else .payroll

def World.autoAssignments (w : World) (batchId : BatchId) :
    List (AllocationId × WorkerPayoutRail) :=
  ((BatchWrite.rowsOf w.db batchId).filter fun a =>
    decide (a.Connected ∧ a.plannedPayoutRail = none ∧ a.payoutStatus ≠ .paid)).map fun a =>
      (a.id, w.autoRail a)

structure AutoAssigned where
  assigned : Nat
  usdc : Nat
  payroll : Nat
  deriving DecidableEq, Repr

def autoAssignRails (batchId : BatchId) : RailService AutoAssigned := do
  let found ← get fun w => (w.db.batches.find batchId).map fun _ => w.autoAssignments batchId
  let assignments ← orThrow found (.notFound "Batch not found")
  let usdc := (assignments.filter fun x => decide (x.2 = .usdc)).length
  Prog.when (assignments ≠ []) (planRails assignments)
  return ⟨assignments.length, usdc, assignments.length - usdc⟩

/-! ## settlementClose -/

/-- The rail of the payout, or the planned one. -/
def railFor (a : WorkerAllocation) : Option WorkerPayoutRail := a.payoutRail.or a.plannedPayoutRail

structure RailSummary where
  workerCount : Nat
  totalUsdCents : Int
  remainingUsdCents : Int
  deriving DecidableEq, Repr

structure CashSummary extends RailSummary where
  observedUsdCents : Int
  retainedUsdCents : Int
  drawerUsdCents : Int
  deriving DecidableEq, Repr

structure UsdcSummary extends RailSummary where
  missingWalletCount : Nat
  deriving DecidableEq, Repr

structure ShareSummary where
  workerCount : Nat
  totalUsdCents : Int
  deriving DecidableEq, Repr

structure SettlementClose where
  businessDate : String
  batch : Option (BatchId × AllocationBatchStatus)
  cash : CashSummary
  payroll : RailSummary
  usdc : UsdcSummary
  unassigned : ShareSummary
  held : ShareSummary
  deriving DecidableEq, Repr

def totalUsdCents (allocations : List WorkerAllocation) : Int :=
  (allocations.map WorkerAllocation.netAllocatedUsdCents).sum

/-- The share has one of the rails. -/
def HasRail (rails : List WorkerPayoutRail) (a : WorkerAllocation) : Prop :=
  ∃ rail ∈ railFor a, rail ∈ rails

instance (rails : List WorkerPayoutRail) (a : WorkerAllocation) : Decidable (HasRail rails a) :=
  inferInstanceAs (Decidable (∃ rail ∈ railFor a, _))

def SettlementClose.summarize (allocations : List WorkerAllocation)
    (rails : List WorkerPayoutRail) : RailSummary :=
  let selected := allocations.filter fun a => decide (HasRail rails a)
  { workerCount := selected.length
    totalUsdCents := totalUsdCents selected
    remainingUsdCents :=
      totalUsdCents (selected.filter fun a => decide (a.payoutStatus ≠ .paid)) }

def ShareSummary.of (allocations : List WorkerAllocation) : ShareSummary :=
  ⟨allocations.length, ServeProof.totalUsdCents allocations⟩

/-- The batch of a business date with the highest policy version. -/
def World.batchOn (w : World) (venueId : VenueId) (businessDate : String) :
    Option AllocationBatch :=
  (w.db.batches.rows.filter fun b =>
    decide (b.id.venueId = venueId ∧ b.id.businessDate = businessDate)).foldl
    (fun latest b =>
      match latest with
      | none => some b
      | some l => if l.id.policyVersion < b.id.policyVersion then some b else some l) none

/-- The shares of a batch, with the status of the default wallet of the worker. -/
def World.shares (w : World) (batch : Option AllocationBatch) :
    List (WorkerAllocation × Option WalletStatus) :=
  ((batch.map fun b => BatchWrite.rowsOf w.db b.id).getD []).map fun a =>
    (a, a.workerId.bind w.walletStatus)

def World.cashTipsOn (w : World) (venueId : VenueId) (businessDate : String) : List TipEvidence :=
  w.db.tips.rows.filter fun t =>
    decide (t.id.venueId = venueId ∧ t.businessDate = businessDate ∧ t.id.tipType = .cashTip ∧
      t.paymentStatus = .completed)

def grossUsdCents (tips : List TipEvidence) : Int :=
  (tips.map TipEvidence.grossAmountUsdCents).sum

section Close

variable (sourcePayoutRail : TipId → Option WorkerPayoutRail) (businessDate : String)

/-- What is returned of the rows that were read.  `sourcePayoutRail` is the rail that the
source of a tip says it went through. -/
def closeOf (batch : Option AllocationBatch)
    (shares : List (WorkerAllocation × Option WalletStatus)) (cashTips : List TipEvidence) :
    SettlementClose :=
  let allocations := shares.map Prod.fst
  { businessDate := businessDate
    batch := batch.map fun b => (b.id, b.status)
    cash :=
      { SettlementClose.summarize allocations [.cashRetained, .cashDrawer] with
        observedUsdCents := grossUsdCents cashTips
        retainedUsdCents := grossUsdCents (cashTips.filter fun t =>
          decide (sourcePayoutRail t.id = some .cashRetained))
        drawerUsdCents := grossUsdCents (cashTips.filter fun t =>
          decide (sourcePayoutRail t.id = some .cashDrawer)) }
    payroll := SettlementClose.summarize allocations [.payroll]
    usdc :=
      { SettlementClose.summarize allocations [.usdc] with
        missingWalletCount := (shares.filter fun x =>
          decide (x.1.workerId ≠ none ∧ railFor x.1 = some .usdc ∧ x.2 ≠ some .active)).length }
    unassigned := .of (allocations.filter fun a => decide (a.Connected ∧ railFor a = none))
    -- a share that waits for its account is not one without a rail
    held := .of (allocations.filter fun a => decide (¬ a.Connected)) }

/-- The close of a business date. -/
def settlementClose (venueId : VenueId) : Service SettlementClose := do
  let venue ← get fun w => w.db.venues.find venueId
  let _ ← orThrow venue (.notFound s!"Venue {venueId} not found")
  let found ← get fun w =>
    let batch := w.batchOn venueId businessDate
    (batch, w.shares batch)
  let cashTips ← get fun w => w.cashTipsOn venueId businessDate
  return closeOf sourcePayoutRail businessDate found.1 found.2 cashTips

end Close

end ServeProof
