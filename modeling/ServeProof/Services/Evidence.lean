import ServeProof.Services.Allocations

/-!
# ServeProof.Services.Evidence

What feeds the calculation: CSV imports, policy versions, and external
accounts a worker accepts or rejects.
-/

namespace ServeProof

open Interleave
open Prog (get require orThrow forEach attempt)

/-! ## importCsv -/

/-- A CSV after normalization. -/
structure CsvNormalizationResult where
  tips : List NormalizedTip
  shifts : List NormalizedShift

/-- The distinct business dates of an import, sorted. -/
def CsvNormalizationResult.businessDates (csv : CsvNormalizationResult) : List String :=
  ((csv.shifts.map NormalizedShift.businessDate ++
    csv.tips.map NormalizedTip.businessDate).dedup).insertionSort (· ≤ ·)

/-- The worker a confirmed account maps an external id to.  The map is keyed by
the joined text, and the last account with a key wins. -/
def workerByExternalId (accounts : List ExternalWorkerAccount)
    (provider externalWorkerId : String) : Option WorkerId :=
  ((accounts.reverse.find? fun a =>
    decide (a.id.provider ++ ":" ++ a.id.externalWorkerId =
      provider ++ ":" ++ externalWorkerId)).map ExternalWorkerAccount.workerId)

def World.confirmedAccounts (w : World) (venueId : VenueId) : List ExternalWorkerAccount :=
  w.db.accounts.rows.filter fun a =>
    decide (a.id.venueId = venueId ∧ a.mappingStatus = .confirmed)

/-- Store a CSV as evidence, then calculate every business date in it.  A
calculation that fails never fails the import. -/
def importCsv [Collation] (venueId : VenueId) (csv : CsvNormalizationResult)
    (actorUserId : Option UserId) (now : Time) : Service Unit := do
  let venue ← get fun w => w.db.venues.find venueId
  let _ ← orThrow venue (.notFound s!"Venue {venueId} not found")
  let accounts ← get fun w => w.confirmedAccounts venueId
  forEach csv.tips fun tip => do
    let _ ← commit (.record (.csvTip venueId tip))
  forEach csv.shifts fun shift => do
    let _ ← commit (.record (.csvShift venueId shift
      (workerByExternalId accounts shift.provider shift.externalWorkerId)))
  forEach csv.businessDates fun businessDate => do
    let _ ← attempt (calculate venueId businessDate none actorUserId now)

/-! ## createVersion, newVersionFrom -/

def createVersion (venueId : VenueId) (input : PolicyInput) : Service Unit := do
  let _ ← commit (.record (.createVersion venueId input))

/-- Columns to override in a new version. -/
structure PolicyOverrides where
  roleWeights : Option (List (String × ℚ))
  poolInclusion : Option (List (TipType × Bool))
  excludedRoles : Option (List String)

/-- Clone a policy, with overrides. -/
def newVersionFrom (policyId : PolicyId) (overrides : PolicyOverrides) : Service Unit := do
  let found ← get fun w => w.db.policies.find policyId
  let base ← orThrow found (.notFound "Policy not found")
  createVersion base.id.venueId
    { roleWeights := overrides.roleWeights.getD base.roleWeights
      poolInclusion := overrides.poolInclusion.getD base.poolInclusion
      excludedRoles := overrides.excludedRoles.getD base.excludedRoles }

/-! ## createMapping -/

/-- The held shares of an external account. -/
def World.heldShares (w : World) (id : AccountId) : List WorkerAllocation :=
  w.db.allocations.rows.filter fun a =>
    decide (a.workerId = none ∧ a.provider = some id.provider ∧
      a.externalWorkerId = some id.externalWorkerId ∧ a.batchId.venueId = id.venueId)

/-- The venue proposes an external account to a worker; an account that exists is
put back to `PENDING`, under the new worker.  The answer is what is held for it. -/
def createMapping (id : AccountId) (workerId : WorkerId) : Service Int := do
  let found ← get fun w => w.db.workers.find workerId
  let _ ← orThrow found (.notFound s!"Worker {workerId} not found")
  let _ ← commit (.record (.propose id workerId))
  get fun w => ((w.heldShares id).map WorkerAllocation.netAllocatedUsdCents).sum

/-! ## respondToMapping -/

/-- Attach the held shares of an account to its worker, one transaction each. -/
def attachHeldAllocations (mapping : ExternalWorkerAccount) : Service Unit := do
  let held ← get fun w => w.heldShares mapping.id
  forEach held fun allocation =>
    transact (.batch (.attach allocation mapping.workerId))
      (.internal "Record to update not found")

def verifyMapping (id : AccountId) (verifiedBy : UserId) : Service Unit := do
  let found ← get fun w => w.db.accounts.find id
  let mapping ← orThrow found (.notFound "Mapping not found")
  require (mapping.mappingStatus ≠ .rejected)
    (.badRequest "Rejected mapping cannot be verified")
  let _ ← commit (.record (.verify mapping verifiedBy))
  attachHeldAllocations mapping

inductive MappingDecision where
  | accept | reject
  deriving DecidableEq, Repr

/-- A worker accepts or rejects a proposed external account. -/
def respondToMapping (id : AccountId) (userId : UserId) (decision : MappingDecision) :
    Service Unit := do
  let found ← get fun w => (w.db.accounts.find id).map fun a => (a, w.db.workers.find a.workerId)
  let mapping ← orThrow found (.notFound "Mapping not found")
  require (mapping.2.map Worker.userId = some userId)
    (.forbidden "This connection request belongs to another worker")
  match decision with
  | .reject => do
      require (mapping.1.mappingStatus ≠ .confirmed)
        (.badRequest "A confirmed mapping cannot be rejected")
      let _ ← commit (.record (.rejectAccount mapping.1 userId))
  | .accept => do
      require (mapping.1.mappingStatus ≠ .rejected)
        (.badRequest "A rejected mapping requires a new venue request")
      if mapping.1.mappingStatus = .confirmed then pure ()
      else verifyMapping id userId

end ServeProof
