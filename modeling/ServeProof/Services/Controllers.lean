import ServeProof.Accounts.Access
import ServeProof.Calls
import ServeProof.Interleave.Within
import ServeProof.Services.Close
import ServeProof.Services.Policies

/-!
# ServeProof.Services.Controllers

The controllers of the API in front of the settlement core: each looks up the venue that a
request is about and asserts the role of its user there, then calls the service.  And the
calls that make organizations, members and venues.

The schemas that parse the bodies are the types of the arguments.
-/

namespace ServeProof

open Interleave
open Prog (get putGet require orThrow)

/-! ## The store -/

/-- The settlement core, and who may act on it. -/
structure Portal where
  world : World
  directory : Directory
  organizations : List OrganizationId
  /-- The user of an e-mail address. -/
  users : String → Option UserId

/-- The policy of a new venue, in the columns that the calculation reads. -/
def firstPolicy (venueId : VenueId) (creatorUserId : UserId) (now : Time) : AllocationPolicy :=
  let policy := Policies.defaultPolicy venueId creatorUserId now
  { id := policy.id
    status := policy.status
    roleWeights := policy.roleWeights
    poolInclusion := policy.poolInclusion
    excludedRoles := policy.excludedRoles }

structure NewVenue where
  id : VenueId
  organizationId : OrganizationId
  name : String

inductive PortalCommand where
  | settle (c : Write)
  | plan (c : RailWrite)
  /-- A new organization, with its creator as `OWNER`. -/
  | createOrganization (id : OrganizationId) (creatorUserId : UserId)
  | upsertMember (member : OrganizationMember)
  /-- A new venue, with its first policy. -/
  | createVenue (venue : NewVenue) (creatorUserId : UserId) (now : Time)
  | setVenueWallet (venueId : VenueId) (payoutSignerWallet : Address)

namespace PortalCommand

/-- No unique constraint or foreign key is violated. -/
def Applies : PortalCommand → Portal → Prop
  | createOrganization id _, s => id ∉ s.organizations
  | upsertMember member, s => member.organizationId ∈ s.organizations
  | createVenue venue .., s =>
      venue.organizationId ∈ s.organizations ∧ s.directory.venues.find venue.id = none
  | settle _, _ | plan _, _ | setVenueWallet .., _ => True

instance decidableApplies (c : PortalCommand) (s : Portal) : Decidable (c.Applies s) :=
  match c with
  | createOrganization _ _ => inferInstanceAs (Decidable (_ ∉ _))
  | upsertMember _ => inferInstanceAs (Decidable (_ ∈ _))
  | createVenue .. => inferInstanceAs (Decidable (_ ∧ _))
  | settle _ | plan _ | setVenueWallet .. => isTrue trivial

def setWallet (payoutSignerWallet : Address) (venue : Venue) : Venue :=
  { venue with payoutSignerWallet := some payoutSignerWallet }

def addMember (member : OrganizationMember) (d : Directory) : Directory :=
  { d with members := d.members.set member }

def effect : PortalCommand → Portal → Portal
  | settle c, s => { s with world := c.apply s.world }
  | plan c, s => { s with world := c.apply s.world }
  | createOrganization id creatorUserId, s =>
      { s with
        organizations := id :: s.organizations
        directory := addMember ⟨id, creatorUserId, .owner⟩ s.directory }
  | upsertMember member, s => { s with directory := addMember member s.directory }
  | createVenue venue creatorUserId now, s =>
      let db := s.world.db
      { s with
        directory :=
          { s.directory with
            venues := s.directory.venues.set ⟨venue.id, venue.organizationId, venue.name⟩ }
        world :=
          { s.world with
            db :=
              { db with
                venues := db.venues.set ⟨venue.id, venue.name, none⟩
                policies := db.policies.set (firstPolicy venue.id creatorUserId now) } } }
  | setVenueWallet venueId payoutSignerWallet, s =>
      let db := s.world.db
      { s with
        world :=
          { s.world with
            db := { db with venues := db.venues.update venueId (setWallet payoutSignerWallet) } } }

def apply (c : PortalCommand) (s : Portal) : Portal := if c.Applies s then c.effect s else s

@[simp] theorem apply_settle (c : Write) (s : Portal) :
    (settle c).apply s = { s with world := c.apply s.world } := if_pos trivial

@[simp] theorem apply_plan (c : RailWrite) (s : Portal) :
    (plan c).apply s = { s with world := c.apply s.world } := if_pos trivial

end PortalCommand

abbrev PortalAction (α : Type) := Prog Portal PortalCommand ApiError α

namespace Portal

/-- A service call, with its answer left out. -/
def serve {α : Type} (p : Service α) : PortalAction Unit :=
  (discardResult p).lift Portal.world .settle

def serveRails {α : Type} (p : RailService α) : PortalAction Unit :=
  (do let _ ← p : RailService Unit).lift Portal.world .plan

/-- A command that must go through. -/
def execute (c : PortalCommand) : PortalAction Unit := do
  let done ← putGet c fun s => decide (c.Applies s)
  require (done = true) (.internal "Constraint failed")

/-! ## AccessService -/

def assertOrgRole (userId : UserId) (organizationId : OrganizationId) (allowed : List OrgRole) :
    PortalAction Unit := do
  let membership ← get fun s => s.directory.members.find (organizationId, userId)
  require (∃ m ∈ membership, m.role ∈ allowed) (.forbidden "Insufficient organization role")

/-- Every venue-scoped operation asserts the acting user's membership in the venue's
organization before touching data. -/
def assertVenueRole (userId : UserId) (venueId : VenueId) (allowed : List OrgRole) :
    PortalAction Unit := do
  let found ← get fun s => s.directory.venues.find venueId
  let venue ← orThrow found (.notFound s!"Venue {venueId} not found")
  let membership ← get fun s => s.directory.members.find (venue.organizationId, userId)
  require (∃ m ∈ membership, m.role ∈ allowed)
    (.forbidden "Insufficient organization role for this venue")

/-- The method of a controller whose user must manage the venue it is about. -/
def managed (userId : UserId) (venueId : PortalAction VenueId) (act : PortalAction Unit) :
    PortalAction Unit := do
  let venueId ← venueId
  assertVenueRole userId venueId venueManageRoles
  act

end Portal

open Portal (serve serveRails execute managed assertVenueRole assertOrgRole)

/-! ## The controllers -/

namespace PayoutsController

/-- The venue of an allocation, null when there is no such allocation. -/
def venueIdOfAllocation (allocationId : AllocationId) : PortalAction (Option VenueId) :=
  get fun s => (s.world.db.allocations.find allocationId).map fun a => a.batchId.venueId

/-- Without a venue (null, or an empty id) nothing is asserted. -/
def assertAllocation (userId : UserId) (allocationId : AllocationId) : PortalAction Unit := do
  let venueId ← venueIdOfAllocation allocationId
  match venueId.filter (· ≠ "") with
  | some venueId => assertVenueRole userId venueId venueManageRoles
  | none => pure ()

def create (userId : UserId) (allocationId : AllocationId) : PortalAction Unit := do
  assertAllocation userId allocationId
  serve (createUsdcPayout allocationId (some userId))

def legacyEvidence (userId : UserId) (allocationId : AllocationId) (rail : LegacyRail)
    (externalReference : String) (now : Time) : PortalAction Unit := do
  assertAllocation userId allocationId
  serve (registerLegacyEvidence allocationId rail externalReference (some userId) now)

/-- `getPayout`, for its venue. -/
def venueIdOfPayout (id : AllocationId) : PortalAction VenueId := do
  let found ← get fun s => s.world.db.payouts.find id
  let payout ← orThrow found (.notFound s!"Payout {id} not found")
  return payout.venueId

def buildTransaction (userId : UserId) (id : AllocationId) (now : Time) : PortalAction Unit :=
  managed userId (venueIdOfPayout id) (serve (ServeProof.buildTransaction id (some userId) now))

def submit (userId : UserId) (id : AllocationId) (payload : Option SubmittedTransaction)
    (now : Time) (sendError : Option String) : PortalAction Unit :=
  managed userId (venueIdOfPayout id)
    (serve (submitSigned id payload (some userId) now sendError))

end PayoutsController

namespace AllocationsController

/-- `getBatch`, for its venue. -/
def venueIdOfBatch (id : BatchId) : PortalAction VenueId := do
  let found ← get fun s => s.world.db.batches.find id
  let batch ← orThrow found (.notFound "Batch not found")
  return batch.id.venueId

/-- `getAllocation`, for its venue. -/
def venueIdOfAllocation (id : AllocationId) : PortalAction VenueId := do
  let found ← get fun s => s.world.db.allocations.find id
  let allocation ← orThrow found (.notFound s!"Allocation {id} not found")
  return allocation.batchId.venueId

def calculate [Collation] (userId : UserId) (venueId : VenueId) (businessDate : String)
    (policyVersion : Option Nat) (now : Time) : PortalAction Unit :=
  managed userId (pure venueId)
    (serve (ServeProof.calculate venueId businessDate policyVersion (some userId) now))

def approve (userId : UserId) (id : BatchId) (now : Time) : PortalAction Unit :=
  managed userId (venueIdOfBatch id) (serve (ServeProof.approve id userId now))

def reject (userId : UserId) (id : BatchId) (reason : String) : PortalAction Unit :=
  managed userId (venueIdOfBatch id) (serve (ServeProof.reject id userId reason))

def autoAssignRails (userId : UserId) (id : BatchId) : PortalAction Unit :=
  managed userId (venueIdOfBatch id) (serveRails (ServeProof.autoAssignRails id))

def setPlannedRail (userId : UserId) (allocationId : AllocationId) (rail : WorkerPayoutRail) :
    PortalAction Unit :=
  managed userId (venueIdOfAllocation allocationId)
    (serveRails (ServeProof.setPlannedRail allocationId rail))

end AllocationsController

namespace EvidenceController

def importCsv [Collation] (userId : UserId) (venueId : VenueId) (csv : CsvNormalizationResult)
    (now : Time) : PortalAction Unit :=
  managed userId (pure venueId) (serve (ServeProof.importCsv venueId csv (some userId) now))

end EvidenceController

namespace PoliciesController

/-- `getVenueIdOf`. -/
def venueIdOf (id : PolicyId) : PortalAction VenueId := do
  let found ← get fun s => s.world.db.policies.find id
  let policy ← orThrow found (.notFound "Policy not found")
  return policy.id.venueId

def create (userId : UserId) (venueId : VenueId) (input : PolicyInput) : PortalAction Unit :=
  managed userId (pure venueId) (serve (createVersion venueId input))

def newVersion (userId : UserId) (id : PolicyId) (overrides : PolicyOverrides) :
    PortalAction Unit :=
  managed userId (venueIdOf id) (serve (newVersionFrom id overrides))

end PoliciesController

namespace MappingsController

def create (userId : UserId) (id : AccountId) (workerId : WorkerId) : PortalAction Unit :=
  managed userId (pure id.venueId) (serve (createMapping id workerId))

/-- The service asserts that the account is proposed to the user. -/
def respond (userId : UserId) (id : AccountId) (decision : MappingDecision) :
    PortalAction Unit :=
  serve (respondToMapping id userId decision)

end MappingsController

namespace OrganizationsController

def create (userId : UserId) (id : OrganizationId) : PortalAction Unit :=
  execute (.createOrganization id userId)

/-- Invite by e-mail; the user must exist. -/
def addMember (userId : UserId) (organizationId : OrganizationId) (email : String)
    (role : OrgRole) : PortalAction Unit := do
  assertOrgRole userId organizationId [.owner]
  let found ← get fun s => s.users email.toLower
  let memberId ← orThrow found
    (.notFound s!"No user with email {email}; they must log in once first")
  execute (.upsertMember ⟨organizationId, memberId, role⟩)

def createVenue (userId : UserId) (venue : NewVenue) (now : Time) : PortalAction Unit := do
  assertOrgRole userId venue.organizationId venueManageRoles
  execute (.createVenue venue userId now)

def setWallet (userId : UserId) (venueId : VenueId) (payoutSignerWallet : Address) :
    PortalAction Unit :=
  managed userId (pure venueId) (execute (.setVenueWallet venueId payoutSignerWallet))

end OrganizationsController

/-! ## The system -/

inductive PortalRequest where
  | createPayout (allocationId : AllocationId)
  | legacyEvidence (allocationId : AllocationId) (rail : LegacyRail) (externalReference : String)
      (now : Time)
  | buildTransaction (id : AllocationId) (now : Time)
  | submit (id : AllocationId) (payload : Option SubmittedTransaction) (now : Time)
      (sendError : Option String)
  | calculate (venueId : VenueId) (businessDate : String) (policyVersion : Option Nat)
      (now : Time)
  | approve (id : BatchId) (now : Time)
  | reject (id : BatchId) (reason : String)
  | autoAssignRails (id : BatchId)
  | setPlannedRail (allocationId : AllocationId) (rail : WorkerPayoutRail)
  | importCsv (venueId : VenueId) (csv : CsvNormalizationResult) (now : Time)
  | createPolicy (venueId : VenueId) (input : PolicyInput)
  | newVersion (id : PolicyId) (overrides : PolicyOverrides)
  | createMapping (id : AccountId) (workerId : WorkerId)
  | respond (id : AccountId) (decision : MappingDecision)
  | createOrganization (id : OrganizationId)
  | addMember (organizationId : OrganizationId) (email : String) (role : OrgRole)
  | createVenue (venue : NewVenue) (now : Time)
  | setWallet (venueId : VenueId) (payoutSignerWallet : Address)

def PortalRequest.prog [Collation] (userId : UserId) : PortalRequest → PortalAction Unit
  | createPayout p => PayoutsController.create userId p
  | legacyEvidence p rail reference now =>
      PayoutsController.legacyEvidence userId p rail reference now
  | buildTransaction id now => PayoutsController.buildTransaction userId id now
  | submit id payload now sendError =>
      PayoutsController.submit userId id payload now sendError
  | calculate venueId date version now =>
      AllocationsController.calculate userId venueId date version now
  | approve id now => AllocationsController.approve userId id now
  | reject id reason => AllocationsController.reject userId id reason
  | autoAssignRails id => AllocationsController.autoAssignRails userId id
  | setPlannedRail p rail => AllocationsController.setPlannedRail userId p rail
  | importCsv venueId csv now => EvidenceController.importCsv userId venueId csv now
  | createPolicy venueId input => PoliciesController.create userId venueId input
  | newVersion id overrides => PoliciesController.newVersion userId id overrides
  | createMapping id workerId => MappingsController.create userId id workerId
  | respond id decision => MappingsController.respond userId id decision
  | createOrganization id => OrganizationsController.create userId id
  | addMember organizationId email role =>
      OrganizationsController.addMember userId organizationId email role
  | createVenue venue now => OrganizationsController.createVenue userId venue now
  | setWallet venueId wallet => OrganizationsController.setWallet userId venueId wallet

inductive PortalCall where
  /-- A request of the user whose token it carries. -/
  | request (userId : UserId) (r : PortalRequest)
  /-- A job of the settlement worker. -/
  | job (c : WorkerCall)

def PortalCall.prog [Collation] : PortalCall → PortalAction Unit
  | request userId r => r.prog userId
  | job c => serve (Call.workerProg c)

inductive PortalMove where
  | world (e : EnvMove)
  /-- Users log in for the first time, or change their address. -/
  | users (users : String → Option UserId)

def PortalMove.apply : PortalMove → Portal → Portal
  | world e, s => { s with world := e.apply s.world }
  | users f, s => { s with users := f }

def portal [Collation] : System Portal PortalCommand ApiError (Nat × PortalCall) PortalMove where
  apply := PortalCommand.apply
  prog i := i.2.prog
  env := PortalMove.apply

end ServeProof
