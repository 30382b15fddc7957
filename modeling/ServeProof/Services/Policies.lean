import ServeProof.Interleave.ReadCommitted
import ServeProof.Writes.Records

/-!
# ServeProof.Services.Policies

The policy versions of a venue, one statement at a time: `createVersion`,
`newVersionFrom`, and the policy that `createVenue` creates with the venue.

`newVersionFrom` reads its policy before the transaction; a read is one either way.
-/

namespace ServeProof.Policies

open ReadCommitted

inductive AllocationType where
  | hoursWeighted | roleWeightedHours | equalSplit
  deriving DecidableEq, Repr

/-- A row of `AllocationPolicy`; a rule is its JSON text. -/
structure PolicyVersion extends AllocationPolicy where
  allocationType : AllocationType
  tipOutRules : List String
  effectiveFrom : Time
  effectiveTo : Option Time
  createdBy : UserId
  deriving DecidableEq, Repr

def PolicyVersion.policyId (p : PolicyVersion) : PolicyId := p.id

abbrev PolicyTx := Tx PolicyVersion.policyId

/-- What a manager sends. -/
structure VersionInput extends PolicyInput where
  allocationType : AllocationType
  tipOutRules : Option (List String)
  effectiveFrom : Time
  deriving DecidableEq, Repr

/-! ## createVersion -/

/-- The highest version of the venue, and 0 where there is none. -/
def latestVersion (t : Table PolicyVersion.policyId) (venueId : VenueId) : Nat :=
  (((t.rows.filter fun p => decide (p.id.venueId = venueId)).map fun p => p.id.version).max?).getD 0

/-- Archive the active policies of the venue. -/
def archive (venueId : VenueId) (now : Time) : Update PolicyVersion.policyId where
  p p := decide (p.id.venueId = venueId ∧ p.status = .active)
  change p := { p with status := .archived, effectiveTo := some now }
  key_change _ := rfl

def versionRow (venueId : VenueId) (version : Nat) (createdBy : UserId) (input : VersionInput) :
    PolicyVersion where
  id := ⟨venueId, version⟩
  status := .active
  roleWeights := input.roleWeights
  poolInclusion := input.poolInclusion
  excludedRoles := input.excludedRoles
  allocationType := input.allocationType
  tipOutRules := input.tipOutRules.getD []
  effectiveFrom := input.effectiveFrom
  effectiveTo := none
  createdBy := createdBy

def createVersion (venueId : VenueId) (createdBy : UserId) (input : VersionInput) (now : Time) :
    PolicyTx :=
  .query fun t =>
    .update (archive venueId now)
      (.insert (versionRow venueId (latestVersion t venueId + 1) createdBy input) .commit)

/-! ## newVersionFrom -/

/-- The columns to override. -/
structure VersionOverrides where
  allocationType : Option AllocationType
  roleWeights : Option (List (String × ℚ))
  poolInclusion : Option (List (TipType × Bool))
  excludedRoles : Option (List String)
  tipOutRules : Option (List String)
  effectiveFrom : Option Time

def VersionOverrides.input (overrides : VersionOverrides) (base : PolicyVersion) (now : Time) :
    VersionInput where
  allocationType := overrides.allocationType.getD base.allocationType
  roleWeights := overrides.roleWeights.getD base.roleWeights
  poolInclusion := overrides.poolInclusion.getD base.poolInclusion
  excludedRoles := overrides.excludedRoles.getD base.excludedRoles
  tipOutRules := some (overrides.tipOutRules.getD base.tipOutRules)
  effectiveFrom := overrides.effectiveFrom.getD now

def newVersionFrom (policyId : PolicyId) (createdBy : UserId) (overrides : VersionOverrides)
    (now : Time) : PolicyTx :=
  .query fun t =>
    match t.find policyId with
    | none => .rollback
    | some base => createVersion base.id.venueId createdBy (overrides.input base now) now

/-! ## createVenue -/

/-- The policy that is created with a venue. -/
def defaultPolicy (venueId : VenueId) (creatorUserId : UserId) (now : Time) : PolicyVersion where
  id := ⟨venueId, 1⟩
  status := .active
  roleWeights := [("SERVER", 1), ("BUSSER", 7 / 10), ("BARTENDER", 1)]
  poolInclusion := [(.cardTip, true), (.qrTip, true), (.cashTip, false),
    (.automaticGratuity, false), (.serviceCharge, false)]
  excludedRoles := ["MANAGER", "SUPERVISOR"]
  allocationType := .roleWeightedHours
  tipOutRules := []
  effectiveFrom := now
  effectiveTo := none
  createdBy := creatorUserId

/-- The insert of the policy; the venue has a new id. -/
def createVenue (venueId : VenueId) (creatorUserId : UserId) (now : Time) : PolicyTx :=
  .insert (defaultPolicy venueId creatorUserId now) .commit

/-! ## The calls -/

inductive PolicyCall where
  | createVersion (venueId : VenueId) (createdBy : UserId) (input : VersionInput) (now : Time)
  | newVersionFrom (policyId : PolicyId) (createdBy : UserId) (overrides : VersionOverrides)
      (now : Time)
  | createVenue (venueId : VenueId) (creatorUserId : UserId) (now : Time)

def PolicyCall.tx : PolicyCall → PolicyTx
  | createVersion venueId createdBy input now => Policies.createVersion venueId createdBy input now
  | newVersionFrom policyId createdBy overrides now =>
      Policies.newVersionFrom policyId createdBy overrides now
  | createVenue venueId creatorUserId now => Policies.createVenue venueId creatorUserId now

end ServeProof.Policies
