import ServeProof.World

/-!
# ServeProof.Accounts.Access

Organizations, their members, and the checks of a role that every
venue-scoped operation makes first.
-/

namespace ServeProof

abbrev OrganizationId := String

inductive OrgRole where
  | owner | manager | payrollAdmin | viewer
  deriving DecidableEq, Repr

structure OrganizationMember where
  organizationId : OrganizationId
  userId : UserId
  role : OrgRole
  deriving DecidableEq, Repr

/-- A user is a member of an organization once. -/
def OrganizationMember.key (m : OrganizationMember) : OrganizationId × UserId :=
  (m.organizationId, m.userId)

/-- A venue as the access checks see it. -/
structure OrganizationVenue where
  id : VenueId
  organizationId : OrganizationId
  name : String
  deriving DecidableEq, Repr

structure Directory where
  venues : Table OrganizationVenue.id
  members : Table OrganizationMember.key

def venueManageRoles : List OrgRole := [.owner, .manager]
def venueReadRoles : List OrgRole := [.owner, .manager, .payrollAdmin, .viewer]

namespace Directory

variable (d : Directory)

/-- The user has one of these roles in the organization. -/
def HasRole (userId : UserId) (organizationId : OrganizationId) (allowed : List OrgRole) : Prop :=
  ∃ m ∈ d.members.find (organizationId, userId), m.role ∈ allowed

instance (userId : UserId) (organizationId : OrganizationId) (allowed : List OrgRole) :
    Decidable (d.HasRole userId organizationId allowed) :=
  inferInstanceAs (Decidable (∃ m ∈ _, _))

def assertOrgRole (userId : UserId) (organizationId : OrganizationId) (allowed : List OrgRole) :
    Except ApiError Unit :=
  if d.HasRole userId organizationId allowed then .ok ()
  else .error (.forbidden "Insufficient organization role")

def assertVenueRole (userId : UserId) (venueId : VenueId) (allowed : List OrgRole) :
    Except ApiError Unit :=
  match d.venues.find venueId with
  | none => .error (.notFound s!"Venue {venueId} not found")
  | some venue =>
      if d.HasRole userId venue.organizationId allowed then .ok ()
      else .error (.forbidden "Insufficient organization role for this venue")

/-- The venue belongs to an organization of the user. -/
def Belongs (userId : UserId) (venueId : VenueId) : Prop :=
  ∃ v ∈ d.venues.find venueId, (d.members.find (v.organizationId, userId)).isSome

instance (userId : UserId) (venueId : VenueId) : Decidable (d.Belongs userId venueId) :=
  inferInstanceAs (Decidable (∃ v ∈ _, _))

theorem assertVenueRole_eq_ok {userId : UserId} {venueId : VenueId} {allowed : List OrgRole} :
    d.assertVenueRole userId venueId allowed = .ok () ↔
      ∃ v ∈ d.venues.find venueId, d.HasRole userId v.organizationId allowed := by
  unfold assertVenueRole
  cases d.venues.find venueId with
  | none => simp
  | some v => simp

end Directory
end ServeProof
