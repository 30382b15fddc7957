import ServeProof.Interleave.Eval
import ServeProof.Staffing.Store
import ServeProof.Text

/-!
# ServeProof.Staffing.Service

Staffing: shifts are published, workers are invited or come by themselves, clock
in and out, and a manager approves their work.

Each request starts with the checks of its route.  An assignment is read with
its shift in two queries, as `include` makes them.
-/

namespace ServeProof.Staffing

open Interleave
open Prog (get put putGet require orThrow)

abbrev StaffingAction (α : Type) := Prog StaffingStore StaffingCommand ApiError α

/-! ## Steps -/

/-- A transaction; it throws where it is refused. -/
def transact (c : StaffingCommand) : StaffingAction Unit := do
  let refused ← putGet c c.refused
  match refused with
  | some e => .throw e
  | none => pure ()

def audit (venueId : VenueId) (actorUserId : UserId) (action : String) (entity : StaffingEntity)
    (detail : StaffingDetail) : StaffingAction Unit :=
  put (.audit ⟨venueId, actorUserId, action, entity, detail⟩)

def assertVenueRole (userId : UserId) (venueId : VenueId) (allowed : List OrgRole) :
    StaffingAction Unit := do
  let checked ← get fun s => s.directory.assertVenueRole userId venueId allowed
  match checked with
  | .error e => .throw e
  | .ok _ => pure ()

def getShift (id : OpenShiftId) : StaffingAction OpenShift := do
  let found ← get fun s => s.openShifts.find id
  orThrow found (.notFound s!"Open shift {id} not found")

def AssignmentId.text (id : AssignmentId) : String := s!"{id.openShiftId}/{id.workerId}"

def getAssignment (id : AssignmentId) : StaffingAction (ShiftAssignment × OpenShift) := do
  let found ← get fun s => s.assignments.find id
  let assignment ← orThrow found (.notFound s!"Shift assignment {AssignmentId.text id} not found")
  let shift ← getShift id.openShiftId
  return (assignment, shift)

def getWorker (userId : UserId) : StaffingAction Worker := do
  let found ← get fun s => s.findWorker userId
  orThrow found (.notFound "No worker profile for this user")

/-- An assignment of the worker behind the user. -/
def workerAssignment (id : AssignmentId) (userId : UserId) :
    StaffingAction (ShiftAssignment × OpenShift × Worker) := do
  let worker ← getWorker userId
  let found ← get fun s => s.assignments.find id
  let assignment ← orThrow found (.notFound "Shift assignment not found")
  let shift ← getShift id.openShiftId
  require (assignment.id.workerId = worker.id) (.notFound "Shift assignment not found")
  return (assignment, shift, worker)

/-- A text that says something; an empty one is falsy. -/
def trimmed (text : Option String) : Option String := (text.map trim).filter (· ≠ "")

/-! ## The services -/

structure ShiftInput where
  role : String
  description : Option String
  startsAt : Date
  endsAt : Date
  hourlyRateUsdCents : Nat
  expectedTipUsdCents : Option Nat
  headcount : Option Nat
  deriving DecidableEq, Repr

def createShift (venueId : VenueId) (actorUserId : UserId) (input : ShiftInput) :
    StaffingAction Unit := do
  require (input.startsAt < input.endsAt) (.badRequest "Shift end must be after its start")
  require (input.endsAt - input.startsAt ≤ 24 * 60 * 60 * 1000)
    (.badRequest "A staffing shift cannot exceed 24 hours")
  let row : OpenShift :=
    { id := 0
      venueId := venueId
      createdByUserId := actorUserId
      role := input.role
      description := trimmed input.description
      startsAt := input.startsAt
      endsAt := input.endsAt
      hourlyRateUsdCents := input.hourlyRateUsdCents
      expectedTipUsdCents := input.expectedTipUsdCents.getD 0
      headcount := input.headcount.getD 1
      status := .draft
      publishedAt := none
      cancelledAt := none }
  let id ← putGet (.createShift row) StaffingStore.nextShiftId
  audit venueId actorUserId "OPEN_SHIFT_CREATED" (.openShift id)
    (.shift row.role row.startsAt row.headcount)

def publishShift (shiftId : OpenShiftId) (actorUserId : UserId) : StaffingAction Unit := do
  let shift ← getShift shiftId
  require (shift.status = .draft)
    (.conflict s!"Shift is {shift.status.text}; only DRAFT can be published")
  let now ← get StaffingStore.clock
  transact (.publishShift shiftId now)
  audit shift.venueId actorUserId "OPEN_SHIFT_PUBLISHED" (.openShift shiftId) .empty

def cancelShift (shiftId : OpenShiftId) (actorUserId : UserId) (reason : Option String) :
    StaffingAction Unit := do
  let shift ← getShift shiftId
  let assignments ← get fun s =>
    s.assignments.rows.filter fun a : ShiftAssignment => decide (a.id.openShiftId = shiftId)
  require (shift.status ∉ [.cancelled, .completed])
    (.conflict s!"Shift is already {shift.status.text}")
  require (∀ a ∈ assignments, a.status ∉ [.clockedIn, .clockedOut])
    (.conflict "A shift with recorded work must be resolved before cancellation")
  let now ← get StaffingStore.clock
  transact (.cancelShift shiftId ((trimmed reason).getD "Shift cancelled") now)
  audit shift.venueId actorUserId "OPEN_SHIFT_CANCELLED" (.openShift shiftId)
    (.reason (trimmed reason))

def invite (shiftId : OpenShiftId) (workerId : WorkerId) (actorUserId : UserId) :
    StaffingAction Unit := do
  let shift ← getShift shiftId
  require (shift.status = .opened)
    (.conflict s!"Shift is {shift.status.text}; invitations require a published shift")
  let connection ← get fun s => s.connection shift.venueId workerId
  let _ ← orThrow connection (.badRequest "Worker is not connected to this venue")
  let id : AssignmentId := ⟨shiftId, workerId⟩
  let existing ← get fun s => s.assignments.find id
  match existing.filter fun a => decide a.Active with
  | some a => .throw (.conflict s!"Worker assignment is already {a.status.text}")
  | none =>
      transact (.invite id actorUserId)
      audit shift.venueId actorUserId "SHIFT_INVITATION_SENT" (.shiftAssignment id)
        (.worker workerId)

def respond (shiftId : OpenShiftId) (userId : UserId) (response : ShiftResponse) :
    StaffingAction Unit := do
  let worker ← getWorker userId
  let shift ← getShift shiftId
  let connection ← get fun s => s.connection shift.venueId worker.id
  let _ ← orThrow connection (.badRequest "Worker is not connected to this venue")
  require (response = .accept → shift.status = .opened)
    (.conflict s!"Shift is {shift.status.text}; it is not accepting workers")
  let now ← get StaffingStore.clock
  transact (.respond shift worker.id response now)
  audit shift.venueId userId s!"SHIFT_{response.text}ED" (.shiftAssignment ⟨shiftId, worker.id⟩)
    .empty

def clockIn (id : AssignmentId) (userId : UserId) : StaffingAction Unit := do
  let (assignment, shift, worker) ← workerAssignment id userId
  require (assignment.status = .accepted)
    (.conflict s!"Assignment is {assignment.status.text}; cannot clock in")
  let now ← get StaffingStore.clock
  transact (.clockIn id now)
  audit shift.venueId worker.userId "SHIFT_CLOCKED_IN" (.shiftAssignment id) (.time now)

def clockOut (id : AssignmentId) (userId : UserId) : StaffingAction Unit := do
  let (assignment, shift, worker) ← workerAssignment id userId
  require (assignment.status = .clockedIn)
    (.conflict s!"Assignment is {assignment.status.text}; cannot clock out")
  let now ← get StaffingStore.clock
  transact (.clockOut id now)
  audit shift.venueId worker.userId "SHIFT_CLOCKED_OUT" (.shiftAssignment id) (.time now)

/-- A place that is given back before the shift starts opens a filled shift. -/
def Reopens (shift : OpenShift) (now : Date) : Bool :=
  decide (shift.status = .filled ∧ now < shift.startsAt)

def cancelAssignment (id : AssignmentId) (userId : UserId) (reason : Option String) :
    StaffingAction Unit := do
  let (assignment, shift, worker) ← workerAssignment id userId
  require (assignment.status ∈ [.invited, .accepted])
    (.conflict s!"Assignment is {assignment.status.text}; cannot cancel")
  let respondedAt ← get StaffingStore.clock
  let now ← get StaffingStore.clock
  transact (.cancelAssignment id ((trimmed reason).getD "Cancelled by worker") respondedAt
    (Reopens shift now))
  audit shift.venueId worker.userId "SHIFT_ASSIGNMENT_CANCELLED" (.shiftAssignment id)
    (.reason (trimmed reason))

/-- Whole minutes, a half rounded up, and one at least. -/
def minutesBetween (checkInAt checkOutAt : Date) : Int :=
  max 1 ((checkOutAt - checkInAt + 30000) / 60000)

/-- What an approval attests. -/
def attested (assignment : ShiftAssignment) (shift : OpenShift) (checkInAt checkOutAt : Date)
    (businessDate : String) : StaffingEvidence where
  id := ⟨shift.venueId, "serveproof_staffing", assignment.id⟩
  ingestSource := .platformAttested
  externalWorkerId := assignment.id.workerId
  mappedWorkerId := some assignment.id.workerId
  role := shift.role
  clockIn := checkInAt
  clockOut := some checkOutAt
  workedMinutes := minutesBetween checkInAt checkOutAt
  shiftStatus := .approved
  businessDate := businessDate
  sourceHash := ⟨assignment.id, assignment.id.workerId, checkInAt, checkOutAt, shift.role⟩
  sourcePayoutRail := some .payroll
  sourcePayrollStatus := some "PENDING"

section Zone

-- the date of an instant in a time zone, as `Intl.DateTimeFormat` writes it
variable (businessDateInTimezone : Date → String → String)

def approveAssignment (id : AssignmentId) (actorUserId : UserId) : StaffingAction Unit := do
  let (assignment, shift) ← getAssignment id
  let timezone ← get fun s => s.timezone shift.venueId
  if assignment.status = .approved ∧ assignment.shiftEvidenceId.isSome then pure ()
  else do
    require (assignment.status = .clockedOut)
      (.conflict "Only a clocked-out assignment can be approved")
    let checkInAt ← orThrow assignment.checkInAt
      (.conflict "Only a clocked-out assignment can be approved")
    let checkOutAt ← orThrow assignment.checkOutAt
      (.conflict "Only a clocked-out assignment can be approved")
    require (0 < minutesBetween checkInAt checkOutAt)
      (.badRequest "Recorded shift duration must be positive")
    let businessDate := businessDateInTimezone checkInAt timezone
    let evidence := attested assignment shift checkInAt checkOutAt businessDate
    let now ← get StaffingStore.clock
    transact (.approveAssignment id evidence actorUserId now)
    audit shift.venueId actorUserId "SHIFT_ASSIGNMENT_APPROVED" (.shiftAssignment id)
      (.evidence evidence.workedMinutes businessDate (some evidence.id))

def markNoShow (id : AssignmentId) (actorUserId : UserId) : StaffingAction Unit := do
  let (assignment, shift) ← getAssignment id
  require (assignment.status ∈ [.invited, .accepted])
    (.conflict s!"Assignment is {assignment.status.text}; cannot mark no-show")
  let now ← get StaffingStore.clock
  transact (.markNoShow id (Reopens shift now))
  audit shift.venueId actorUserId "SHIFT_MARKED_NO_SHOW" (.shiftAssignment id) .empty

/-! ## The system -/

inductive StaffingRequest where
  | createShift (venueId : VenueId) (input : ShiftInput)
  | publishShift (shiftId : OpenShiftId)
  | cancelShift (shiftId : OpenShiftId) (reason : Option String)
  | invite (shiftId : OpenShiftId) (workerId : WorkerId)
  | respond (shiftId : OpenShiftId) (response : ShiftResponse)
  | clockIn (id : AssignmentId)
  | clockOut (id : AssignmentId)
  | cancelAssignment (id : AssignmentId) (reason : Option String)
  | approveAssignment (id : AssignmentId)
  | markNoShow (id : AssignmentId)

/-- A request of a user, as its route handles it. -/
def StaffingRequest.prog (userId : UserId) : StaffingRequest → StaffingAction Unit
  | createShift venueId input => do
      assertVenueRole userId venueId venueManageRoles
      Staffing.createShift venueId userId input
  | publishShift shiftId => do
      let shift ← getShift shiftId
      assertVenueRole userId shift.venueId venueManageRoles
      Staffing.publishShift shiftId userId
  | cancelShift shiftId reason => do
      let shift ← getShift shiftId
      assertVenueRole userId shift.venueId venueManageRoles
      Staffing.cancelShift shiftId userId reason
  | invite shiftId workerId => do
      let shift ← getShift shiftId
      assertVenueRole userId shift.venueId venueManageRoles
      Staffing.invite shiftId workerId userId
  | respond shiftId response => Staffing.respond shiftId userId response
  | clockIn id => Staffing.clockIn id userId
  | clockOut id => Staffing.clockOut id userId
  | cancelAssignment id reason => Staffing.cancelAssignment id userId reason
  | approveAssignment id => do
      let found ← getAssignment id
      assertVenueRole userId found.2.venueId venueManageRoles
      Staffing.approveAssignment businessDateInTimezone id userId
  | markNoShow id => do
      let found ← getAssignment id
      assertVenueRole userId found.2.venueId venueManageRoles
      Staffing.markNoShow id userId

/-- What else happens: the other modules write their tables, and time passes. -/
inductive StaffingMove where
  | saveVenue (venue : OrganizationVenue) (timezone : String)
  | saveMember (member : OrganizationMember)
  | saveWorker (worker : Worker)
  | saveAccount (account : ExternalWorkerAccount)
  | wait (milliseconds : Nat)

def StaffingMove.apply : StaffingMove → StaffingStore → StaffingStore
  | saveVenue venue timezone, s =>
      { s with
        directory := { s.directory with venues := s.directory.venues.set venue }
        timezone := fun id => if id = venue.id then timezone else s.timezone id }
  | saveMember member, s =>
      { s with directory := { s.directory with members := s.directory.members.set member } }
  | saveWorker worker, s => { s with workers := s.workers.set worker }
  | saveAccount account, s => { s with accounts := s.accounts.set account }
  | wait ms, s => { s with clock := s.clock + ms }

/-- The calls of the staffing service. -/
def staffing : System StaffingStore StaffingCommand ApiError (UserId × StaffingRequest)
    StaffingMove where
  apply := StaffingCommand.apply
  prog i := i.2.prog businessDateInTimezone i.1
  env := StaffingMove.apply

end Zone

section Concrete

/-- A venue with two workers, and a manager who has not planned a shift yet. -/
def Scenario.bar : StaffingStore where
  directory :=
    { venues := ⟨[⟨"bar", "org", "Bar"⟩], by decide⟩
      members := ⟨[⟨"org", "manager", .manager⟩], by decide⟩ }
  timezone _ := "UTC"
  workers := ⟨[⟨"w1", "u1", "One", none⟩, ⟨"w2", "u2", "Two", none⟩], by decide⟩
  accounts := ⟨[⟨⟨"bar", "square", "e1"⟩, "w1", .confirmed, some "u1"⟩,
    ⟨⟨"bar", "square", "e2"⟩, "w2", .confirmed, some "u2"⟩], by decide⟩
  openShifts := ∅
  assignments := ∅
  evidence := ∅
  auditLog := []
  nextShiftId := 1
  clock := 0
  fresh := fun _ h => absurd h List.not_mem_nil
  shift_of_assignment := fun _ h => absurd h List.not_mem_nil

theorem Scenario.unstaffed_bar : Scenario.bar.Unstaffed := ⟨rfl, rfl⟩

/-- A shift of one place, in an hour. -/
def Scenario.evening : ShiftInput where
  role := "server"
  description := none
  startsAt := 3600000
  endsAt := 7200000
  hourlyRateUsdCents := 1500
  expectedTipUsdCents := none
  headcount := none

/-- The manager plans the shift and publishes it. -/
def Scenario.published : List (Op (UserId × StaffingRequest) StaffingMove) :=
  [.call ("manager", .createShift "bar" evening), .call ("manager", .publishShift 1)]

/-- The staffing of the bar. -/
abbrev Scenario.atBar : System StaffingStore StaffingCommand ApiError (UserId × StaffingRequest)
    StaffingMove :=
  staffing fun _ _ => "2026-01-01"

end Concrete

end ServeProof.Staffing
