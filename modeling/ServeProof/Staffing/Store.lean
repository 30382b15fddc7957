import ServeProof.Accounts.Access
import ServeProof.Income.Schema

/-!
# ServeProof.Staffing.Store

Open shifts and their assignments, with the transactions of the staffing
service.

A worker has one assignment to a shift, and keeps it: its id stands for the
pair.  A transaction that is refused (`StaffingCommand.refused`) changes
nothing.
-/

namespace ServeProof

abbrev OpenShiftId := Nat

/-! ## Enumerations -/

inductive OpenShiftStatus where
  | draft | opened | filled | inProgress | completed | cancelled
  deriving DecidableEq, Repr

inductive ShiftAssignmentStatus where
  | invited | accepted | declined | cancelled | clockedIn | clockedOut | approved | noShow
  deriving DecidableEq, Repr

def OpenShiftStatus.text : OpenShiftStatus → String
  | draft => "DRAFT"
  | opened => "OPEN"
  | filled => "FILLED"
  | inProgress => "IN_PROGRESS"
  | completed => "COMPLETED"
  | cancelled => "CANCELLED"

def ShiftAssignmentStatus.text : ShiftAssignmentStatus → String
  | invited => "INVITED"
  | accepted => "ACCEPTED"
  | declined => "DECLINED"
  | cancelled => "CANCELLED"
  | clockedIn => "CLOCKED_IN"
  | clockedOut => "CLOCKED_OUT"
  | approved => "APPROVED"
  | noShow => "NO_SHOW"

inductive ShiftResponse where
  | accept | decline
  deriving DecidableEq, Repr

def ShiftResponse.text : ShiftResponse → String
  | accept => "ACCEPT"
  | decline => "DECLINE"

def ShiftResponse.status : ShiftResponse → ShiftAssignmentStatus
  | accept => .accepted
  | decline => .declined

def activeAssignments : List ShiftAssignmentStatus :=
  [.accepted, .clockedIn, .clockedOut, .approved]

def unresolvedAssignments : List ShiftAssignmentStatus := [.accepted, .clockedIn, .clockedOut]

/-! ## Rows -/

structure OpenShift where
  id : OpenShiftId
  venueId : VenueId
  createdByUserId : UserId
  role : String
  description : Option String
  startsAt : Date
  endsAt : Date
  hourlyRateUsdCents : Nat
  expectedTipUsdCents : Nat
  headcount : Nat
  status : OpenShiftStatus
  publishedAt : Option Date
  cancelledAt : Option Date
  deriving DecidableEq, Repr

/-- `(openShiftId, workerId)`. -/
structure AssignmentId where
  openShiftId : OpenShiftId
  workerId : WorkerId
  deriving DecidableEq, Repr

/-- Evidence of a shift that was staffed here: its external id is the
assignment. -/
structure StaffingEvidenceId where
  venueId : VenueId
  provider : String
  externalShiftId : AssignmentId
  deriving DecidableEq, Repr

structure ShiftAssignment where
  id : AssignmentId
  status : ShiftAssignmentStatus
  invitedByUserId : Option UserId
  respondedAt : Option Date
  checkInAt : Option Date
  checkOutAt : Option Date
  approvedAt : Option Date
  approvedByUserId : Option UserId
  shiftEvidenceId : Option StaffingEvidenceId
  cancellationReason : Option String
  deriving DecidableEq, Repr

/-- The sha-256 digest of the attested times, by its preimage. -/
structure AttestationHash where
  assignmentId : AssignmentId
  workerId : WorkerId
  checkInAt : Date
  checkOutAt : Date
  role : String
  deriving DecidableEq, Repr

/-- A row of `ShiftEvidence` that an approval writes. -/
structure StaffingEvidence where
  id : StaffingEvidenceId
  ingestSource : EvidenceIngestSource
  externalWorkerId : WorkerId
  mappedWorkerId : Option WorkerId
  role : String
  clockIn : Date
  clockOut : Option Date
  workedMinutes : Int
  shiftStatus : ShiftStatus
  businessDate : String
  sourceHash : AttestationHash
  sourcePayoutRail : Option WorkerPayoutRail
  sourcePayrollStatus : Option String
  deriving DecidableEq, Repr

inductive StaffingEntity where
  | openShift (id : OpenShiftId)
  | shiftAssignment (id : AssignmentId)
  deriving DecidableEq, Repr

inductive StaffingDetail where
  | empty
  | shift (role : String) (startsAt : Date) (headcount : Nat)
  | reason (reason : Option String)
  | worker (workerId : WorkerId)
  | time (now : Date)
  | evidence (workedMinutes : Int) (businessDate : String)
      (shiftEvidenceId : Option StaffingEvidenceId)
  deriving DecidableEq, Repr

structure StaffingAuditLog where
  venueId : VenueId
  actorUserId : UserId
  action : String
  entity : StaffingEntity
  detail : StaffingDetail
  deriving DecidableEq, Repr

namespace ShiftAssignment

variable (a : ShiftAssignment)

/-- The assignment takes a place of its shift. -/
def Active : Prop := a.status ∈ activeAssignments

instance : Decidable a.Active := inferInstanceAs (Decidable (_ ∈ _))

/-- An assignment is created with its id and its first values. -/
def created (id : AssignmentId) (status : ShiftAssignmentStatus)
    (invitedByUserId : Option UserId) (respondedAt : Option Date) : ShiftAssignment where
  id := id
  status := status
  invitedByUserId := invitedByUserId
  respondedAt := respondedAt
  checkInAt := none
  checkOutAt := none
  approvedAt := none
  approvedByUserId := none
  shiftEvidenceId := none
  cancellationReason := none

/-! What the updates write. -/

/-- The shift is cancelled, with who has not started yet. -/
def shiftCancelled (id : OpenShiftId) (reason : String) : ShiftAssignment :=
  if a.id.openShiftId = id ∧ a.status ∈ [.invited, .accepted] then
    { a with status := .cancelled, cancellationReason := some reason }
  else a

def invited (actorUserId : UserId) : ShiftAssignment :=
  { a with status := .invited, invitedByUserId := some actorUserId, cancellationReason := none }

def responded (response : ShiftResponse) (now : Date) : ShiftAssignment :=
  { a with status := response.status, respondedAt := some now, cancellationReason := none }

def clockedIn (now : Date) : ShiftAssignment :=
  { a with status := .clockedIn, checkInAt := some now }

def clockedOut (now : Date) : ShiftAssignment :=
  { a with status := .clockedOut, checkOutAt := some now }

def cancelled (reason : String) (now : Date) : ShiftAssignment :=
  { a with status := .cancelled, cancellationReason := some reason, respondedAt := some now }

def approved (evidenceId : StaffingEvidenceId) (actorUserId : UserId) (now : Date) :
    ShiftAssignment :=
  { a with
    status := .approved
    approvedAt := some now
    approvedByUserId := some actorUserId
    shiftEvidenceId := some evidenceId }

def noShow : ShiftAssignment := { a with status := .noShow }

@[simp] theorem invited_id (actorUserId : UserId) : (a.invited actorUserId).id = a.id := rfl

@[simp] theorem responded_id (response : ShiftResponse) (now : Date) :
    (a.responded response now).id = a.id := rfl

@[simp] theorem clockedIn_id (now : Date) : (a.clockedIn now).id = a.id := rfl

@[simp] theorem clockedOut_id (now : Date) : (a.clockedOut now).id = a.id := rfl

@[simp] theorem cancelled_id (reason : String) (now : Date) :
    (a.cancelled reason now).id = a.id := rfl

@[simp] theorem approved_id (evidenceId : StaffingEvidenceId) (actorUserId : UserId) (now : Date) :
    (a.approved evidenceId actorUserId now).id = a.id := rfl

@[simp] theorem noShow_id : a.noShow.id = a.id := rfl

@[simp] theorem shiftCancelled_id (id : OpenShiftId) (reason : String) :
    (a.shiftCancelled id reason).id = a.id := by
  unfold shiftCancelled
  split <;> rfl

end ShiftAssignment

/-! ## The store -/

/-- An assignment belongs to a shift. -/
structure StaffingStore where
  directory : Directory
  /-- The time zone of a venue. -/
  timezone : VenueId → String
  workers : Table Worker.id
  accounts : Table ExternalWorkerAccount.id
  openShifts : Table OpenShift.id
  assignments : Table ShiftAssignment.id
  evidence : Table StaffingEvidence.id
  auditLog : List StaffingAuditLog
  nextShiftId : OpenShiftId
  clock : Date
  fresh : ∀ x ∈ openShifts.rows, x.id < nextShiftId
  shift_of_assignment : ∀ a ∈ assignments.rows, (openShifts.find a.id.openShiftId).isSome

namespace StaffingStore

variable (s : StaffingStore)

/-! ## Reads -/

def findWorker (userId : UserId) : Option Worker :=
  s.workers.rows.find? fun w => decide (w.userId = userId)

/-- A confirmed account of the worker at the venue. -/
def connection (venueId : VenueId) (workerId : WorkerId) : Option ExternalWorkerAccount :=
  s.accounts.rows.find? fun x => decide
    (x.id.venueId = venueId ∧ x.workerId = workerId ∧ x.mappingStatus = .confirmed)

/-- The number of assignments to the shift in one of these statuses. -/
def countAssignments (shiftId : OpenShiftId) (statuses : List ShiftAssignmentStatus) : Nat :=
  s.assignments.count fun a => decide (a.id.openShiftId = shiftId ∧ a.status ∈ statuses)

/-- The number of assignments that take a place of the shift. -/
def activeCount (shiftId : OpenShiftId) : Nat := s.countAssignments shiftId activeAssignments

/-! ## Writes -/

def insertShift (row : OpenShift) : StaffingStore :=
  { s with
    openShifts := s.openShifts.set { row with id := s.nextShiftId }
    nextShiftId := s.nextShiftId + 1
    fresh := by
      intro x hx
      cases (s.openShifts.mem_set).mp hx with
      | inl h => rw [h]; exact Nat.lt_succ_self _
      | inr h => exact Nat.lt_succ_of_lt (s.fresh x h.1)
    shift_of_assignment := by
      intro a ha
      rw [Table.find_set]
      split
      · rfl
      · exact s.shift_of_assignment a ha }

/-- Change a shift; its id and its headcount stay. -/
def updateShift (id : OpenShiftId) (f : OpenShift → OpenShift)
    (hf : ∀ x, (f x).id = x.id ∧ (f x).headcount = x.headcount) : StaffingStore :=
  have hid : ∀ x, (f x).id = x.id := fun x => (hf x).1
  { s with
    openShifts := s.openShifts.update id f
    fresh := by
      intro x hx
      obtain ⟨hx, -⟩ | ⟨y, hy, -, rfl⟩ := (s.openShifts.mem_update hid).mp hx
      · exact s.fresh x hx
      · rw [hid]
        exact s.fresh y hy
    shift_of_assignment := by
      intro a ha
      have h := s.shift_of_assignment a ha
      rw [Table.find_update _ hid]
      split
      · next heq => rwa [Option.isSome_map, heq]
      · exact h }

/-- Change the assignments; their ids stay. -/
def updateAssignments (f : ShiftAssignment → ShiftAssignment) (hf : ∀ a, (f a).id = a.id) :
    StaffingStore :=
  { s with
    assignments := s.assignments.mapRows f hf
    shift_of_assignment := by
      intro a ha
      obtain ⟨b, hb, rfl⟩ := List.mem_map.mp ha
      rw [hf]
      exact s.shift_of_assignment b hb }

def updateAssignment (id : AssignmentId) (f : ShiftAssignment → ShiftAssignment)
    (hf : ∀ a, (f a).id = a.id) : StaffingStore :=
  { s with
    assignments := s.assignments.update id f
    shift_of_assignment := by
      intro a ha
      obtain ⟨ha, -⟩ | ⟨b, hb, -, rfl⟩ := (s.assignments.mem_update hf).mp ha
      · exact s.shift_of_assignment a ha
      · rw [hf]
        exact s.shift_of_assignment b hb }

/-- Change the assignment if it is there, else create it; its shift must exist. -/
def upsertAssignment (id : AssignmentId) (f : ShiftAssignment → ShiftAssignment)
    (hf : ∀ a, (f a).id = a.id) (row : ShiftAssignment) : StaffingStore :=
  if (s.assignments.find id).isSome then s.updateAssignment id f hf
  else if h : (s.openShifts.find id.openShiftId).isSome then
    { s with
      assignments := s.assignments.set { row with id := id }
      shift_of_assignment := by
        intro a ha
        cases (s.assignments.mem_set).mp ha with
        | inl ha => rw [ha]; exact h
        | inr ha => exact s.shift_of_assignment a ha.1 }
  else s

/-- The rollup of the shift after a response. -/
def refreshShift (shift : OpenShift) : StaffingStore :=
  s.updateShift shift.id
    (fun x => { x with
      status := if s.activeCount shift.id ≥ shift.headcount then .filled else .opened })
    fun _ => ⟨rfl, rfl⟩

def setShiftStatus (id : OpenShiftId) (status : OpenShiftStatus) : StaffingStore :=
  s.updateShift id (fun x => { x with status := status }) fun _ => ⟨rfl, rfl⟩

end StaffingStore

/-- Nothing has been staffed yet. -/
structure StaffingStore.Unstaffed (s : StaffingStore) : Prop where
  openShifts : s.openShifts = ∅
  evidence : s.evidence = ∅

theorem StaffingStore.Unstaffed.assignments {s : StaffingStore} (h : s.Unstaffed) :
    s.assignments.rows = [] := by
  refine List.eq_nil_iff_forall_not_mem.mpr fun a ha => ?_
  have hshift := s.shift_of_assignment a ha
  rw [h.openShifts] at hshift
  cases hshift

/-! ## The transactions -/

/-- A transaction of the service, with what the call has read before it. -/
inductive StaffingCommand where
  | createShift (row : OpenShift)
  | publishShift (id : OpenShiftId) (now : Date)
  | cancelShift (id : OpenShiftId) (reason : String) (now : Date)
  | invite (id : AssignmentId) (actorUserId : UserId)
  /-- The serializable transaction of a response. -/
  | respond (shift : OpenShift) (workerId : WorkerId) (response : ShiftResponse) (now : Date)
  | clockIn (id : AssignmentId) (now : Date)
  | clockOut (id : AssignmentId) (now : Date)
  | cancelAssignment (id : AssignmentId) (reason : String) (now : Date) (reopens : Bool)
  | approveAssignment (id : AssignmentId) (evidence : StaffingEvidence) (actorUserId : UserId)
      (now : Date)
  | markNoShow (id : AssignmentId) (reopens : Bool)
  | audit (entry : StaffingAuditLog)

namespace StaffingCommand

/-- The shift has no place left for an acceptance of the worker. -/
def Full (shift : OpenShift) (workerId : WorkerId) (s : StaffingStore) : Prop :=
  ¬ (∃ existing ∈ s.assignments.find ⟨shift.id, workerId⟩, existing.Active) ∧
    s.activeCount shift.id ≥ shift.headcount

instance (shift : OpenShift) (workerId : WorkerId) (s : StaffingStore) :
    Decidable (Full shift workerId s) :=
  inferInstanceAs (Decidable (¬ (∃ _ ∈ _, _) ∧ _))

def refused : StaffingCommand → StaffingStore → Option ApiError
  | respond shift workerId .accept _, s =>
      if Full shift workerId s then some (.conflict "Shift has already reached its headcount")
      else none
  | _, _ => none

/-- Open the shift again, where the call has decided so. -/
def reopen (reopens : Bool) (id : OpenShiftId) (s : StaffingStore) : StaffingStore :=
  if reopens then s.setShiftStatus id .opened else s

/-- Complete the shift when no assignment is left to be resolved. -/
def complete (id : OpenShiftId) (s : StaffingStore) : StaffingStore :=
  if s.countAssignments id unresolvedAssignments = 0 then s.setShiftStatus id .completed else s

/-- What a transaction that is not refused does. -/
def run : StaffingCommand → StaffingStore → StaffingStore
  | createShift row, s => s.insertShift row
  | publishShift id now, s =>
      s.updateShift id (fun x => { x with status := .opened, publishedAt := some now })
        fun _ => ⟨rfl, rfl⟩
  | cancelShift id reason now, s =>
      (s.updateShift id (fun x => { x with status := .cancelled, cancelledAt := some now })
        fun _ => ⟨rfl, rfl⟩).updateAssignments (·.shiftCancelled id reason)
        (·.shiftCancelled_id id reason)
  | invite id actorUserId, s =>
      s.upsertAssignment id (·.invited actorUserId) (·.invited_id actorUserId)
        (.created id .invited (some actorUserId) none)
  | respond shift workerId response now, s =>
      (s.upsertAssignment ⟨shift.id, workerId⟩ (·.responded response now)
        (·.responded_id response now)
        (.created ⟨shift.id, workerId⟩ response.status none (some now))).refreshShift shift
  | clockIn id now, s =>
      (s.updateAssignment id (·.clockedIn now) (·.clockedIn_id now)).setShiftStatus
        id.openShiftId .inProgress
  | clockOut id now, s => s.updateAssignment id (·.clockedOut now) (·.clockedOut_id now)
  | cancelAssignment id reason now reopens, s =>
      reopen reopens id.openShiftId
        (s.updateAssignment id (·.cancelled reason now) (·.cancelled_id reason now))
  | approveAssignment id evidence actorUserId now, s =>
      complete id.openShiftId
        (StaffingStore.updateAssignment { s with evidence := s.evidence.set evidence } id
          (·.approved evidence.id actorUserId now) (·.approved_id evidence.id actorUserId now))
  | markNoShow id reopens, s =>
      reopen reopens id.openShiftId (s.updateAssignment id (·.noShow) (·.noShow_id))
  | audit entry, s => { s with auditLog := s.auditLog ++ [entry] }

def apply (c : StaffingCommand) (s : StaffingStore) : StaffingStore :=
  match c.refused s with
  | some _ => s
  | none => c.run s

end StaffingCommand

end ServeProof
