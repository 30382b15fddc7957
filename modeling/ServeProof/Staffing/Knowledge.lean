import ServeProof.Staffing.Effects
import ServeProof.Staffing.Service

/-!
# ServeProof.Staffing.Knowledge

What a call knows at its transaction: what it has read in earlier stores
(`Seen`).  A call that runs alone has read the store its transaction is applied
to (`Seen.now`).
-/

namespace ServeProof.Staffing

open Interleave
open Prog (require orThrow sat_get_bind sat_put sat_putGet_bind sat_require_bind sat_orThrow_bind
  sat_pure_bind only_get_bind only_put only_putGet_bind only_require_bind only_orThrow_bind)

variable {D : Discipline StaffingStore StaffingCommand} {s₀ : StaffingStore}

/-- In an earlier store `P` was so. -/
def Seen (D : Discipline StaffingStore StaffingCommand) (P : StaffingStore → Prop)
    (s : StaffingStore) : Prop :=
  ∃ s₁, D.rely s₁ s ∧ P s₁

/-- What a call has read when it comes to a transaction. -/
def Known (D : Discipline StaffingStore StaffingCommand) :
    StaffingCommand → StaffingStore → Prop
  | .createShift row, _ => row.status = .draft
  | .publishShift id _, s => Seen D (fun t => ∃ x ∈ t.openShifts.find id, x.status = .draft) s
  | .cancelShift id _ _, s =>
      Seen D (fun t => ∃ x ∈ t.openShifts.find id, x.status ∉ [.cancelled, .completed]) s ∧
        Seen D (fun t => ∀ a ∈ t.assignments.rows, a.id.openShiftId = id →
          a.status ∉ [.clockedIn, .clockedOut]) s
  | .invite id _, s =>
      Seen D (fun t => ∃ x ∈ t.openShifts.find id.openShiftId, x.status = .opened) s ∧
        Seen D (fun t => ∀ a ∈ t.assignments.find id, ¬ a.Active) s
  | .respond shift _ response _, s =>
      Seen D (fun t => t.openShifts.find shift.id = some shift) s ∧
        (response = .accept → shift.status = .opened)
  | .clockIn id _, s =>
      Seen D (fun t => ∃ a ∈ t.assignments.find id, a.status = .accepted) s
  | .clockOut id _, s =>
      Seen D (fun t => ∃ a ∈ t.assignments.find id, a.status = .clockedIn) s
  | .cancelAssignment id _ _ reopens, s | .markNoShow id reopens, s =>
      Seen D (fun t => ∃ a ∈ t.assignments.find id, a.status ∈ [.invited, .accepted]) s ∧
        (reopens = true →
          Seen D (fun t => ∃ x ∈ t.openShifts.find id.openShiftId, x.status = .filled) s)
  | .approveAssignment id evidence _ _, s =>
      Seen D (fun t => ∃ a ∈ t.assignments.find id, a.status = .clockedOut ∧
        a.checkInAt = some evidence.clockIn ∧ a.checkOutAt = evidence.clockOut) s ∧
        evidence.id.externalShiftId = id
  | .audit _, _ => True

theorem Seen.now {apply : StaffingCommand → StaffingStore → StaffingStore}
    {inv : StaffingStore → Prop} {ok : StaffingCommand → StaffingStore → Prop}
    {P : StaffingStore → Prop} {s : StaffingStore}
    (h : Seen (.alone apply inv ok) P s) : P s := by
  obtain ⟨s₁, rfl, h⟩ := h
  exact h

/-! ## The steps -/

theorem sat_audit {venueId : VenueId} {actorUserId : UserId} {action : String}
    {entity : StaffingEntity} {detail : StaffingDetail} :
    (audit venueId actorUserId action entity detail).Sat D (Known D) s₀ fun _ _ => True :=
  sat_put.mpr fun _ _ _ _ => ⟨trivial, fun _ _ _ => trivial⟩

section Steps

variable {known : StaffingCommand → StaffingStore → Prop} {post : Unit → StaffingStore → Prop}

/-- A transaction, and what comes after it when it is not refused. -/
theorem sat_transact_bind {c : StaffingCommand} {f : Unit → StaffingAction Unit}
    (hc : ∀ s, D.rely s₀ s → known c s)
    (hf : ∀ s, (f ()).Sat D known s fun _ _ => True) :
    (transact c >>= f).Sat D known s₀ fun _ _ => True := by
  rw [transact, Prog.bind_assoc, sat_putGet_bind]
  refine fun s hr _ _ => ⟨hc s hr, ?_⟩
  cases c.refused s with
  | some e => trivial
  | none => exact hf _

theorem sat_assertVenueRole_bind {userId : UserId} {venueId : VenueId} {allowed : List OrgRole}
    {f : Unit → StaffingAction Unit} (hf : ∀ s, (f ()).Sat D known s fun _ _ => True) :
    (assertVenueRole userId venueId allowed >>= f).Sat D known s₀ fun _ _ => True := by
  rw [assertVenueRole, Prog.bind_assoc, sat_get_bind]
  intro s _ _
  cases s.directory.assertVenueRole userId venueId allowed with
  | error e => trivial
  | ok u => exact hf s

theorem sat_getShift_bind {id : OpenShiftId} {f : OpenShift → StaffingAction Unit} :
    (getShift id >>= f).Sat D known s₀ post ↔ ∀ s, D.rely s₀ s → D.inv s →
      ∀ x, s.openShifts.find id = some x → (f x).Sat D known s post := by
  simp only [getShift, Prog.bind_assoc, sat_get_bind, sat_orThrow_bind]

theorem sat_getAssignment_bind {id : AssignmentId}
    {f : ShiftAssignment × OpenShift → StaffingAction Unit} :
    (getAssignment id >>= f).Sat D known s₀ post ↔ ∀ s, D.rely s₀ s → D.inv s →
      ∀ a, s.assignments.find id = some a → ∀ t, D.rely s t → D.inv t →
        ∀ x, t.openShifts.find id.openShiftId = some x → (f (a, x)).Sat D known t post := by
  simp only [getAssignment, Prog.bind_assoc, sat_get_bind, sat_orThrow_bind, sat_getShift_bind,
    sat_pure_bind]

theorem sat_workerAssignment_bind {id : AssignmentId} {userId : UserId}
    {f : ShiftAssignment × OpenShift × Worker → StaffingAction Unit}
    (hf : ∀ s, D.inv s → ∀ a, s.assignments.find id = some a → ∀ t, D.rely s t → D.inv t →
      ∀ x, t.openShifts.find id.openShiftId = some x → ∀ worker,
        (f (a, x, worker)).Sat D known t post) :
    (workerAssignment id userId >>= f).Sat D known s₀ post := by
  simp only [workerAssignment, getWorker, Prog.bind_assoc, sat_get_bind, sat_orThrow_bind,
    sat_getShift_bind, sat_require_bind, sat_pure_bind]
  intro _ _ _ worker _ s _ i a ha t hr i' x hx _
  exact hf s i a ha t hr i' x hx worker

end Steps

/-! ## The services -/

theorem filled_of_reopens {shift : OpenShift} {now : Date} (h : Reopens shift now = true) :
    shift.status = .filled :=
  (of_decide_eq_true h).1

theorem sat_createShift (venueId : VenueId) (actorUserId : UserId) (input : ShiftInput) :
    (createShift venueId actorUserId input).Sat D (Known D) s₀ fun _ _ => True := by
  simp only [createShift, sat_require_bind, sat_putGet_bind]
  exact fun _ _ _ _ _ _ => ⟨rfl, sat_audit⟩

variable (hD : D.Lawful)

include hD

theorem sat_publishShift (shiftId : OpenShiftId) (actorUserId : UserId) :
    (publishShift shiftId actorUserId).Sat D (Known D) s₀ fun _ _ => True := by
  simp only [publishShift, sat_getShift_bind, sat_require_bind, sat_get_bind]
  intro s₁ _ _ x hx hdraft s₂ h₂ _
  refine sat_transact_bind (fun s h => ?_) fun _ => sat_audit
  exact ⟨s₁, hD.trans h₂ h, x, hx, hdraft⟩

theorem sat_cancelShift (shiftId : OpenShiftId) (actorUserId : UserId) (reason : Option String) :
    (cancelShift shiftId actorUserId reason).Sat D (Known D) s₀ fun _ _ => True := by
  simp only [cancelShift, sat_getShift_bind, sat_require_bind, sat_get_bind]
  intro s₁ _ _ x hx s₂ h₂ _ hopen hidle s₃ h₃ _
  refine sat_transact_bind (fun s h => ⟨?_, ?_⟩) fun _ => sat_audit
  · exact ⟨s₁, hD.trans h₂ (hD.trans h₃ h), x, hx, hopen⟩
  · exact ⟨s₂, hD.trans h₃ h, fun a ha hshift => hidle a (List.mem_filter.mpr ⟨ha, by simpa⟩)⟩

theorem sat_invite (shiftId : OpenShiftId) (workerId : WorkerId) (actorUserId : UserId) :
    (invite shiftId workerId actorUserId).Sat D (Known D) s₀ fun _ _ => True := by
  simp only [invite, sat_getShift_bind, sat_require_bind, sat_get_bind, sat_orThrow_bind]
  intro s₁ _ _ x hx hopened s₂ h₂ _ account _ s₃ h₃ _
  cases hactive : (s₃.assignments.find ⟨shiftId, workerId⟩).filter fun a => decide a.Active with
  | some a => trivial
  | none =>
      refine sat_transact_bind (fun s h => ⟨?_, ?_⟩) fun _ => sat_audit
      · exact ⟨s₁, hD.trans h₂ (hD.trans h₃ h), x, hx, hopened⟩
      · exact ⟨s₃, h, fun a ha => by simpa using Option.filter_eq_none_iff.mp hactive a ha⟩

theorem sat_respond (shiftId : OpenShiftId) (userId : UserId) (response : ShiftResponse) :
    (respond shiftId userId response).Sat D (Known D) s₀ fun _ _ => True := by
  simp only [respond, getWorker, Prog.bind_assoc, sat_getShift_bind, sat_require_bind,
    sat_get_bind, sat_orThrow_bind]
  intro _ _ _ worker _ s₁ _ _ x hx s₂ h₂ _ account _ hopened s₃ h₃ _
  refine sat_transact_bind (fun s h => ⟨?_, hopened⟩) fun _ => sat_audit
  refine ⟨s₁, hD.trans h₂ (hD.trans h₃ h), ?_⟩
  rw [show x.id = shiftId from Table.key_of_find hx]
  exact hx

theorem sat_clockIn (id : AssignmentId) (userId : UserId) :
    (clockIn id userId).Sat D (Known D) s₀ fun _ _ => True := by
  refine sat_workerAssignment_bind fun s₁ _ a ha s₂ h₂ _ x _ worker => ?_
  simp only [sat_require_bind, sat_get_bind]
  intro haccepted s₃ h₃ _
  refine sat_transact_bind (fun s h => ?_) fun _ => sat_audit
  exact ⟨s₁, hD.trans h₂ (hD.trans h₃ h), a, ha, haccepted⟩

theorem sat_clockOut (id : AssignmentId) (userId : UserId) :
    (clockOut id userId).Sat D (Known D) s₀ fun _ _ => True := by
  refine sat_workerAssignment_bind fun s₁ _ a ha s₂ h₂ _ x _ worker => ?_
  simp only [sat_require_bind, sat_get_bind]
  intro hclockedIn s₃ h₃ _
  refine sat_transact_bind (fun s h => ?_) fun _ => sat_audit
  exact ⟨s₁, hD.trans h₂ (hD.trans h₃ h), a, ha, hclockedIn⟩

theorem sat_cancelAssignment (id : AssignmentId) (userId : UserId) (reason : Option String) :
    (cancelAssignment id userId reason).Sat D (Known D) s₀ fun _ _ => True := by
  refine sat_workerAssignment_bind fun s₁ _ a ha s₂ h₂ _ x hx worker => ?_
  simp only [sat_require_bind, sat_get_bind]
  intro hstatus s₃ h₃ _ s₄ h₄ _
  refine sat_transact_bind (fun s h => ⟨?_, fun hreopens => ?_⟩) fun _ => sat_audit
  · exact ⟨s₁, hD.trans h₂ (hD.trans h₃ (hD.trans h₄ h)), a, ha, hstatus⟩
  · exact ⟨s₂, hD.trans h₃ (hD.trans h₄ h), x, hx, filled_of_reopens hreopens⟩

theorem sat_markNoShow (id : AssignmentId) (actorUserId : UserId) :
    (markNoShow id actorUserId).Sat D (Known D) s₀ fun _ _ => True := by
  simp only [markNoShow, sat_getAssignment_bind, sat_require_bind, sat_get_bind]
  intro s₁ _ _ a ha s₂ h₂ _ x hx hstatus s₃ h₃ _
  refine sat_transact_bind (fun s h => ⟨?_, fun hreopens => ?_⟩) fun _ => sat_audit
  · exact ⟨s₁, hD.trans h₂ (hD.trans h₃ h), a, ha, hstatus⟩
  · exact ⟨s₂, hD.trans h₃ h, x, hx, filled_of_reopens hreopens⟩

variable (businessDateInTimezone : Date → String → String)

theorem sat_approveAssignment (id : AssignmentId) (actorUserId : UserId) :
    (approveAssignment businessDateInTimezone id actorUserId).Sat D (Known D) s₀
      fun _ _ => True := by
  simp only [approveAssignment, sat_getAssignment_bind, sat_get_bind, Prog.sat_ite,
    sat_require_bind, sat_orThrow_bind]
  intro s₁ _ _ a ha s₂ h₂ _ x hx s₃ h₃ _
  refine ⟨fun _ _ _ _ => trivial, fun _ hclockedOut checkInAt hin checkOutAt hout _ s₄ h₄ _ => ?_⟩
  refine sat_transact_bind (fun s h => ⟨?_, (Table.key_of_find ha : a.id = id)⟩) fun _ => sat_audit
  exact ⟨s₁, hD.trans h₂ (hD.trans h₃ (hD.trans h₄ h)), a, ha, hclockedOut, hin, hout⟩

/-- What every request knows at its transaction. -/
theorem sat_prog (userId : UserId) (request : StaffingRequest) :
    (request.prog businessDateInTimezone userId).Sat D (Known D) s₀ fun _ _ => True := by
  cases request with
  | createShift venueId input =>
      exact sat_assertVenueRole_bind fun _ => sat_createShift venueId userId input
  | publishShift shiftId =>
      refine sat_getShift_bind.mpr fun _ _ _ x _ => ?_
      exact sat_assertVenueRole_bind fun _ => sat_publishShift hD shiftId userId
  | cancelShift shiftId reason =>
      refine sat_getShift_bind.mpr fun _ _ _ x _ => ?_
      exact sat_assertVenueRole_bind fun _ => sat_cancelShift hD shiftId userId reason
  | invite shiftId workerId =>
      refine sat_getShift_bind.mpr fun _ _ _ x _ => ?_
      exact sat_assertVenueRole_bind fun _ => sat_invite hD shiftId workerId userId
  | respond shiftId response => exact sat_respond hD shiftId userId response
  | clockIn id => exact sat_clockIn hD id userId
  | clockOut id => exact sat_clockOut hD id userId
  | cancelAssignment id reason => exact sat_cancelAssignment hD id userId reason
  | approveAssignment id =>
      refine sat_getAssignment_bind.mpr fun _ _ _ a _ _ _ _ x _ => ?_
      exact sat_assertVenueRole_bind fun _ =>
        sat_approveAssignment hD businessDateInTimezone id userId
  | markNoShow id =>
      refine sat_getAssignment_bind.mpr fun _ _ _ a _ _ _ _ x _ => ?_
      exact sat_assertVenueRole_bind fun _ => sat_markNoShow hD id userId

/-! ## Who publishes -/

section Only

variable {ok : StaffingCommand → Prop} {α : Type} {f : Unit → StaffingAction α}

omit hD

theorem only_transact_bind {c : StaffingCommand} :
    (transact c >>= f).Only ok ↔
      ok c ∧ ∀ s : StaffingStore, c.refused s = none → (f ()).Only ok := by
  rw [transact, Prog.bind_assoc, only_putGet_bind]
  refine and_congr_right fun _ => forall_congr' fun s => ?_
  cases c.refused s with
  | some e => simp; trivial
  | none => simp; rfl

theorem only_assertVenueRole_bind {userId : UserId} {venueId : VenueId} {allowed : List OrgRole} :
    (assertVenueRole userId venueId allowed >>= f).Only ok ↔ ∀ s : StaffingStore,
      s.directory.assertVenueRole userId venueId allowed = .ok () → (f ()).Only ok := by
  rw [assertVenueRole, Prog.bind_assoc, only_get_bind]
  refine forall_congr' fun s => ?_
  cases s.directory.assertVenueRole userId venueId allowed with
  | error e => simp; trivial
  | ok u => simp; rfl

theorem only_prog (userId : UserId) (request : StaffingRequest) :
    (request.prog businessDateInTimezone userId).Only fun c =>
      ∀ id now, c = .publishShift id now → request = .publishShift id := by
  cases request <;>
    simp [StaffingRequest.prog, createShift, publishShift, cancelShift, invite, respond, clockIn,
      clockOut, cancelAssignment, approveAssignment, markNoShow, getShift, getAssignment,
      getWorker, workerAssignment, audit, Prog.bind_assoc, only_transact_bind,
      only_assertVenueRole_bind, only_get_bind, only_putGet_bind, only_require_bind,
      only_orThrow_bind, only_put, Prog.only_pure, Prog.only_pure_bind, Prog.only_ite]
  -- an invitation, or none for an active worker
  intros
  split
  · trivial
  · simp [only_transact_bind, only_put]

end Only

end ServeProof.Staffing
