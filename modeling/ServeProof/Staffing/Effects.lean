import ServeProof.Staffing.Store

/-!
# ServeProof.Staffing.Effects

What a transaction does to the rows that are there, and the row it adds.

* `nextAssignment`, `newAssignment` -- the assignments;
* `nextShift`, `newShift` -- the shifts;
* `apply_cases` -- a transaction is refused, or runs.
-/

namespace ServeProof

namespace StaffingStore

variable (s : StaffingStore)

@[simp] theorem assignments_insertShift (row : OpenShift) :
    (s.insertShift row).assignments = s.assignments := rfl

@[simp] theorem assignments_updateShift (id : OpenShiftId) (f : OpenShift → OpenShift)
    (hf : ∀ x, (f x).id = x.id ∧ (f x).headcount = x.headcount) :
    (s.updateShift id f hf).assignments = s.assignments := rfl

@[simp] theorem assignments_setShiftStatus (id : OpenShiftId) (status : OpenShiftStatus) :
    (s.setShiftStatus id status).assignments = s.assignments := rfl

@[simp] theorem assignments_refreshShift (shift : OpenShift) :
    (s.refreshShift shift).assignments = s.assignments := rfl

@[simp] theorem assignments_reopen (reopens : Bool) (id : OpenShiftId) :
    (StaffingCommand.reopen reopens id s).assignments = s.assignments := by
  unfold StaffingCommand.reopen
  split <;> rfl

@[simp] theorem assignments_complete (id : OpenShiftId) :
    (StaffingCommand.complete id s).assignments = s.assignments := by
  unfold StaffingCommand.complete
  split <;> rfl

@[simp] theorem openShifts_updateAssignments (f : ShiftAssignment → ShiftAssignment)
    (hf : ∀ a, (f a).id = a.id) : (s.updateAssignments f hf).openShifts = s.openShifts := rfl

@[simp] theorem openShifts_updateAssignment (id : AssignmentId)
    (f : ShiftAssignment → ShiftAssignment) (hf : ∀ a, (f a).id = a.id) :
    (s.updateAssignment id f hf).openShifts = s.openShifts := rfl

@[simp] theorem openShifts_upsertAssignment (id : AssignmentId)
    (f : ShiftAssignment → ShiftAssignment) (hf : ∀ a, (f a).id = a.id) (row : ShiftAssignment) :
    (s.upsertAssignment id f hf row).openShifts = s.openShifts := by
  unfold upsertAssignment
  split
  · rfl
  · split <;> rfl

theorem rows_updateAssignment (id : AssignmentId) (f : ShiftAssignment → ShiftAssignment)
    (hf : ∀ a, (f a).id = a.id) : (s.updateAssignment id f hf).assignments.rows =
      s.assignments.rows.map fun a => if a.id = id then f a else a :=
  s.assignments.rows_update hf

theorem rows_updateShift (id : OpenShiftId) (f : OpenShift → OpenShift)
    (hf : ∀ x, (f x).id = x.id ∧ (f x).headcount = x.headcount) :
    (s.updateShift id f hf).openShifts.rows =
      s.openShifts.rows.map fun x => if x.id = id then f x else x :=
  s.openShifts.rows_update fun x => (hf x).1

/-- The row an upsert adds: none where there is one already. -/
def added (id : AssignmentId) (row : ShiftAssignment) : Option ShiftAssignment :=
  if (s.assignments.find id).isNone ∧ (s.openShifts.find id.openShiftId).isSome then
    some { row with id := id }
  else none

theorem eq_of_added {s : StaffingStore} {k : AssignmentId} {row a : ShiftAssignment}
    (h : a ∈ s.added k row) :
    a = { row with id := k } := by
  unfold added at h
  split at h
  · cases h
    rfl
  · cases h

theorem rows_upsertAssignment (id : AssignmentId) (f : ShiftAssignment → ShiftAssignment)
    (hf : ∀ a, (f a).id = a.id) (row : ShiftAssignment) :
    (s.upsertAssignment id f hf row).assignments.rows =
      (s.assignments.rows.map fun a => if a.id = id then f a else a) ++
        (s.added id row).toList := by
  unfold upsertAssignment added
  cases hid : s.assignments.find id with
  | some a => simp [rows_updateAssignment]
  | none =>
      have hsame : (s.assignments.rows.map fun a => if a.id = id then f a else a) =
          s.assignments.rows := by
        have hne : ∀ a ∈ s.assignments.rows, (if a.id = id then f a else a) = a := fun a ha =>
          if_neg ((s.assignments.find_eq_none_iff).mp hid a ha)
        rw [List.map_congr_left hne, List.map_id']
      rw [hsame]
      by_cases hshift : (s.openShifts.find id.openShiftId).isSome
      · have hnew := s.assignments.rows_set_of_not_mem (r := { row with id := id }) hid
        simp [hshift, hnew]
      · simp [hshift]

end StaffingStore

namespace StaffingCommand

/-! ## The assignments -/

def nextAssignment : StaffingCommand → ShiftAssignment → ShiftAssignment
  | cancelShift id reason _ => fun a => a.shiftCancelled id reason
  | invite id actorUserId => fun a => if a.id = id then a.invited actorUserId else a
  | respond shift workerId response now => fun a =>
      if a.id = ⟨shift.id, workerId⟩ then a.responded response now else a
  | clockIn id now => fun a => if a.id = id then a.clockedIn now else a
  | clockOut id now => fun a => if a.id = id then a.clockedOut now else a
  | cancelAssignment id reason now _ => fun a => if a.id = id then a.cancelled reason now else a
  | approveAssignment id evidence actorUserId now => fun a =>
      if a.id = id then a.approved evidence.id actorUserId now else a
  | markNoShow id _ => fun a => if a.id = id then a.noShow else a
  | createShift _ | publishShift _ _ | audit _ => fun a => a

def newAssignment : StaffingCommand → StaffingStore → Option ShiftAssignment
  | invite id actorUserId, s => s.added id (.created id .invited (some actorUserId) none)
  | respond shift workerId response now, s =>
      s.added ⟨shift.id, workerId⟩
        (.created ⟨shift.id, workerId⟩ response.status none (some now))
  | _, _ => none

theorem nextAssignment_id (c : StaffingCommand) (a : ShiftAssignment) :
    (c.nextAssignment a).id = a.id := by
  cases c with
  | cancelShift id reason now => exact a.shiftCancelled_id id reason
  | _ => first | rfl | (simp only [nextAssignment]; split <;> rfl)

theorem assignments_run (c : StaffingCommand) (s : StaffingStore) :
    (c.run s).assignments.rows =
      s.assignments.rows.map c.nextAssignment ++ (c.newAssignment s).toList := by
  cases c <;>
    simp [run, nextAssignment, newAssignment, StaffingStore.rows_upsertAssignment,
      StaffingStore.rows_updateAssignment, StaffingStore.updateAssignments, Table.mapRows]

/-- An assignment that is there stays, as the transaction changes it. -/
theorem nextAssignment_mem (c : StaffingCommand) {s : StaffingStore} {a : ShiftAssignment}
    (ha : a ∈ s.assignments.rows) : c.nextAssignment a ∈ (c.run s).assignments.rows := by
  rw [assignments_run]
  exact List.mem_append_left _ (List.mem_map_of_mem ha)

theorem mem_assignments_run {c : StaffingCommand} {s : StaffingStore} {b : ShiftAssignment}
    (hb : b ∈ (c.run s).assignments.rows) :
    (∃ a ∈ s.assignments.rows, c.nextAssignment a = b) ∨ c.newAssignment s = some b := by
  rw [assignments_run, List.mem_append, List.mem_map, Option.mem_toList] at hb
  exact hb

/-! ## The shifts -/

/-- The change of a shift; `t` is the store after the transaction, whose
assignments a rollup counts. -/
def nextShift : StaffingCommand → StaffingStore → OpenShift → OpenShift
  | publishShift id now, _ => fun x =>
      if x.id = id then { x with status := .opened, publishedAt := some now } else x
  | cancelShift id _ now, _ => fun x =>
      if x.id = id then { x with status := .cancelled, cancelledAt := some now } else x
  | respond shift _ _ _, t => fun x =>
      if x.id = shift.id then
        { x with status := if t.activeCount shift.id ≥ shift.headcount then .filled else .opened }
      else x
  | clockIn id _, _ => fun x =>
      if x.id = id.openShiftId then { x with status := .inProgress } else x
  | cancelAssignment id _ _ reopens, _ | markNoShow id reopens, _ => fun x =>
      if reopens = true ∧ x.id = id.openShiftId then { x with status := .opened } else x
  | approveAssignment id _ _ _, t => fun x =>
      if t.countAssignments id.openShiftId unresolvedAssignments = 0 ∧ x.id = id.openShiftId then
        { x with status := .completed }
      else x
  | createShift _, _ | invite _ _, _ | clockOut _ _, _ | audit _, _ => fun x => x

def newShift : StaffingCommand → StaffingStore → Option OpenShift
  | createShift row, s => some { row with id := s.nextShiftId }
  | _, _ => none

theorem nextShift_id (c : StaffingCommand) (t : StaffingStore) (x : OpenShift) :
    (c.nextShift t x).id = x.id := by
  cases c <;> first | rfl | (simp only [nextShift]; split <;> rfl)

theorem nextShift_headcount (c : StaffingCommand) (t : StaffingStore) (x : OpenShift) :
    (c.nextShift t x).headcount = x.headcount := by
  cases c <;> first | rfl | (simp only [nextShift]; split <;> rfl)

theorem rows_reopen (reopens : Bool) (id : OpenShiftId) (s : StaffingStore) :
    (reopen reopens id s).openShifts.rows = s.openShifts.rows.map fun x =>
      if reopens = true ∧ x.id = id then { x with status := .opened } else x := by
  unfold reopen
  split
  · next h => simp [h, StaffingStore.setShiftStatus, StaffingStore.rows_updateShift]
  · next h => simp [h]

theorem rows_complete (id : OpenShiftId) (s : StaffingStore) :
    (complete id s).openShifts.rows = s.openShifts.rows.map fun x =>
      if s.countAssignments id unresolvedAssignments = 0 ∧ x.id = id then
        { x with status := .completed }
      else x := by
  unfold complete
  split
  · next h => simp [h, StaffingStore.setShiftStatus, StaffingStore.rows_updateShift]
  · next h => simp [h]

theorem openShifts_run (c : StaffingCommand) (s : StaffingStore) :
    (c.run s).openShifts.rows =
      s.openShifts.rows.map (c.nextShift (c.run s)) ++ (c.newShift s).toList := by
  cases c with
  | createShift row =>
      have hnew : s.openShifts.find s.nextShiftId = none :=
        s.openShifts.find_eq_none_iff.mpr fun x hx => Nat.ne_of_lt (s.fresh x hx)
      have hrows := s.openShifts.rows_set_of_not_mem (r := { row with id := s.nextShiftId }) hnew
      simp [run, nextShift, newShift, StaffingStore.insertShift, hrows]
  | publishShift id now => simp [run, nextShift, newShift, StaffingStore.rows_updateShift]
  | cancelShift id reason now => simp [run, nextShift, newShift, StaffingStore.rows_updateShift]
  | invite id actorUserId => simp [run, nextShift, newShift]
  | respond shift workerId response now =>
      simp [run, nextShift, newShift, StaffingStore.refreshShift, StaffingStore.rows_updateShift,
        StaffingStore.activeCount, StaffingStore.countAssignments]
  | clockIn id now =>
      simp [run, nextShift, newShift, StaffingStore.setShiftStatus, StaffingStore.rows_updateShift]
  | clockOut id now => simp [run, nextShift, newShift]
  | cancelAssignment id reason now reopens => simp [run, nextShift, newShift, rows_reopen]
  | approveAssignment id evidence actorUserId now =>
      simp [run, nextShift, newShift, rows_complete, StaffingStore.countAssignments]
  | markNoShow id reopens => simp [run, nextShift, newShift, rows_reopen]
  | audit entry => simp [run, nextShift, newShift]

theorem nextShift_mem (c : StaffingCommand) {s : StaffingStore} {x : OpenShift}
    (hx : x ∈ s.openShifts.rows) : c.nextShift (c.run s) x ∈ (c.run s).openShifts.rows := by
  rw [openShifts_run]
  exact List.mem_append_left _ (List.mem_map_of_mem hx)

theorem mem_openShifts_run {c : StaffingCommand} {s : StaffingStore} {y : OpenShift}
    (hy : y ∈ (c.run s).openShifts.rows) :
    (∃ x ∈ s.openShifts.rows, c.nextShift (c.run s) x = y) ∨ c.newShift s = some y := by
  rw [openShifts_run, List.mem_append, List.mem_map, Option.mem_toList] at hy
  exact hy

/-! ## The evidence -/

theorem evidence_run (c : StaffingCommand) (s : StaffingStore) :
    (c.run s).evidence =
      match c with
      | approveAssignment _ evidence _ _ => s.evidence.set evidence
      | _ => s.evidence := by
  have hupsert (id : AssignmentId) (f : ShiftAssignment → ShiftAssignment)
      (hf : ∀ a, (f a).id = a.id) (row : ShiftAssignment) :
      (s.upsertAssignment id f hf row).evidence = s.evidence := by
    unfold StaffingStore.upsertAssignment
    split
    · rfl
    · split <;> rfl
  have hreopen (reopens : Bool) (id : OpenShiftId) (t : StaffingStore) :
      (reopen reopens id t).evidence = t.evidence := by
    unfold reopen
    split <;> rfl
  have hcomplete (id : OpenShiftId) (t : StaffingStore) :
      (complete id t).evidence = t.evidence := by
    unfold complete
    split <;> rfl
  cases c with
  | invite id actorUserId => exact hupsert _ _ _ _
  | respond shift workerId response now => exact hupsert _ _ _ _
  | cancelAssignment id reason now reopens => exact hreopen _ _ _
  | markNoShow id reopens => exact hreopen _ _ _
  | approveAssignment id evidence actorUserId now => exact hcomplete _ _
  | _ => rfl

/-! ## Refused or run -/

theorem apply_cases (c : StaffingCommand) (s : StaffingStore) :
    c.apply s = s ∨ c.refused s = none ∧ c.apply s = c.run s := by
  unfold apply
  cases c.refused s with
  | some e => exact .inl rfl
  | none => exact .inr ⟨rfl, rfl⟩

end StaffingCommand

end ServeProof
