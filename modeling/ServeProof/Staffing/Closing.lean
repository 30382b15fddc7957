import ServeProof.Staffing.Knowledge

/-!
# ServeProof.Staffing.Closing

Closed shifts stay closed.

A shift that is cancelled or completed has no assignment left to be resolved,
and a draft has no assignment at all (`Settled`), so no guarded write reaches
it.  A decline is not guarded: it opens the shift whatever its status is.
-/

namespace ServeProof.Staffing

open Interleave

/-- The shift is cancelled or completed. -/
def Closed (x : OpenShift) : Prop := x.status ∈ [.completed, .cancelled]

instance (x : OpenShift) : Decidable (Closed x) := inferInstanceAs (Decidable (_ ∈ _))

/-- A decline comes while its shift is neither a draft nor closed. -/
def DeclinesRunning : StaffingCommand → StaffingStore → Prop
  | .respond shift _ .decline _, s =>
      ∀ x ∈ s.openShifts.find shift.id, x.status ≠ .draft ∧ ¬ Closed x
  | _, _ => True

instance : ∀ c s, Decidable (DeclinesRunning c s)
  | .respond _ _ .decline _, _ => inferInstanceAs (Decidable (∀ _ ∈ _, _))
  | .respond _ _ .accept _, _ | .createShift _, _ | .publishShift _ _, _ | .cancelShift _ _ _, _
  | .invite _ _, _ | .clockIn _ _, _ | .clockOut _ _, _ | .cancelAssignment _ _ _ _, _
  | .approveAssignment _ _ _ _, _ | .markNoShow _ _, _ | .audit _, _ => isTrue trivial

/-- A closed shift is resolved, and a draft has no assignments. -/
structure Settled (s : StaffingStore) : Prop where
  closed : ∀ x ∈ s.openShifts.rows, Closed x → ∀ a ∈ s.assignments.rows,
    a.id.openShiftId = x.id → a.status ∉ unresolvedAssignments
  draft : ∀ x ∈ s.openShifts.rows, x.status = .draft → ∀ a ∈ s.assignments.rows,
    a.id.openShiftId ≠ x.id

/-- Calls one after the other. -/
abbrev settledAlone : Discipline StaffingStore StaffingCommand :=
  .alone StaffingCommand.apply Settled DeclinesRunning

variable {c : StaffingCommand} {s : StaffingStore}

/-! ## What the reads say -/

/-- What has been read of a shift. -/
theorem of_find_shift {id : OpenShiftId} {P : OpenShift → Prop}
    (h : ∃ y ∈ s.openShifts.find id, P y) {x : OpenShift} (hx : x ∈ s.openShifts.rows)
    (hid : x.id = id) : P x := by
  obtain ⟨y, hy, hP⟩ := h
  have hfind : s.openShifts.find x.id = some x := Table.find_key hx
  rw [hid] at hfind
  cases hfind.symm.trans (Option.mem_def.mp hy)
  exact hP

/-- The shift of an assignment that is not resolved is neither closed nor a
draft. -/
theorem Settled.running (hs : Settled s) {k : AssignmentId} {P : ShiftAssignmentStatus → Prop}
    (hP : ∀ status, P status → status ∈ unresolvedAssignments)
    (h : ∃ a ∈ s.assignments.find k, P a.status) {x : OpenShift} (hx : x ∈ s.openShifts.rows)
    (hid : x.id = k.openShiftId) : x.status ≠ .draft ∧ ¬ Closed x := by
  obtain ⟨a, ha, hstatus⟩ := h
  have hrow : a ∈ s.assignments.rows := Table.mem_of_find ha
  have hshift : a.id.openShiftId = x.id := by
    rw [show a.id = k from Table.key_of_find ha, hid]
  exact ⟨fun hdraft => hs.draft x hx hdraft a hrow hshift,
    fun hclosed => hs.closed x hx hclosed a hrow hshift (hP _ hstatus)⟩

theorem not_closed_opened {x : OpenShift} (h : x.status = .opened) : ¬ Closed x := by
  simp [Closed, h]

/-! ## The shifts -/

/-- A transaction leaves a closed shift as it is, and a draft too unless it
publishes or cancels it. -/
theorem stays_run (hs : Settled s) (hknown : Known settledAlone c s) (hok : DeclinesRunning c s)
    {x : OpenShift} (hx : x ∈ s.openShifts.rows) :
    (Closed x → (c.nextShift (c.run s) x).status = x.status) ∧
      (x.status = .draft → (∀ now, c ≠ .publishShift x.id now) →
        (c.nextShift (c.run s) x).status ∈ [.draft, .cancelled]) := by
  -- a change of a shift that is neither closed nor a draft
  have hrunning {k : Prop} [Decidable k] {y : OpenShift}
      (h : k → x.status ≠ .draft ∧ ¬ Closed x) :
      (Closed x → (if k then y else x).status = x.status) ∧
        (x.status = .draft → (∀ now, c ≠ .publishShift x.id now) →
          (if k then y else x).status ∈ [.draft, .cancelled]) := by
    by_cases hk : k
    · exact ⟨fun hclosed => absurd hclosed (h hk).2, fun hdraft => absurd hdraft (h hk).1⟩
    · rw [if_neg hk]
      exact ⟨fun _ => rfl, fun hdraft _ => by simp [hdraft]⟩
  have hsame : (Closed x → x.status = x.status) ∧
      (x.status = .draft → (∀ now, c ≠ .publishShift x.id now) →
        x.status ∈ [.draft, .cancelled]) := ⟨fun _ => rfl, fun hdraft _ => by simp [hdraft]⟩
  cases c with
  | createShift row => exact hsame
  | invite id actorUserId => exact hsame
  | clockOut id now => exact hsame
  | audit entry => exact hsame
  | publishShift id now =>
      rw [StaffingCommand.nextShift]
      by_cases hid : x.id = id
      · have hdraft := of_find_shift (P := (·.status = .draft)) hknown.now hx hid
        refine ⟨fun hclosed => ?_, fun _ hnot => absurd (hid ▸ rfl) (hnot now)⟩
        simp [Closed, hdraft] at hclosed
      · simp only [if_neg hid]
        exact ⟨fun _ => trivial, hsame.2⟩
  | cancelShift id reason now =>
      rw [StaffingCommand.nextShift]
      by_cases hid : x.id = id
      · have hopen := of_find_shift (P := (·.status ∉ [.cancelled, .completed])) hknown.1.now hx hid
        refine ⟨fun hclosed => absurd ?_ hopen, fun _ _ => by simp [hid]⟩
        simpa [Closed, or_comm] using hclosed
      · simp only [if_neg hid]
        exact ⟨fun _ => trivial, hsame.2⟩
  | respond shift workerId response now =>
      refine hrunning fun hid => ?_
      have hread : s.openShifts.find shift.id = some shift := hknown.1.now
      cases response with
      | decline => exact hok x (hid ▸ Table.find_key hx)
      | accept =>
          have hopened := hknown.2 rfl
          rw [of_find_shift (P := (· = shift)) ⟨shift, hread, rfl⟩ hx hid]
          exact ⟨by simp [hopened], not_closed_opened hopened⟩
  | clockIn id now =>
      refine hrunning fun hid => hs.running (P := (· = .accepted)) ?_ hknown.now hx hid
      simp [unresolvedAssignments]
  | cancelAssignment id reason now reopens =>
      refine hrunning fun hk => ?_
      have hfilled := of_find_shift (P := (·.status = .filled)) (hknown.2 hk.1).now hx hk.2
      exact ⟨by simp [hfilled], by simp [Closed, hfilled]⟩
  | markNoShow id reopens =>
      refine hrunning fun hk => ?_
      have hfilled := of_find_shift (P := (·.status = .filled)) (hknown.2 hk.1).now hx hk.2
      exact ⟨by simp [hfilled], by simp [Closed, hfilled]⟩
  | approveAssignment id evidence actorUserId now =>
      refine hrunning fun hk => ?_
      obtain ⟨a, ha, hclockedOut, -⟩ := hknown.1.now
      refine hs.running (P := (· = .clockedOut)) ?_ ⟨a, ha, hclockedOut⟩ hx hk.2
      simp [unresolvedAssignments]

/-- A shift that a transaction has made a draft has been one. -/
theorem draft_of_nextShift {t : StaffingStore} {x : OpenShift}
    (h : (c.nextShift t x).status = .draft) : x.status = .draft := by
  cases c with
  | createShift row => exact h
  | invite id actorUserId => exact h
  | clockOut id now => exact h
  | audit entry => exact h
  | respond shift workerId response now =>
      simp only [StaffingCommand.nextShift] at h
      split at h
      · simp only at h
        split at h <;> cases h
      · exact h
  | _ =>
      simp only [StaffingCommand.nextShift] at h
      split at h
      · cases h
      · exact h

/-- A shift that a transaction has closed has been closed, or is cancelled by it,
or completed. -/
theorem closed_of_nextShift {t : StaffingStore} {x : OpenShift} (h : Closed (c.nextShift t x)) :
    Closed x ∨ (∃ reason now, c = .cancelShift x.id reason now) ∨
      ∃ id evidence actorUserId now, c = .approveAssignment id evidence actorUserId now ∧
        x.id = id.openShiftId ∧
        t.countAssignments id.openShiftId unresolvedAssignments = 0 := by
  cases c with
  | createShift row => exact .inl h
  | invite id actorUserId => exact .inl h
  | clockOut id now => exact .inl h
  | audit entry => exact .inl h
  | cancelShift id reason now =>
      simp only [StaffingCommand.nextShift] at h
      split at h
      · next hid => exact .inr (.inl ⟨reason, now, by rw [hid]⟩)
      · exact .inl h
  | approveAssignment id evidence actorUserId now =>
      simp only [StaffingCommand.nextShift] at h
      split at h
      · next hk => exact .inr (.inr ⟨id, evidence, actorUserId, now, rfl, hk.2, hk.1⟩)
      · exact .inl h
  | respond shift workerId response now =>
      simp only [StaffingCommand.nextShift] at h
      split at h
      · simp only [Closed] at h
        split at h <;> simp at h
      · exact .inl h
  | _ =>
      simp only [StaffingCommand.nextShift] at h
      split at h
      · simp [Closed] at h
      · exact .inl h

/-! ## The invariant -/

/-- The shift of an assignment that is left to be resolved after a transaction
was not closed before. -/
theorem not_closed_before (hs : Settled s) (hknown : Known settledAlone c s) {b : ShiftAssignment}
    (hb : b ∈ (c.run s).assignments.rows) (hstatus : b.status ∈ unresolvedAssignments)
    {x : OpenShift} (hx : x ∈ s.openShifts.rows) (hid : x.id = b.id.openShiftId) :
    ¬ Closed x := by
  have hbefore {a : ShiftAssignment} (ha : a ∈ s.assignments.rows)
      (hunresolved : a.status ∈ unresolvedAssignments) (hshift : x.id = a.id.openShiftId) :
      ¬ Closed x := fun hclosed => hs.closed x hx hclosed a ha hshift.symm hunresolved
  obtain ⟨a, ha, rfl⟩ | hnew := StaffingCommand.mem_assignments_run hb
  · rw [c.nextAssignment_id] at hid
    cases c with
    | createShift row => exact hbefore ha hstatus hid
    | publishShift id now => exact hbefore ha hstatus hid
    | audit entry => exact hbefore ha hstatus hid
    | cancelShift id reason now =>
        simp only [StaffingCommand.nextAssignment, ShiftAssignment.shiftCancelled] at hstatus
        split at hstatus
        · simp [unresolvedAssignments] at hstatus
        · exact hbefore ha hstatus hid
    | respond shift workerId response now =>
        simp only [StaffingCommand.nextAssignment] at hstatus
        split at hstatus
        · next hk =>
          cases response with
          | decline =>
              simp [ShiftAssignment.responded, ShiftResponse.status, unresolvedAssignments]
                at hstatus
          | accept =>
              refine not_closed_opened ?_
              rw [hk] at hid
              exact of_find_shift (P := (·.status = .opened)) ⟨shift, hknown.1.now, hknown.2 rfl⟩
                hx hid
        · exact hbefore ha hstatus hid
    | clockIn id now =>
        by_cases hk : a.id = id
        · rw [hk] at hid
          exact (hs.running (P := (· = .accepted)) (by simp [unresolvedAssignments]) hknown.now
            hx hid).2
        · simp only [StaffingCommand.nextAssignment, if_neg hk] at hstatus
          exact hbefore ha hstatus hid
    | clockOut id now =>
        by_cases hk : a.id = id
        · rw [hk] at hid
          exact (hs.running (P := (· = .clockedIn)) (by simp [unresolvedAssignments]) hknown.now
            hx hid).2
        · simp only [StaffingCommand.nextAssignment, if_neg hk] at hstatus
          exact hbefore ha hstatus hid
    | _ =>
        simp only [StaffingCommand.nextAssignment] at hstatus
        split at hstatus
        · simp [ShiftAssignment.invited, ShiftAssignment.cancelled, ShiftAssignment.approved,
            ShiftAssignment.noShow, unresolvedAssignments] at hstatus
        · exact hbefore ha hstatus hid
  · cases c with
    | invite id actorUserId =>
        rw [StaffingStore.eq_of_added hnew] at hstatus
        simp [ShiftAssignment.created, unresolvedAssignments] at hstatus
    | respond shift workerId response now =>
        rw [StaffingStore.eq_of_added hnew] at hstatus hid
        cases response with
        | decline =>
            simp [ShiftAssignment.created, ShiftResponse.status, unresolvedAssignments] at hstatus
        | accept =>
            refine not_closed_opened ?_
            exact of_find_shift (P := (·.status = .opened)) ⟨shift, hknown.1.now, hknown.2 rfl⟩
              hx hid
    | _ => cases hnew

/-- A shift that gets an assignment is no draft. -/
theorem not_draft_of_new (hknown : Known settledAlone c s) (hok : DeclinesRunning c s)
    {b : ShiftAssignment} (hb : c.newAssignment s = some b) {x : OpenShift}
    (hx : x ∈ s.openShifts.rows) (hid : x.id = b.id.openShiftId) : x.status ≠ .draft := by
  cases c with
  | invite id actorUserId =>
      rw [StaffingStore.eq_of_added hb] at hid
      rw [of_find_shift (P := (·.status = .opened)) hknown.1.now hx hid]
      nofun
  | respond shift workerId response now =>
      rw [StaffingStore.eq_of_added hb] at hid
      cases response with
      | decline =>
          have hid' : x.id = shift.id := hid
          exact (hok x (hid' ▸ Table.find_key hx)).1
      | accept =>
          have hopened := of_find_shift (P := (·.status = .opened))
            ⟨shift, hknown.1.now, hknown.2 rfl⟩ hx hid
          rw [hopened]
          nofun
  | _ => cases hb

theorem Settled.run (hs : Settled s) (hknown : Known settledAlone c s)
    (hok : DeclinesRunning c s) : Settled (c.run s) := by
  -- a new shift is a draft without assignments
  have hnewShift {y : OpenShift} (hnew : c.newShift s = some y) {b : ShiftAssignment}
      (hb : b ∈ (c.run s).assignments.rows) : y.status = .draft ∧ b.id.openShiftId ≠ y.id := by
    cases c with
    | createShift row =>
        cases hnew
        refine ⟨hknown, fun heq => ?_⟩
        have hshift := s.shift_of_assignment b hb
        rw [heq,
          s.openShifts.find_eq_none_iff.mpr fun x hx => Nat.ne_of_lt (s.fresh x hx)] at hshift
        cases hshift
    | _ => cases hnew
  constructor
  · intro y hy hclosed b hb hid hstatus
    obtain ⟨x, hx, rfl⟩ | hnew := StaffingCommand.mem_openShifts_run hy
    · rw [c.nextShift_id] at hid
      have hbefore := not_closed_before hs hknown hb hstatus hx hid.symm
      obtain h | ⟨reason, now, rfl⟩ | ⟨id, evidence, actorUserId, now, rfl, hx', hcount⟩ :=
        closed_of_nextShift hclosed
      · exact hbefore h
      · -- who has started keeps a shift from being cancelled
        obtain ⟨a, ha, rfl⟩ | hnew := StaffingCommand.mem_assignments_run hb
        · have hidle := hknown.2.now a ha
          rw [StaffingCommand.nextAssignment_id] at hid
          simp only [StaffingCommand.nextAssignment, ShiftAssignment.shiftCancelled] at hstatus
          split at hstatus
          · simp [unresolvedAssignments] at hstatus
          · next hnot =>
            have hidle := hidle hid
            simp_all [unresolvedAssignments]
        · cases hnew
      · rw [StaffingStore.countAssignments, Table.count, List.countP_eq_zero] at hcount
        exact hcount b hb (decide_eq_true ⟨hid.trans hx', hstatus⟩)
    · simp [Closed, (hnewShift hnew hb).1] at hclosed
  · intro y hy hdraft b hb hid
    obtain ⟨x, hx, rfl⟩ | hnew := StaffingCommand.mem_openShifts_run hy
    · rw [c.nextShift_id] at hid
      have hbefore := draft_of_nextShift hdraft
      obtain ⟨a, ha, rfl⟩ | hnew := StaffingCommand.mem_assignments_run hb
      · rw [c.nextAssignment_id] at hid
        exact hs.draft x hx hbefore a ha hid
      · exact not_draft_of_new hknown hok hnew hx hid.symm hbefore
    · exact (hnewShift hnew hb).2 hid

theorem Settled.apply (hs : Settled s) (hknown : Known settledAlone c s)
    (hok : DeclinesRunning c s) : Settled (c.apply s) := by
  obtain h | ⟨-, h⟩ := c.apply_cases s
  · rw [h]
    exact hs
  · rw [h]
    exact hs.run hknown hok

theorem settled_of_unstaffed (h : s.Unstaffed) : Settled s := by
  constructor <;> intro x hx <;> rw [h.openShifts] at hx <;> cases hx

/-! ## In a run -/

/-- Closed shifts have stayed as they were, and drafts too unless they have been
cancelled, or `published`. -/
def Stays (published : OpenShiftId → Prop) (s t : StaffingStore) : Prop :=
  ∀ x ∈ s.openShifts.rows, ∃ y ∈ t.openShifts.rows, y.id = x.id ∧
    (Closed x → y.status = x.status) ∧
    (x.status = .draft → ¬ published x.id → y.status ∈ [.draft, .cancelled])

section Run

variable {published : OpenShiftId → Prop}

theorem Stays.refl (s : StaffingStore) : Stays published s s :=
  fun x hx => ⟨x, hx, rfl, fun _ => rfl, fun hdraft _ => by simp [hdraft]⟩

theorem Stays.trans {s t u : StaffingStore} (hst : Stays published s t)
    (htu : Stays published t u) : Stays published s u := by
  intro x hx
  obtain ⟨y, hy, hid, hclosed, hdraft⟩ := hst x hx
  obtain ⟨z, hz, hid', hclosed', hdraft'⟩ := htu y hy
  refine ⟨z, hz, hid'.trans hid, fun h => ?_, fun h hnot => ?_⟩
  · have hsame := hclosed h
    rw [← hsame]
    exact hclosed' (by rwa [Closed, hsame])
  · rw [← hid] at hnot
    have hy := hdraft h (hid ▸ hnot)
    simp only [List.mem_cons, List.not_mem_nil, or_false] at hy
    cases hy with
    | inl hy => exact hdraft' hy hnot
    | inr hy =>
        rw [hclosed' (by simp [Closed, hy]), hy]
        simp

theorem Stays.apply (hs : Settled s) (hknown : Known settledAlone c s)
    (hok : DeclinesRunning c s) (hpublish : ∀ id now, c = .publishShift id now → published id) :
    Stays published s (c.apply s) := by
  obtain h | ⟨-, h⟩ := c.apply_cases s
  · rw [h]
    exact .refl s
  · rw [h]
    intro x hx
    obtain ⟨hclosed, hdraft⟩ := stays_run hs hknown hok hx
    exact ⟨_, c.nextShift_mem hx, c.nextShift_id _ x, hclosed,
      fun h hnot => hdraft h fun now hc => hnot (hpublish x.id now hc)⟩

variable (businessDateInTimezone : Date → String → String)
  {before after : List (Op (UserId × StaffingRequest) StaffingMove)}

/-- Calls one after the other keep the shifts settled, and leave what is closed. -/
theorem stays_evalAll (hs : Settled s)
    (had : (staffing businessDateInTimezone).AdmittedAll DeclinesRunning (fun _ _ => True) after
      s) :
    Settled ((staffing businessDateInTimezone).evalAll after s) ∧
      Stays (fun id => ∃ userId, .call (userId, .publishShift id) ∈ after) s
        ((staffing businessDateInTimezone).evalAll after s) := by
  let S := staffing businessDateInTimezone
  let published (id : OpenShiftId) : Prop := ∃ userId, .call (userId, .publishShift id) ∈ after
  let inv (t : StaffingStore) : Prop := Settled t ∧ Stays published s t
  let D := Discipline.alone S.apply inv DeclinesRunning
  have hD : D.Lawful := Discipline.alone_lawful _ _ _
  refine @System.evalAll_inv _ _ _ _ _ S DeclinesRunning (fun _ _ => True) inv
    (fun c t => (∀ id now, c = .publishShift id now → published id) ∧ Known D c t)
    (fun i => .call i ∈ after) (fun c t ht hok hknown => ?_) (fun e t ht _ => ?_)
    (fun i hi t _ => ?_) after (fun i hi => hi) s ⟨hs, .refl s⟩ had
  · exact ⟨ht.1.apply hknown.2 hok, ht.2.trans (.apply ht.1 hknown.2 hok hknown.1)⟩
  · cases e <;> exact ⟨⟨ht.1.closed, ht.1.draft⟩, ht.2⟩
  · refine (Prog.Sat.only (Prog.Only.imp (fun c h id now hc => ?_)
      (only_prog businessDateInTimezone i.1 i.2)) (sat_prog hD businessDateInTimezone i.1 i.2))
    have hrequest := h id now hc
    exact ⟨i.1, by rw [← hrequest]; exact hi⟩

/-- **Closed shifts stay closed**, and a draft is opened by its publication only,
in every sequence of calls whose declines come while the shift is neither. -/
theorem closed_stays_closed (hs : s.Unstaffed)
    (had : (staffing businessDateInTimezone).AdmittedAll DeclinesRunning (fun _ _ => True)
      (before ++ after) s) :
    (∀ x ∈ ((staffing businessDateInTimezone).evalAll before s).openShifts.rows, Closed x →
      ∃ y ∈ ((staffing businessDateInTimezone).evalAll (before ++ after) s).openShifts.rows,
        y.id = x.id ∧ y.status = x.status) ∧
    ∀ x ∈ ((staffing businessDateInTimezone).evalAll before s).openShifts.rows,
      x.status = .draft →
      ∀ y ∈ ((staffing businessDateInTimezone).evalAll (before ++ after) s).openShifts.rows,
        y.id = x.id → y.status = .opened →
        ∃ userId, .call (userId, .publishShift x.id) ∈ after := by
  rw [System.admittedAll_append] at had
  rw [System.evalAll_append]
  have hsettled := (stays_evalAll businessDateInTimezone (settled_of_unstaffed hs) had.1).1
  have hstays := (stays_evalAll businessDateInTimezone hsettled had.2).2
  constructor
  · intro x hx hclosed
    obtain ⟨y, hy, hid, hsame, -⟩ := hstays x hx
    exact ⟨y, hy, hid, hsame hclosed⟩
  · intro x hx hdraft y hy hid hopened
    by_contra hnot
    obtain ⟨y', hy', hid', -, hstill⟩ := hstays x hx
    have hrow := Table.eq_of_key_eq _ hy hy' (hid.trans hid'.symm)
    have hstatus := hstill hdraft hnot
    rw [← hrow, hopened] at hstatus
    simp at hstatus

end Run

section Concrete

open Staffing.Scenario

theorem closed_stays_closed_of_cancelled :
    let s := atBar.evalAll (published ++ [.call ("manager", .cancelShift 1 none)]) bar
    let t := atBar.evalAll (published ++ [.call ("manager", .cancelShift 1 none)] ++
      [.call ("u1", .respond 1 .accept)]) bar
    (∀ x ∈ s.openShifts.rows, Closed x → ∃ y ∈ t.openShifts.rows, y.id = x.id ∧
        y.status = x.status) ∧
      ∀ x ∈ s.openShifts.rows, x.status = .draft → ∀ y ∈ t.openShifts.rows, y.id = x.id →
        y.status = .opened → ∃ userId, .call (userId, .publishShift x.id) ∈
          ([.call ("u1", .respond 1 .accept)] :
            List (Op (UserId × StaffingRequest) StaffingMove)) :=
  closed_stays_closed (fun _ _ => "2026-01-01") unstaffed_bar (by decide +kernel)

/-- A worker who declines a cancelled shift opens it, and one who declines a draft
publishes it. -/
theorem declined_open : bar.Unstaffed ∧
    ((atBar.evalAll (published ++ [.call ("manager", .cancelShift 1 none)]) bar).openShifts.find
      1).map OpenShift.status = some .cancelled ∧
    ((atBar.evalAll (published ++ [.call ("manager", .cancelShift 1 none)] ++
      [.call ("u1", .respond 1 .decline)]) bar).openShifts.find 1).map OpenShift.status =
        some .opened ∧
    ((atBar.evalAll [.call ("manager", .createShift "bar" evening)] bar).openShifts.find
      1).map OpenShift.status = some .draft ∧
    ((atBar.evalAll [.call ("manager", .createShift "bar" evening),
      .call ("u1", .respond 1 .decline)] bar).openShifts.find 1).map OpenShift.status =
        some .opened :=
  ⟨unstaffed_bar, by decide +kernel, by decide +kernel, by decide +kernel, by decide +kernel⟩

end Concrete

end ServeProof.Staffing
