import ServeProof.Staffing.Knowledge

/-!
# ServeProof.Staffing.Headcount

The headcount of a shift.

An acceptance counts the places in its own transaction.  The other writes trust
the status their call has read: a late clock-in brings back an assignment that
has been withdrawn in between, when its place may be taken (`OnPlace`).
-/

namespace ServeProof.Staffing

open Interleave

/-- No shift has more places taken than its headcount. -/
def WithinHeadcount (s : StaffingStore) : Prop :=
  ∀ x ∈ s.openShifts.rows, s.activeCount x.id ≤ x.headcount

instance (s : StaffingStore) : Decidable (WithinHeadcount s) :=
  inferInstanceAs (Decidable (∀ x ∈ _, _))

/-- Shifts stay, with their headcounts. -/
def ShiftsStay (s t : StaffingStore) : Prop :=
  ∀ x ∈ s.openShifts.rows, ∃ y ∈ t.openShifts.rows, y.id = x.id ∧ y.headcount = x.headcount

/-- A clock-in, a clock-out or an approval finds its assignment active still, or
a place of the shift free. -/
def OnPlace : StaffingCommand → StaffingStore → Prop
  | .clockIn id _, s | .clockOut id _, s | .approveAssignment id _ _ _, s =>
      (∃ a ∈ s.assignments.find id, a.Active) ∨
        ∃ x ∈ s.openShifts.find id.openShiftId, s.activeCount x.id < x.headcount
  | _, _ => True

instance : ∀ c s, Decidable (OnPlace c s)
  | .clockIn _ _, _ | .clockOut _ _, _ | .approveAssignment _ _ _ _, _ =>
      inferInstanceAs (Decidable ((∃ _ ∈ _, _) ∨ ∃ _ ∈ _, _))
  | .createShift _, _ | .publishShift _ _, _ | .cancelShift _ _ _, _ | .invite _ _, _
  | .respond _ _ _ _, _ | .cancelAssignment _ _ _ _, _ | .markNoShow _ _, _ | .audit _, _ =>
      isTrue trivial

/-- The discipline of the calls: shifts stay, and each has its headcount. -/
def crowd : Discipline StaffingStore StaffingCommand where
  apply := StaffingCommand.apply
  rely := ShiftsStay
  inv := WithinHeadcount
  ok := OnPlace

theorem crowd_lawful : crowd.Lawful where
  refl s x hx := ⟨x, hx, rfl, rfl⟩
  trans := by
    intro s t u hst htu x hx
    obtain ⟨y, hy, hid, hheadcount⟩ := hst x hx
    obtain ⟨z, hz, hid', hheadcount'⟩ := htu y hy
    exact ⟨z, hz, hid'.trans hid, hheadcount'.trans hheadcount⟩

variable {c : StaffingCommand} {s : StaffingStore} {id : OpenShiftId}

theorem shiftsStay_apply (c : StaffingCommand) (s : StaffingStore) : ShiftsStay s (c.apply s) := by
  intro x hx
  obtain h | ⟨-, h⟩ := c.apply_cases s
  · rw [h]
    exact ⟨x, hx, rfl, rfl⟩
  · rw [h]
    exact ⟨_, c.nextShift_mem hx, c.nextShift_id _ x, c.nextShift_headcount _ x⟩

/-! ## Counting the places -/

/-- The assignment takes a place of the shift `id`. -/
def TakesPlace (id : OpenShiftId) (a : ShiftAssignment) : Bool :=
  decide (a.id.openShiftId = id ∧ a.Active)

/-- A transaction that makes no assignment active takes no place. -/
theorem activeCount_run_le
    (hnext : ∀ a ∈ s.assignments.rows, (c.nextAssignment a).Active → a.Active)
    (hnew : ∀ a ∈ c.newAssignment s, ¬ a.Active) :
    (c.run s).activeCount id ≤ s.activeCount id := by
  change (c.run s).assignments.rows.countP (TakesPlace id) ≤
    s.assignments.rows.countP (TakesPlace id)
  rw [c.assignments_run, List.countP_append, List.countP_map]
  have hnone : (c.newAssignment s).toList.countP (TakesPlace id) = 0 := by
    rw [List.countP_eq_zero]
    intro a ha htakes
    exact hnew a (Option.mem_toList.mp ha) (of_decide_eq_true htakes).2
  rw [hnone, Nat.add_zero]
  refine List.countP_mono_left fun a ha htakes => ?_
  obtain ⟨hid, hactive⟩ := of_decide_eq_true htakes
  rw [c.nextAssignment_id] at hid
  exact decide_eq_true ⟨hid, hnext a ha hactive⟩

/-- A transaction that makes one assignment active takes one place, of its
shift. -/
theorem activeCount_run_le_succ {k : AssignmentId}
    (hnext : ∀ a ∈ s.assignments.rows, a.id ≠ k → (c.nextAssignment a).Active → a.Active)
    (hnew : ∀ a ∈ c.newAssignment s, a.id = k) :
    (c.run s).activeCount id ≤ s.activeCount id + if k.openShiftId = id then 1 else 0 := by
  change (c.run s).assignments.rows.countP (TakesPlace id) ≤
    s.assignments.rows.countP (TakesPlace id) + _
  -- the places of the other assignments, and that of this one
  have hsplit : (c.run s).assignments.rows.countP (TakesPlace id) =
      (c.run s).assignments.rows.countP (fun a => TakesPlace id a && decide (a.id ≠ k)) +
        (c.run s).assignments.rows.countP (fun a => TakesPlace id a && decide (a.id = k)) := by
    rw [List.countP_eq_countP_filter_add _ _ fun a => decide (a.id ≠ k), List.countP_filter,
      List.countP_filter]
    simp
  have hothers : (c.run s).assignments.rows.countP
      (fun a => TakesPlace id a && decide (a.id ≠ k)) ≤
        s.assignments.rows.countP (TakesPlace id) := by
    rw [c.assignments_run, List.countP_append, List.countP_map]
    have hnone : (c.newAssignment s).toList.countP
        (fun a => TakesPlace id a && decide (a.id ≠ k)) = 0 := by
      rw [List.countP_eq_zero]
      intro a ha
      simp [hnew a (Option.mem_toList.mp ha)]
    rw [hnone, Nat.add_zero]
    refine List.countP_mono_left fun a ha htakes => ?_
    simp only [Function.comp_apply, TakesPlace, c.nextAssignment_id, Bool.and_eq_true,
      decide_eq_true_eq] at htakes ⊢
    exact ⟨htakes.1.1, hnext a ha htakes.2 htakes.1.2⟩
  have hone : (c.run s).assignments.rows.countP (fun a => TakesPlace id a && decide (a.id = k)) ≤
      if k.openShiftId = id then 1 else 0 := by
    split
    · refine le_trans (List.countP_mono_left fun a _ h => ?_)
        ((c.run s).assignments.count_key_le_one k)
      exact (Bool.and_eq_true_iff.mp h).2
    · next hne =>
      rw [Nat.le_zero, List.countP_eq_zero]
      intro a _ h
      simp only [TakesPlace, Bool.and_eq_true, decide_eq_true_eq] at h
      exact hne (h.2 ▸ h.1.1)
  omega

/-- No assignment of a shift that is not there. -/
theorem activeCount_eq_zero (h : s.openShifts.find id = none) : s.activeCount id = 0 := by
  change s.assignments.rows.countP (TakesPlace id) = 0
  rw [List.countP_eq_zero]
  intro a ha htakes
  have hshift := s.shift_of_assignment a ha
  rw [(of_decide_eq_true htakes).1, h] at hshift
  cases hshift

/-! ## One transaction -/

/-- A transaction keeps a shift within its headcount, when it makes no assignment
active, or a place of the shift is free. -/
theorem within_of_one (hs : WithinHeadcount s) {k : AssignmentId}
    (hnext : ∀ a ∈ s.assignments.rows, a.id ≠ k → (c.nextAssignment a).Active → a.Active)
    (hnew : ∀ a ∈ c.newAssignment s, a.id = k)
    (hplace : (∃ a ∈ s.assignments.find k, a.Active) ∧ c.newAssignment s = none ∨
      ∀ x ∈ s.openShifts.rows, x.id = k.openShiftId → s.activeCount x.id < x.headcount)
    {x : OpenShift} (hx : x ∈ s.openShifts.rows) :
    (c.run s).activeCount x.id ≤ x.headcount := by
  cases hplace with
  | inl hactive =>
      obtain ⟨⟨old, hold, hactive⟩, hnone⟩ := hactive
      refine le_trans (activeCount_run_le (fun a ha h => ?_) fun a h => ?_) (hs x hx)
      · by_cases hk : a.id = k
        · have hsame : a = old :=
            s.assignments.eq_of_key_eq ha (Table.mem_of_find hold)
              (hk.trans (Table.key_of_find hold).symm)
          rw [hsame]
          exact hactive
        · exact hnext a ha hk h
      · rw [hnone] at h
        cases h
  | inr hfree =>
      refine le_trans (activeCount_run_le_succ hnext hnew) ?_
      split
      · next hid => exact hfree x hx hid.symm
      · exact hs x hx

theorem within_of_quiet (hs : WithinHeadcount s)
    (hnext : ∀ a, (c.nextAssignment a).Active → a.Active)
    (hnew : ∀ a ∈ c.newAssignment s, ¬ a.Active) {x : OpenShift} (hx : x ∈ s.openShifts.rows) :
    (c.run s).activeCount x.id ≤ x.headcount :=
  le_trans (activeCount_run_le (fun a _ => hnext a) hnew) (hs x hx)

/-- A change of the assignment `k` only. -/
theorem active_of_ite {k : AssignmentId} {f : ShiftAssignment → ShiftAssignment}
    {a : ShiftAssignment} (hk : a.id ≠ k) (h : (if a.id = k then f a else a).Active) :
    a.Active := by
  rwa [if_neg hk] at h

/-- A change that makes no assignment active. -/
theorem active_of_inactive {k : AssignmentId} {f : ShiftAssignment → ShiftAssignment}
    (hf : ∀ a, ¬ (f a).Active) {a : ShiftAssignment} (h : (if a.id = k then f a else a).Active) :
    a.Active := by
  split at h
  · exact absurd h (hf a)
  · exact h

/-- A place that is free where the assignment is not active. -/
theorem place_of {k : AssignmentId} (h : (∃ a ∈ s.assignments.find k, a.Active) ∨
    ∃ x ∈ s.openShifts.find k.openShiftId, s.activeCount x.id < x.headcount)
    (hnone : c.newAssignment s = none) :
    (∃ a ∈ s.assignments.find k, a.Active) ∧ c.newAssignment s = none ∨
      ∀ x ∈ s.openShifts.rows, x.id = k.openShiftId → s.activeCount x.id < x.headcount := by
  refine h.imp (⟨·, hnone⟩) fun h x hx hid => ?_
  obtain ⟨y, hy, hlt⟩ := h
  have hkey : y.id = k.openShiftId := Table.key_of_find hy
  rwa [s.openShifts.eq_of_key_eq hx (Table.mem_of_find hy) (hid.trans hkey.symm)]

/-- A transaction that changes the assignment `k`, when that has a place. -/
theorem within_of_changed (hs : WithinHeadcount s) {k : AssignmentId}
    {f : ShiftAssignment → ShiftAssignment}
    (hchange : ∀ a, c.nextAssignment a = if a.id = k then f a else a)
    (hnone : c.newAssignment s = none)
    (hplace : (∃ a ∈ s.assignments.find k, a.Active) ∨
      ∃ x ∈ s.openShifts.find k.openShiftId, s.activeCount x.id < x.headcount)
    {x : OpenShift} (hx : x ∈ s.openShifts.rows) :
    (c.run s).activeCount x.id ≤ x.headcount := by
  refine within_of_one hs (k := k) (fun a _ hk h => ?_) (fun a ha => ?_) (place_of hplace hnone) hx
  · rw [hchange] at h
    exact active_of_ite hk h
  · rw [hnone] at ha
    cases ha

/-- An acceptance has counted the places. -/
theorem places_accept (hs : WithinHeadcount s) {shift : OpenShift} {workerId : WorkerId}
    {now : Date} (hnotFull : ¬ StaffingCommand.Full shift workerId s)
    (hstays : ∃ z ∈ s.openShifts.rows, z.id = shift.id ∧ z.headcount = shift.headcount)
    {x : OpenShift} (hx : x ∈ s.openShifts.rows) :
    ((StaffingCommand.respond shift workerId .accept now).run s).activeCount x.id ≤
      x.headcount := by
  refine within_of_one hs (k := ⟨shift.id, workerId⟩) (fun a _ hk h => ?_) (fun a ha => ?_) ?_ hx
  · exact active_of_ite (f := (·.responded .accept now)) hk h
  · rw [StaffingStore.eq_of_added ha]
  · by_cases hactive : ∃ a ∈ s.assignments.find ⟨shift.id, workerId⟩, a.Active
    · obtain ⟨a, ha, -⟩ := id hactive
      refine .inl ⟨hactive, ?_⟩
      simp [StaffingCommand.newAssignment, StaffingStore.added, Option.mem_def.mp ha]
    · refine .inr fun y hy hid => ?_
      -- the headcount is the one that was read
      obtain ⟨z, hz, hzid, hheadcount⟩ := hstays
      rw [s.openShifts.eq_of_key_eq hy hz (hid.trans hzid.symm), hheadcount, hzid]
      exact Nat.lt_of_not_le fun hle => hnotFull ⟨hactive, hle⟩

/-- Every transaction with its knowledge, on its place, keeps the shifts within
their headcounts. -/
theorem places_run (hs : WithinHeadcount s) (hrefused : c.refused s = none)
    (hknown : Known crowd c s) (hplace : OnPlace c s) {x : OpenShift}
    (hx : x ∈ s.openShifts.rows) : (c.run s).activeCount x.id ≤ x.headcount := by
  have hnone {P : ShiftAssignment → Prop} (h : c.newAssignment s = none) :
      ∀ a ∈ c.newAssignment s, P a := fun a ha => by
    rw [h] at ha
    cases ha
  cases c with
  | createShift row => exact hs x hx
  | publishShift id now => exact hs x hx
  | audit entry => exact hs x hx
  | cancelShift id reason now =>
      refine within_of_quiet hs (fun a h => ?_) (hnone rfl) hx
      simp only [StaffingCommand.nextAssignment, ShiftAssignment.shiftCancelled] at h
      split at h
      · exact absurd h (by simp [ShiftAssignment.Active, activeAssignments])
      · exact h
  | invite id actorUserId =>
      refine within_of_quiet hs (fun a h => ?_) (fun a ha => ?_) hx
      · refine active_of_inactive (f := (·.invited actorUserId)) (fun a => ?_) h
        simp [ShiftAssignment.Active, activeAssignments, ShiftAssignment.invited]
      · rw [StaffingStore.eq_of_added ha]
        simp [ShiftAssignment.Active, activeAssignments, ShiftAssignment.created]
  | cancelAssignment id reason now reopens =>
      refine within_of_quiet hs (fun a h => ?_) (hnone rfl) hx
      refine active_of_inactive (f := (·.cancelled reason now)) (fun a => ?_) h
      simp [ShiftAssignment.Active, activeAssignments, ShiftAssignment.cancelled]
  | markNoShow id reopens =>
      refine within_of_quiet hs (fun a h => ?_) (hnone rfl) hx
      refine active_of_inactive (f := (·.noShow)) (fun a => ?_) h
      simp [ShiftAssignment.Active, activeAssignments, ShiftAssignment.noShow]
  | clockIn id now => exact within_of_changed hs (fun _ => rfl) rfl hplace hx
  | clockOut id now => exact within_of_changed hs (fun _ => rfl) rfl hplace hx
  | approveAssignment id evidence actorUserId now =>
      exact within_of_changed hs (fun _ => rfl) rfl hplace hx
  | respond shift workerId response now =>
      cases response with
      | decline =>
          refine within_of_quiet hs (fun a h => ?_) (fun a ha => ?_) hx
          · refine active_of_inactive (f := (·.responded .decline now)) (fun a => ?_) h
            simp [ShiftAssignment.Active, activeAssignments, ShiftAssignment.responded,
              ShiftResponse.status]
          · rw [StaffingStore.eq_of_added ha]
            simp [ShiftAssignment.Active, activeAssignments, ShiftAssignment.created,
              ShiftResponse.status]
      | accept =>
          obtain ⟨⟨s₁, hstays, hread⟩, -⟩ := hknown
          refine places_accept hs (fun h => ?_) (hstays shift (Table.mem_of_find hread)) hx
          simp [StaffingCommand.refused, h] at hrefused

theorem withinHeadcount_apply (hs : WithinHeadcount s) (hknown : Known crowd c s)
    (hplace : OnPlace c s) : WithinHeadcount (c.apply s) := by
  obtain h | ⟨hrefused, h⟩ := c.apply_cases s
  · rw [h]
    exact hs
  · rw [h]
    intro y hy
    obtain ⟨x, hx, rfl⟩ | hnew := StaffingCommand.mem_openShifts_run hy
    · rw [c.nextShift_id, c.nextShift_headcount]
      exact places_run hs hrefused hknown hplace hx
    · -- a new shift, with no assignment yet
      cases c with
      | createShift row =>
          cases hnew
          have hnone : s.openShifts.find s.nextShiftId = none :=
            s.openShifts.find_eq_none_iff.mpr fun x hx => Nat.ne_of_lt (s.fresh x hx)
          have hzero := activeCount_eq_zero hnone
          exact hzero ▸ Nat.zero_le _
      | _ => cases hnew

/-! ## In a run -/

section Run

variable (businessDateInTimezone : Date → String → String)

theorem sound_crowd :
    (staffing businessDateInTimezone).Sound (fun _ _ => True) crowd (Known crowd) where
  lawful := crowd_lawful
  commit c s hs hplace hknown :=
    ⟨shiftsStay_apply c s, withinHeadcount_apply hs hknown hplace⟩
  env e s hs _ := by
    cases e <;> exact ⟨crowd_lawful.refl s, hs⟩
  apply_eq := rfl
  call i s _ := sat_prog crowd_lawful businessDateInTimezone i.1 i.2

/-- **The headcount is never exceeded** in an interleaved run whose late writes
find their assignment active, or a place free. -/
theorem headcount_never_exceeded (hs : WithinHeadcount s)
    {ms : List (Move (UserId × StaffingRequest) StaffingMove)}
    (hms : (staffing businessDateInTimezone).Respects OnPlace (fun _ _ => True) ms (.start s)) :
    WithinHeadcount ((staffing businessDateInTimezone).exec ms (.start s)).store :=
  (sound_crowd businessDateInTimezone).exec_inv hs hms

end Run

section Concrete

/-- A shift of one place, published. -/
def Scenario.onePlace : StaffingStore := Scenario.atBar.evalAll Scenario.published Scenario.bar

/-- The first worker accepts, and starts to clock in. -/
def Scenario.clockingIn : List (Move (UserId × StaffingRequest) StaffingMove) :=
  [.call ("u1", .respond 1 .accept)] ++ List.replicate 6 (.step 0) ++
    [.call ("u1", .clockIn ⟨1, "w1"⟩)] ++ List.replicate 4 (.step 1)

/-- In between the worker withdraws, and the second one takes the place. -/
def Scenario.replaced : List (Move (UserId × StaffingRequest) StaffingMove) :=
  [.call ("u1", .cancelAssignment ⟨1, "w1"⟩ none)] ++ List.replicate 7 (.step 2) ++
    [.call ("u2", .respond 1 .accept)] ++ List.replicate 6 (.step 3)

open Staffing.Scenario

theorem headcount_never_exceeded_clocked_in :
    WithinHeadcount (atBar.exec (clockingIn ++ [.step 1]) (.start onePlace)).store :=
  headcount_never_exceeded (fun _ _ => "2026-01-01") (by decide +kernel) (by decide +kernel)

/-- Two workers on one place. -/
theorem headcount_exceeded : WithinHeadcount onePlace ∧
    ¬ WithinHeadcount (atBar.exec (clockingIn ++ replaced ++ [.step 1])
      (.start onePlace)).store := by
  decide +kernel

end Concrete

end ServeProof.Staffing
