import ServeProof.Staffing.Knowledge

/-!
# ServeProof.Staffing.RecordedWork

Recorded work is never undone.

From its clock-in on an assignment goes forward only (`onward`), since every
guarded write asks for another status.  A response is not guarded: it rewrites
the status of an assignment whatever it is.
-/

namespace ServeProof.Staffing

open Interleave

/-- Work has been recorded. -/
def recorded : List ShiftAssignmentStatus := [.clockedIn, .clockedOut, .approved]

/-- Where recorded work can go. -/
def onward : ShiftAssignmentStatus → List ShiftAssignmentStatus
  | .clockedIn => [.clockedIn, .clockedOut, .approved]
  | .clockedOut => [.clockedOut, .approved]
  | .approved => [.approved]
  | _ => []

/-- A response comes for an assignment without recorded work. -/
def AnswersUnrecorded : StaffingCommand → StaffingStore → Prop
  | .respond shift workerId _ _, s =>
      ∀ a ∈ s.assignments.find ⟨shift.id, workerId⟩, a.status ∉ recorded
  | _, _ => True

instance : ∀ c s, Decidable (AnswersUnrecorded c s)
  | .respond _ _ _ _, _ => inferInstanceAs (Decidable (∀ _ ∈ _, _))
  | .createShift _, _ | .publishShift _ _, _ | .cancelShift _ _ _, _ | .invite _ _, _
  | .clockIn _ _, _ | .clockOut _ _, _ | .cancelAssignment _ _ _ _, _
  | .approveAssignment _ _ _ _, _ | .markNoShow _ _, _ | .audit _, _ => isTrue trivial

/-- The assignment `b` is `a`, or what has become of it: its status has gone
forward, and its times have stayed. -/
structure Forward (a b : ShiftAssignment) : Prop where
  id : b.id = a.id
  status : b.status ∈ onward a.status
  checkInAt : b.checkInAt = a.checkInAt
  checkOutAt : a.checkOutAt ≠ none → b.checkOutAt = a.checkOutAt

/-- Recorded work has gone forward, and the evidence has stayed. -/
structure Keeps (s t : StaffingStore) : Prop where
  assignments : ∀ a ∈ s.assignments.rows, a.status ∈ recorded →
    ∃ b ∈ t.assignments.rows, Forward a b
  evidence : ∀ e ∈ s.evidence.rows, e ∈ t.evidence.rows

/-- Evidence is of approved assignments, and only who has clocked out has a time
of it. -/
structure Attested (s : StaffingStore) : Prop where
  evidence : ∀ e ∈ s.evidence.rows, ∃ a ∈ s.assignments.rows,
    a.id = e.id.externalShiftId ∧ a.status = .approved
  checkOutAt : ∀ a ∈ s.assignments.rows, a.status ∉ [.clockedOut, .approved] →
    a.checkOutAt = none

/-- Calls one after the other. -/
abbrev attestedAlone : Discipline StaffingStore StaffingCommand :=
  .alone StaffingCommand.apply Attested AnswersUnrecorded

variable {c : StaffingCommand} {s : StaffingStore}

/-! ## Forward -/

theorem onward_self {status : ShiftAssignmentStatus} (h : status ∈ recorded) :
    status ∈ onward status := by
  cases status <;> simp_all [recorded, onward]

theorem recorded_of_onward {a b : ShiftAssignmentStatus} (h : b ∈ onward a) : b ∈ recorded := by
  cases a <;> simp_all [recorded, onward]

theorem onward_trans {a b c : ShiftAssignmentStatus} (hab : b ∈ onward a) (hbc : c ∈ onward b) :
    c ∈ onward a := by
  cases a <;> cases b <;> simp_all [onward]

theorem Forward.refl {a : ShiftAssignment} (h : a.status ∈ recorded) : Forward a a :=
  ⟨rfl, onward_self h, rfl, fun _ => rfl⟩

theorem Forward.trans {a b c : ShiftAssignment} (hab : Forward a b) (hbc : Forward b c) :
    Forward a c where
  id := hbc.id.trans hab.id
  status := onward_trans hab.status hbc.status
  checkInAt := hbc.checkInAt.trans hab.checkInAt
  checkOutAt h := by
    have hb := hab.checkOutAt h
    rw [hbc.checkOutAt (by rwa [hb]), hb]

theorem Keeps.refl (s : StaffingStore) : Keeps s s :=
  ⟨fun a ha h => ⟨a, ha, .refl h⟩, fun _ h => h⟩

theorem Keeps.trans {s t u : StaffingStore} (hst : Keeps s t) (htu : Keeps t u) : Keeps s u where
  assignments a ha h := by
    obtain ⟨b, hb, hab⟩ := hst.assignments a ha h
    obtain ⟨d, hd, hbd⟩ := htu.assignments b hb (recorded_of_onward hab.status)
    exact ⟨d, hd, hab.trans hbd⟩
  evidence e he := htu.evidence e (hst.evidence e he)

/-! ## One transaction -/

/-- What has been read of an assignment. -/
theorem of_find_assignment {k : AssignmentId} {P : ShiftAssignment → Prop}
    (h : ∃ a ∈ s.assignments.find k, P a) {a : ShiftAssignment} (ha : a ∈ s.assignments.rows)
    (hk : a.id = k) : P a := by
  obtain ⟨b, hb, hP⟩ := h
  have hfind : s.assignments.find a.id = some a := Table.find_key ha
  rw [hk] at hfind
  cases hfind.symm.trans (Option.mem_def.mp hb)
  exact hP

/-- A transaction leaves recorded work, or takes it forward. -/
theorem forward_run (hs : Attested s) (hknown : Known attestedAlone c s)
    (hok : AnswersUnrecorded c s) {a : ShiftAssignment} (ha : a ∈ s.assignments.rows)
    (hrecorded : a.status ∈ recorded) : Forward a (c.nextAssignment a) := by
  -- a change that asks for a status without recorded work
  have hnever {k : AssignmentId} {b : ShiftAssignment} (h : a.id = k → a.status ∉ recorded) :
      Forward a (if a.id = k then b else a) := by
    by_cases hk : a.id = k
    · exact absurd hrecorded (h hk)
    · rw [if_neg hk]
      exact .refl hrecorded
  cases c with
  | createShift row => exact .refl hrecorded
  | publishShift id now => exact .refl hrecorded
  | audit entry => exact .refl hrecorded
  | cancelShift id reason now =>
      simp only [StaffingCommand.nextAssignment, ShiftAssignment.shiftCancelled]
      split
      · next h =>
        have hopen := h.2
        simp only [recorded, List.mem_cons, List.not_mem_nil, or_false] at hrecorded hopen
        grind
      · exact .refl hrecorded
  | invite id actorUserId =>
      refine hnever fun hk h => hknown.2.now a (hk ▸ Table.find_key ha) ?_
      exact List.mem_cons_of_mem _ h
  | respond shift workerId response now =>
      exact hnever fun hk => hok a (hk ▸ Table.find_key ha)
  | clockIn id now =>
      refine hnever fun hk => ?_
      rw [of_find_assignment (P := (·.status = .accepted)) hknown.now ha hk]
      simp [recorded]
  | cancelAssignment id reason now reopens =>
      refine hnever fun hk => ?_
      have hopen := of_find_assignment (P := (·.status ∈ [.invited, .accepted])) hknown.1.now ha hk
      simp only [recorded, List.mem_cons, List.not_mem_nil, or_false] at hopen ⊢
      grind
  | markNoShow id reopens =>
      refine hnever fun hk => ?_
      have hopen := of_find_assignment (P := (·.status ∈ [.invited, .accepted])) hknown.1.now ha hk
      simp only [recorded, List.mem_cons, List.not_mem_nil, or_false] at hopen ⊢
      grind
  | clockOut id now =>
      simp only [StaffingCommand.nextAssignment]
      split
      · next hk =>
        have hin := of_find_assignment (P := (·.status = .clockedIn)) hknown.now ha hk
        refine ⟨rfl, by simp [hin, onward, ShiftAssignment.clockedOut], rfl, fun h => ?_⟩
        exact absurd (hs.checkOutAt a ha (by simp [hin])) h
      · exact .refl hrecorded
  | approveAssignment id evidence actorUserId now =>
      simp only [StaffingCommand.nextAssignment]
      split
      · next hk =>
        obtain ⟨b, hb, hout, -⟩ := hknown.1.now
        have hout := of_find_assignment (P := (·.status = .clockedOut)) ⟨b, hb, hout⟩ ha hk
        exact ⟨rfl, by simp [hout, onward, ShiftAssignment.approved], rfl, fun _ => rfl⟩
      · exact .refl hrecorded

theorem Keeps.run (hs : Attested s) (hknown : Known attestedAlone c s)
    (hok : AnswersUnrecorded c s) : Keeps s (c.run s) where
  assignments a ha h := ⟨_, c.nextAssignment_mem ha, forward_run hs hknown hok ha h⟩
  evidence e he := by
    rw [c.evidence_run]
    cases c with
    | approveAssignment id evidence actorUserId now =>
        refine s.evidence.mem_set.mpr (.inr ⟨he, fun heq => ?_⟩)
        -- the assignment of old evidence is approved already
        obtain ⟨a, ha, hid, happroved⟩ := hs.evidence e he
        obtain ⟨b, hb, hout, -⟩ := hknown.1.now
        have hk : a.id = id := by rw [hid, heq, hknown.2]
        have hout := of_find_assignment (P := (·.status = .clockedOut)) ⟨b, hb, hout⟩ ha hk
        rw [happroved] at hout
        cases hout
    | _ => exact he

/-- Only a clock-out sets the time of it. -/
theorem checkOutAt_next (c : StaffingCommand) (a : ShiftAssignment) :
    (c.nextAssignment a).checkOutAt = a.checkOutAt ∨
      (c.nextAssignment a).status = .clockedOut := by
  cases c with
  | clockOut id now =>
      simp only [StaffingCommand.nextAssignment]
      split
      · exact .inr rfl
      · exact .inl rfl
  | cancelShift id reason now =>
      refine .inl ?_
      simp only [StaffingCommand.nextAssignment, ShiftAssignment.shiftCancelled]
      split <;> rfl
  | createShift row => exact .inl rfl
  | publishShift id now => exact .inl rfl
  | audit entry => exact .inl rfl
  | _ =>
      refine .inl ?_
      simp only [StaffingCommand.nextAssignment]
      split <;> rfl

theorem Attested.run (hs : Attested s) (hknown : Known attestedAlone c s)
    (hok : AnswersUnrecorded c s) : Attested (c.run s) := by
  constructor
  · intro e he
    rw [c.evidence_run] at he
    have hold (he : e ∈ s.evidence.rows) : ∃ b ∈ (c.run s).assignments.rows,
        b.id = e.id.externalShiftId ∧ b.status = .approved := by
      obtain ⟨a, ha, hid, happroved⟩ := hs.evidence e he
      have hforward := forward_run hs hknown hok ha (by simp [happroved, recorded])
      refine ⟨_, c.nextAssignment_mem ha, hforward.id.trans hid, ?_⟩
      simpa [happroved, onward] using hforward.status
    cases c with
    | approveAssignment id evidence actorUserId now =>
        cases s.evidence.mem_set.mp he with
        | inl heq =>
            obtain ⟨b, hb, -⟩ := hknown.1.now
            have hk : b.id = id := Table.key_of_find hb
            refine ⟨_, StaffingCommand.nextAssignment_mem _ (Table.mem_of_find hb), ?_, ?_⟩
            · rw [StaffingCommand.nextAssignment_id, hk, heq, hknown.2]
            · simp [StaffingCommand.nextAssignment, hk, ShiftAssignment.approved]
        | inr h => exact hold h.1
    | _ => exact hold he
  · intro b hb hstatus
    obtain ⟨a, ha, rfl⟩ | hnew := StaffingCommand.mem_assignments_run hb
    · by_cases hout : a.status ∈ [.clockedOut, .approved]
      · have hrecorded : a.status ∈ recorded := List.mem_cons_of_mem _ hout
        have hforward := (forward_run hs hknown hok ha hrecorded).status
        simp only [List.mem_cons, List.not_mem_nil, or_false] at hout hstatus
        cases hout with
        | inl h => simp_all [onward]
        | inr h => simp_all [onward]
      · cases checkOutAt_next c a with
        | inl h => rw [h, hs.checkOutAt a ha hout]
        | inr h => exact absurd (by simp [h]) hstatus
    · cases c with
      | invite id actorUserId => rw [StaffingStore.eq_of_added hnew]; rfl
      | respond shift workerId response now => rw [StaffingStore.eq_of_added hnew]; rfl
      | _ => cases hnew

theorem attested_of_unstaffed (h : s.Unstaffed) : Attested s := by
  constructor
  · intro e he
    rw [h.evidence] at he
    cases he
  · intro a ha
    rw [h.assignments] at ha
    cases ha

/-! ## In a run -/

section Run

variable (businessDateInTimezone : Date → String → String)
  {before after : List (Op (UserId × StaffingRequest) StaffingMove)}

theorem keeps_evalAll (hs : Attested s)
    (had : (staffing businessDateInTimezone).AdmittedAll AnswersUnrecorded (fun _ _ => True)
      after s) :
    Attested ((staffing businessDateInTimezone).evalAll after s) ∧
      Keeps s ((staffing businessDateInTimezone).evalAll after s) := by
  let S := staffing businessDateInTimezone
  let inv (t : StaffingStore) : Prop := Attested t ∧ Keeps s t
  let D := Discipline.alone S.apply inv AnswersUnrecorded
  have hD : D.Lawful := Discipline.alone_lawful _ _ _
  refine @System.evalAll_inv _ _ _ _ _ S AnswersUnrecorded (fun _ _ => True) inv (Known D)
    (fun _ => True) (fun c t ht hok hknown => ?_) (fun e t ht _ => ?_)
    (fun i _ t _ => sat_prog hD businessDateInTimezone i.1 i.2) after (fun _ _ => trivial) s
    ⟨hs, .refl s⟩ had
  · obtain h | ⟨-, h⟩ := c.apply_cases t
    · change inv (c.apply t)
      rw [h]
      exact ht
    · change inv (c.apply t)
      rw [h]
      exact ⟨ht.1.run hknown hok, ht.2.trans (.run ht.1 hknown hok)⟩
  · cases e <;> exact ⟨⟨ht.1.evidence, ht.1.checkOutAt⟩, ⟨ht.2.assignments, ht.2.evidence⟩⟩

/-- **Recorded work is never undone** in a sequence of calls whose responses come
for assignments without recorded work. -/
theorem recorded_work_stays (hs : s.Unstaffed)
    (had : (staffing businessDateInTimezone).AdmittedAll AnswersUnrecorded (fun _ _ => True)
      (before ++ after) s) :
    Keeps ((staffing businessDateInTimezone).evalAll before s)
      ((staffing businessDateInTimezone).evalAll (before ++ after) s) := by
  rw [System.admittedAll_append] at had
  rw [System.evalAll_append]
  have hattested := (keeps_evalAll businessDateInTimezone (attested_of_unstaffed hs) had.1).1
  exact (keeps_evalAll businessDateInTimezone hattested had.2).2

end Run

section Concrete

open Staffing.Scenario

/-- A worker clocks in and out, and the manager approves. -/
def Scenario.worked (userId : UserId) (id : AssignmentId) :
    List (Op (UserId × StaffingRequest) StaffingMove) :=
  [.call (userId, .respond id.openShiftId .accept), .call (userId, .clockIn id),
    .env (.wait 3600000), .call (userId, .clockOut id), .call ("manager", .approveAssignment id)]

theorem recorded_work_stays_of_evening :
    Keeps (atBar.evalAll (published ++ (worked "u1" ⟨1, "w1"⟩).take 2) bar)
      (atBar.evalAll (published ++ (worked "u1" ⟨1, "w1"⟩).take 2 ++
        (worked "u1" ⟨1, "w1"⟩).drop 2) bar) :=
  recorded_work_stays (fun _ _ => "2026-01-01") unstaffed_bar (by decide +kernel)

/-- An approved worker declines and works once more: the evidence is rewritten. -/
theorem recorded_work_undone : bar.Unstaffed ∧
    ¬ Keeps (atBar.evalAll (published ++ worked "u1" ⟨1, "w1"⟩) bar)
      (atBar.evalAll (published ++ worked "u1" ⟨1, "w1"⟩ ++
        [.call ("u1", .respond 1 .decline)]) bar) ∧
    (atBar.evalAll (published ++ worked "u1" ⟨1, "w1"⟩) bar).evidence.rows.map
      StaffingEvidence.clockIn = [0] ∧
    (atBar.evalAll (published ++ worked "u1" ⟨1, "w1"⟩ ++
      (.call ("u1", .respond 1 .decline) :: worked "u1" ⟨1, "w1"⟩)) bar).evidence.rows.map
        StaffingEvidence.clockIn = [3600000] := by
  refine ⟨unstaffed_bar, fun h => ?_, by decide +kernel, by decide +kernel⟩
  have hkept : ∀ a ∈ (atBar.evalAll (published ++ worked "u1" ⟨1, "w1"⟩) bar).assignments.rows,
      a.status ∈ recorded →
      ∃ b ∈ (atBar.evalAll (published ++ worked "u1" ⟨1, "w1"⟩ ++
        [.call ("u1", .respond 1 .decline)]) bar).assignments.rows, b.status ∈ onward a.status :=
    fun a ha hrecorded => by
      obtain ⟨b, hb, hforward⟩ := h.assignments a ha hrecorded
      exact ⟨b, hb, hforward.status⟩
  revert hkept
  decide +kernel

end Concrete

end ServeProof.Staffing
