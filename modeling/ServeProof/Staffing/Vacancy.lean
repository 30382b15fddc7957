import ServeProof.Staffing.Closing
import ServeProof.Staffing.Headcount

/-!
# ServeProof.Staffing.Vacancy

OPEN and FILLED, and the places that are taken.

A response counts the places again.  A cancellation and a no-show do not: they
open a filled shift, whether the assignment had a place of it or was an
invitation only (`FreesPlace`).
-/

namespace ServeProof.Staffing

open Interleave
open Prog (sat_get_bind sat_put sat_require_bind only_get_bind only_put only_putGet_bind
  only_require_bind only_orThrow_bind)

/-- An open shift has a place left, and a filled one has none. -/
def Reflects (s : StaffingStore) : Prop :=
  ∀ x ∈ s.openShifts.rows,
    (x.status = .opened → s.activeCount x.id < x.headcount) ∧
      (x.status = .filled → s.activeCount x.id = x.headcount)

instance (s : StaffingStore) : Decidable (Reflects s) :=
  inferInstanceAs (Decidable (∀ x ∈ _, _))

/-- The requests before the work starts; a plan has the headcount that its route
lets through. -/
def Booking : StaffingRequest → Prop
  | .createShift _ input => ∀ n ∈ input.headcount, 1 ≤ n
  | .clockIn _ | .clockOut _ | .approveAssignment _ => False
  | .publishShift _ | .cancelShift _ _ | .invite _ _ | .respond _ _ | .cancelAssignment _ _
  | .markNoShow _ => True

/-- A cancellation or a no-show comes before the shift starts. -/
def StartsLater : StaffingCommand → StaffingStore → Prop
  | .cancelAssignment id _ _ _, s | .markNoShow id _, s =>
      ∀ x ∈ s.openShifts.find id.openShiftId, s.clock < x.startsAt
  | _, _ => True

/-- A cancellation or a no-show is not of an invitation to a filled shift. -/
def FreesPlace : StaffingCommand → StaffingStore → Prop
  | .cancelAssignment id _ _ _, s | .markNoShow id _, s =>
      ∀ x ∈ s.openShifts.find id.openShiftId, x.status = .filled →
        ∀ a ∈ s.assignments.find id, a.status ≠ .invited
  | _, _ => True

instance : ∀ c s, Decidable (StartsLater c s)
  | .cancelAssignment _ _ _ _, _ | .markNoShow _ _, _ => inferInstanceAs (Decidable (∀ _ ∈ _, _))
  | .createShift _, _ | .publishShift _ _, _ | .cancelShift _ _ _, _ | .invite _ _, _
  | .respond _ _ _ _, _ | .clockIn _ _, _ | .clockOut _ _, _ | .approveAssignment _ _ _ _, _
  | .audit _, _ => isTrue trivial

instance : ∀ c s, Decidable (FreesPlace c s)
  | .cancelAssignment _ _ _ _, _ | .markNoShow _ _, _ => inferInstanceAs (Decidable (∀ _ ∈ _, _))
  | .createShift _, _ | .publishShift _ _, _ | .cancelShift _ _ _, _ | .invite _ _, _
  | .respond _ _ _ _, _ | .clockIn _ _, _ | .clockOut _ _, _ | .approveAssignment _ _ _ _, _
  | .audit _, _ => isTrue trivial

/-- The status of a shift goes with the `n` places that are taken. -/
structure Rolled (n : Nat) (x : OpenShift) : Prop where
  positive : 0 < x.headcount
  within : n ≤ x.headcount
  draft : x.status = .draft → n = 0
  opened : x.status = .opened → n < x.headcount
  filled : x.status = .filled → n = x.headcount

def Counted (s : StaffingStore) : Prop :=
  ∀ x ∈ s.openShifts.rows, Rolled (s.activeCount x.id) x

/-- Calls one after the other. -/
abbrev countedAlone : Discipline StaffingStore StaffingCommand :=
  .alone StaffingCommand.apply Counted fun c s => StartsLater c s ∧ FreesPlace c s

variable {c : StaffingCommand} {s : StaffingStore} {id : OpenShiftId}

theorem Counted.reflects (hs : Counted s) : Reflects s :=
  fun x hx => ⟨(hs x hx).opened, (hs x hx).filled⟩

theorem Counted.withinHeadcount (hs : Counted s) : WithinHeadcount s :=
  fun x hx => (hs x hx).within

/-! ## What a call has decided -/

/-- What a request of a booking has read, and decided, beside `Known`. -/
def Decided (D : Discipline StaffingStore StaffingCommand) :
    StaffingCommand → StaffingStore → Prop
  | .createShift row, _ => 0 < row.headcount
  | .cancelAssignment id _ _ reopens, s | .markNoShow id reopens, s =>
      ∃ x now, Seen D (fun t => t.openShifts.find id.openShiftId = some x) s ∧
        Seen D (fun t => t.clock = now) s ∧ reopens = Reopens x now
  | .clockIn _ _, _ | .clockOut _ _, _ | .approveAssignment _ _ _ _, _ => False
  | .publishShift _ _, _ | .cancelShift _ _ _, _ | .invite _ _, _ | .respond _ _ _ _, _
  | .audit _, _ => True

section Decided

variable {D : Discipline StaffingStore StaffingCommand} {s₀ : StaffingStore}

theorem decided_audit {venueId : VenueId} {actorUserId : UserId} {action : String}
    {entity : StaffingEntity} {detail : StaffingDetail} :
    (audit venueId actorUserId action entity detail).Sat D (Decided D) s₀ fun _ _ => True :=
  sat_put.mpr fun _ _ _ _ => ⟨trivial, fun _ _ _ => trivial⟩

variable (hD : D.Lawful)

include hD

theorem decided_cancelAssignment (id : AssignmentId) (userId : UserId) (reason : Option String) :
    (cancelAssignment id userId reason).Sat D (Decided D) s₀ fun _ _ => True := by
  refine sat_workerAssignment_bind fun _ _ a _ s₁ _ _ x hx worker => ?_
  simp only [sat_require_bind, sat_get_bind]
  intro _ s₂ h₂ _ s₃ h₃ _
  refine sat_transact_bind (fun s h => ⟨x, s₃.clock, ?_, ?_, rfl⟩) fun _ => decided_audit
  · exact ⟨s₁, hD.trans h₂ (hD.trans h₃ h), hx⟩
  · exact ⟨s₃, h, rfl⟩

theorem decided_markNoShow (id : AssignmentId) (actorUserId : UserId) :
    (markNoShow id actorUserId).Sat D (Decided D) s₀ fun _ _ => True := by
  simp only [markNoShow, sat_getAssignment_bind, sat_require_bind, sat_get_bind]
  intro _ _ _ a _ s₁ _ _ x hx _ s₂ h₂ _
  refine sat_transact_bind (fun s h => ⟨x, s₂.clock, ?_, ?_, rfl⟩) fun _ => decided_audit
  · exact ⟨s₁, hD.trans h₂ h, hx⟩
  · exact ⟨s₂, h, rfl⟩

variable (businessDateInTimezone : Date → String → String)

theorem decided_prog (userId : UserId) {request : StaffingRequest} (h : Booking request) :
    (request.prog businessDateInTimezone userId).Sat D (Decided D) s₀ fun _ _ => True := by
  cases request with
  | clockIn id => cases h
  | clockOut id => cases h
  | approveAssignment id => cases h
  | cancelAssignment id reason => exact decided_cancelAssignment hD id userId reason
  | markNoShow id =>
      refine sat_getAssignment_bind.mpr fun _ _ _ a _ _ _ _ x _ => ?_
      exact sat_assertVenueRole_bind fun _ => decided_markNoShow hD id userId
  | createShift venueId input =>
      have hheadcount : 0 < input.headcount.getD 1 := by
        cases hinput : input.headcount with
        | none => exact Nat.one_pos
        | some n => exact h n hinput
      refine Prog.Sat.of_only ?_ fun _ _ => trivial
      simp [StaffingRequest.prog, createShift, audit, Decided, hheadcount,
        only_assertVenueRole_bind, only_require_bind, only_putGet_bind, only_put]
  | invite shiftId workerId =>
      refine Prog.Sat.of_only ?_ fun _ _ => trivial
      simp only [StaffingRequest.prog, invite, getShift, Prog.bind_assoc, only_get_bind,
        only_orThrow_bind, only_assertVenueRole_bind, only_require_bind]
      intros
      split
      · trivial
      · simp [audit, Decided, only_transact_bind, only_put]
  | _ =>
      refine Prog.Sat.of_only ?_ fun _ _ => trivial
      simp [StaffingRequest.prog, publishShift, cancelShift, respond, getShift, getWorker, audit,
        Decided, Prog.bind_assoc, only_transact_bind, only_assertVenueRole_bind, only_get_bind,
        only_require_bind, only_orThrow_bind, only_put]

end Decided

/-! ## Counting the places -/

/-- A count that loses a row. -/
theorem countP_lt_of_lost {α : Type} {p q : α → Bool} {l : List α} (h : ∀ x ∈ l, p x → q x)
    {a : α} (ha : a ∈ l) (hq : q a) (hp : ¬ p a) : l.countP p < l.countP q := by
  obtain ⟨l₁, l₂, rfl⟩ := List.append_of_mem ha
  have h₁ : l₁.countP p ≤ l₁.countP q :=
    List.countP_mono_left fun x hx => h x (List.mem_append_left _ hx)
  have h₂ : l₂.countP p ≤ l₂.countP q :=
    List.countP_mono_left fun x hx => h x (List.mem_append_right _ (List.mem_cons_of_mem a hx))
  rw [List.countP_append, List.countP_append, List.countP_cons_of_neg hp,
    List.countP_cons_of_pos hq]
  omega

/-- The places that were taken, when no assignment is added to them. -/
theorem activeCount_run_of_no_new (hnew : ∀ a ∈ c.newAssignment s, ¬ TakesPlace id a) :
    (c.run s).activeCount id =
      s.assignments.rows.countP fun a => TakesPlace id (c.nextAssignment a) := by
  change (c.run s).assignments.rows.countP (TakesPlace id) = _
  have hnone : (c.newAssignment s).toList.countP (TakesPlace id) = 0 :=
    List.countP_eq_zero.mpr fun a ha => hnew a (Option.mem_toList.mp ha)
  rw [c.assignments_run, List.countP_append, List.countP_map, hnone, Nat.add_zero]
  rfl

/-- A transaction that takes and gives back no place of the shift. -/
theorem activeCount_run_eq (hnew : ∀ a ∈ c.newAssignment s, ¬ TakesPlace id a)
    (hnext : ∀ a ∈ s.assignments.rows, a.id.openShiftId = id →
      ((c.nextAssignment a).Active ↔ a.Active)) :
    (c.run s).activeCount id = s.activeCount id := by
  rw [activeCount_run_of_no_new hnew]
  change _ = s.assignments.rows.countP (TakesPlace id)
  refine List.countP_congr fun a ha => ?_
  simp only [TakesPlace, c.nextAssignment_id, decide_eq_true_eq]
  exact and_congr_right fun hid => hnext a ha hid

/-- A transaction that gives back a place of the shift, and takes none. -/
theorem activeCount_run_lt (hnew : ∀ a ∈ c.newAssignment s, ¬ TakesPlace id a)
    (hnext : ∀ a ∈ s.assignments.rows, (c.nextAssignment a).Active → a.Active)
    {a : ShiftAssignment} (ha : a ∈ s.assignments.rows) (hid : a.id.openShiftId = id)
    (hactive : a.Active) (hfreed : ¬ (c.nextAssignment a).Active) :
    (c.run s).activeCount id < s.activeCount id := by
  rw [activeCount_run_of_no_new hnew]
  refine countP_lt_of_lost (fun b hb htakes => ?_) ha (decide_eq_true ⟨hid, hactive⟩) ?_
  · obtain ⟨hid, hactive⟩ := of_decide_eq_true htakes
    rw [c.nextAssignment_id] at hid
    exact decide_eq_true ⟨hid, hnext b hb hactive⟩
  · exact fun htakes => hfreed (of_decide_eq_true htakes).2

/-- A change of the assignment `k` leaves the places of the other shifts. -/
theorem activeCount_elsewhere {k : AssignmentId} (hnew : ∀ a ∈ c.newAssignment s, a.id = k)
    (hothers : ∀ a, a.id ≠ k → c.nextAssignment a = a) (hne : id ≠ k.openShiftId) :
    (c.run s).activeCount id = s.activeCount id := by
  refine activeCount_run_eq (fun a ha htakes => hne ?_) fun a _ hid => ?_
  · rw [← (of_decide_eq_true htakes).1, hnew a ha]
  · rw [hothers a fun hk => hne (by rw [← hid, hk])]

/-! ## One transaction -/

/-- A shift that is neither open nor filled nor a draft. -/
theorem Rolled.of_status {n m : Nat} {x y : OpenShift} (h : Rolled n x) (hm : m ≤ n)
    (hheadcount : y.headcount = x.headcount) (hstatus : y.status ∉ [.draft, .opened, .filled]) :
    Rolled m y where
  positive := hheadcount ▸ h.positive
  within := hheadcount ▸ le_trans hm h.within
  draft hdraft := absurd (by simp [hdraft]) hstatus
  opened hopened := absurd (by simp [hopened]) hstatus
  filled hfilled := absurd (by simp [hfilled]) hstatus

/-- A shift that is open, with a place left. -/
theorem Rolled.of_opened {n m : Nat} {x y : OpenShift} (h : Rolled n x)
    (hheadcount : y.headcount = x.headcount) (hopened : y.status = .opened)
    (hm : m < x.headcount) : Rolled m y where
  positive := hheadcount ▸ h.positive
  within := hheadcount ▸ Nat.le_of_lt hm
  draft hdraft := by
    rw [hopened] at hdraft
    cases hdraft
  opened _ := hheadcount ▸ hm
  filled hfilled := by
    rw [hopened] at hfilled
    cases hfilled

/-- Fewer places are taken of a shift that is not filled. -/
theorem Rolled.of_le {n m : Nat} {x : OpenShift} (h : Rolled n x) (hm : m ≤ n)
    (hnot : x.status ≠ .filled) : Rolled m x where
  positive := h.positive
  within := le_trans hm h.within
  draft hdraft := Nat.le_zero.mp (h.draft hdraft ▸ hm)
  opened hopened := Nat.lt_of_le_of_lt hm (h.opened hopened)
  filled hfilled := absurd hfilled hnot

/-- A response counts the places again. -/
theorem rolled_refresh {n m : Nat} {x : OpenShift} (h : Rolled n x) (hm : m ≤ x.headcount) :
    Rolled m { x with status := if m ≥ x.headcount then .filled else .opened } := by
  by_cases hfull : m ≥ x.headcount
  · rw [if_pos hfull]
    exact ⟨h.positive, hm, nofun, nofun, fun _ => le_antisymm hm hfull⟩
  · rw [if_neg hfull]
    exact h.of_opened rfl rfl (Nat.lt_of_not_le hfull)

/-- What a cancellation and a no-show do: the assignment `k` is withdrawn, and its
shift is opened when it is filled. -/
structure Withdraws (c : StaffingCommand) (s : StaffingStore) (k : AssignmentId) : Prop where
  new : c.newAssignment s = none
  withdrawn : ∀ a, a.id = k → ¬ (c.nextAssignment a).Active
  others : ∀ a, a.id ≠ k → c.nextAssignment a = a
  opens : ∀ x ∈ s.openShifts.rows, x.id = k.openShiftId → x.status = .filled →
    c.nextShift (c.run s) x = { x with status := .opened }
  stays : ∀ x ∈ s.openShifts.rows, (x.id = k.openShiftId → x.status ≠ .filled) →
    c.nextShift (c.run s) x = x

theorem withdraws_of_update {k : AssignmentId} {reopens : Bool}
    {f : ShiftAssignment → ShiftAssignment} (hf : ∀ a, ¬ (f a).Active)
    (hnone : c.newAssignment s = none)
    (hchange : ∀ a, c.nextAssignment a = if a.id = k then f a else a)
    (hshift : ∀ x, c.nextShift (c.run s) x =
      if reopens = true ∧ x.id = k.openShiftId then { x with status := .opened } else x)
    (hdecided : ∃ x now, Seen countedAlone (fun t => t.openShifts.find k.openShiftId = some x) s ∧
      Seen countedAlone (fun t => t.clock = now) s ∧ reopens = Reopens x now)
    (hstarts : ∀ x ∈ s.openShifts.find k.openShiftId, s.clock < x.startsAt) :
    Withdraws c s k := by
  -- a call alone has decided in the store of its transaction
  have hreopens {x : OpenShift} (hx : x ∈ s.openShifts.rows) (hid : x.id = k.openShiftId) :
      reopens = decide (x.status = .filled) := by
    have hfind : s.openShifts.find k.openShiftId = some x := hid ▸ Table.find_key hx
    obtain ⟨y, now, hread, hclock, hreopens⟩ := hdecided
    cases hread.now.symm.trans hfind
    simp [hreopens, Reopens, ← hclock.now, hstarts x hfind]
  constructor
  · exact hnone
  · intro a hk
    rw [hchange, if_pos hk]
    exact hf a
  · intro a hk
    rw [hchange, if_neg hk]
  · intro x hx hid hfilled
    rw [hshift, if_pos ⟨(hreopens hx hid).trans (decide_eq_true hfilled), hid⟩]
  · intro x hx hnot
    rw [hshift, if_neg fun h => hnot h.2 (of_decide_eq_true ((hreopens hx h.2).symm.trans h.1))]

theorem withdraws_cancelAssignment {k : AssignmentId} {reason : String} {now : Date}
    {reopens : Bool} (hdecided : Decided countedAlone (.cancelAssignment k reason now reopens) s)
    (hstarts : StartsLater (.cancelAssignment k reason now reopens) s) :
    Withdraws (.cancelAssignment k reason now reopens) s k := by
  refine withdraws_of_update (f := (·.cancelled reason now)) (fun a => ?_) rfl (fun _ => rfl)
    (fun _ => rfl) hdecided hstarts
  simp [ShiftAssignment.Active, activeAssignments, ShiftAssignment.cancelled]

theorem withdraws_markNoShow {k : AssignmentId} {reopens : Bool}
    (hdecided : Decided countedAlone (.markNoShow k reopens) s)
    (hstarts : StartsLater (.markNoShow k reopens) s) :
    Withdraws (.markNoShow k reopens) s k := by
  refine withdraws_of_update (f := (·.noShow)) (fun a => ?_) rfl (fun _ => rfl)
    (fun _ => rfl) hdecided hstarts
  simp [ShiftAssignment.Active, activeAssignments, ShiftAssignment.noShow]

section Withdraws

variable {k : AssignmentId} (h : Withdraws c s k)

include h

theorem Withdraws.no_new {P : ShiftAssignment → Prop} : ∀ a ∈ c.newAssignment s, P a := by
  intro a ha
  rw [h.new] at ha
  cases ha

theorem Withdraws.active {a : ShiftAssignment} (hactive : (c.nextAssignment a).Active) :
    a.Active := by
  by_cases hk : a.id = k
  · exact absurd hactive (h.withdrawn a hk)
  · rwa [h.others a hk] at hactive

/-- Who has a place of a filled shift gives it back. -/
theorem Withdraws.rolled (hs : Counted s)
    (hread : ∃ a ∈ s.assignments.find k, a.status ∈ [.invited, .accepted])
    (hfrees : ∀ x ∈ s.openShifts.find k.openShiftId, x.status = .filled →
      ∀ a ∈ s.assignments.find k, a.status ≠ .invited)
    {x : OpenShift} (hx : x ∈ s.openShifts.rows) :
    Rolled ((c.run s).activeCount x.id) (c.nextShift (c.run s) x) := by
  by_cases hid : x.id = k.openShiftId
  · by_cases hfilled : x.status = .filled
    · rw [h.opens x hx hid hfilled]
      obtain ⟨a, ha, hstatus⟩ := hread
      have hkey : a.id = k := Table.key_of_find ha
      have hfind : s.openShifts.find k.openShiftId = some x := hid ▸ Table.find_key hx
      have haccepted : a.status = .accepted := by
        simpa [hfrees x hfind hfilled a ha] using hstatus
      refine (hs x hx).of_opened rfl rfl ?_
      rw [← (hs x hx).filled hfilled]
      refine activeCount_run_lt h.no_new (fun _ _ => h.active) (Table.mem_of_find ha)
        (by rw [hkey, hid]) ?_ (h.withdrawn a hkey)
      simp [ShiftAssignment.Active, activeAssignments, haccepted]
    · rw [h.stays x hx fun _ => hfilled]
      exact (hs x hx).of_le (activeCount_run_le (fun _ _ => h.active) h.no_new) hfilled
  · rw [h.stays x hx fun hk => absurd hk hid, activeCount_elsewhere h.no_new h.others hid]
    exact hs x hx

/-- An invitation to a filled shift has no place that it could give back. -/
theorem Withdraws.not_reflects (hs : Counted s)
    (hinvited : ¬ ∀ x ∈ s.openShifts.find k.openShiftId, x.status = .filled →
      ∀ a ∈ s.assignments.find k, a.status ≠ .invited) : ¬ Reflects (c.run s) := by
  push Not at hinvited
  obtain ⟨x, hx, hfilled, a, ha, hinvited⟩ := hinvited
  have hrow : x ∈ s.openShifts.rows := Table.mem_of_find hx
  have hkey : a.id = k := Table.key_of_find ha
  have hsame : (c.run s).activeCount x.id = s.activeCount x.id := by
    refine activeCount_run_eq h.no_new fun b hb _ => ?_
    by_cases hk : b.id = k
    · rw [s.assignments.eq_of_key_eq hb (Table.mem_of_find ha) (hk.trans hkey.symm)]
      refine iff_of_false (h.withdrawn a hkey) ?_
      simp [ShiftAssignment.Active, activeAssignments, hinvited]
    · rw [h.others b hk]
  intro hreflects
  have hopened := (hreflects _ (c.nextShift_mem hrow)).1
  rw [h.opens x hrow (Table.key_of_find hx) hfilled] at hopened
  have hlt : (c.run s).activeCount x.id < x.headcount := hopened rfl
  rw [hsame, (hs x hrow).filled hfilled] at hlt
  exact Nat.lt_irrefl _ hlt

end Withdraws

theorem rolled_publish (hs : Counted s) {now : Date}
    (hread : ∃ x ∈ s.openShifts.find id, x.status = .draft) {x : OpenShift}
    (hx : x ∈ s.openShifts.rows) :
    Rolled (s.activeCount x.id)
      (if x.id = id then { x with status := .opened, publishedAt := some now } else x) := by
  split
  · next hid =>
    have hdraft := (hs x hx).draft (of_find_shift (P := (·.status = .draft)) hread hx hid)
    exact (hs x hx).of_opened rfl rfl (hdraft ▸ (hs x hx).positive)
  · exact hs x hx

theorem rolled_cancelShift (hs : Counted s) {reason : String} {now : Date} {x : OpenShift}
    (hx : x ∈ s.openShifts.rows) :
    Rolled (((StaffingCommand.cancelShift id reason now).run s).activeCount x.id)
      (if x.id = id then { x with status := .cancelled, cancelledAt := some now } else x) := by
  have hnone {P : ShiftAssignment → Prop} :
      ∀ a ∈ (StaffingCommand.cancelShift id reason now).newAssignment s, P a := by
    intro a ha
    cases ha
  split
  · refine (hs x hx).of_status (activeCount_run_le (fun a _ h => ?_) hnone) rfl (by simp)
    simp only [StaffingCommand.nextAssignment, ShiftAssignment.shiftCancelled] at h
    split at h
    · simp [ShiftAssignment.Active, activeAssignments] at h
    · exact h
  · next hid =>
    rw [activeCount_run_eq hnone fun a _ hshift => ?_]
    · exact hs x hx
    · have hnot : ¬ (a.id.openShiftId = id ∧ a.status ∈ [.invited, .accepted]) :=
        fun h => hid (hshift.symm.trans h.1)
      simp only [StaffingCommand.nextAssignment, ShiftAssignment.shiftCancelled, if_neg hnot]

/-- An invitation is of a worker without a place, and takes none. -/
theorem activeCount_invite {k : AssignmentId} {actorUserId : UserId}
    (hread : ∀ a ∈ s.assignments.find k, ¬ a.Active) :
    ((StaffingCommand.invite k actorUserId).run s).activeCount id = s.activeCount id := by
  refine activeCount_run_eq (fun a ha htakes => ?_) fun a ha _ => ?_
  · rw [StaffingStore.eq_of_added ha] at htakes
    simp [TakesPlace, ShiftAssignment.Active, activeAssignments, ShiftAssignment.created]
      at htakes
  · by_cases hk : a.id = k
    · have hnot := hread a (hk ▸ Table.find_key ha)
      simp only [StaffingCommand.nextAssignment, if_pos hk]
      refine iff_of_false ?_ hnot
      simp [ShiftAssignment.Active, activeAssignments, ShiftAssignment.invited]
    · simp only [StaffingCommand.nextAssignment, if_neg hk]

theorem rolled_respond (hs : Counted s) {shift : OpenShift} {workerId : WorkerId}
    {response : ShiftResponse} {now : Date}
    (hrefused : (StaffingCommand.respond shift workerId response now).refused s = none)
    (hread : s.openShifts.find shift.id = some shift)
    (hopened : response = .accept → shift.status = .opened) {x : OpenShift}
    (hx : x ∈ s.openShifts.rows) :
    Rolled (((StaffingCommand.respond shift workerId response now).run s).activeCount x.id)
      ((StaffingCommand.respond shift workerId response now).nextShift
        ((StaffingCommand.respond shift workerId response now).run s) x) := by
  have hwithin := places_run hs.withinHeadcount hrefused
    ⟨⟨s, crowd_lawful.refl s, hread⟩, hopened⟩ trivial hx
  simp only [StaffingCommand.nextShift]
  by_cases hid : x.id = shift.id
  · cases hread.symm.trans (hid ▸ Table.find_key hx)
    rw [if_pos hid]
    exact rolled_refresh (hs shift hx) hwithin
  · have helsewhere := activeCount_elsewhere (c := .respond shift workerId response now)
      (s := s) (k := ⟨shift.id, workerId⟩) (fun a ha => by rw [StaffingStore.eq_of_added ha])
      (fun a hk => if_neg hk) hid
    rw [if_neg hid, helsewhere]
    exact hs x hx

/-- Every transaction of a booking keeps the shifts with their counts. -/
theorem rolled_run (hs : Counted s) (hrefused : c.refused s = none)
    (hknown : Known countedAlone c s) (hdecided : Decided countedAlone c s)
    (hstarts : StartsLater c s) (hfrees : FreesPlace c s) {x : OpenShift}
    (hx : x ∈ s.openShifts.rows) :
    Rolled ((c.run s).activeCount x.id) (c.nextShift (c.run s) x) := by
  cases c with
  | createShift row => exact hs x hx
  | audit entry => exact hs x hx
  | clockIn id now => cases hdecided
  | clockOut id now => cases hdecided
  | approveAssignment id evidence actorUserId now => cases hdecided
  | publishShift id now => exact rolled_publish hs hknown.now hx
  | cancelShift id reason now => exact rolled_cancelShift hs hx
  | invite id actorUserId =>
      rw [activeCount_invite hknown.2.now]
      exact hs x hx
  | respond shift workerId response now =>
      exact rolled_respond hs hrefused hknown.1.now hknown.2 hx
  | cancelAssignment id reason now reopens =>
      exact (withdraws_cancelAssignment hdecided hstarts).rolled hs hknown.1.now hfrees hx
  | markNoShow id reopens =>
      exact (withdraws_markNoShow hdecided hstarts).rolled hs hknown.1.now hfrees hx

theorem Counted.apply (hs : Counted s) (hknown : Known countedAlone c s)
    (hdecided : Decided countedAlone c s) (hstarts : StartsLater c s) (hfrees : FreesPlace c s) :
    Counted (c.apply s) := by
  obtain h | ⟨hrefused, h⟩ := c.apply_cases s
  · rw [h]
    exact hs
  · rw [h]
    intro y hy
    obtain ⟨x, hx, rfl⟩ | hnew := StaffingCommand.mem_openShifts_run hy
    · rw [c.nextShift_id]
      exact rolled_run hs hrefused hknown hdecided hstarts hfrees hx
    · -- a new shift is a draft, with no assignment yet
      cases c with
      | createShift row =>
          cases hnew
          have hnone : s.openShifts.find s.nextShiftId = none :=
            s.openShifts.find_eq_none_iff.mpr fun x hx => Nat.ne_of_lt (s.fresh x hx)
          have hdraft : row.status = .draft := hknown
          change Rolled (s.activeCount s.nextShiftId) { row with id := s.nextShiftId }
          rw [activeCount_eq_zero hnone]
          exact ⟨hdecided, Nat.zero_le _, fun _ => rfl, fun _ => hdecided,
            fun h => absurd (hdraft.symm.trans h) nofun⟩
      | _ => cases hnew

/-- `FreesPlace` is exactly what a transaction needs. -/
theorem reflects_apply_iff (hs : Counted s) (hknown : Known countedAlone c s)
    (hdecided : Decided countedAlone c s) (hstarts : StartsLater c s) :
    Reflects (c.apply s) ↔ FreesPlace c s := by
  refine ⟨fun h => ?_, fun h => (hs.apply hknown hdecided hstarts h).reflects⟩
  cases c with
  | cancelAssignment id reason now reopens =>
      by_contra hnot
      exact (withdraws_cancelAssignment hdecided hstarts).not_reflects hs hnot h
  | markNoShow id reopens =>
      by_contra hnot
      exact (withdraws_markNoShow hdecided hstarts).not_reflects hs hnot h
  | _ => trivial

/-! ## In a run -/

section Run

variable (businessDateInTimezone : Date → String → String)
  {ops : List (Op (UserId × StaffingRequest) StaffingMove)}

/-- **OPEN and FILLED reflect the count** in a sequence of calls that withdraws no
invitation to a filled shift. -/
theorem status_reflects_count (hs : s.Unstaffed) (hops : ∀ i, .call i ∈ ops → Booking i.2)
    (had : (staffing businessDateInTimezone).AdmittedAll
      (fun c t => StartsLater c t ∧ FreesPlace c t) (fun _ _ => True) ops s) :
    Reflects ((staffing businessDateInTimezone).evalAll ops s) := by
  have hD : countedAlone.Lawful := Discipline.alone_lawful _ _ _
  have hcounted : Counted s := by
    intro x hx
    rw [hs.openShifts] at hx
    cases hx
  refine Counted.reflects (@System.evalAll_inv _ _ _ _ _ (staffing businessDateInTimezone)
    (fun c t => StartsLater c t ∧ FreesPlace c t) (fun _ _ => True) Counted
    (fun c t => Known countedAlone c t ∧ Decided countedAlone c t) (fun i => Booking i.2)
    (fun c t ht hok hknown => ?_) (fun e t ht _ => ?_) (fun i hi t _ => ?_) ops hops s hcounted
    had)
  · exact ht.apply hknown.1 hknown.2 hok.1 hok.2
  · cases e <;> exact ht
  · exact ((sat_prog hD businessDateInTimezone i.1 i.2).and
      (decided_prog hD businessDateInTimezone i.1 hi)).mono fun _ _ _ => trivial

end Run

section Concrete

open Staffing.Scenario

/-- A worker accepts the only place and gives it back. -/
theorem status_reflects_count_withdrawn :
    Reflects (atBar.evalAll (published ++ [.call ("u1", .respond 1 .accept),
      .call ("u1", .cancelAssignment ⟨1, "w1"⟩ none)]) bar) :=
  status_reflects_count (fun _ _ => "2026-01-01") unstaffed_bar
    (by simp [published, evening, Booking]) (by decide +kernel)

/-- The second worker, who has been invited only, cancels after the first one has
taken the place: the shift is open again, with no place left. -/
theorem status_misses_count : bar.Unstaffed ∧
    ¬ Reflects (atBar.evalAll (published ++ [.call ("manager", .invite 1 "w2"),
      .call ("u1", .respond 1 .accept), .call ("u2", .cancelAssignment ⟨1, "w2"⟩ none)]) bar) ∧
    atBar.AdmittedAll StartsLater (fun _ _ => True) (published ++
      [.call ("manager", .invite 1 "w2"), .call ("u1", .respond 1 .accept),
        .call ("u2", .cancelAssignment ⟨1, "w2"⟩ none)]) bar :=
  ⟨unstaffed_bar, by decide +kernel, by decide +kernel⟩

end Concrete

end ServeProof.Staffing
