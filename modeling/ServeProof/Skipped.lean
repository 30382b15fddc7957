import ServeProof.Conservation
import ServeProof.Identities

/-!
# ServeProof.Skipped

Shifts that the engine passes over, on a day on which another shift of the
worker counts.

What the worker is allocated is earned by the shifts that count, but a rebuild
splits it over all shifts of the day by worked minutes, whatever their status
and role.  So a shift that is passed over shows nothing exactly when its part of
the minutes rounds to nothing.
-/

namespace ServeProof

open Interleave

/-! ## Slices of nothing -/

/-- The slice of the weight at an index rounds to nothing. -/
def RoundsToNothing (totalCents : Int) (weights : List Int) (i : Nat) : Prop :=
  ⌊sliceAt totalCents weights i⌋ = 0 ∧
      sliceLeftover totalCents weights ≤ slicesAhead totalCents weights i ∨
    ⌊sliceAt totalCents weights i⌋ = -1 ∧
      slicesAhead totalCents weights i < sliceLeftover totalCents weights

theorem getD_eq_zero_iff {totalCents : Int} {weights : List Int} {i : Nat}
    (hi : i < weights.length) :
    (splitProportionally totalCents weights).getD i 0 = 0 ↔
      RoundsToNothing totalCents weights i := by
  rw [getD_splitProportionally hi, RoundsToNothing]
  split <;> omega

/-- No weight, where another has some. -/
theorem roundsToNothing_of_zero (totalCents : Int) {weights : List Int} (hsum : 0 < weights.sum)
    {i : Nat} (hi : weights.getD i 0 = 0) : RoundsToNothing totalCents weights i := by
  have heff : effectiveWeights weights = weights := if_pos hsum
  have hne : weights ≠ [] := by
    rintro rfl
    exact absurd hsum (by simp)
  have hzero : sliceAt totalCents weights i = 0 := by
    rw [sliceAt, heff, hi]
    simp [exactSlice]
  refine .inl ⟨by rw [hzero, Int.floor_zero], not_lt.mp fun hahead => ?_⟩
  -- a slice of nothing has no fraction
  have hfract := fract_pos_of_slicesAhead_lt hne hahead
  rw [hzero, Int.fract_zero] at hfract
  exact lt_irrefl 0 hfract

/-! ## A day of a worker -/

namespace Evidence

variable (ev : Evidence)

/-- What a worker is allocated on a day. -/
def netOn (businessDate : String) (workerId : WorkerId) : Int :=
  ((ev.allocationOn businessDate workerId).map fun a => a.allocation.netAllocatedUsdCents).getD 0

/-- What a worker is paid for a day. -/
def finalizedOn (businessDate : String) (workerId : WorkerId) : Int :=
  ((ev.finalizedPayoutOn businessDate workerId).map Payout.amountUsdCents).getD 0

/-- The part of a shift in a total of its day rounds to nothing. -/
def PartIsNothing (totalCents : Int) (workerId : WorkerId) (businessDate : String)
    (x : ShiftEvidence) : Prop :=
  RoundsToNothing totalCents (ev.minutesOn workerId businessDate)
    ((ev.shiftsOn workerId businessDate).idxOf x)

variable {ev} {workerId : WorkerId} {businessDate : String} {x : ShiftEvidence}

theorem shareOfDay_eq_zero_iff (hdates : ∀ y ∈ ev.shifts, IsBusinessDate y.businessDate)
    (hx : x ∈ ev.shiftsOn workerId businessDate) (total : String → WorkerId → Int) :
    ev.shareOfDay total x = 0 ↔
      ev.PartIsNothing (total businessDate workerId) workerId businessDate x := by
  rw [shareOfDay_eq hdates hx, getD_eq_zero_iff, PartIsNothing]
  rw [minutesOn, List.length_map]
  exact List.idxOf_lt_length_iff.mpr hx

/-- A shift without minutes has no part in a day with minutes. -/
theorem partIsNothing_of_nonpos (hx : x ∈ ev.shiftsOn workerId businessDate)
    (hminutes : x.workedMinutes ≤ 0) {y : ShiftEvidence}
    (hy : y ∈ ev.shiftsOn workerId businessDate) (hpos : 0 < y.workedMinutes) (totalCents : Int) :
    ev.PartIsNothing totalCents workerId businessDate x := by
  refine roundsToNothing_of_zero totalCents ?_ ?_
  · have hle := List.single_le_sum (l := ev.minutesOn workerId businessDate)
      (fun m hm => by
        obtain ⟨z, -, rfl⟩ := List.mem_map.mp hm
        exact le_max_right _ _) (max y.workedMinutes 0) (List.mem_map_of_mem hy)
    exact lt_of_lt_of_le (lt_max_of_lt_left hpos) hle
  · have hlt := List.idxOf_lt_length_iff.mpr hx
    rw [List.getD_eq_getElem?_getD, minutesOn, List.getElem?_map, List.getElem?_eq_getElem hlt,
      List.getElem_idxOf, Option.map_some, Option.getD_some, max_eq_right hminutes]

end Evidence

/-! ## Shifts that are passed over -/

/-- The engine counts the shift: its status and its role are eligible, it has
minutes and its role a weight. -/
def Counts (policy : AllocationPolicyInput) (x : ShiftEvidence) : Prop :=
  policy.Eligible x.input ∧ 0 < x.workedMinutes ∧ (policy.weightOf x.role).isSome

instance (policy : AllocationPolicyInput) (x : ShiftEvidence) :
    Decidable (Counts policy x) := inferInstanceAs (Decidable (_ ∧ _))

/-- A mapped shift that the engine passes over -- it is open or voided or its role
is excluded -- while another shift of the worker on that day counts.  It is not
left to its corrections. -/
structure PassedOver (s : Platform) (venueId : VenueId) (b : DistributedBatch)
    (workerId : WorkerId) (y : ShiftEvidence) : Prop where
  batch : b ∈ s.batchesOf venueId
  mem : y ∈ (s.evidence venueId).shiftsOn workerId b.batch.id.businessDate
  skipped : ∃ policy ∈ s.world.db.policies.find ⟨venueId, b.batch.id.policyVersion⟩,
    ¬ policy.input.Eligible y.input ∧
      ∃ x ∈ (s.evidence venueId).shiftsOn workerId b.batch.id.businessDate,
        Counts policy.input x
  uncorrected : ¬ s.books.Superseded (workerId, some y.id)

/-- What a rebuild writes for the shifts that were passed over is nothing. -/
def SkippedEarnNothing (s t : Platform) (venueId : VenueId) : Prop :=
  ∀ b workerId y, PassedOver s venueId b workerId y →
    ∃ id data, t.books.baseData (workerId, some y.id) = some (id, data) ∧
      data.allocatedUsdCents = 0 ∧ data.paidUsdCents = 0

/-- Their parts of the day round to nothing. -/
def SkippedPartsVanish (s : Platform) (venueId : VenueId) : Prop :=
  ∀ b workerId y, PassedOver s venueId b workerId y →
    let ev := s.evidence venueId
    let businessDate := b.batch.id.businessDate
    ev.PartIsNothing (ev.netOn businessDate workerId) workerId businessDate y ∧
      ev.PartIsNothing (ev.finalizedOn businessDate workerId) workerId businessDate y

section Rebuilt

variable {s : Platform} {venueId : VenueId} {b : DistributedBatch} {workerId : WorkerId}
  {y : ShiftEvidence}

/-- No shift that a rebuild projects supersedes an entry. -/
theorem Books.not_superseded_projectAll {books : Books} {ev : Evidence}
    {pair : WorkerId × Option ShiftId} (h : ¬ books.Superseded pair) (shifts : List ShiftEvidence) :
    ¬ (books.projectAll ev venueId shifts).Superseded pair := by
  refine Books.projectAll_induction (P := fun b => ¬ b.Superseded pair) ?_ h
  intro b x _ w hb _ _ ⟨e', he', hpair, hstatus⟩
  have hadmits := (b.projectionOn_spec ev venueId x w).1
  obtain ⟨e, he, hc⟩ | ⟨data, -, rfl⟩ | ⟨original, actor, input, -, rfl⟩ :=
    Books.entry_of_apply he'
  · have hsame := hc.became hadmits he
    cases hc with
    | stays _ => exact hb ⟨e', he, hpair, hstatus⟩
    | projected => cases hstatus
    | superseded original actor input hc =>
        unfold Books.projectionOn at hc
        split at hc <;> cases hc
  · cases hstatus
  · cases hstatus

/-- What a rebuild writes for a shift that was passed over. -/
theorem PassedOver.baseData (h : PassedOver s venueId b workerId y) (actorUserId : Option UserId)
    (source : IncomeProjectionSource) :
    ∃ id, ((rebuildVenueIncomeLocked venueId actorUserId source).eval
        Command.apply s).2.books.baseData (workerId, some y.id) =
      some (id, (s.evidence venueId).entryData venueId y workerId) := by
  obtain ⟨hy, hw, -⟩ := Evidence.mem_shiftsOn.mp h.mem
  cases projectedFrom_rebuildVenueIncomeLocked s venueId actorUserId source y hy workerId hw with
  | inr hdata => exact hdata
  | inl hsuper =>
      rw [eval_rebuildVenueIncomeLocked] at hsuper
      exact absurd hsuper (Books.not_superseded_projectAll h.uncorrected _)

theorem PassedOver.nothing_iff (hdates : ∀ x ∈ s.shiftsOf venueId, IsBusinessDate x.businessDate)
    (h : PassedOver s venueId b workerId y) :
    let ev := s.evidence venueId
    let businessDate := b.batch.id.businessDate
    let data := ev.entryData venueId y workerId
    (data.allocatedUsdCents = 0 ↔
        ev.PartIsNothing (ev.netOn businessDate workerId) workerId businessDate y) ∧
      (data.paidUsdCents = 0 ↔
        ev.PartIsNothing (ev.finalizedOn businessDate workerId) workerId businessDate y) := by
  intro ev businessDate data
  have hshare := @Evidence.shareOfDay_eq_zero_iff ev workerId businessDate y hdates h.mem
  exact ⟨hshare ev.netOn, hshare ev.finalizedOn⟩

end Rebuilt

section Concrete

open Scenario

/-- As long as the other shift, in a role that the policy excludes. -/
def Scenario.managerShift : ShiftEvidence :=
  { shift with id := ⟨venue, "square", "manager-shift"⟩, role := "MANAGER" }

/-- The worker serves for an hour and manages for another; the batch of the day is
approved and paid in cash. -/
def Scenario.managedDay : Platform :=
  Platform.fresh ((@service byCodePoint).performAll
    (opening.map .env ++
      [.env (.record (.createVersion venue { policy with excludedRoles := ["MANAGER"] })),
        .env (.record (.saveShift managerShift)), .call (.allocation calculateDay) 20,
        .call (.allocation (.approve ⟨venue, date, 2⟩ owner 0)) 20, .call (register 1) 20])
    World.empty) 0 "key"

end Concrete

end ServeProof
