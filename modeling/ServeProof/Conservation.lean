import ServeProof.Income.Rebuild
import ServeProof.Income.Slices
import ServeProof.Scenario

/-!
# ServeProof.Conservation

A rebuild splits what a worker is allocated on a day, and what is paid of it,
over the shifts of the worker on that day, to the cent; no other shift gets any
of it.
-/

namespace ServeProof

open Interleave

/-! ## Slices of a list -/

theorem map_getD_idxOf {α : Type} [DecidableEq α] {l : List α} (hl : l.Nodup)
    (slices : List Int) (hlen : slices.length = l.length) :
    (l.map fun a => slices.getD (l.idxOf a) 0) = slices := by
  refine List.ext_getElem (by simp [hlen]) fun i h₁ h₂ => ?_
  have hi : i < l.length := by simpa using h₁
  rw [List.getElem_map, hl.idxOf_getElem i hi, List.getD_eq_getElem?_getD,
    List.getElem?_eq_getElem h₂, Option.getD_some]

/-! ## Keys of a day -/

/-- Texts that are joined by a character come apart where it stands last. -/
theorem append_cons_inj {α : Type} {c : α} {a a' d d' : List α} (h : a ++ c :: d = a' ++ c :: d')
    (hd : c ∉ d) (hd' : c ∉ d') : a = a' ∧ d = d' := by
  obtain ⟨m, hm, hrest⟩ | ⟨m, hm, hrest⟩ := List.append_eq_append_iff.mp h
  · cases m with
    | nil => exact ⟨by simpa using hm.symm, by simpa using hrest⟩
    | cons x m =>
        rw [List.cons_append, List.cons.injEq] at hrest
        exact absurd (hrest.2 ▸ List.mem_append_right m List.mem_cons_self) hd
  · cases m with
    | nil => exact ⟨by simpa using hm, by simpa using hrest.symm⟩
    | cons x m =>
        rw [List.cons_append, List.cons.injEq] at hrest
        exact absurd (hrest.2 ▸ List.mem_append_right m List.mem_cons_self) hd'

/-- `YYYY-MM-DD`, as business dates are stored. -/
def IsBusinessDate (text : String) : Prop := ∀ c ∈ text.toList, c.isDigit ∨ c = '-'

-- the instance of the whole library would try every character there is
instance (text : String) : Decidable (IsBusinessDate text) :=
  List.decidableBAll (fun c : Char => (c.isDigit : Prop) ∨ c = '-') text.toList

theorem IsBusinessDate.not_mem {text : String} (h : IsBusinessDate text) : ':' ∉ text.toList := by
  intro hmem
  cases h ':' hmem with
  | inl h => exact absurd h (by decide)
  | inr h => exact absurd h (by decide)

namespace Evidence

/-- The shifts of a worker on a day. -/
def shiftsOn (ev : Evidence) (workerId : WorkerId) (businessDate : String) : List ShiftEvidence :=
  ev.shifts.filter fun x =>
    decide (x.mappedWorkerId = some workerId ∧ x.businessDate = businessDate)

/-- The minutes by which a day of a worker is split. -/
def minutesOn (ev : Evidence) (workerId : WorkerId) (businessDate : String) : List Int :=
  (ev.shiftsOn workerId businessDate).map fun x => max x.workedMinutes 0

/-- The evidence without the allocation of a worker on a day. -/
def without (ev : Evidence) (workerId : WorkerId) (businessDate : String) : Evidence :=
  { ev with
    batches := ev.batches.map fun b =>
      if b.batch.id.businessDate = businessDate then
        { b with
          allocations := b.allocations.filter fun a =>
            decide (a.allocation.workerId ≠ some workerId) }
      else b }

variable {ev : Evidence} {workerId : WorkerId} {businessDate : String} {x y : ShiftEvidence}

theorem mem_shiftsOn : x ∈ ev.shiftsOn workerId businessDate ↔
    x ∈ ev.shifts ∧ x.mappedWorkerId = some workerId ∧ x.businessDate = businessDate := by
  simp [shiftsOn]

/-- The key of a day tells the worker and the date. -/
theorem workerDayKey_eq (hx : IsBusinessDate x.businessDate) (hy : IsBusinessDate y.businessDate)
    {w w' : WorkerId} (hw : x.mappedWorkerId = some w) (hw' : y.mappedWorkerId = some w') :
    workerDayKey x = workerDayKey y ↔ w = w' ∧ x.businessDate = y.businessDate := by
  constructor
  · intro h
    have hlist := congrArg String.toList h
    simp only [workerDayKey, hw, hw', Option.getD_some, String.toList_append,
      List.append_assoc] at hlist
    obtain ⟨hworker, hdate⟩ := append_cons_inj (c := ':') hlist hx.not_mem hy.not_mem
    exact ⟨String.toList_inj.mp hworker, String.toList_inj.mp hdate⟩
  · intro ⟨hworker, hdate⟩
    rw [workerDayKey, workerDayKey, hw, hw', hworker, hdate]

theorem dayShifts_eq (hdates : ∀ y ∈ ev.shifts, IsBusinessDate y.businessDate)
    (hx : x ∈ ev.shiftsOn workerId businessDate) :
    ev.dayShifts x = ev.shiftsOn workerId businessDate := by
  obtain ⟨hmem, hw, hdate⟩ := mem_shiftsOn.mp hx
  rw [dayShifts, mappedShifts, List.filter_filter, shiftsOn]
  refine List.filter_congr fun y hy => ?_
  cases hw' : y.mappedWorkerId with
  | none => simp
  | some w' =>
      have hkey := workerDayKey_eq (hdates y hy) (hdates x hmem) hw' hw
      simp [hkey, hdate]

/-! ## Shares of a day -/

/-- The share of a shift is its slice of the total of the day. -/
theorem shareOfDay_eq (hdates : ∀ y ∈ ev.shifts, IsBusinessDate y.businessDate)
    (hx : x ∈ ev.shiftsOn workerId businessDate) (total : String → WorkerId → Int) :
    ev.shareOfDay total x = (splitProportionally (total businessDate workerId)
      (ev.minutesOn workerId businessDate)).getD
        ((ev.shiftsOn workerId businessDate).idxOf x) 0 := by
  obtain ⟨first, rest, hcons⟩ := List.exists_cons_of_ne_nil (List.ne_nil_of_mem hx)
  have hfirst : first ∈ ev.shiftsOn workerId businessDate := hcons ▸ List.mem_cons_self
  obtain ⟨-, hw, hdate⟩ := mem_shiftsOn.mp hfirst
  have hhead : (ev.shiftsOn workerId businessDate).head? = some first := by rw [hcons]; rfl
  rw [shareOfDay, dayShifts_eq hdates hx]
  simp only [hhead, hw, hdate, Option.getD_some]
  rfl

/-- **Conservation of a day**: the shares sum to the total. -/
theorem sum_shareOfDay (hdates : ∀ y ∈ ev.shifts, IsBusinessDate y.businessDate)
    (hnodup : ev.shifts.Nodup) (hne : ev.shiftsOn workerId businessDate ≠ [])
    (total : String → WorkerId → Int) :
    ((ev.shiftsOn workerId businessDate).map (ev.shareOfDay total)).sum =
      total businessDate workerId := by
  have hday : (ev.shiftsOn workerId businessDate).Nodup := hnodup.filter _
  rw [List.map_congr_left fun y hy => shareOfDay_eq hdates hy total, map_getD_idxOf hday]
  · exact sum_splitProportionally _ (by simpa [minutesOn] using hne)
  · rw [length_splitProportionally, minutesOn, List.length_map]

/-- The total of a day decides the shares of the day. -/
theorem shareOfDay_congr {ev' : Evidence} (hshifts : ev'.shifts = ev.shifts)
    (hdates : ∀ y ∈ ev.shifts, IsBusinessDate y.businessDate)
    (hx : x ∈ ev.shiftsOn workerId businessDate) {total total' : String → WorkerId → Int}
    (h : total' businessDate workerId = total businessDate workerId) :
    ev'.shareOfDay total' x = ev.shareOfDay total x := by
  have hsame : ev'.shiftsOn workerId businessDate = ev.shiftsOn workerId businessDate := by
    rw [shiftsOn, hshifts, shiftsOn]
  rw [shareOfDay_eq (hshifts ▸ hdates) (hsame ▸ hx), shareOfDay_eq hdates hx, h, minutesOn,
    hsame, minutesOn]

/-! ## The allocation of a day -/

theorem batchOn_eq (h : (ev.batches.map fun b => b.batch.id.businessDate).Nodup)
    {b : DistributedBatch} (hb : b ∈ ev.batches) : ev.batchOn b.batch.id.businessDate = some b := by
  cases hfind : ev.batchOn b.batch.id.businessDate with
  | none =>
      have hnone := List.find?_eq_none.mp hfind b hb
      simp at hnone
  | some b' =>
      have hdate := List.find?_some hfind
      rw [decide_eq_true_eq] at hdate
      rw [List.inj_on_of_nodup_map h (List.mem_of_find?_eq_some hfind) hb hdate]

theorem allocationOn_eq {b : DistributedBatch} {a : PaidAllocation}
    (hb : ev.batchOn businessDate = some b) (ha : a ∈ b.allocations)
    (hw : a.allocation.workerId = some workerId)
    (hone : ∀ a' ∈ b.allocations, a'.allocation.workerId = some workerId → a' = a) :
    ev.allocationOn businessDate workerId = some a := by
  rw [allocationOn, hb, Option.bind_some]
  cases hfind : b.allocations.find? fun a => decide (a.allocation.workerId = some workerId) with
  | none =>
      have hnone := List.find?_eq_none.mp hfind a ha
      simp [hw] at hnone
  | some a' =>
      have hw' := List.find?_some hfind
      rw [decide_eq_true_eq] at hw'
      rw [hone a' (List.mem_of_find?_eq_some hfind) hw']

theorem batchOn_without (d : String) : (ev.without workerId businessDate).batchOn d =
    (ev.batchOn d).map fun b =>
      if b.batch.id.businessDate = businessDate then
        { b with
          allocations := b.allocations.filter fun a =>
            decide (a.allocation.workerId ≠ some workerId) }
      else b := by
  rw [batchOn, without, List.find?_map, batchOn]
  congr 2
  funext b
  rw [Function.comp_apply]
  split <;> rfl

/-- Another worker or another day keeps its allocation. -/
theorem allocationOn_without {d : String} {w : WorkerId}
    (h : ¬ (w = workerId ∧ d = businessDate)) :
    (ev.without workerId businessDate).allocationOn d w = ev.allocationOn d w := by
  rw [allocationOn, batchOn_without, allocationOn]
  cases hb : ev.batchOn d with
  | none => rfl
  | some b =>
      have hd : b.batch.id.businessDate = d := by
        have := List.find?_some hb
        rwa [decide_eq_true_eq] at this
      rw [Option.map_some, Option.bind_some, Option.bind_some, hd]
      split
      · next hdate =>
        have hne : w ≠ workerId := fun hw => h ⟨hw, hdate⟩
        rw [List.find?_filter]
        congr 1
        funext a
        by_cases ha : a.allocation.workerId = some w
        · simp [ha, hne]
        · simp [ha]
      · rfl

/-! ## What the columns say -/

theorem allocatedUsdCents_entryData (ev : Evidence) (venueId : VenueId) (x : ShiftEvidence)
    (w : WorkerId) : (ev.entryData venueId x w).allocatedUsdCents = ev.allocationShare x := rfl

theorem paidUsdCents_entryData (ev : Evidence) (venueId : VenueId) (x : ShiftEvidence)
    (w : WorkerId) : (ev.entryData venueId x w).paidUsdCents = ev.paidShare x := rfl

/-- What a worker is allocated on a day is split over the shifts of that day. -/
theorem sum_allocationShare (hdates : ∀ y ∈ ev.shifts, IsBusinessDate y.businessDate)
    (hnodup : ev.shifts.Nodup) (hne : ev.shiftsOn workerId businessDate ≠ []) {a : PaidAllocation}
    (ha : ev.allocationOn businessDate workerId = some a) :
    ((ev.shiftsOn workerId businessDate).map ev.allocationShare).sum =
      a.allocation.netAllocatedUsdCents := by
  have hsum := sum_shareOfDay hdates hnodup hne fun businessDate workerId =>
    ((ev.allocationOn businessDate workerId).map fun a => a.allocation.netAllocatedUsdCents).getD 0
  simp only [ha, Option.map_some, Option.getD_some] at hsum
  exact hsum

theorem sum_paidShare (hdates : ∀ y ∈ ev.shifts, IsBusinessDate y.businessDate)
    (hnodup : ev.shifts.Nodup) (hne : ev.shiftsOn workerId businessDate ≠ []) {a : PaidAllocation}
    (ha : ev.allocationOn businessDate workerId = some a) :
    ((ev.shiftsOn workerId businessDate).map ev.paidShare).sum =
      (a.finalizedPayout.map Payout.amountUsdCents).getD 0 := by
  have hsum := sum_shareOfDay hdates hnodup hne fun businessDate workerId =>
    ((ev.finalizedPayoutOn businessDate workerId).map Payout.amountUsdCents).getD 0
  simp only [finalizedPayoutOn, ha, Option.bind_some] at hsum
  exact hsum

/-- Without the allocation of another day the shares are the same. -/
theorem shares_without (hdates : ∀ y ∈ ev.shifts, IsBusinessDate y.businessDate) {w : WorkerId}
    {d : String} (hx : x ∈ ev.shiftsOn w d) (h : ¬ (w = workerId ∧ d = businessDate)) :
    (ev.without workerId businessDate).allocationShare x = ev.allocationShare x ∧
      (ev.without workerId businessDate).paidShare x = ev.paidShare x := by
  have hsame : (ev.without workerId businessDate).allocationOn d w = ev.allocationOn d w :=
    allocationOn_without h
  have hshifts : (ev.without workerId businessDate).shifts = ev.shifts := rfl
  constructor
  · refine shareOfDay_congr hshifts hdates hx ?_
    rw [hsame]
  · refine shareOfDay_congr hshifts hdates hx ?_
    rw [finalizedPayoutOn, hsame, finalizedPayoutOn]

end Evidence

/-! ## A rebuild -/

/-- `@@unique([batchId, workerId])`. -/
def Db.UniqueShares (db : Db) : Prop :=
  ∀ a ∈ db.allocations.rows, ∀ a' ∈ db.allocations.rows, a.batchId = a'.batchId →
    ∀ workerId ∈ a.workerId, a'.workerId = some workerId → a = a'

instance (db : Db) : Decidable db.UniqueShares := inferInstanceAs (Decidable (∀ _ ∈ _, _))

namespace Platform

/-- The states of a venue in which every worker who is allocated something on a
day has worked that day, and each day is distributed once. -/
structure PaysWorkedDays (s : Platform) (venueId : VenueId) : Prop where
  unique : s.world.db.UniqueShares
  dates : ∀ x ∈ s.shiftsOf venueId, IsBusinessDate x.businessDate
  oneBatch : ((s.batchesOf venueId).map fun b => b.batch.id.businessDate).Nodup
  worked : ∀ b ∈ s.batchesOf venueId, ∀ a ∈ b.allocations, ∀ workerId ∈ a.allocation.workerId,
    (s.evidence venueId).shiftsOn workerId b.batch.id.businessDate ≠ []

variable {s : Platform} {venueId : VenueId}

/-- An allocation that is read is a row of the batch it is read with. -/
theorem mem_paidAllocations {batchId : BatchId} {a : PaidAllocation}
    (h : a ∈ s.paidAllocations batchId) :
    a.allocation ∈ s.world.db.allocations.rows ∧ a.allocation.batchId = batchId ∧
      a.payouts = (s.world.db.payouts.find a.allocation.id).toList := by
  obtain ⟨row, hrow, rfl⟩ := List.mem_map.mp h
  obtain ⟨hmem, hbatch⟩ := List.mem_filter.mp hrow
  exact ⟨hmem, of_decide_eq_true hbatch, rfl⟩

/-- A worker is allocated one share a day. -/
theorem PaysWorkedDays.allocationOn_eq (h : s.PaysWorkedDays venueId) {b : DistributedBatch}
    (hb : b ∈ s.batchesOf venueId) {a : PaidAllocation} (ha : a ∈ b.allocations)
    {workerId : WorkerId} (hw : a.allocation.workerId = some workerId) :
    (s.evidence venueId).allocationOn b.batch.id.businessDate workerId = some a := by
  refine Evidence.allocationOn_eq (Evidence.batchOn_eq h.oneBatch hb) ha hw fun a' ha' hw' => ?_
  obtain ⟨row, -, rfl⟩ := List.mem_map.mp hb
  obtain ⟨hmem, hbatch, hpayouts⟩ := mem_paidAllocations ha
  obtain ⟨hmem', hbatch', hpayouts'⟩ := mem_paidAllocations ha'
  have hrow := h.unique _ hmem' _ hmem (hbatch'.trans hbatch.symm) workerId hw' hw
  cases a
  cases a'
  simp only at hrow hpayouts hpayouts'
  subst hrow
  rw [hpayouts, hpayouts']

end Platform

/-- What is paid of an allocation for good. -/
def PaidAllocation.finalizedUsdCents (a : PaidAllocation) : Int :=
  (a.finalizedPayout.map Payout.amountUsdCents).getD 0

/-- **Conservation**: a rebuild splits each allocation, and what is finalized of
it, over the shifts of its worker on its day, and gives none of it to another
shift. -/
theorem rebuildVenueIncomeLocked_conserves {s : Platform} {venueId : VenueId}
    (h : s.PaysWorkedDays venueId) (actorUserId : Option UserId)
    (source : IncomeProjectionSource) :
    let ev := s.evidence venueId
    let t := ((rebuildVenueIncomeLocked venueId actorUserId source).eval Command.apply s).2
    (∀ x ∈ ev.shifts, ProjectedFrom ev venueId t.books x) ∧
      ∀ b ∈ ev.batches, ∀ a ∈ b.allocations, ∀ workerId,
        a.allocation.workerId = some workerId →
        let day := ev.shiftsOn workerId b.batch.id.businessDate
        let rest := ev.without workerId b.batch.id.businessDate
        (day.map fun x => (ev.entryData venueId x workerId).allocatedUsdCents).sum =
            a.allocation.netAllocatedUsdCents ∧
          (day.map fun x => (ev.entryData venueId x workerId).paidUsdCents).sum =
            a.finalizedUsdCents ∧
          ∀ x ∈ ev.shifts, ∀ w, x.mappedWorkerId = some w → x ∉ day →
            (ev.entryData venueId x w).allocatedUsdCents =
                (rest.entryData venueId x w).allocatedUsdCents ∧
              (ev.entryData venueId x w).paidUsdCents =
                (rest.entryData venueId x w).paidUsdCents := by
  intro ev t
  have hdates : ∀ y ∈ ev.shifts, IsBusinessDate y.businessDate := h.dates
  have hnodup : ev.shifts.Nodup := (s.nodup_shiftsOf venueId).of_map _
  constructor
  · exact projectedFrom_rebuildVenueIncomeLocked s venueId actorUserId source
  · intro b hb a ha workerId hw
    have hne := h.worked b hb a ha workerId hw
    have hallocation := h.allocationOn_eq hb ha hw
    simp only [Evidence.allocatedUsdCents_entryData, Evidence.paidUsdCents_entryData]
    refine ⟨Evidence.sum_allocationShare hdates hnodup hne hallocation,
      Evidence.sum_paidShare hdates hnodup hne hallocation, fun x hx w hw' hnot => ?_⟩
    have hday : x ∈ ev.shiftsOn w x.businessDate := Evidence.mem_shiftsOn.mpr ⟨hx, hw', rfl⟩
    have hother : ¬ (w = workerId ∧ x.businessDate = b.batch.id.businessDate) :=
      fun heq => hnot (Evidence.mem_shiftsOn.mpr ⟨hx, heq.1 ▸ hw', heq.2⟩)
    obtain ⟨hallocated, hpaid⟩ := Evidence.shares_without hdates hday hother
    exact ⟨hallocated.symm, hpaid.symm⟩

section Concrete

open Scenario

/-- Two more shifts of the worker on the day: one is still open, one has its ends
the wrong way round. -/
def Scenario.moreShifts : List EnvMove :=
  [.record (.saveShift
      { shift with id := ⟨venue, "square", "open-shift"⟩, workedMinutes := 0 }),
    .record (.saveShift
      { shift with id := ⟨venue, "square", "turned-shift"⟩, workedMinutes := -30 }),
    .record (.saveShift { shift with id := ⟨venue, "square", "short-shift"⟩, workedMinutes := 7 })]

/-- The day of four shifts, paid in cash. -/
def Scenario.paidDay : Platform :=
  Platform.fresh (moreShifts.foldl (fun w e => e.apply w)
    ((@service byCodePoint).performAll (approved ++ [.call (register 1) 20]) World.empty)) 0 "key"

theorem Scenario.paidDay_paysWorkedDays : paidDay.PaysWorkedDays venue where
  unique := by decide +kernel
  dates := by decide +kernel
  oneBatch := by decide +kernel
  worked := by decide +kernel

theorem rebuildVenueIncomeLocked_conserves_paidDay :
    let ev := paidDay.evidence venue
    let t := ((rebuildVenueIncomeLocked venue none .manual).eval Command.apply paidDay).2
    ((∀ x ∈ ev.shifts, ProjectedFrom ev venue t.books x) ∧
      ∀ b ∈ ev.batches, ∀ a ∈ b.allocations, ∀ workerId,
        a.allocation.workerId = some workerId →
        let day := ev.shiftsOn workerId b.batch.id.businessDate
        let rest := ev.without workerId b.batch.id.businessDate
        (day.map fun x => (ev.entryData venue x workerId).allocatedUsdCents).sum =
            a.allocation.netAllocatedUsdCents ∧
          (day.map fun x => (ev.entryData venue x workerId).paidUsdCents).sum =
            a.finalizedUsdCents ∧
          ∀ x ∈ ev.shifts, ∀ w, x.mappedWorkerId = some w → x ∉ day →
            (ev.entryData venue x w).allocatedUsdCents =
                (rest.entryData venue x w).allocatedUsdCents ∧
              (ev.entryData venue x w).paidUsdCents =
                (rest.entryData venue x w).paidUsdCents) ∧
      ev.shifts.map ev.paidShare = [448, 0, 0, 52] :=
  ⟨rebuildVenueIncomeLocked_conserves paidDay_paysWorkedDays none .manual, by decide +kernel⟩

end Concrete

end ServeProof
