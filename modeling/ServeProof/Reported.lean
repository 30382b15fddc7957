import ServeProof.Conservation
import ServeProof.LastWrite

/-!
# ServeProof.Reported

What payroll reports of a worker's shifts.

Each record is split over the shifts of its period, to the cent, but the slice
of a shift replaces the slice that an earlier record has put there.  So the
reported amounts sum to the records exactly when what is replaced sums to
nothing.
-/

namespace ServeProof

open Interleave
open LastWrite (last lost sum_last lost_eq_zero last_of_not_covered)

namespace Evidence

variable (ev : Evidence)

/-- The mapped shifts of a worker. -/
def shiftsFor (workerId : WorkerId) : List ShiftEvidence :=
  ev.mappedShifts.filter fun x => decide (x.mappedWorkerId = some workerId)

/-- The slice of a record on a shift of its period. -/
def payrollSlice (record : PayrollRecord) (x : ShiftEvidence) : Int :=
  (splitProportionally record.reportedTipUsdCents
    ((ev.periodShifts record).map ev.allocationShare)).getD ((ev.periodShifts record).idxOf x) 0

/-- The shift is one of the period of the record. -/
def Covers (record : PayrollRecord) (x : ShiftEvidence) : Prop := x ∈ ev.periodShifts record

instance (record : PayrollRecord) (x : ShiftEvidence) : Decidable (ev.Covers record x) :=
  inferInstanceAs (Decidable (x ∈ _))

/-- What the records of a worker report, those left out that are about no shift. -/
def recordedUsdCents (workerId : WorkerId) : Int :=
  ((ev.payrollRecords.filter fun record =>
    decide (record.workerId = workerId ∧ ev.periodShifts record ≠ [])).map
      PayrollRecord.reportedTipUsdCents).sum

/-- The reported amounts of the worker's shifts sum to the worker's records. -/
def PayrollConserved (venueId : VenueId) (workerId : WorkerId) : Prop :=
  ((ev.shiftsFor workerId).map fun x =>
    (ev.entryData venueId x workerId).payrollReportedUsdCents).sum = ev.recordedUsdCents workerId

instance (venueId : VenueId) (workerId : WorkerId) :
    Decidable (ev.PayrollConserved venueId workerId) := inferInstanceAs (Decidable (_ = _))

/-- What records put on shifts of the worker that a later record is about too. -/
def replacedUsdCents (workerId : WorkerId) : Int :=
  lost ev.Covers ev.payrollSlice (ev.shiftsFor workerId) ev.payrollRecords

/-- No shift of the worker lies in the periods of two records. -/
def PeriodsDisjoint (workerId : WorkerId) : Prop :=
  LastWrite.Disjoint ev.Covers (ev.shiftsFor workerId) ev.payrollRecords

variable {ev} {record : PayrollRecord} {x : ShiftEvidence} {workerId : WorkerId}

theorem payrollShare_eq : ev.payrollShare x = last ev.Covers ev.payrollSlice ev.payrollRecords x :=
  rfl

theorem covers_iff : ev.Covers record x ↔ x ∈ ev.mappedShifts ∧
    x.mappedWorkerId = some record.workerId ∧
      Within record.periodStart record.periodEnd x.businessDate := by
  simp [Covers, periodShifts]

theorem nodup_periodShifts (hnodup : ev.shifts.Nodup) : (ev.periodShifts record).Nodup :=
  (hnodup.filter _).filter _

/-- The slices of a record sum to what it reports. -/
theorem sum_payrollSlice (hnodup : ev.shifts.Nodup) (hne : ev.periodShifts record ≠ []) :
    ((ev.periodShifts record).map (ev.payrollSlice record)).sum = record.reportedTipUsdCents := by
  have hperiod : (ev.periodShifts record).Nodup := nodup_periodShifts hnodup
  have hslices := map_getD_idxOf hperiod (splitProportionally record.reportedTipUsdCents
    ((ev.periodShifts record).map ev.allocationShare)) (by simp [length_splitProportionally])
  have hsum := congrArg List.sum hslices
  rw [sum_splitProportionally _ (by simpa using hne)] at hsum
  exact hsum

theorem filter_covers : (ev.shiftsFor workerId).filter (fun x => decide (ev.Covers record x)) =
    if record.workerId = workerId then ev.periodShifts record else [] := by
  split
  · next hw =>
    subst hw
    rw [shiftsFor, List.filter_filter, periodShifts]
    refine List.filter_congr fun x hx => ?_
    simp only [covers_iff, hx, true_and, Bool.decide_and]
    rw [Bool.and_comm, ← Bool.and_assoc, Bool.and_self]
  · next hw =>
    refine List.filter_eq_nil_iff.mpr fun x hx => ?_
    have hx' : x.mappedWorkerId = some workerId := by simpa using (List.mem_filter.mp hx).2
    simp only [decide_eq_true_eq, covers_iff, hx', Option.some.injEq]
    exact fun h => hw h.2.1.symm

/-- What the records write to the worker's shifts is what they report. -/
theorem sum_written (hnodup : ev.shifts.Nodup) (workerId : WorkerId) :
    (ev.payrollRecords.map fun record =>
      (((ev.shiftsFor workerId).filter fun x => decide (ev.Covers record x)).map
        (ev.payrollSlice record)).sum).sum = ev.recordedUsdCents workerId := by
  rw [recordedUsdCents, LastWrite.sum_filter]
  refine congrArg List.sum (List.map_congr_left fun record _ => ?_)
  rw [filter_covers]
  by_cases hw : record.workerId = workerId
  · by_cases hne : ev.periodShifts record = []
    · simp [hw, hne]
    · rw [if_pos hw, if_pos ⟨hw, hne⟩, sum_payrollSlice hnodup hne]
  · simp [hw]

/-- The column shows the share of the last record that is about the shift. -/
theorem payrollReportedUsdCents_eq {venueId : VenueId} (hx : x ∈ ev.shiftsFor workerId) :
    (ev.entryData venueId x workerId).payrollReportedUsdCents = ev.payrollShare x := by
  obtain ⟨hmapped, hw⟩ := List.mem_filter.mp hx
  rw [decide_eq_true_eq] at hw
  change (if (ev.payrollOn x.businessDate workerId).isSome then ev.payrollShare x else 0) = _
  split
  · rfl
  · next hnone =>
    rw [Bool.not_eq_true, Option.isSome_eq_false_iff, Option.isNone_iff_eq_none] at hnone
    rw [payrollShare_eq, last_of_not_covered]
    intro record hrecord hcov
    have hnot := List.find?_eq_none.mp hnone record hrecord
    obtain ⟨-, hw', hwithin⟩ := covers_iff.mp hcov
    rw [decide_eq_true_eq] at hnot
    exact hnot ⟨Option.some.inj (hw'.symm.trans hw), hwithin⟩

/-- What is reported, and what is replaced, are the records. -/
theorem sum_payrollReported (hnodup : ev.shifts.Nodup) (venueId : VenueId) (workerId : WorkerId) :
    ((ev.shiftsFor workerId).map fun x =>
      (ev.entryData venueId x workerId).payrollReportedUsdCents).sum +
        ev.replacedUsdCents workerId = ev.recordedUsdCents workerId := by
  rw [List.map_congr_left fun x hx => payrollReportedUsdCents_eq hx, ← sum_written hnodup,
    ← sum_last]
  rfl

end Evidence

section Concrete

open Scenario

/-- A record of the scenario's worker over July. -/
def Scenario.payrollOver (id : PayrollRecordId) (periodStart periodEnd : String)
    (reportedTipUsdCents : Int) : PayrollRecord where
  id := id
  workerId := worker
  venueId := venue
  periodStart := (noonUtc periodStart).getD 0
  periodEnd := (noonUtc periodEnd).getD 0
  reportedTipUsdCents := reportedTipUsdCents
  federalWithholdingUsdCents := none
  status := .providerConfirmed

/-- The records of a fortnight and of the month, both about the day of four
shifts. -/
def Scenario.twoPeriods : Platform :=
  [payrollOver 1 "2026-07-01" "2026-07-14" 500, payrollOver 2 "2026-07-01" "2026-07-31" 1000].foldl
    (fun s record => (PlatformMove.payroll record).apply s) paidDay

end Concrete

end ServeProof
