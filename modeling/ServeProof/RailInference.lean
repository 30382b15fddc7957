import Mathlib.Data.List.Induction
import ServeProof.Services.Allocations

/-!
# ServeProof.RailInference

The rail that a calculation plans for a worker is the one that all shifts of the worker
agree on, in whatever order they come.

The loop over the shifts keeps the rail that the shifts so far agree on, and the workers
whose shifts do not; who is among these stays among them.
-/

namespace ServeProof

/-- The rails of the shifts of a worker, as far as they have one. -/
def railsOf (shifts : List ShiftEvidence) (w : WorkerId) : List WorkerPayoutRail :=
  (shifts.filter fun s => decide (s.mappedWorkerId = some w)).filterMap
    ShiftEvidence.sourcePayoutRail

/-- There is a rail, and it is the only one. -/
def AgreeOn (l : List WorkerPayoutRail) (r : WorkerPayoutRail) : Prop := l ≠ [] ∧ ∀ x ∈ l, x = r

def Conflict (l : List WorkerPayoutRail) : Prop := ∃ x ∈ l, ∃ y ∈ l, x ≠ y

theorem agreeOn_of_eq_or_conflict {l : List WorkerPayoutRail} (hl : l ≠ []) :
    (∃ r, AgreeOn l r) ∨ Conflict l := by
  obtain ⟨r, hr⟩ := List.exists_mem_of_ne_nil l hl
  by_cases h : ∀ x ∈ l, x = r
  · exact .inl ⟨r, hl, h⟩
  · rw [not_forall] at h
    obtain ⟨x, h⟩ := h
    rw [Classical.not_imp] at h
    exact .inr ⟨x, h.1, r, hr, h.2⟩

theorem AgreeOn.not_conflict {l : List WorkerPayoutRail} {r : WorkerPayoutRail}
    (h : AgreeOn l r) : ¬ Conflict l := by
  rintro ⟨x, hx, y, hy, hne⟩
  exact hne ((h.2 x hx).trans (h.2 y hy).symm)

/-! ## The map and the set -/

theorem lookup_filter_ne {planned : List (WorkerId × WorkerPayoutRail)} {w v : WorkerId} :
    (planned.filter fun x => decide (x.1 ≠ v)).lookup w =
      if w = v then none else planned.lookup w := by
  induction planned with
  | nil => simp
  | cons x planned ih =>
      obtain ⟨u, r⟩ := x
      rw [List.filter_cons]
      by_cases hu : u = v
      · subst hu
        rw [if_neg (by simp), ih, List.lookup_cons]
        by_cases hw : w = u
        · simp [hw]
        · simp [hw, beq_false_of_ne hw]
      · rw [if_pos (by simpa using hu), List.lookup_cons, List.lookup_cons, ih]
        by_cases hw : w = u
        · subst hw
          simp [hu]
        · simp [beq_false_of_ne hw]

/-- What the loop knows of a worker whose shifts so far have the rails `l`. -/
structure PlannedRails.Infers (rails : PlannedRails) (w : WorkerId)
    (l : List WorkerPayoutRail) : Prop where
  planned : ∀ r, rails.planned.lookup w = some r ↔ AgreeOn l r
  conflicting : w ∈ rails.conflicting ↔ Conflict l

namespace PlannedRails.Infers

variable {rails : PlannedRails} {w : WorkerId} {l : List WorkerPayoutRail}
  {shift : ShiftEvidence} {r : WorkerPayoutRail}

theorem start : (⟨[], []⟩ : PlannedRails).Infers w [] where
  planned r := by simp [AgreeOn]
  conflicting := by simp [Conflict]

/-- The shift of another worker, or one without a rail. -/
theorem skip (h : rails.Infers w l)
    (hskip : shift.mappedWorkerId.filter (· ≠ "") ≠ some w ∨ shift.sourcePayoutRail = none) :
    (addPlannedRail rails shift).Infers w l := by
  rw [addPlannedRail]
  split
  · next v r hv hr =>
    have hwv : w ≠ v := by
      rintro rfl
      exact hskip.elim (fun hne => hne hv) fun hnone => by rw [hnone] at hr; cases hr
    have hothers (r : WorkerPayoutRail) :
        (rails.planned.filter fun x => decide (x.1 ≠ v)).lookup w = rails.planned.lookup w := by
      rw [lookup_filter_ne, if_neg hwv]
    have hset (r : WorkerPayoutRail) :
        ((v, r) :: rails.planned.filter fun x => decide (x.1 ≠ v)).lookup w =
          rails.planned.lookup w := by
      rw [List.lookup_cons, beq_false_of_ne hwv, hothers r]
    split
    · split
      · exact ⟨fun x => by rw [hothers x, h.planned], by
          rw [List.mem_cons, or_iff_right hwv, h.conflicting]⟩
      · split
        · exact h
        · exact ⟨fun x => by rw [hset, h.planned], h.conflicting⟩
    · split
      · exact h
      · exact ⟨fun x => by rw [hset, h.planned], h.conflicting⟩
  · exact h

/-- A shift of the worker that has a rail. -/
theorem add (h : rails.Infers w l) (hw : shift.mappedWorkerId.filter (· ≠ "") = some w)
    (hr : shift.sourcePayoutRail = some r) :
    (addPlannedRail rails shift).Infers w (l ++ [r]) := by
  have hset : ((w, r) :: rails.planned.filter fun x => decide (x.1 ≠ w)).lookup w = some r := by
    simp
  rw [addPlannedRail, hw, hr]
  simp only
  cases hlookup : rails.planned.lookup w with
  | some previous =>
      have hagree := (h.planned previous).mp hlookup
      obtain ⟨x, hx⟩ := List.exists_mem_of_ne_nil l hagree.1
      by_cases hsame : previous = r
      · -- the shift agrees with those before
        subst hsame
        have hnew : AgreeOn (l ++ [previous]) previous :=
          ⟨by simp, fun y hy => (List.mem_append.mp hy).elim (hagree.2 y) List.mem_singleton.mp⟩
        have hfree : w ∉ rails.conflicting := fun hin => hagree.not_conflict (h.conflicting.mp hin)
        simp only [ne_eq, not_true_eq_false, if_false, if_neg hfree]
        refine ⟨fun y => ?_, iff_of_false hfree hnew.not_conflict⟩
        rw [hset, Option.some.injEq]
        exact ⟨fun heq => heq ▸ hnew, fun hy => hy.2 previous (by simp)⟩
      · -- it does not, and the rail is deleted
        have hconflict : Conflict (l ++ [r]) :=
          ⟨x, by simp [hx], r, by simp, fun heq => hsame ((hagree.2 x hx).symm.trans heq)⟩
        simp only [ne_eq, hsame, not_false_eq_true, if_true]
        refine ⟨fun y => ?_, iff_of_true (by simp) hconflict⟩
        rw [lookup_filter_ne, if_pos rfl]
        exact iff_of_false (by simp) fun hy => hy.not_conflict hconflict
  | none =>
      by_cases hin : w ∈ rails.conflicting
      · -- a conflict stays one
        obtain ⟨x, hx, y, hy, hne⟩ := h.conflicting.mp hin
        have hconflict : Conflict (l ++ [r]) := ⟨x, by simp [hx], y, by simp [hy], hne⟩
        simp only [if_pos hin]
        refine ⟨fun z => ?_, iff_of_true hin hconflict⟩
        rw [hlookup]
        exact iff_of_false (by simp) fun hz => hz.not_conflict hconflict
      · -- the first shift of the worker with a rail
        have hnil : l = [] := by
          by_contra hl
          obtain ⟨x, hx⟩ | hconflict := agreeOn_of_eq_or_conflict hl
          · rw [(h.planned x).mpr hx] at hlookup
            cases hlookup
          · exact hin (h.conflicting.mpr hconflict)
        subst hnil
        simp only [if_neg hin]
        refine ⟨fun y => ?_, iff_of_false hin (by simp [Conflict])⟩
        rw [hset, Option.some.injEq]
        exact ⟨fun heq => by simp [AgreeOn, heq], fun hy => hy.2 r (by simp)⟩

end PlannedRails.Infers

/-! ## The loop -/

variable {shifts : List ShiftEvidence} {w : WorkerId}

theorem railsOf_concat (shift : ShiftEvidence) : railsOf (shifts ++ [shift]) w =
    railsOf shifts w ++ if shift.mappedWorkerId = some w then shift.sourcePayoutRail.toList
      else [] := by
  rw [railsOf, List.filter_append, List.filterMap_append, railsOf]
  by_cases h : shift.mappedWorkerId = some w
  · cases hr : shift.sourcePayoutRail <;> simp [h, hr]
  · simp [h]

/-- **The invariant of the loop.** -/
theorem infers_foldl (hw : w ≠ "") (shifts : List ShiftEvidence) :
    (shifts.foldl addPlannedRail ⟨[], []⟩).Infers w (railsOf shifts w) := by
  induction shifts using List.reverseRecOn with
  | nil => exact .start
  | append_singleton shifts shift ih =>
      rw [List.foldl_append, List.foldl_cons, List.foldl_nil, railsOf_concat]
      by_cases hshift : shift.mappedWorkerId = some w
      · have hfilter : shift.mappedWorkerId.filter (· ≠ "") = some w := by
          rw [hshift]
          simpa using hw
        rw [if_pos hshift]
        cases hr : shift.sourcePayoutRail with
        | none =>
            rw [Option.toList_none, List.append_nil]
            exact ih.skip (.inr hr)
        | some r => exact ih.add hfilter hr
      · have hfilter : shift.mappedWorkerId.filter (· ≠ "") ≠ some w := by
          intro heq
          exact hshift (Option.filter_eq_some_iff.mp heq).1
        rw [if_neg hshift, List.append_nil]
        exact ih.skip (.inl hfilter)

/-- No shift counts for an empty worker id. -/
theorem infers_empty (shifts : List ShiftEvidence) :
    (shifts.foldl addPlannedRail ⟨[], []⟩).Infers "" [] := by
  induction shifts using List.reverseRecOn with
  | nil => exact .start
  | append_singleton shifts shift ih =>
      rw [List.foldl_append, List.foldl_cons, List.foldl_nil]
      refine ih.skip (.inl fun heq => ?_)
      simpa using (Option.filter_eq_some_iff.mp heq).2

theorem lookup_plannedRailByWorker (shifts : List ShiftEvidence) (w : WorkerId)
    (r : WorkerPayoutRail) : (plannedRailByWorker shifts).lookup w = some r ↔
      w ≠ "" ∧ AgreeOn (railsOf shifts w) r := by
  by_cases hw : w = ""
  · subst hw
    rw [plannedRailByWorker, (infers_empty shifts).planned r]
    simp [AgreeOn]
  · rw [plannedRailByWorker, (infers_foldl hw shifts).planned r]
    simp [hw]

theorem perm_railsOf {shifts' : List ShiftEvidence} (h : shifts'.Perm shifts) :
    (railsOf shifts' w).Perm (railsOf shifts w) :=
  (h.filter _).filterMap _

theorem AgreeOn.perm {l l' : List WorkerPayoutRail} {r : WorkerPayoutRail} (h : AgreeOn l r)
    (hperm : l'.Perm l) : AgreeOn l' r :=
  ⟨fun hnil => h.1 (hnil ▸ hperm).nil_eq.symm, fun x hx => h.2 x (hperm.mem_iff.mp hx)⟩

/-- **The planned rail of a worker does not depend on the order of the shifts**: it is
the rail of all shifts of the worker that have one, if there is such a shift and they
agree.  After a conflict no shift brings a rail back.  The shares of the worker get it. -/
theorem planned_rail_order_independent (shifts : List ShiftEvidence) (w : WorkerId) :
    (∀ r, (plannedRailByWorker shifts).lookup w = some r ↔
      w ≠ "" ∧ railsOf shifts w ≠ [] ∧ ∀ x ∈ railsOf shifts w, x = r) ∧
      (∀ shifts' : List ShiftEvidence, shifts'.Perm shifts →
        (plannedRailByWorker shifts').lookup w = (plannedRailByWorker shifts).lookup w) ∧
      (∀ later, (∃ x ∈ railsOf shifts w, ∃ y ∈ railsOf shifts w, x ≠ y) →
        (plannedRailByWorker (shifts ++ later)).lookup w = none) ∧
      ∀ (c : Calculation) (a : WorkerAllocationResult),
        c.plannedRail = plannedRailByWorker shifts → a.workerId = some w →
        (c.allocation a).plannedPayoutRail = (plannedRailByWorker shifts).lookup w := by
  refine ⟨lookup_plannedRailByWorker shifts w, fun shifts' hperm => ?_, fun later hconflict => ?_,
    fun c a hc ha => ?_⟩
  · ext r
    rw [lookup_plannedRailByWorker, lookup_plannedRailByWorker]
    exact and_congr_right fun _ =>
      ⟨fun h => h.perm (perm_railsOf hperm.symm), fun h => h.perm (perm_railsOf hperm)⟩
  · rw [Option.eq_none_iff_forall_ne_some]
    intro r hr
    obtain ⟨-, hagree⟩ := (lookup_plannedRailByWorker _ w r).mp hr
    obtain ⟨x, hx, y, hy, hne⟩ := hconflict
    have hmem {x : WorkerPayoutRail} (hx : x ∈ railsOf shifts w) :
        x ∈ railsOf (shifts ++ later) w := by
      rw [railsOf, List.filter_append, List.filterMap_append]
      exact List.mem_append_left _ hx
    exact hagree.not_conflict ⟨x, hmem hx, y, hmem hy, hne⟩
  · rw [Calculation.allocation, ha, hc]
    by_cases hw : w = ""
    · subst hw
      symm
      rw [Option.bind_some, if_pos rfl, Option.eq_none_iff_forall_ne_some]
      exact fun r hr => ((lookup_plannedRailByWorker shifts "" r).mp hr).1 rfl
    · simp [hw]

end ServeProof
