import ServeProof.Knowledge.Ledger
import ServeProof.Services.Income

/-!
# ServeProof.Income.Rebuild

A rebuild that runs alone, as a function of the books.

For each shift it makes one write or none (`projection`), which depends on what
stands in the ledger about the pair.  `eval_rebuildVenueIncome` says what a
rebuild leaves, `projectAll_induction` what it takes to keep a property of the
ledger, and `projectedFrom_projectAll` that every shift is projected from the
evidence.
-/

namespace ServeProof

open Interleave
open Prog (eval_get_bind eval_put_bind eval_putGet_bind)

namespace Books

/-! ## One shift -/

/-- What is written for a shift that is mapped to `workerId`. -/
def projectionOn (b : Books) (ev : Evidence) (venueId : VenueId) (shift : ShiftEvidence)
    (workerId : WorkerId) : BooksWrite :=
  match b.baseEntry (workerId, some shift.id) with
  | some entry => .updateEntry entry.id (ev.entryData venueId shift workerId)
  | none => .createEntry (ev.entryData venueId shift workerId)

/-- What is written for a shift, if anything is. -/
def projection (b : Books) (ev : Evidence) (venueId : VenueId) (shift : ShiftEvidence) :
    Option BooksWrite :=
  (shift.mappedWorkerId.filter fun workerId =>
    !decide (b.Superseded (workerId, some shift.id))).map (b.projectionOn ev venueId shift)

/-- The ledger after a shift is projected. -/
def project (ev : Evidence) (venueId : VenueId) (b : Books) (shift : ShiftEvidence) : Books :=
  (b.projection ev venueId shift).elim b fun c => c.apply b

def outcome (b : Books) (ev : Evidence) (venueId : VenueId) (shift : ShiftEvidence) :
    ShiftOutcome where
  upserted := (b.projection ev venueId shift).isSome
  alerts :=
    match shift.mappedWorkerId with
    | none => [Evidence.unmappedAlert venueId shift]
    | some workerId =>
        if b.Superseded (workerId, some shift.id) then []
        else Evidence.entryAlerts (ev.entryData venueId shift workerId)

/-- The ledger after the shifts are projected. -/
def projectAll (ev : Evidence) (venueId : VenueId) (shifts : List ShiftEvidence) (b : Books) :
    Books := shifts.foldl (project ev venueId) b

def outcomes (ev : Evidence) (venueId : VenueId) : List ShiftEvidence → Books → List ShiftOutcome
  | [], _ => []
  | shift :: shifts, b =>
      b.outcome ev venueId shift :: outcomes ev venueId shifts (b.project ev venueId shift)

/-- The alerts of a rebuild. -/
def alertsOf (b : Books) (ev : Evidence) (venueId : VenueId) : List DiscrepancyAlert :=
  (outcomes ev venueId ev.shifts b).flatMap ShiftOutcome.alerts ++ ev.refundAlerts venueId

def resultOf (b : Books) (ev : Evidence) (venueId : VenueId) : IncomeProjectionResult where
  entriesUpserted := (outcomes ev venueId ev.shifts b).countP ShiftOutcome.upserted
  alerts := (b.alertsOf ev venueId).length

/-- The books after a rebuild from the evidence. -/
def rebuilt (b : Books) (ev : Evidence) (venueId : VenueId) (actorUserId : Option UserId)
    (source : IncomeProjectionSource) : Books :=
  (BooksWrite.log ⟨venueId, actorUserId, .incomeEntriesRebuilt source
      (b.resultOf ev venueId).entriesUpserted (b.resultOf ev venueId).alerts⟩).apply
    ((BooksWrite.createAlerts (b.alertsOf ev venueId)).apply
      ((BooksWrite.deleteAlerts venueId).apply (b.projectAll ev venueId ev.shifts)))

end Books

/-! ## The writes of a rebuild -/

namespace Books

variable {b : Books} {ev : Evidence} {venueId : VenueId} {x : ShiftEvidence} {c : BooksWrite}

/-- A shift is projected to the worker it is mapped to, unless the pair has been
corrected. -/
theorem projection_eq_some : b.projection ev venueId x = some c ↔
    ∃ workerId, x.mappedWorkerId = some workerId ∧ ¬ b.Superseded (workerId, some x.id) ∧
      b.projectionOn ev venueId x workerId = c := by
  simp [projection, Option.filter_eq_some_iff, and_assoc]

variable (b ev venueId x) in
theorem projectionOn_spec (workerId : WorkerId) :
    b.Admits (b.projectionOn ev venueId x workerId) ∧
      (b.projectionOn ev venueId x workerId).target = some (workerId, some x.id) ∧
      ∃ id, ((b.projectionOn ev venueId x workerId).apply b).baseData (workerId, some x.id) =
        some (id, ev.entryData venueId x workerId) := by
  unfold projectionOn
  cases hbase : b.baseEntry (workerId, some x.id) with
  | none =>
      have hadmits : b.Admits (.createEntry (ev.entryData venueId x workerId)) := hbase
      exact ⟨hadmits, rfl, _, baseData_createEntry hadmits⟩
  | some entry =>
      have hadmits : b.Admits (.updateEntry entry.id (ev.entryData venueId x workerId)) :=
        ⟨entry, hbase, rfl⟩
      exact ⟨hadmits, rfl, _, baseData_updateEntry hadmits⟩

theorem timely_projectionOn {workerId : WorkerId} (h : ¬ b.Superseded (workerId, some x.id)) :
    b.Timely (b.projectionOn ev venueId x workerId) := by
  unfold projectionOn
  split
  · exact h
  · exact trivial

/-- What each of its writes keeps, a rebuild keeps. -/
theorem projectAll_induction {P : Books → Prop} {shifts : List ShiftEvidence}
    (h : ∀ b, ∀ x ∈ shifts, ∀ workerId, P b → x.mappedWorkerId = some workerId →
      ¬ b.Superseded (workerId, some x.id) → P ((b.projectionOn ev venueId x workerId).apply b))
    (hb : P b) : P (b.projectAll ev venueId shifts) := by
  induction shifts generalizing b with
  | nil => exact hb
  | cons x shifts ih =>
      refine ih (fun b y hy => h b y (List.mem_cons_of_mem x hy)) ?_
      unfold project
      cases hc : b.projection ev venueId x with
      | none => exact hb
      | some c =>
          obtain ⟨workerId, hw, hsuper, rfl⟩ := projection_eq_some.mp hc
          exact h b x List.mem_cons_self workerId hb hw hsuper

theorem projectedFrom_project : ProjectedFrom ev venueId (b.project ev venueId x) x := by
  intro workerId hw
  by_cases hsuper : b.Superseded (workerId, some x.id)
  · have hnone : b.projection ev venueId x = none := by
      simp [projection, hw, hsuper, Option.filter]
    rw [project, hnone]
    exact .inl hsuper
  · rw [project, projection_eq_some.mpr ⟨workerId, hw, hsuper, rfl⟩]
    exact .inr (b.projectionOn_spec ev venueId x workerId).2.2

end Books

/-- Another shift stays projected. -/
theorem ProjectedFrom.project {b : Books} {ev : Evidence} {venueId : VenueId} {x y : ShiftEvidence}
    (h : ProjectedFrom ev venueId b y) (hid : y.id ≠ x.id) :
    ProjectedFrom ev venueId (b.project ev venueId x) y := by
  unfold Books.project
  cases hc : b.projection ev venueId x with
  | none => exact h
  | some c =>
      obtain ⟨workerId, hw, hsuper, rfl⟩ := Books.projection_eq_some.mp hc
      obtain ⟨hadmits, htarget, -⟩ := b.projectionOn_spec ev venueId x workerId
      refine h.keptOn (Books.keptOn_apply hadmits) fun w hw' => ?_
      rw [htarget]
      intro heq
      exact hid (Option.some.inj (congrArg Prod.snd (Option.some.inj heq))).symm

namespace Books

variable {b : Books} {ev : Evidence} {venueId : VenueId}

/-- A rebuild leaves every shift projected from the evidence. -/
theorem projectedFrom_projectAll {shifts : List ShiftEvidence}
    (hnodup : (shifts.map ShiftEvidence.id).Nodup) :
    ∀ x ∈ shifts, ProjectedFrom ev venueId (b.projectAll ev venueId shifts) x := by
  suffices hgen : ∀ (l : List ShiftEvidence) (b : Books), (l.map ShiftEvidence.id).Nodup →
      (∀ y, ProjectedFrom ev venueId b y → y.id ∉ l.map ShiftEvidence.id →
        ProjectedFrom ev venueId (b.projectAll ev venueId l) y) ∧
      ∀ y ∈ l, ProjectedFrom ev venueId (b.projectAll ev venueId l) y from
    (hgen shifts b hnodup).2
  intro l
  induction l with
  | nil => exact fun b _ => ⟨fun y hy _ => hy, fun y hy => absurd hy List.not_mem_nil⟩
  | cons x l ih =>
      intro b hl
      rw [List.map_cons, List.nodup_cons] at hl
      obtain ⟨hkeep, hdone⟩ := ih (b.project ev venueId x) hl.2
      refine ⟨fun y hy hnot => ?_, fun y hy => ?_⟩
      · rw [List.map_cons, List.mem_cons, not_or] at hnot
        exact hkeep y (hy.project hnot.1) hnot.2
      · cases List.mem_cons.mp hy with
        | inl h => exact h ▸ hkeep x projectedFrom_project hl.1
        | inr h => exact hdone y h

end Books

/-! ## The program -/

section Program

variable (s : Platform) (ev : Evidence) (venueId : VenueId)

theorem eval_projectShift (shift : ShiftEvidence) :
    (projectShift ev venueId shift).eval Command.apply s =
      (.ok (s.books.outcome ev venueId shift),
        { s with books := s.books.project ev venueId shift }) := by
  unfold projectShift Books.outcome Books.project Books.projection Books.projectionOn
  cases hw : shift.mappedWorkerId with
  | none => rfl
  | some workerId =>
      rw [eval_get_bind]
      by_cases hsuper : s.books.Superseded (workerId, some shift.id)
      · simp [hsuper, Option.filter]
        rfl
      · rw [if_neg (by simpa using hsuper), eval_get_bind]
        cases hbase : s.books.baseEntry (workerId, some shift.id) with
        | none =>
            simp [hsuper, Option.filter, hbase]
            rfl
        | some entry =>
            simp [hsuper, Option.filter, hbase]
            rfl

theorem eval_mapEach_projectShift (shifts : List ShiftEvidence) :
    (Prog.mapEach shifts (projectShift ev venueId)).eval Command.apply s =
      (.ok (Books.outcomes ev venueId shifts s.books),
        { s with books := s.books.projectAll ev venueId shifts }) := by
  induction shifts generalizing s with
  | nil => rfl
  | cons shift shifts ih =>
      change (projectShift ev venueId shift >>= fun a =>
        Prog.mapEach shifts (projectShift ev venueId) >>= fun as =>
          (pure (a :: as) : Action _)).eval Command.apply s = _
      rw [Prog.eval_bind, eval_projectShift]
      change (Prog.mapEach shifts (projectShift ev venueId) >>= fun as =>
        (pure (_ :: as) : Action _)).eval Command.apply _ = _
      rw [Prog.eval_bind, ih]
      rfl

theorem eval_rebuildVenueIncomeLocked (actorUserId : Option UserId)
    (source : IncomeProjectionSource) :
    (rebuildVenueIncomeLocked venueId actorUserId source).eval Command.apply s =
      (.ok (s.books.resultOf (s.evidence venueId) venueId),
        { s with books := s.books.rebuilt (s.evidence venueId) venueId actorUserId source }) := by
  unfold rebuildVenueIncomeLocked
  rw [eval_get_bind, eval_get_bind, eval_get_bind, eval_get_bind, Prog.eval_bind,
    eval_mapEach_projectShift]
  rfl

theorem Platform.nodup_shiftsOf : ((s.shiftsOf venueId).map ShiftEvidence.id).Nodup :=
  (List.filter_sublist.map _).nodup s.world.db.shifts.nodup

/-- A rebuild leaves every shift of the venue projected from its evidence. -/
theorem projectedFrom_rebuildVenueIncomeLocked (actorUserId : Option UserId)
    (source : IncomeProjectionSource) :
    ∀ x ∈ (s.evidence venueId).shifts, ProjectedFrom (s.evidence venueId) venueId
      ((rebuildVenueIncomeLocked venueId actorUserId source).eval Command.apply s).2.books x := by
  rw [eval_rebuildVenueIncomeLocked]
  exact Books.projectedFrom_projectAll (s.nodup_shiftsOf venueId)

theorem eval_rebuildVenueIncome (hvenue : (s.world.db.venues.find venueId).isSome)
    (hfree : s.lock venueId = none) (session : Nat) (actorUserId : Option UserId)
    (source : IncomeProjectionSource) :
    (rebuildVenueIncome session venueId actorUserId source).eval Command.apply s =
      (.ok (some (s.books.resultOf (s.evidence venueId) venueId)),
        { s with books := s.books.rebuilt (s.evidence venueId) venueId actorUserId source }) := by
  unfold rebuildVenueIncome
  rw [eval_putGet_bind, hvenue, if_neg (by decide), Prog.eval_bind,
    eval_rebuildVenueIncomeLocked]
  have hlock : Function.update (Function.update s.lock venueId (some session)) venueId none =
      s.lock := by
    rw [Function.update_idem, ← hfree, Function.update_eq_self]
  simp only [Command.apply, if_pos hvenue]
  rw [eval_put_bind, Prog.eval_pure]
  simp only [Command.apply, Function.update_self, if_true, hlock]
  rfl

theorem eval_rebuildVenueIncome_of_none (hvenue : s.world.db.venues.find venueId = none)
    (session : Nat) (actorUserId : Option UserId) (source : IncomeProjectionSource) :
    (rebuildVenueIncome session venueId actorUserId source).eval Command.apply s =
      (.ok none, s) := by
  unfold rebuildVenueIncome
  rw [eval_putGet_bind, hvenue]
  simp [Command.apply, hvenue, Prog.eval_pure]

/-- The ledger after a rebuild, whoever holds the row of the venue. -/
theorem books_rebuildVenueIncome (session : Nat) (actorUserId : Option UserId)
    (source : IncomeProjectionSource) :
    ((rebuildVenueIncome session venueId actorUserId source).eval Command.apply s).2.books =
      if (s.world.db.venues.find venueId).isSome then
        s.books.rebuilt (s.evidence venueId) venueId actorUserId source
      else s.books := by
  unfold rebuildVenueIncome
  rw [eval_putGet_bind]
  by_cases hvenue : (s.world.db.venues.find venueId).isSome
  · rw [hvenue, if_neg (by decide), Prog.eval_bind, eval_rebuildVenueIncomeLocked, if_pos rfl]
    simp only [Command.apply, if_pos hvenue]
    rw [eval_put_bind, Prog.eval_pure]
    simp only [Command.apply, Function.update_self, if_true]
    rfl
  · rw [Bool.not_eq_true] at hvenue
    rw [hvenue, if_pos rfl, if_neg (by decide)]
    simp only [Command.apply, hvenue, Bool.false_eq_true, if_false]
    rfl

end Program

end ServeProof
