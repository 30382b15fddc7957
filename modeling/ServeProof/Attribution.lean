import ServeProof.Income.Lineage
import ServeProof.Interleave.Ends
import ServeProof.Knowledge.Requests
import ServeProof.Scenario

/-!
# ServeProof.Attribution

Whose income a shift is.

A rebuild writes an entry for each pair of a shift and the worker it is mapped
to then, and never takes one back.  So what stands in the ledger of a venue is
the history of its mappings (`holds_evalAll`), and each shift is the income of
one worker, the one it is mapped to, exactly when the mappings that earlier
rebuilds have found still stand.
-/

namespace ServeProof

open Interleave
open Prog (get put putGet require orThrow mapEach when ends_get_bind ends_put_bind
  ends_putGet_bind)

/-! ## Calls -/

/-- The calls that change what a projection is made of, and the rebuild. -/
inductive ProjectionCall where
  | importCsv (venueId : VenueId) (csv : CsvNormalizationResult) (actorUserId : Option UserId)
      (now : Time)
  | createMapping (id : AccountId) (workerId : WorkerId)
  | respondToMapping (id : AccountId) (userId : UserId) (decision : MappingDecision)
  | rebuildVenueIncome (venueId : VenueId) (actorUserId : Option UserId)
      (source : IncomeProjectionSource)

def ProjectionCall.prog [Collation] : ProjectionCall → Action Unit
  | .importCsv venueId csv by' now => settling (ServeProof.importCsv venueId csv by' now)
  | .createMapping id workerId =>
      settling (discardResult (ServeProof.createMapping id workerId))
  | .respondToMapping id userId decision => respondAndRefresh 0 id userId decision
  | .rebuildVenueIncome venueId by' source =>
      Request.ignoreResult (ServeProof.rebuildVenueIncome 0 venueId by' source)

/-- The calls, one after another, and whatever else is written in between. -/
def projections [Collation] : System Platform Command ApiError ProjectionCall PlatformMove where
  apply := Command.apply
  prog := ProjectionCall.prog
  env := PlatformMove.apply

/-- The state a call rebuilds a venue from, if it rebuilds one. -/
def ProjectionCall.rebuilds (s : Platform) : ProjectionCall → Option (VenueId × Platform)
  | .rebuildVenueIncome venueId _ _ =>
      if (s.world.db.venues.find venueId).isSome then some (venueId, s) else none
  | .respondToMapping id userId decision =>
      match (settling (respondAndCount id userId decision)).eval Command.apply s with
      | (.ok true, t) =>
          if (t.world.db.venues.find id.venueId).isSome then some (id.venueId, t) else none
      | (.ok false, _) | (.error _, _) => none
  | .importCsv .. | .createMapping .. => none

theorem ProjectionCall.rebuilds_rebuildVenueIncome {s : Platform} {venueId : VenueId}
    (h : (s.world.db.venues.find venueId).isSome) (actorUserId : Option UserId)
    (source : IncomeProjectionSource) :
    (ProjectionCall.rebuildVenueIncome venueId actorUserId source).rebuilds s =
      some (venueId, s) := if_pos h

/-- The states from which a run has rebuilt the venue. -/
def rebuiltFrom [Collation] (venueId : VenueId) :
    List (Op ProjectionCall PlatformMove) → Platform → List Platform
  | [], _ => []
  | .call c :: ops, s =>
      ((c.rebuilds s).filter fun r => r.1 = venueId).toList.map Prod.snd ++
        rebuiltFrom venueId ops (projections.evalOp (.call c) s)
  | .env e :: ops, s => rebuiltFrom venueId ops (projections.evalOp (.env e) s)

/-! ## Mappings -/

namespace Platform

/-- A shift of the venue is mapped to the worker of the pair. -/
def Maps (s : Platform) (venueId : VenueId) (pair : WorkerId × Option ShiftId) : Prop :=
  ∃ shift ∈ s.shiftsOf venueId, shift.MappedTo pair

instance (s : Platform) (venueId : VenueId) (pair : WorkerId × Option ShiftId) :
    Decidable (s.Maps venueId pair) := inferInstanceAs (Decidable (∃ _ ∈ _, _))

theorem Maps.venue {s : Platform} {venueId : VenueId} {pair : WorkerId × Option ShiftId}
    (h : s.Maps venueId pair) :
    pair.2.map ShiftId.venueId = some venueId := by
  obtain ⟨shift, hshift, -, hid⟩ := h
  rw [← hid, Option.map_some, (of_decide_eq_true (List.mem_filter.mp hshift).2)]

/-- A shift is mapped to one worker. -/
theorem Maps.unique {s : Platform} {venueId : VenueId} {workerId workerId' : WorkerId}
    {id : Option ShiftId} (h : s.Maps venueId (workerId, id))
    (h' : s.Maps venueId (workerId', id)) : workerId = workerId' := by
  obtain ⟨shift, hshift, hmapped, hid⟩ := h
  obtain ⟨shift', hshift', hmapped', hid'⟩ := h'
  have heq : shift = shift' := by
    refine s.world.db.shifts.eq_of_key_eq (List.mem_filter.mp hshift).1
      (List.mem_filter.mp hshift').1 ?_
    exact Option.some.inj (hid.trans hid'.symm)
  subst heq
  exact Option.some.inj (hmapped.symm.trans hmapped')

/-- The shifts of the venue that are mapped in `s` are mapped to the same workers
in `t`. -/
def MappingsStand (venueId : VenueId) (s t : Platform) : Prop :=
  ∀ shift ∈ s.shiftsOf venueId, ∀ workerId ∈ shift.mappedWorkerId,
    t.Maps venueId (workerId, some shift.id)

instance (venueId : VenueId) (s t : Platform) : Decidable (MappingsStand venueId s t) :=
  inferInstanceAs (Decidable (∀ _ ∈ _, _))

/-- Each shift of the venue is the income of one worker at most, and what is
projected of it is the income of the worker it is mapped to. -/
def OneWorkersIncome (s : Platform) (venueId : VenueId) : Prop :=
  (∀ shift ∈ s.shiftsOf venueId, ∀ e ∈ s.books.entries.rows, ∀ e' ∈ s.books.entries.rows,
    e.data.shiftId = some shift.id → e'.data.shiftId = some shift.id →
    e.effectiveStatus = .active → e'.effectiveStatus = .active → e = e') ∧
  ∀ e ∈ s.books.entries.rows, e.effectiveStatus = .active → e.Base →
    e.data.shiftId.map ShiftId.venueId = some venueId → s.Maps venueId e.pair

instance (s : Platform) (venueId : VenueId) : Decidable (s.OneWorkersIncome venueId) :=
  inferInstanceAs (Decidable (_ ∧ _))

end Platform

/-! ## A ledger without corrections -/

def BooksWrite.Corrects : BooksWrite → Prop
  | .correct .. => True
  | _ => False

namespace Books

/-- Some entry is about the pair. -/
def Holds (b : Books) (pair : WorkerId × Option ShiftId) : Prop :=
  ∃ e ∈ b.entries.rows, e.pair = pair

/-- Nothing has been corrected: each pair has one entry, its base entry, and it is
active. -/
structure Plain (b : Books) : Prop where
  lineage : b.Lineage
  base : ∀ e ∈ b.entries.rows, e.Base
  active : ∀ e ∈ b.entries.rows, e.effectiveStatus = .active

theorem plain_empty : Books.empty.Plain where
  lineage := lineage_empty
  base _ h := absurd h List.not_mem_nil
  active _ h := absurd h List.not_mem_nil

variable {b : Books} {c : BooksWrite}

theorem Plain.not_superseded (hb : b.Plain) (pair : WorkerId × Option ShiftId) :
    ¬ b.Superseded pair := by
  intro ⟨e, he, _, hs⟩
  cases (hb.active e he).symm.trans hs

/-- A write other than a correction adds its target, as a pair with one active
entry. -/
theorem Plain.apply (hb : b.Plain) (h : b.Admits c) (hc : ¬ c.Corrects) :
    (c.apply b).Plain := by
  constructor
  · exact hb.lineage.apply h
  · intro e' he'
    obtain ⟨e, he, hchange⟩ | ⟨data, -, rfl⟩ | ⟨o, a, i, hk, -⟩ := entry_of_apply he'
    · exact (hchange.became h he).base.mpr (hb.base e he)
    · rfl
    · exact absurd (hk ▸ trivial) hc
  · intro e' he'
    obtain ⟨e, he, hchange⟩ | ⟨data, -, rfl⟩ | ⟨o, a, i, hk, -⟩ := entry_of_apply he'
    · cases hchange with
      | stays _ => exact hb.active _ he
      | projected data hk => rfl
      | superseded o a i hk hid => exact absurd (hk ▸ trivial) hc
    · rfl
    · exact absurd (hk ▸ trivial) hc

theorem holds_apply (h : b.Admits c) (hc : ¬ c.Corrects)
    {pair : WorkerId × Option ShiftId} :
    (c.apply b).Holds pair ↔ b.Holds pair ∨ c.target = some pair := by
  constructor
  · intro ⟨e', he', hp⟩
    obtain ⟨e, he, hchange⟩ | ⟨data, rfl, rfl⟩ | ⟨o, a, i, hk, -⟩ := entry_of_apply he'
    · exact .inl ⟨e, he, (hchange.became h he).pair.symm.trans hp⟩
    · exact .inr (congrArg some hp)
    · exact absurd (hk ▸ trivial) hc
  · intro hp
    have hkept (hp : b.Holds pair) : (c.apply b).Holds pair := by
      obtain ⟨e, he, hp⟩ := hp
      obtain ⟨e', he', hchange⟩ := entry_apply c he
      exact ⟨e', he', (hchange.became h he).pair.trans hp⟩
    cases hp with
    | inl hp => exact hkept hp
    | inr hp =>
        cases c with
        | updateEntry id data =>
            cases hp
            obtain ⟨e, he, -⟩ := h
            obtain ⟨hmem, hp, -⟩ := mem_of_baseEntry he
            exact hkept ⟨e, hmem, hp⟩
        | createEntry data =>
            cases hp
            refine ⟨.base data b.nextEntryId, ?_, rfl⟩
            rw [BooksWrite.rows_apply]
            exact List.mem_append_right _ (List.mem_singleton.mpr rfl)
        | correct o a i => exact absurd trivial hc
        | savePayroll | deleteAlerts | createAlerts | log => cases hp

end Books

/-! ## One rebuild -/

/-- What a rebuild of the venue from `s` has come to, when the shifts `done` have
been projected. -/
structure Projected (s : Platform) (venueId : VenueId) (done : List ShiftEvidence)
    (t : Platform) : Prop where
  world : t.world = s.world
  plain : t.books.Plain
  holds : ∀ pair, t.books.Holds pair ↔ s.books.Holds pair ∨ ∃ shift ∈ done, shift.MappedTo pair

section Rebuild

variable {s t : Platform} {venueId : VenueId} {done : List ShiftEvidence}

/-- A write of the rebuild that projects no shift. -/
theorem Projected.write (ht : Projected s venueId done t) {c : BooksWrite}
    (h : t.books.Admits c) (hc : ¬ c.Corrects) (htarget : c.target = none) :
    Projected s venueId done ((Command.books c).apply t) := by
  refine ⟨ht.world, ht.plain.apply h hc, fun pair => ?_⟩
  rw [← ht.holds pair]
  exact (Books.holds_apply h hc).trans (by simp [htarget])

/-- A write of the rebuild that projects the shift `x`. -/
theorem Projected.project (ht : Projected s venueId done t) {x : ShiftEvidence}
    {workerId : WorkerId} (hx : x.mappedWorkerId = some workerId) {c : BooksWrite}
    (h : t.books.Admits c) (hc : ¬ c.Corrects)
    (htarget : c.target = some (workerId, some x.id)) :
    Projected s venueId (done ++ [x]) ((Command.books c).apply t) := by
  have hmapped (pair : WorkerId × Option ShiftId) :
      c.target = some pair ↔ x.MappedTo pair := by
    rw [htarget, Option.some.injEq, ShiftEvidence.MappedTo, hx, Option.some.injEq, Prod.ext_iff]
  refine ⟨ht.world, ht.plain.apply h hc, fun pair => ?_⟩
  refine (Books.holds_apply h hc).trans ?_
  rw [ht.holds pair, hmapped pair]
  simp [or_and_right, exists_or, or_assoc]

theorem Projected.append (ht : Projected s venueId done t) {x : ShiftEvidence}
    (hx : x.mappedWorkerId = none) : Projected s venueId (done ++ [x]) t := by
  refine ⟨ht.world, ht.plain, fun pair => ?_⟩
  rw [ht.holds pair]
  simp [or_and_right, exists_or, ShiftEvidence.MappedTo, hx]

variable {ok : Command → Platform → Prop} {fails : Platform → Prop}

/-- One turn of the loop. -/
theorem ends_projectShift (ev : Evidence) (x : ShiftEvidence)
    (ht : Projected s venueId done t) :
    (projectShift ev venueId x).Ends Command.apply ok fails t fun _ u =>
      Projected s venueId (done ++ [x]) u := by
  unfold projectShift
  cases hx : x.mappedWorkerId with
  | none => exact ht.append hx
  | some workerId =>
      refine ends_get_bind.mpr (Prog.Ends.ite (fun hsuper => ?_) fun _ => ?_)
      · exact absurd (of_decide_eq_true hsuper) (ht.plain.not_superseded _)
      · refine ends_get_bind.mpr ?_
        cases hbase : t.books.baseEntry (workerId, some x.id) with
        | none =>
            refine ends_put_bind.mpr fun _ => ?_
            exact ht.project hx (c := .createEntry (ev.entryData venueId x workerId)) hbase
              id rfl
        | some entry =>
            refine ends_put_bind.mpr fun _ => ?_
            exact ht.project hx (c := .updateEntry entry.id (ev.entryData venueId x workerId))
              ⟨entry, hbase, rfl⟩ id rfl

/-- A rebuild of a venue that there is adds the pairs its shifts are mapped to. -/
theorem ends_rebuildVenueIncomeLocked (ht : Projected s venueId [] t)
    (actorUserId : Option UserId) (source : IncomeProjectionSource) :
    (rebuildVenueIncomeLocked venueId actorUserId source).Ends Command.apply ok fails t
      fun _ u => Projected s venueId (s.shiftsOf venueId) u := by
  refine ends_get_bind.mpr (ends_get_bind.mpr (ends_get_bind.mpr (ends_get_bind.mpr ?_)))
  have hshifts : t.shiftsOf venueId = s.shiftsOf venueId := by
    rw [Platform.shiftsOf, Platform.shiftsOf, ht.world]
  rw [hshifts]
  refine Prog.Ends.bind (Prog.Ends.mono (Prog.Ends.mapEach
    (J := fun rest u => ∃ done, done ++ rest = s.shiftsOf venueId ∧ Projected s venueId done u)
    (fun x rest u hu => ?_) ⟨[], rfl, ht⟩) fun outcomes u hu => ?_)
  · obtain ⟨done, hdone, hu⟩ := hu
    refine (ends_projectShift _ x hu).mono fun _ v hv => ⟨done ++ [x], ?_, hv⟩
    rw [List.append_assoc, List.singleton_append, hdone]
  · obtain ⟨done, hdone, hu⟩ := hu
    rw [List.append_nil] at hdone
    subst hdone
    refine ends_put_bind.mpr fun _ => ends_put_bind.mpr fun _ => ends_put_bind.mpr fun _ => ?_
    refine Projected.write (c := .log _) ?_ trivial id rfl
    refine Projected.write (c := .createAlerts _) ?_ trivial id rfl
    exact hu.write (c := .deleteAlerts venueId) trivial id rfl

/-- What a rebuild leaves: the pairs the shifts of the venue are mapped to are
added, when there is such a venue. -/
structure Rebuilt (s : Platform) (venueId : VenueId) (t : Platform) : Prop where
  world : t.world = s.world
  plain : t.books.Plain
  holds : ∀ pair, t.books.Holds pair ↔
    s.books.Holds pair ∨ (s.world.db.venues.find venueId).isSome ∧ s.Maps venueId pair

theorem rebuilt_rebuildVenueIncome (hs : s.books.Plain) (session : Nat)
    (actorUserId : Option UserId) (source : IncomeProjectionSource) :
    Rebuilt s venueId
      ((rebuildVenueIncome session venueId actorUserId source).eval Command.apply s).2 := by
  suffices hends : (rebuildVenueIncome session venueId actorUserId source).Ends Command.apply
      (fun _ _ => True) (Rebuilt s venueId) s fun _ t => Rebuilt s venueId t from
    hends.eval (Prog.admitted_true _ s) fun _ _ h => h
  refine ends_putGet_bind.mpr fun _ => ?_
  by_cases hvenue : (s.world.db.venues.find venueId).isSome
  · rw [hvenue]
    refine Prog.Ends.bind (Prog.Ends.mono
      (ends_rebuildVenueIncomeLocked (s := s) ⟨?_, ?_, ?_⟩ actorUserId source)
      fun result u hu => ?_)
    · simp only [Command.apply, if_pos hvenue]
    · simpa only [Command.apply, if_pos hvenue] using hs
    · simp only [Command.apply, if_pos hvenue]
      simp
    · refine ends_put_bind.mpr fun _ => ?_
      have hunlock : ((Command.unlockVenue session venueId).apply u).world = u.world ∧
          ((Command.unlockVenue session venueId).apply u).books = u.books := by
        simp only [Command.apply]
        split <;> exact ⟨rfl, rfl⟩
      refine ⟨hunlock.1.trans hu.world, hunlock.2 ▸ hu.plain, fun pair => ?_⟩
      rw [hunlock.2, hu.holds pair]
      simp [hvenue, Platform.Maps]
  · rw [Bool.not_eq_true] at hvenue
    have hsame : (Command.lockVenue session venueId).apply s = s := by
      simp only [Command.apply, hvenue, Bool.false_eq_true, if_false]
    rw [hvenue, hsame]
    exact ⟨rfl, hs, fun pair => by simp [hvenue]⟩

end Rebuild

/-! ## One call -/

theorem books_settling {α : Type} (p : Service α) (s : Platform) :
    ((settling p).eval Command.apply s).2.books = s.books := by
  refine Prog.Only.eval_eq (f := Platform.books) (fun c s hc => ?_) (only_settling p) s
  cases c with
  | settle c => rfl
  | books | disclose | correct | redis | lockVenue | unlockVenue | answer => exact hc.elim

theorem holds_env {s : Platform} (hs : s.books.Plain) (e : PlatformMove) :
    (e.apply s).books.Plain ∧
      ∀ pair, (e.apply s).books.Holds pair ↔ s.books.Holds pair := by
  cases e with
  | world e => exact ⟨hs, fun _ => Iff.rfl⟩
  | wait ms => exact ⟨hs, fun _ => Iff.rfl⟩
  | payroll row =>
      refine ⟨hs.apply (c := .savePayroll row) trivial id, fun pair => ?_⟩
      exact (Books.holds_apply (c := .savePayroll row) trivial id).trans
        (by simp [BooksWrite.target])

section Calls

variable [Collation] {s : Platform} {venueId : VenueId}

theorem evalOp_rebuildVenueIncome (actorUserId : Option UserId)
    (source : IncomeProjectionSource) :
    projections.evalOp (.call (.rebuildVenueIncome venueId actorUserId source)) s =
      ((rebuildVenueIncome 0 venueId actorUserId source).eval Command.apply s).2 :=
  Prog.eval_bind_pure

/-- A response rebuilds the venue after the links it has made. -/
theorem evalOp_respondToMapping (id : AccountId) (userId : UserId) (decision : MappingDecision) :
    projections.evalOp (.call (.respondToMapping id userId decision)) s =
      match (settling (respondAndCount id userId decision)).eval Command.apply s with
      | (.ok true, t) =>
          ((rebuildVenueIncome 0 id.venueId (some userId) .system).eval Command.apply t).2
      | (.ok false, t) | (.error _, t) => t := by
  change ((respondAndRefresh 0 id userId decision).eval Command.apply s).2 = _
  rw [respondAndRefresh, Prog.eval_bind]
  rcases (settling (respondAndCount id userId decision)).eval Command.apply s with ⟨e | linked, t⟩
  · rfl
  · cases linked with
    | false => rfl
    | true =>
        simp only [when, if_true]
        exact Prog.eval_bind_pure.trans (congrArg Prod.snd Prog.eval_attempt)

/-- A call that rebuilds a venue. -/
theorem rebuilt_of_rebuilds (hs : s.books.Plain) {c : ProjectionCall} {t : Platform}
    (h : c.rebuilds s = some (venueId, t)) :
    t.books = s.books ∧ (t.world.db.venues.find venueId).isSome ∧
      Rebuilt t venueId (projections.evalOp (.call c) s) := by
  cases c with
  | importCsv => cases h
  | createMapping => cases h
  | rebuildVenueIncome venueId' by' source =>
      obtain ⟨hvenue, h⟩ := Option.ite_none_right_eq_some.mp h
      cases h
      rw [evalOp_rebuildVenueIncome]
      exact ⟨rfl, hvenue, rebuilt_rebuildVenueIncome hs 0 by' source⟩
  | respondToMapping id userId decision =>
      have hbooks := books_settling (respondAndCount id userId decision) s
      rw [evalOp_respondToMapping]
      simp only [ProjectionCall.rebuilds] at h
      rcases hlink : (settling (respondAndCount id userId decision)).eval Command.apply s with
        ⟨e | linked, u⟩
      · rw [hlink] at h
        cases h
      · rw [hlink] at h hbooks
        cases linked with
        | false => cases h
        | true =>
            obtain ⟨hvenue, h⟩ := Option.ite_none_right_eq_some.mp h
            cases h
            exact ⟨hbooks, hvenue, rebuilt_rebuildVenueIncome (hbooks ▸ hs) 0 (some userId) .system⟩

/-- A call that rebuilds nothing. -/
theorem holds_of_not_rebuilds (hs : s.books.Plain) {c : ProjectionCall}
    (h : c.rebuilds s = none) :
    (projections.evalOp (.call c) s).books.Plain ∧
      ∀ pair, (projections.evalOp (.call c) s).books.Holds pair ↔ s.books.Holds pair := by
  have hsame {t : Platform} (ht : t.books = s.books) :
      t.books.Plain ∧ ∀ pair, t.books.Holds pair ↔ s.books.Holds pair := by
    rw [ht]
    exact ⟨hs, fun _ => Iff.rfl⟩
  -- no venue to rebuild
  have hnone {t u : Platform} {venueId : VenueId} (ht : t.books = s.books)
      (hvenue : ¬ (t.world.db.venues.find venueId).isSome) (hu : Rebuilt t venueId u) :
      u.books.Plain ∧ ∀ pair, u.books.Holds pair ↔ s.books.Holds pair := by
    refine ⟨hu.plain, fun pair => ?_⟩
    rw [hu.holds pair, ht]
    simp [hvenue]
  cases c with
  | importCsv venueId csv by' now => exact hsame (books_settling _ s)
  | createMapping id workerId => exact hsame (books_settling _ s)
  | rebuildVenueIncome venueId' by' source =>
      rw [evalOp_rebuildVenueIncome]
      have hvenue : ¬ (s.world.db.venues.find venueId').isSome := by
        simpa [ProjectionCall.rebuilds] using h
      exact hnone rfl hvenue (rebuilt_rebuildVenueIncome hs 0 by' source)
  | respondToMapping id userId decision =>
      have hbooks := books_settling (respondAndCount id userId decision) s
      rw [evalOp_respondToMapping]
      simp only [ProjectionCall.rebuilds] at h
      rcases hlink : (settling (respondAndCount id userId decision)).eval Command.apply s with
        ⟨e | linked, u⟩
      · rw [hlink] at hbooks
        exact hsame hbooks
      · rw [hlink] at h hbooks
        cases linked with
        | false => exact hsame hbooks
        | true =>
            have hvenue : ¬ (u.world.db.venues.find id.venueId).isSome := by simpa using h
            exact hnone hbooks hvenue
              (rebuilt_rebuildVenueIncome (hbooks ▸ hs) 0 (some userId) .system)

end Calls

/-! ## A run -/

section Runs

variable [Collation] {s : Platform} {venueId : VenueId}

theorem mem_rebuiltFrom_call {c : ProjectionCall} {ops : List (Op ProjectionCall PlatformMove)}
    {t : Platform} : t ∈ rebuiltFrom venueId (.call c :: ops) s ↔
      c.rebuilds s = some (venueId, t) ∨
        t ∈ rebuiltFrom venueId ops (projections.evalOp (.call c) s) := by
  rw [rebuiltFrom, List.mem_append]
  refine or_congr_left ?_
  cases c.rebuilds s with
  | none => simp
  | some r => simp [Option.filter, Prod.ext_iff]

/-- The pairs of a ledger without corrections are those that rebuilds have found. -/
theorem holds_evalAll (hs : s.books.Plain) (ops : List (Op ProjectionCall PlatformMove)) :
    (projections.evalAll ops s).books.Plain ∧
      ∀ pair, (projections.evalAll ops s).books.Holds pair ↔
        s.books.Holds pair ∨ ∃ v, ∃ t ∈ rebuiltFrom v ops s, t.Maps v pair := by
  induction ops generalizing s with
  | nil => exact ⟨hs, fun pair => by simp [rebuiltFrom]⟩
  | cons op ops ih =>
      cases op with
      | env e =>
          obtain ⟨hplain, hsame⟩ := holds_env hs e
          obtain ⟨hend, hholds⟩ := ih hplain
          exact ⟨hend, fun pair => (hholds pair).trans (or_congr_left (hsame pair))⟩
      | call c =>
          simp only [System.evalAll_cons, mem_rebuiltFrom_call]
          cases hc : c.rebuilds s with
          | none =>
              obtain ⟨hplain, hsame⟩ := holds_of_not_rebuilds hs hc
              obtain ⟨hend, hholds⟩ := ih hplain
              refine ⟨hend, fun pair => ?_⟩
              rw [hholds pair, hsame pair]
              simp
          | some r =>
              obtain ⟨v, t⟩ := r
              obtain ⟨hbooks, hvenue, hrebuilt⟩ := rebuilt_of_rebuilds hs hc
              obtain ⟨hend, hholds⟩ := ih hrebuilt.plain
              refine ⟨hend, fun pair => ?_⟩
              rw [hholds pair, hrebuilt.holds pair, hbooks, or_assoc]
              refine or_congr_right ?_
              simp [hvenue, or_and_right, exists_or]

variable {world : World} {clock : Date} {signingKey : String}
  {ops : List (Op ProjectionCall PlatformMove)} {c : ProjectionCall} {t : Platform}

/-- **One worker's income**: right after a rebuild of a venue each of its shifts is
the income of one worker, the one it is mapped to, exactly when the mappings that
earlier rebuilds of the venue have found still stand. -/
theorem oneWorkersIncome_iff
    (hc : c.rebuilds (projections.evalAll ops (Platform.fresh world clock signingKey)) =
      some (venueId, t)) :
    (projections.evalAll (ops ++ [.call c])
        (Platform.fresh world clock signingKey)).OneWorkersIncome venueId ↔
      ∀ u ∈ rebuiltFrom venueId ops (Platform.fresh world clock signingKey),
        Platform.MappingsStand venueId u t := by
  obtain ⟨hplain, hholds⟩ := holds_evalAll (s := Platform.fresh world clock signingKey)
    Books.plain_empty ops
  obtain ⟨hbooks, hvenue, hrebuilt⟩ := rebuilt_of_rebuilds hplain hc
  rw [System.evalAll_append, System.evalAll_cons, System.evalAll_nil]
  generalize projections.evalOp (.call c) _ = after at hrebuilt
  have hmaps (pair : WorkerId × Option ShiftId) :
      after.Maps venueId pair ↔ t.Maps venueId pair := by
    rw [Platform.Maps, Platform.Maps, Platform.shiftsOf, Platform.shiftsOf, hrebuilt.world]
  have hfound (pair : WorkerId × Option ShiftId) : after.books.Holds pair ↔
      (∃ v, ∃ u ∈ rebuiltFrom v ops (Platform.fresh world clock signingKey), u.Maps v pair) ∨
        t.Maps venueId pair := by
    have hempty : ¬ Books.empty.Holds pair := fun ⟨e, he, _⟩ => absurd he List.not_mem_nil
    rw [hrebuilt.holds pair, hbooks, hholds pair]
    simp only [hvenue, true_and]
    exact or_congr_left (or_iff_right hempty)
  constructor
  · intro ⟨_, hcurrent⟩ u hu shift hshift workerId hmapped
    have hpair : u.Maps venueId (workerId, some shift.id) := ⟨shift, hshift, hmapped, rfl⟩
    obtain ⟨e, he, hep⟩ := (hfound _).mpr (.inl ⟨venueId, u, hu, hpair⟩)
    have hvenue : e.data.shiftId.map ShiftId.venueId = some venueId := by
      have hid : e.data.shiftId = some shift.id := congrArg Prod.snd hep
      rw [hid]
      exact hpair.venue
    exact (hmaps _).mp (hep ▸ hcurrent e he (hrebuilt.plain.active e he)
      (hrebuilt.plain.base e he) hvenue)
  · intro hstand
    have hcurrent : ∀ e ∈ after.books.entries.rows,
        e.data.shiftId.map ShiftId.venueId = some venueId → after.Maps venueId e.pair := by
      intro e he hvenue
      rw [hmaps]
      obtain ⟨v, u, hu, hpair⟩ | hpair := (hfound e.pair).mp ⟨e, he, rfl⟩
      · have hv : venueId = v := Option.some.inj (hvenue.symm.trans hpair.venue)
        subst hv
        obtain ⟨shift, hshift, hmapped, hid⟩ := hpair
        have hnow := hstand u hu shift hshift e.pair.1 hmapped
        rwa [hid] at hnow
      · exact hpair
    refine ⟨fun shift hshift e he e' he' hid hid' _ _ => ?_, fun e he _ _ hvenue =>
      hcurrent e he hvenue⟩
    have hvenue : (some shift.id).map ShiftId.venueId = some venueId :=
      congrArg some (of_decide_eq_true (List.mem_filter.mp hshift).2)
    have hmaps : after.Maps venueId (e.data.workerId, some shift.id) :=
      hid ▸ hcurrent e he (hid ▸ hvenue)
    have hmaps' : after.Maps venueId (e'.data.workerId, some shift.id) :=
      hid' ▸ hcurrent e' he' (hid' ▸ hvenue)
    refine hrebuilt.plain.lineage.oneBase e he e' he' (hrebuilt.plain.base e he)
      (hrebuilt.plain.base e' he') ?_
    exact Prod.ext (hmaps.unique hmaps') (hid.trans hid'.symm)

end Runs

namespace Scenario

abbrev projecting : System Platform Command ApiError ProjectionCall PlatformMove :=
  @projections byCodePoint

/-- Nothing has been imported yet. -/
def unopened : Platform := Platform.fresh World.empty 0 "key"

/-- The account the first worker gives up and the second takes over. -/
abbrev till : AccountId := ⟨venue, "square", "till"⟩

/-- One shift, worked under the account. -/
def timesheet : CsvNormalizationResult where
  tips := []
  shifts := [⟨"square", "shift", "till", "SERVER", 0, 3600000, 60, date, 1, none, "PENDING"⟩]

abbrev rebuild : ProjectionCall := .rebuildVenueIncome venue none .manual

/-- The worker accepts the account; the shift is imported and projected. -/
def projected : List (Op ProjectionCall PlatformMove) :=
  [.env (.world (.record (.saveVenue ⟨venue, "Venue", none⟩))),
    .env (.world (.record (.saveWorker ⟨worker, "worker-user", "Worker", none⟩))),
    .env (.world (.record (.saveWorker ⟨"other", "other-user", "Other", none⟩))),
    .call (.createMapping till worker),
    .call (.respondToMapping till "worker-user" .accept),
    .call (.importCsv venue timesheet none 0),
    .call rebuild]

/-- The other worker accepts it too; the shift is imported again. -/
def reassigned : List (Op ProjectionCall PlatformMove) :=
  projected ++
    [.call (.createMapping till "other"),
      .call (.respondToMapping till "other-user" .accept),
      .call (.importCsv venue timesheet none 0)]

end Scenario

open Scenario

theorem oneWorkersIncome_projected :
    (projecting.evalAll (projected ++ [.call rebuild]) unopened).OneWorkersIncome venue :=
  (@oneWorkersIncome_iff byCodePoint venue World.empty 0 "key" projected rebuild
    (projecting.evalAll projected unopened)
    (ProjectionCall.rebuilds_rebuildVenueIncome (by decide +kernel) none .manual)).mpr
      (by decide +kernel)

/-- The shift ends up as the income of both. -/
theorem income_of_both :
    rebuild.rebuilds (projecting.evalAll reassigned unopened) =
      some (venue, projecting.evalAll reassigned unopened) ∧
    ¬ (projecting.evalAll (reassigned ++ [.call rebuild]) unopened).OneWorkersIncome venue ∧
    (projecting.evalAll (reassigned ++ [.call rebuild]) unopened).books.entries.rows.map
        (fun e => (e.pair, e.effectiveStatus)) =
      [((worker, some ⟨venue, "square", "shift"⟩), .active),
        (("other", some ⟨venue, "square", "shift"⟩), .active)] :=
  ⟨ProjectionCall.rebuilds_rebuildVenueIncome (by decide +kernel) none .manual,
    by decide +kernel, by decide +kernel⟩

end ServeProof
