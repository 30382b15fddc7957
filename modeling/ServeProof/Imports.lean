import ServeProof.Audit
import ServeProof.Interleave.Eval
import ServeProof.Sources.Csv
import ServeProof.Upserts

/-!
# ServeProof.Imports

What an import of a CSV that runs alone leaves: its tips and its shifts are
upserted, one after the other, and nothing else that the calculation reads
changes.
-/

namespace ServeProof

open Interleave

theorem MakesBatch.records {c : Write} (hc : MakesBatch c) (w : World) :
    (c.apply w).db.records = w.db.records := by
  cases c with
  | batch c => exact c.records_apply w.db
  | payout c => exact hc.elim
  | record c => exact hc.elim
  | broadcast p tx => exact hc.elim

/-! ## Rows -/

def NormalizedTip.key (venueId : VenueId) (tip : NormalizedTip) : TipId :=
  ⟨venueId, tip.provider, tip.externalPaymentId, tip.tipType⟩

def NormalizedShift.key (venueId : VenueId) (shift : NormalizedShift) : ShiftId :=
  ⟨venueId, shift.provider, shift.externalShiftId⟩

/-- The worker an import maps a shift to. -/
def NormalizedShift.resolved (accounts : List ExternalWorkerAccount) (shift : NormalizedShift) :
    Option WorkerId :=
  workerByExternalId accounts shift.provider shift.externalWorkerId

def NormalizedShift.row (venueId : VenueId) (accounts : List ExternalWorkerAccount)
    (shift : NormalizedShift) (old : Option ShiftEvidence) : ShiftEvidence :=
  RecordWrite.shiftRow venueId shift (shift.resolved accounts) old

/-- A tip that is upserted keeps the payment and the refund status of its row. -/
theorem absorbs_tipRow (venueId : VenueId) :
    Table.Absorbs (NormalizedTip.key venueId) TipEvidence.id (RecordWrite.tipRow venueId) where
  key_row _ _ := rfl
  row_row _ _ _ := rfl

/-- A shift that is upserted keeps the source and the status of its row. -/
theorem absorbs_shiftRow (venueId : VenueId) (accounts : List ExternalWorkerAccount) :
    Table.Absorbs (NormalizedShift.key venueId) ShiftEvidence.id
      (NormalizedShift.row venueId accounts) where
  key_row _ _ := rfl
  row_row _ _ _ := rfl

/-! ## The import -/

section Import

variable [Collation] (venueId : VenueId) (csv : CsvNormalizationResult)
  (actorUserId : Option UserId) (now : Time)

/-- The world after an import that runs alone. -/
def World.imported (w : World) : World :=
  ((importCsv venueId csv actorUserId now).eval Write.apply w).2

def storeTip (w : World) (tip : NormalizedTip) : World :=
  (Write.record (.csvTip venueId tip)).apply w

def storeShift (accounts : List ExternalWorkerAccount) (w : World) (shift : NormalizedShift) :
    World := (Write.record (.csvShift venueId shift (shift.resolved accounts))).apply w

omit [Collation] in
theorem tips_storeTip (tips : List NormalizedTip) (w : World) :
    (tips.foldl (storeTip venueId) w).db.tips =
      Table.upsertAll (NormalizedTip.key venueId) (RecordWrite.tipRow venueId) tips w.db.tips :=
  (List.foldl_hom (fun w : World => w.db.tips) fun _ _ => rfl).symm

omit [Collation] in
theorem shifts_storeShift (accounts : List ExternalWorkerAccount) (shifts : List NormalizedShift)
    (w : World) :
    (shifts.foldl (storeShift venueId accounts) w).db.shifts =
      Table.upsertAll (NormalizedShift.key venueId) (NormalizedShift.row venueId accounts) shifts
        w.db.shifts :=
  (List.foldl_hom (fun w : World => w.db.shifts) fun _ _ => rfl).symm

omit [Collation] in
/-- What no turn of a loop changes, the loop does not change. -/
theorem foldl_eq_of_turn {β γ : Type} {turn : World → β → World} {f : World → γ}
    (h : ∀ w x, f (turn w x) = f w) (xs : List β) (w : World) : f (xs.foldl turn w) = f w := by
  induction xs generalizing w with
  | nil => rfl
  | cons x xs ih => exact (ih (turn w x)).trans (h w x)

/-- The tips, then the shifts, then calculations. -/
theorem records_imported {w : World} (hvenue : (w.db.venues.find venueId).isSome) :
    (w.imported venueId csv actorUserId now).db.records =
      (csv.shifts.foldl (storeShift venueId (w.confirmedAccounts venueId))
        (csv.tips.foldl (storeTip venueId) w)).db.records := by
  obtain ⟨venue, hvenue⟩ := Option.isSome_iff_exists.mp hvenue
  simp only [World.imported, importCsv]
  rw [Prog.eval_get_bind, hvenue, Prog.eval_orThrow_bind]
  simp only
  rw [Prog.eval_get_bind, Prog.eval_bind,
    Prog.eval_forEach (fun tip w => storeTip venueId w tip) fun _ _ => rfl]
  simp only
  rw [Prog.eval_bind, Prog.eval_forEach
    (fun shift u => storeShift venueId (w.confirmedAccounts venueId) u shift) fun _ _ => rfl]
  simp only
  refine Prog.Only.eval_eq (f := fun w : World => w.db.records)
    (fun c w (hc : MakesBatch c) => hc.records w) (Prog.Only.forEach fun date _ => ?_) _
  refine Prog.Only.bind (Prog.Only.attempt ?_) fun _ => trivial
  exact only_calculate venueId date none actorUserId now

variable {venueId csv actorUserId now} {w : World}

theorem tips_imported (hvenue : (w.db.venues.find venueId).isSome) :
    (w.imported venueId csv actorUserId now).db.tips =
      Table.upsertAll (NormalizedTip.key venueId) (RecordWrite.tipRow venueId) csv.tips
        w.db.tips := by
  have hsame (u : World) (shift : NormalizedShift) :
      (storeShift venueId (w.confirmedAccounts venueId) u shift).db.tips = u.db.tips := rfl
  rw [← tips_storeTip]
  refine (congrArg Records.tips (records_imported venueId csv actorUserId now hvenue)).trans ?_
  exact foldl_eq_of_turn (f := fun w : World => w.db.tips) hsame csv.shifts _

theorem shifts_imported (hvenue : (w.db.venues.find venueId).isSome) :
    (w.imported venueId csv actorUserId now).db.shifts =
      Table.upsertAll (NormalizedShift.key venueId)
        (NormalizedShift.row venueId (w.confirmedAccounts venueId)) csv.shifts w.db.shifts := by
  have hsame (u : World) (tip : NormalizedTip) :
      (storeTip venueId u tip).db.shifts = u.db.shifts := rfl
  rw [← foldl_eq_of_turn (f := fun w : World => w.db.shifts) hsame csv.tips w,
    ← shifts_storeShift]
  exact congrArg Records.shifts (records_imported venueId csv actorUserId now hvenue)

/-- An import changes no other record. -/
theorem other_imported {γ : Type} {f : Records → γ}
    (hf : ∀ r tips shifts, f { r with tips := tips, shifts := shifts } = f r)
    (hvenue : (w.db.venues.find venueId).isSome) :
    f (w.imported venueId csv actorUserId now).db.records = f w.db.records := by
  rw [records_imported venueId csv actorUserId now hvenue]
  refine (foldl_eq_of_turn (f := fun w : World => f w.db.records) (fun w _ => ?_)
    csv.shifts _).trans (foldl_eq_of_turn (f := fun w : World => f w.db.records)
      (fun w _ => ?_) csv.tips w)
  · exact hf w.db.records w.db.tips _
  · exact hf w.db.records _ w.db.shifts

end Import

end ServeProof
