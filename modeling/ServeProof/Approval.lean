import ServeProof.Scenario

/-!
# ServeProof.Approval

What an approval fixes.

* Once a batch is approved, calculations and rejections leave it alone -- as
  long as none is saved that had checked the batch before its approval.
* At most one batch of a venue and a business date is approved -- as long as no
  batch is approved next to an approved one of another policy version.
-/

namespace ServeProof

open Interleave System

/-- The batch was approved. -/
def World.Approved (w : World) (b : BatchId) : Prop :=
  ∃ r ∈ w.db.batches.rows, r.id = b ∧ r.status.Approved

instance (w : World) (b : BatchId) : Decidable (w.Approved b) :=
  inferInstanceAs (Decidable (∃ r ∈ _, _))

theorem World.approved_iff {w : World} {b : BatchId} :
    w.Approved b ↔ ∃ r, w.db.batches.find b = some r ∧ r.status.Approved := by
  constructor
  · rintro ⟨r, hr, rfl, hs⟩
    exact ⟨r, Table.find_key hr, hs⟩
  · rintro ⟨r, hr, hs⟩
    exact ⟨r, Table.mem_of_find hr, Table.key_of_find hr, hs⟩

/-! ## An approved batch is immutable -/

/-- What an approval fixes of a batch. -/
def AllocationBatch.image (b : AllocationBatch) : Int × Option Digest × Option Digest :=
  (b.tipPoolAmountUsdCents, b.evidenceHash, b.allocationHash)

/-- A calculation or a rejection that goes through meets no approved batch. -/
def SparesApproved : Write → World → Prop
  | .batch (.saveCalculation seen c), w =>
      (BatchWrite.saveCalculation seen c).Applies w.db → ¬ w.Approved c.batchId
  | .batch (.reject seen _ _), w => ¬ w.Approved seen.id
  | _, _ => True

instance (c : Write) (w : World) : Decidable (SparesApproved c w) :=
  match c with
  | .batch (.saveCalculation ..) => inferInstanceAs (Decidable (_ → ¬ _))
  | .batch (.reject ..) => inferInstanceAs (Decidable (¬ _))
  | .batch (.approve ..) | .batch (.rollup ..) | .batch (.attach ..) | .payout _ | .record _
  | .broadcast .. => isTrue trivial

def immutability : Discipline World Write where
  apply := Write.apply
  rely s t := s.chain.Later t.chain ∧
    ∀ b r, s.db.batches.find b = some r → r.status.Approved →
      ∃ r', t.db.batches.find b = some r' ∧ r'.status.Approved ∧ r'.image = r.image
  inv _ := True
  ok := SparesApproved

theorem immutability_lawful : immutability.Lawful where
  refl _ := ⟨Chain.Later.refl _, fun _ r hr hs => ⟨r, hr, hs, rfl⟩⟩
  trans hst htu := by
    refine ⟨hst.1.trans htu.1, fun b r hr hs => ?_⟩
    obtain ⟨r', hr', hs', hi⟩ := hst.2 b r hr hs
    obtain ⟨r'', hr'', hs'', hi'⟩ := htu.2 b r' hr' hs'
    exact ⟨r'', hr'', hs'', hi'.trans hi⟩

/-- A batch command keeps the image of an approved batch. -/
theorem approved_apply {w : World} {c : BatchWrite} (hok : SparesApproved (.batch c) w)
    (hstatus : ∀ id status, c = .rollup id status → status.Approved)
    {b : BatchId} {r : AllocationBatch} (hr : w.db.batches.find b = some r)
    (hs : r.status.Approved) :
    ∃ r', (c.apply w.db).batches.find b = some r' ∧ r'.status.Approved ∧ r'.image = r.image := by
  have happroved : w.Approved b := World.approved_iff.mpr ⟨r, hr, hs⟩
  have hleaves := c.leaves w.db b
  generalize (c.apply w.db).batches.find b = new at hleaves
  cases hleaves with
  | kept => exact ⟨r, hr, hs, rfl⟩
  | saved seen c h hb => exact absurd (hb ▸ happroved) (hok h)
  | approved seen u t r' hb hr' =>
      obtain rfl := Option.some.inj (hr.symm.trans hr')
      exact ⟨_, rfl, show AllocationBatchStatus.payable.Approved by decide, rfl⟩
  | rejected seen u reason r' hb hr' => exact absurd (hb ▸ happroved) hok
  | rolledUp status r' hr' hs' =>
      obtain rfl := Option.some.inj (hr.symm.trans hr')
      exact ⟨_, rfl, hstatus b status rfl, rfl⟩

theorem immutability_congr {s t : World} (hl : s.chain.Later t.chain)
    (hb : t.db.batches = s.db.batches) : immutability.rely s t :=
  ⟨hl, fun _ r hr hs => ⟨r, hb ▸ hr, hs, rfl⟩⟩

theorem immutability_commit [Collation] {D : Discipline World Write}
    {since : AllocationId → World → World → Prop} (c : Write) (s : World)
    (hok : SparesApproved c s) (hk : Known D since c s) :
    immutability.rely s (c.apply s) := by
  cases c with
  | payout c => exact immutability_congr (Write.apply_later _ s) (c.batches_apply s.db)
  | record c => exact immutability_congr (Write.apply_later _ s) (c.batches_apply s.db)
  | broadcast p tx => exact immutability_congr (Write.apply_later _ s) rfl
  | batch c =>
      refine ⟨Write.apply_later _ s, fun b r hr hs => approved_apply hok ?_ hr hs⟩
      rintro id status rfl
      exact hk

theorem immutability_sound [Collation] :
    service.Sound (fun _ _ => True) immutability (Known immutability fun _ => immutability.rely) :=
  service_sound immutability_lawful rfl (fun h => h.1)
    (fun c s _ hok hk => ⟨immutability_commit c s hok hk, trivial⟩)
    fun e s _ _ => ⟨immutability_congr (e.apply_later s) (e.batches_apply s), trivial⟩

/-- The next step of the call `n` is the write of a calculation or a rejection. -/
def recalculating (c : Config World Write ApiError) (n : Nat) : Prop :=
  match c.threads[n]? with
  | some (.commit (.batch (.saveCalculation ..)) _) => True
  | some (.commit (.batch (.reject ..)) _) => True
  | _ => False

instance (c : Config World Write ApiError) (n : Nat) : Decidable (recalculating c n) :=
  match h : c.threads[n]? with
  | some (.commit (.batch (.saveCalculation ..)) _) => isTrue (by simp [recalculating, h])
  | some (.commit (.batch (.reject ..)) _) => isTrue (by simp [recalculating, h])
  | some (.commit (.batch (.approve ..)) _) | some (.commit (.batch (.rollup ..)) _)
  | some (.commit (.batch (.attach ..)) _) | some (.commit (.payout _) _)
  | some (.commit (.record _) _) | some (.commit (.broadcast ..) _) | some (.pure _)
  | some (.throw _) | some (.read _) | none => isFalse (by simp [recalculating, h])

/-- An admitted write of a calculation or a rejection leaves the rows of an
approved batch. -/
theorem rowsOf_step [Collation] {c : Config World Write ApiError} {n : Nat} {b : BatchId}
    (hb : c.store.Approved b) (hn : recalculating c n)
    (hok : Legal (ι := Call) SparesApproved (fun (_ : EnvMove) _ => True) (.step n) c) :
    BatchWrite.rowsOf (service.move (.step n) c).store.db b = BatchWrite.rowsOf c.store.db b := by
  unfold recalculating at hn
  split at hn
  · next seen c' next hthread =>
    rw [move_commit _ hthread]
    have hspares := (legal_commit _ _ hthread).mp hok
    by_cases h : (BatchWrite.saveCalculation seen c').Applies c.store.db
    · exact BatchWrite.rowsOf_saveCalculation_of_ne h fun heq => hspares h (heq ▸ hb)
    · exact congrArg (BatchWrite.rowsOf · b) (if_neg h)
  · next seen u reason next hthread =>
    rw [move_commit _ hthread]
    have hrows := BatchWrite.allocations_reject seen u reason c.store.db
    exact congrArg (fun t : Table WorkerAllocation.id =>
      t.rows.filter fun a => decide (a.batchId = b)) hrows
  · contradiction

/-- **An approved batch is immutable** to calculation and rejection: along every
run that spares approved batches, a batch that became `PAYABLE` stays approved
and keeps its pool and its hashes, and no write of a calculation or a rejection
changes its allocation rows. -/
theorem approved_immutable [Collation] {s : World} {ms ms' : List (Move Call EnvMove)}
    (hms : service.Respects SparesApproved (fun _ _ => True) (ms ++ ms') (Config.start s))
    {b : BatchId} {r : AllocationBatch}
    (hr : (service.exec ms (Config.start s)).store.db.batches.find b = some r)
    (hs : r.status = .payable) :
    let c := service.exec (ms ++ ms') (Config.start s)
    (∃ r', c.store.db.batches.find b = some r' ∧ r'.status.Approved ∧ r'.image = r.image) ∧
      ∀ n, recalculating c n →
        Legal (ι := Call) SparesApproved (fun (_ : EnvMove) _ => True) (.step n) c →
        BatchWrite.rowsOf (service.move (.step n) c).store.db b =
          BatchWrite.rowsOf c.store.db b := by
  intro c
  have hpayable : r.status.Approved := by rw [hs]; decide
  have hlater := (immutability_sound.exec_rely trivial hms).2 b r hr hpayable
  refine ⟨hlater, fun n hn hok => rowsOf_step ?_ hn hok⟩
  obtain ⟨r', hr', hs', -⟩ := hlater
  exact World.approved_iff.mpr ⟨r', hr', hs'⟩

section Example

open Scenario

/-- Approved, and calculated again: the calculation is refused. -/
theorem approved_immutable_calculated :
    ∃ r r', ((@service byCodePoint).exec (moves 0 approved)
        (Config.start World.empty)).store.db.batches.find batch = some r ∧
      ((@service byCodePoint).exec
        (moves 0 approved ++ moves 2 [.call (.allocation calculateDay) 20])
        (Config.start World.empty)).store.db.batches.find batch = some r' ∧
      r'.status.Approved ∧ r'.image = r.image := by
  obtain ⟨r, hr, hs⟩ := Option.map_eq_some_iff.mp (show
    (((@service byCodePoint).exec (moves 0 approved)
      (Config.start World.empty)).store.db.batches.find batch).map AllocationBatch.status =
        some .payable by decide +kernel)
  obtain ⟨⟨r', hr', hs', hi⟩, -⟩ := @approved_immutable byCodePoint World.empty (moves 0 approved)
    (moves 2 [.call (.allocation calculateDay) 20]) (by decide +kernel) batch r hr hs
  exact ⟨r, r', hr, hr', hs', hi⟩

/-- A calculation checks the calculated batch; then the batch is approved. -/
def approvedDuringCalculation : List (Move Call EnvMove) :=
  moves 0 (opening.map .env ++ [.call (.allocation calculateDay) 20]) ++
    .call (.allocation calculateDay) :: List.replicate 5 (.step 1) ++
    moves 2 [.call (.allocation approveDay) 20]

/-- Resumed, the calculation turns the approved batch back, and replaces its
rows. -/
theorem approved_recalculated :
    (((@service byCodePoint).exec approvedDuringCalculation
      (Config.start World.empty)).store.db.batches.find batch).map AllocationBatch.status =
        some .payable ∧
    (((@service byCodePoint).exec (approvedDuringCalculation ++ [.step 1])
      (Config.start World.empty)).store.db.batches.find batch).map AllocationBatch.status =
        some .calculated ∧
    ((@service byCodePoint).exec approvedDuringCalculation
      (Config.start World.empty)).store.db.allocations.rows.map WorkerAllocation.id = [1] ∧
    ((@service byCodePoint).exec (approvedDuringCalculation ++ [.step 1])
      (Config.start World.empty)).store.db.allocations.rows.map WorkerAllocation.id = [2] := by
  decide +kernel

end Example

/-! ## One approved batch a day -/

/-- At most one batch of a venue and a business date is approved. -/
def World.OneApproved (w : World) : Prop :=
  ∀ b b', w.Approved b → w.Approved b' → b.venueId = b'.venueId →
    b.businessDate = b'.businessDate → b = b'

/-- No other batch of the same venue and date is approved already. -/
def ApprovesAlone : Write → World → Prop
  | .batch (.approve seen _ _), w =>
      ∀ r ∈ w.db.batches.rows, r.status.Approved → r.id.venueId = seen.id.venueId →
        r.id.businessDate = seen.id.businessDate → r.id = seen.id
  | _, _ => True

instance (c : Write) (w : World) : Decidable (ApprovesAlone c w) :=
  match c with
  | .batch (.approve ..) => inferInstanceAs (Decidable (∀ r ∈ _, _))
  | .batch (.saveCalculation ..) | .batch (.reject ..) | .batch (.rollup ..)
  | .batch (.attach ..) | .payout _ | .record _ | .broadcast .. => isTrue trivial

/-- Only an approval makes a batch approved. -/
theorem approved_before {w : World} {c : BatchWrite} {b : BatchId}
    (h : ((Write.batch c).apply w).Approved b) :
    w.Approved b ∨ ∃ seen u t, c = .approve seen u t ∧ seen.id = b := by
  obtain ⟨r, hr, hs⟩ := World.approved_iff.mp h
  have hleaves := c.leaves w.db b
  rw [show (c.apply w.db).batches.find b = some r from hr] at hleaves
  generalize hnew : some r = new at hleaves
  cases hleaves with
  | kept => exact .inl (World.approved_iff.mpr ⟨r, hnew.symm, hs⟩)
  | saved seen c happlies hb =>
      obtain rfl := Option.some.inj hnew
      exact absurd hs c.status_recalculable.not_approved
  | approved seen u t r' hb hr' => exact .inr ⟨seen, u, t, rfl, hb⟩
  | rejected seen u reason r' hb hr' =>
      obtain rfl := Option.some.inj hnew
      exact absurd hs (show ¬ AllocationBatchStatus.draft.Approved by decide)
  | rolledUp status r' hr' hs' => exact .inl (World.approved_iff.mpr ⟨r', hr', hs'⟩)

theorem World.OneApproved.congr {s t : World} (hs : s.OneApproved)
    (hb : t.db.batches = s.db.batches) : t.OneApproved := by
  have happroved : ∀ b, t.Approved b → s.Approved b := fun b h => by
    rwa [World.Approved, hb] at h
  exact fun b b' h h' => hs b b' (happroved b h) (happroved b' h')

/-- One command. -/
theorem oneApproved_apply {w : World} (hi : w.OneApproved) (c : Write)
    (hok : ApprovesAlone c w) : (c.apply w).OneApproved := by
  cases c with
  | payout c => exact hi.congr (c.batches_apply w.db)
  | record c => exact hi.congr (c.batches_apply w.db)
  | broadcast p tx => exact hi
  | batch c =>
      have halone : ∀ {seen u t}, c = .approve seen u t → ∀ b, w.Approved b →
          b.venueId = seen.id.venueId → b.businessDate = seen.id.businessDate → b = seen.id := by
        rintro seen u t rfl b ⟨r, hr, rfl, hs⟩ hv hd
        exact hok r hr hs hv hd
      intro b b' h h' hv hd
      rcases approved_before h with hb | ⟨seen, u, t, hc, rfl⟩ <;>
        rcases approved_before h' with hb' | ⟨seen', u', t', hc', rfl⟩
      · exact hi b b' hb hb' hv hd
      · exact halone hc' b hb hv hd
      · exact (halone hc b' hb' hv.symm hd.symm).symm
      · obtain ⟨rfl, -, -⟩ := BatchWrite.approve.inj (hc.symm.trans hc')
        rfl

def oneApproved : Discipline World Write where
  apply := Write.apply
  rely s t := s.chain.Later t.chain
  inv := World.OneApproved
  ok := ApprovesAlone

theorem oneApproved_sound [Collation] :
    service.Sound (fun _ _ => True) oneApproved (Known oneApproved fun _ => oneApproved.rely) :=
  service_sound ⟨fun s => Chain.Later.refl s.chain, Chain.Later.trans⟩ rfl (fun h => h)
    (fun c s hi hok _ => ⟨c.apply_later s, oneApproved_apply hi c hok⟩)
    fun e s hi _ => ⟨e.apply_later s, hi.congr (e.batches_apply s)⟩

/-- **One approved batch a day**: along every run in which no batch is approved
next to an approved one of the same venue and date, at most one batch of a
venue and date is approved. -/
theorem one_approved_batch [Collation] {s : World} (hs : s.OneApproved)
    {ms : List (Move Call EnvMove)}
    (hms : service.Respects ApprovesAlone (fun _ _ => True) ms (Config.start s)) :
    (service.exec ms (Config.start s)).store.OneApproved :=
  oneApproved_sound.exec_inv hs hms

section Example

open Scenario

theorem World.oneApproved_empty : World.empty.OneApproved :=
  fun _ _ ⟨_, hr, _⟩ => absurd hr List.not_mem_nil

theorem one_approved_batch_approved :
    ((@service byCodePoint).exec (moves 0 approved) (Config.start World.empty)).store.OneApproved :=
  @one_approved_batch byCodePoint World.empty World.oneApproved_empty (moves 0 approved)
    (by decide +kernel)

/-- After the approval the venue gets a new policy version; the same day is
calculated and approved again under it. -/
def approvedTwice : List (Act Call EnvMove) :=
  approved ++ [.call (.evidence (.createVersion venue policy)) 9,
    .call (.allocation calculateDay) 20,
    .call (.allocation (.approve ⟨venue, date, 2⟩ owner 0)) 20]

/-- Both batches are payable. -/
theorem two_approved_batches :
    ¬ ((@service byCodePoint).performAll approvedTwice World.empty).OneApproved :=
  fun h => absurd (h batch ⟨venue, date, 2⟩ (by decide +kernel) (by decide +kernel) rfl rfl)
    (by decide)

end Example

end ServeProof
