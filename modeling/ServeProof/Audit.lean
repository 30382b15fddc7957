import ServeProof.Approval

/-!
# ServeProof.Audit

What is approved is what was computed, and what the audit log says -- as long
as no calculation with another result was saved between the read and the write
of the approval.

The result is about the calls that make batches.
-/

namespace ServeProof

open Interleave System

/-- The calls that make batches. -/
def allocationService [Collation] : System World Write ApiError AllocationCall EnvMove where
  apply := Write.apply
  prog := Call.allocationProg
  env := EnvMove.apply

/-! ## Computed batches -/

/-- The batch must be reviewed before it is approved. -/
def AllocationBatch.HasBlockingIssue (b : AllocationBatch) : Prop :=
  ∃ i ∈ b.reviewIssues, i.blocking = true

instance (b : AllocationBatch) : Decidable b.HasBlockingIssue :=
  inferInstanceAs (Decidable (∃ i ∈ _, _))

/-- What the allocation hash says of a share. -/
structure ShareView where
  workerId : Option WorkerId
  provider : Option String
  externalWorkerId : Option String
  pooledTipUsdCents : Int
  netAllocatedUsdCents : Int
  deriving DecidableEq

def WorkerAllocationResult.view (a : WorkerAllocationResult) : ShareView where
  workerId := a.workerId
  provider := a.provider
  externalWorkerId := a.externalWorkerId
  pooledTipUsdCents := a.pooledTipUsdCents
  netAllocatedUsdCents := a.netAllocatedUsdCents

def WorkerAllocation.view (a : WorkerAllocation) : ShareView where
  workerId := a.workerId
  provider := a.provider
  externalWorkerId := a.externalWorkerId
  pooledTipUsdCents := a.pooledTipUsdCents
  netAllocatedUsdCents := a.netAllocatedUsdCents

/-- The allocation hash of the batch is the hash of its pool and its current
allocation rows. -/
def World.Describes (w : World) (b : AllocationBatch) : Prop :=
  ∃ shares, b.allocationHash =
      some (.allocation b.id.policyVersion b.tipPoolAmountUsdCents shares) ∧
    (BatchWrite.rowsOf w.db b.id).map WorkerAllocation.view =
      shares.map WorkerAllocationResult.view

/-- A calculated batch has no blocking issue, and every batch is described by
its hash. -/
structure Computed (w : World) : Prop where
  clean : ∀ id b, w.db.batches.find id = some b → b.status = .calculated → ¬ b.HasBlockingIssue
  described : ∀ id b, w.db.batches.find id = some b → w.Describes b

/-- An approval finds the result it had read, and a calculation that had found
no batch finds no rows. -/
def ApprovesAsRead : Write → World → Prop
  | .batch (.approve seen _ _), w => ∀ b ∈ w.db.batches.find seen.id,
      b.image = seen.image ∧ b.reviewIssues = seen.reviewIssues
  | .batch (.saveCalculation seen c), w =>
      (BatchWrite.saveCalculation seen c).Applies w.db → seen = none →
        BatchWrite.rowsOf w.db c.batchId = []
  | _, _ => True

instance (c : Write) (w : World) : Decidable (ApprovesAsRead c w) :=
  match c with
  | .batch (.approve ..) => inferInstanceAs (Decidable (∀ b ∈ _, _ ∧ _))
  | .batch (.saveCalculation ..) => inferInstanceAs (Decidable (_ → _ → _))
  | .batch (.reject ..) | .batch (.rollup ..) | .batch (.attach ..) | .payout _ | .record _
  | .broadcast .. => isTrue trivial

def auditing : Discipline World Write where
  apply := Write.apply
  rely _ _ := True
  inv := Computed
  ok := ApprovesAsRead

/-- The commands of the calls that make batches. -/
def MakesBatch : Write → Prop
  | .batch (.saveCalculation ..) | .batch (.approve ..) | .batch (.reject ..) => True
  | _ => False

section Only

variable [Collation]

theorem only_calculate (venueId : VenueId) (businessDate : String) (version : Option Nat)
    (by' : Option UserId) (now : Time) :
    (calculate venueId businessDate version by' now).Only MakesBatch := by
  unfold calculate
  simp only [Prog.only_get_bind, Prog.only_orThrow_bind, Prog.only_require_bind]
  intros
  refine Prog.Only.bind (only_transact.mpr trivial) fun _ => ?_
  rw [Prog.only_get_bind]
  intro s
  unfold Prog.orThrow
  split <;> trivial

theorem only_allocationProg (c : AllocationCall) : (Call.allocationProg c).Only MakesBatch := by
  cases c with
  | calculate => exact only_discardResult (only_calculate _ _ _ _ _)
  | approve id u now =>
      simp only [Call.allocationProg, approve, Prog.only_get_bind, Prog.only_orThrow_bind,
        Prog.only_require_bind]
      exact fun _ _ _ _ _ => only_transact.mpr trivial
  | reject id u reason =>
      simp only [Call.allocationProg, reject, Prog.only_get_bind, Prog.only_orThrow_bind,
        Prog.only_require_bind]
      exact fun _ _ _ _ => only_transact.mpr trivial

end Only

/-! ## One command -/

theorem computed_of_no_batches {w : World} (h : w.db.batches.rows = []) : Computed w := by
  have hnone : ∀ id, w.db.batches.find id = none := fun id => by
    rw [Table.find_eq_none_iff, h]
    exact fun _ hr => absurd hr List.not_mem_nil
  exact ⟨fun id b hb => absurd (hb.symm.trans (hnone id)) (Option.some_ne_none b),
    fun id b hb => absurd (hb.symm.trans (hnone id)) (Option.some_ne_none b)⟩

/-- Batches whose results stay, and that do not become calculated, stay
computed. -/
theorem Computed.of_image {s t : World} (hi : Computed s)
    (ha : t.db.allocations = s.db.allocations)
    (hb : ∀ id b', t.db.batches.find id = some b' → ∃ b, s.db.batches.find id = some b ∧
      b'.id = b.id ∧ b'.image = b.image ∧ b'.reviewIssues = b.reviewIssues ∧
        (b'.status = .calculated → b.status = .calculated)) : Computed t where
  clean id b' hb' hs := by
    obtain ⟨b, hfind, -, -, hissues, hstatus⟩ := hb id b' hb'
    have hclean := hi.clean id b hfind (hstatus hs)
    rwa [AllocationBatch.HasBlockingIssue, ← hissues] at hclean
  described id b' hb' := by
    obtain ⟨b, hfind, hid, himage, -, -⟩ := hb id b' hb'
    obtain ⟨shares, hhash, hview⟩ := hi.described id b hfind
    obtain ⟨hpool, hrest⟩ := Prod.mk.inj himage
    obtain ⟨-, hallocation⟩ := Prod.mk.inj hrest
    refine ⟨shares, ?_, ?_⟩
    · rw [hallocation, hid, hpool, hhash]
    · rw [BatchWrite.rowsOf, ha, hid]
      exact hview

theorem Computed.congr {s t : World} (hi : Computed s) (ha : t.db.allocations = s.db.allocations)
    (hb : t.db.batches = s.db.batches) : Computed t :=
  hi.of_image ha fun _ b' hb' => ⟨b', hb ▸ hb', rfl, rfl, rfl, id⟩

/-- A saved calculation. -/
theorem Computed.saveCalculation {w : World} (hi : Computed w) {seen : Option AllocationBatch}
    {c : Calculation} (h : (BatchWrite.saveCalculation seen c).Applies w.db)
    (hrows : seen = none → BatchWrite.rowsOf w.db c.batchId = []) :
    Computed ((Write.batch (.saveCalculation seen c)).apply w) where
  clean id b hb hs := by
    rw [Write.apply_batch_db, BatchWrite.find_batches_saveCalculation h] at hb
    split at hb
    · obtain rfl := Option.some.inj hb
      intro hblocking
      have hreview : c.status = .reviewRequired := if_pos hblocking
      rw [show c.status = .calculated from hs] at hreview
      contradiction
    · exact hi.clean id b hb hs
  described id b hb := by
    rw [Write.apply_batch_db, BatchWrite.find_batches_saveCalculation h] at hb
    split at hb
    · obtain rfl := Option.some.inj hb
      have hnew := BatchWrite.rowsOf_saveCalculation h hrows
      refine ⟨c.result.allocations, rfl, ?_⟩
      exact (congrArg _ hnew).trans (BatchWrite.map_newRows c _ fun _ _ => rfl)
    · next hne =>
      obtain ⟨shares, hhash, hview⟩ := hi.described id b hb
      have hid : b.id = id := Table.key_of_find hb
      refine ⟨shares, hhash, ?_⟩
      rw [Write.apply_batch_db, BatchWrite.rowsOf_saveCalculation_of_ne h (by rwa [hid])]
      exact hview

/-- A batch whose status is changed, to another than calculated. -/
theorem Computed.change {w : World} (hi : Computed w) {c : BatchWrite} {k : BatchId}
    {f : AllocationBatch → AllocationBatch}
    (hallocations : (c.apply w.db).allocations = w.db.allocations)
    (hfind : ∀ id, (c.apply w.db).batches.find id =
      if k = id then (w.db.batches.find k).map f else w.db.batches.find id)
    (hf : ∀ b, (f b).id = b.id ∧ (f b).image = b.image ∧ (f b).reviewIssues = b.reviewIssues)
    (hstatus : ∀ b, (f b).status ≠ .calculated) : Computed ((Write.batch c).apply w) := by
  refine hi.of_image hallocations fun id b' hb' => ?_
  rw [Write.apply_batch_db, hfind] at hb'
  split at hb'
  · next hid =>
    obtain ⟨b, hb, rfl⟩ := Option.map_eq_some_iff.mp hb'
    obtain ⟨hsame, himage, hissues⟩ := hf b
    exact ⟨b, hid ▸ hb, hsame, himage, hissues, fun hs => absurd hs (hstatus b)⟩
  · exact ⟨b', hb', rfl, rfl, rfl, fun hs => hs⟩

theorem Computed.apply {w : World} (hi : Computed w) {c : Write} (hc : MakesBatch c)
    (hok : ApprovesAsRead c w) : Computed (c.apply w) := by
  cases c with
  | payout c => exact hc.elim
  | record c => exact hc.elim
  | broadcast p tx => exact hc.elim
  | batch c =>
      by_cases h : c.Applies w.db
      · cases c with
        | saveCalculation seen c => exact hi.saveCalculation h (hok h)
        | approve seen u t =>
            exact hi.change (k := seen.id) (f := BatchWrite.setPayable u t)
              (BatchWrite.allocations_approve seen u t w.db) (BatchWrite.find_batches_approve h)
              (fun _ => ⟨rfl, rfl, rfl⟩) fun _ => nofun
        | reject seen u reason =>
            exact hi.change (k := seen.id) (f := BatchWrite.setStatus .draft)
              (BatchWrite.allocations_reject seen u reason w.db) (BatchWrite.find_batches_reject h)
              (fun _ => ⟨rfl, rfl, rfl⟩) fun _ => nofun
        | rollup | attach => exact hc.elim
      · exact hi.congr (by rw [Write.apply_batch_db, BatchWrite.apply, if_neg h])
          (by rw [Write.apply_batch_db, BatchWrite.apply, if_neg h])

theorem auditing_sound [Collation] :
    allocationService.Sound (fun _ _ => True) auditing
      fun c s => MakesBatch c ∧ Known auditing (fun _ _ _ => True) c s where
  lawful := ⟨fun _ => trivial, fun _ _ => trivial⟩
  commit _ _ hi hok hk := ⟨trivial, Computed.apply hi hk.1 hok⟩
  env e s hi _ := ⟨trivial, Computed.congr hi (e.allocations_apply s) (e.batches_apply s)⟩
  apply_eq := rfl
  call c _ _ := (Call.sat_allocationProg ⟨fun _ => trivial, fun _ _ => trivial⟩ c).only
    (only_allocationProg c)

/-! ## The result -/

/-- Only an approval makes a batch payable. -/
theorem approve_of_payable {w : World} {k : Write} (hk : MakesBatch k) {id : BatchId}
    {b : AllocationBatch} (hbefore : ¬ w.Approved id)
    (hafter : (k.apply w).db.batches.find id = some b) (hb : b.status = .payable) :
    ∃ seen u t r, k = .batch (.approve seen u t) ∧ seen.id = id ∧
      w.db.batches.find id = some r ∧ b = BatchWrite.setPayable u t r := by
  cases k with
  | payout c => exact hk.elim
  | record c => exact hk.elim
  | broadcast p tx => exact hk.elim
  | batch c =>
      have hleaves := c.leaves w.db id
      rw [show (c.apply w.db).batches.find id = some b from hafter] at hleaves
      have hpayable : b.status.Approved := by rw [hb]; decide
      generalize hnew : some b = new at hleaves
      cases hleaves with
      | kept => exact absurd (World.approved_iff.mpr ⟨b, hnew.symm, hpayable⟩) hbefore
      | saved seen c h hid =>
          obtain rfl := Option.some.inj hnew
          exact absurd hpayable c.status_recalculable.not_approved
      | approved seen u t r hid hr =>
          exact ⟨seen, u, t, r, rfl, hid, hr, Option.some.inj hnew⟩
      | rejected seen u reason r hid hr =>
          obtain rfl := Option.some.inj hnew
          exact absurd hpayable (show ¬ AllocationBatchStatus.draft.Approved by decide)
      | rolledUp => exact hk.elim

/-- The audit log ends with an approval of the batch, with these values. -/
def World.AuditedAs (w : World) (b : AllocationBatch) : Prop :=
  w.db.auditLog.getLast?.map (fun entry => (entry.venueId, entry.entityId, entry.action)) =
    some (b.id.venueId, b.id,
      .allocationBatchApproved b.allocationHash b.evidenceHash b.tipPoolAmountUsdCents)

instance (w : World) (b : AllocationBatch) : Decidable (w.AuditedAs b) :=
  inferInstanceAs (Decidable (_ = _))

/-- The commit that makes a batch payable. -/
theorem approved_commit [Collation] {w : World} {k : Write} (hi : Computed w)
    (hk : MakesBatch k ∧ Known auditing (fun _ _ _ => True) k w) (hok : ApprovesAsRead k w)
    {id : BatchId} {b : AllocationBatch} (hbefore : ¬ w.Approved id)
    (hafter : (k.apply w).db.batches.find id = some b) (hb : b.status = .payable) :
    ¬ b.HasBlockingIssue ∧ (k.apply w).Describes b ∧ (k.apply w).AuditedAs b := by
  have hdescribed := (Computed.apply hi hk.1 hok).described id b hafter
  obtain ⟨seen, u, t, r, rfl, rfl, hr, rfl⟩ := approve_of_payable hk.1 hbefore hafter hb
  obtain ⟨himage, hissues⟩ := hok r hr
  obtain ⟨hpool, hrest⟩ := Prod.mk.inj himage
  obtain ⟨hevidence, hallocation⟩ := Prod.mk.inj hrest
  refine ⟨?_, hdescribed, ?_⟩
  · obtain ⟨⟨s₀, hi₀, -, hseen⟩, hcalculated⟩ := hk.2
    have hclean := hi₀.clean seen.id seen hseen hcalculated
    rwa [AllocationBatch.HasBlockingIssue, ← hissues] at hclean
  · have happlies : (BatchWrite.approve seen u t).Applies w.db := by
      rw [BatchWrite.Applies, hr]
      rfl
    have hid : r.id = seen.id := Table.key_of_find hr
    rw [World.AuditedAs, Write.apply_batch_db, BatchWrite.apply, if_pos happlies]
    simp [BatchWrite.effect, BatchWrite.approvedEntry, BatchWrite.setPayable, hid, hpool,
      hevidence, hallocation]

/-- **What is approved is what was computed and audited**: in every run of the
calls that make batches whose approvals find what they had read, a batch that
becomes `PAYABLE` has no blocking issue, its hash describes its rows, and the
audit log ends with its pool and its hashes. -/
theorem approved_as_computed [Collation] {s : World} (hs : s.db.batches.rows = [])
    {ms : List (Move AllocationCall EnvMove)} {m : Move AllocationCall EnvMove}
    (hms : allocationService.Respects ApprovesAsRead (fun _ _ => True) (ms ++ [m])
      (Config.start s))
    {id : BatchId} {b : AllocationBatch}
    (hbefore : ¬ (allocationService.exec ms (Config.start s)).store.Approved id)
    (hafter : (allocationService.exec (ms ++ [m]) (Config.start s)).store.db.batches.find id =
      some b) (hb : b.status = .payable) :
    let t := (allocationService.exec (ms ++ [m]) (Config.start s)).store
    ¬ b.HasBlockingIssue ∧ t.Describes b ∧ t.AuditedAs b := by
  rw [respects_append] at hms
  obtain ⟨hms, hstep, -⟩ := hms
  rw [exec_append, exec_cons, exec_nil] at hafter ⊢
  have hstart : Computed s := computed_of_no_batches hs
  generalize hc : allocationService.exec ms (Config.start s) = c at *
  have hpayable : b.status.Approved := by rw [hb]; decide
  rcases allocationService.store_move m c with hstore | ⟨e, rfl, hstore⟩ |
    ⟨n, k, next, rfl, hn, hstore⟩
  · rw [hstore] at hafter
    exact absurd (World.approved_iff.mpr ⟨b, hafter, hpayable⟩) hbefore
  · rw [hstore, show allocationService.env e c.store = e.apply c.store from rfl,
      e.batches_apply] at hafter
    exact absurd (World.approved_iff.mpr ⟨b, hafter, hpayable⟩) hbefore
  · have hok := (legal_commit _ _ hn).mp hstep
    subst hc
    have hi : Computed _ := auditing_sound.exec_inv hstart hms
    have hk := auditing_sound.known_commit hstart hms hn hok
    rw [hstore] at hafter ⊢
    exact approved_commit hi hk hok hbefore hafter hb

section Example

open Scenario

/-- The day is calculated, and an approval has read the batch. -/
def approvalPending : List (Move AllocationCall EnvMove) :=
  moves 0 (opening.map .env ++ [.call calculateDay 20]) ++ [.call approveDay, .step 1]

theorem approved_as_computed_pending :
    ∃ b, ((@allocationService byCodePoint).exec (approvalPending ++ [.step 1])
        (Config.start World.empty)).store.db.batches.find batch = some b ∧
      ¬ b.HasBlockingIssue ∧
      ((@allocationService byCodePoint).exec (approvalPending ++ [.step 1])
        (Config.start World.empty)).store.Describes b ∧
      ((@allocationService byCodePoint).exec (approvalPending ++ [.step 1])
        (Config.start World.empty)).store.AuditedAs b := by
  obtain ⟨b, hb, hs⟩ := Option.map_eq_some_iff.mp (show
    (((@allocationService byCodePoint).exec (approvalPending ++ [.step 1])
      (Config.start World.empty)).store.db.batches.find batch).map AllocationBatch.status =
        some .payable by decide +kernel)
  exact ⟨b, hb, @approved_as_computed byCodePoint World.empty rfl approvalPending (.step 1)
    (by decide +kernel) batch b (by decide +kernel) hb hs⟩

/-- The approval has read the batch; then the only shift of the day turns out
to have no minutes, and the day is calculated again. -/
def recalculatedDuringApproval : List (Move AllocationCall EnvMove) :=
  approvalPending ++ .env (.record (.saveShift { shift with workedMinutes := 0 })) ::
    moves 2 [.call calculateDay 20]

/-- The batch that was to be reviewed is payable, and the audit log names
another result. -/
theorem approved_unreviewed :
    ∃ b ∈ ((@allocationService byCodePoint).exec (recalculatedDuringApproval ++ [.step 1])
        (Config.start World.empty)).store.db.batches.rows,
      b.status = .payable ∧ b.HasBlockingIssue ∧
        ¬ ((@allocationService byCodePoint).exec (recalculatedDuringApproval ++ [.step 1])
          (Config.start World.empty)).store.AuditedAs b := by
  decide +kernel

end Example

end ServeProof
