import ServeProof.Alone
import ServeProof.Scenario

/-!
# ServeProof.Distribution

A calculated or approved batch distributes exactly its tip pool, whatever
happens to it afterwards, when calls do not overlap: the engine splits the
whole pool, merging a held share moves its amount, and nothing else changes an
amount.
-/

namespace ServeProof

open Interleave System

/-- The statuses of a batch whose shares add up. -/
def AllocationBatchStatus.Distributed (s : AllocationBatchStatus) : Prop :=
  s ∈ [.calculated, .payable, .partiallyPaid, .paid]

instance : DecidablePred AllocationBatchStatus.Distributed :=
  fun s => inferInstanceAs (Decidable (s ∈ _))

theorem AllocationBatchStatus.Approved.distributed {s : AllocationBatchStatus} (h : s.Approved) :
    s.Distributed := List.mem_cons_of_mem _ h

/-- What the rows of a batch add up to, held shares included. -/
def World.distributed (w : World) (b : BatchId) : Int :=
  ((BatchWrite.rowsOf w.db b).map WorkerAllocation.netAllocatedUsdCents).sum

/-- The tips are not negative, and the shares of every calculated or approved
batch add up to its pool. -/
structure Distributing (w : World) : Prop where
  tips : ∀ t ∈ w.db.tips.rows, 0 ≤ t.grossAmountUsdCents
  pool : ∀ b r, w.db.batches.find b = some r → r.status.Distributed →
    w.distributed b = r.tipPoolAmountUsdCents

/-! ## The sum of a batch -/

/-- What a row counts for in the batch `b`. -/
def WorkerAllocation.netIn (b : BatchId) (a : WorkerAllocation) : Int :=
  if a.batchId = b then a.netAllocatedUsdCents else 0

theorem World.distributed_eq (w : World) (b : BatchId) :
    w.distributed b = w.db.allocations.sum (WorkerAllocation.netIn b) := by
  rw [World.distributed, Table.sum, BatchWrite.rowsOf]
  induction w.db.allocations.rows with
  | nil => rfl
  | cons a as ih =>
      by_cases ha : a.batchId = b
      · simp [ha, WorkerAllocation.netIn, ih]
      · simp [ha, WorkerAllocation.netIn, ih]

theorem World.distributed_congr {s t : World} (h : t.db.allocations = s.db.allocations)
    (b : BatchId) : t.distributed b = s.distributed b := by
  rw [World.distributed_eq, World.distributed_eq, h]

/-- A payment changes no amount. -/
theorem distributed_payout (c : PayoutWrite) (w : World) (b : BatchId) :
    ((Write.payout c).apply w).distributed b = w.distributed b := by
  by_cases h : c.Applies w.db
  · rw [World.distributed_eq, World.distributed_eq, Write.apply_payout_db,
      PayoutWrite.allocations_apply h]
    exact Table.sum_update_of_eq _ c.pay_id fun a => by simp [WorkerAllocation.netIn]
  · rw [Write.apply, PayoutWrite.apply_of_not_applies h]

/-- A held share keeps its amount when it goes to its worker, or is merged into
the worker's own row. -/
theorem distributed_attach {w : World} {held : WorkerAllocation} {workerId : WorkerId}
    (hheld : w.db.allocations.find held.id = some held) (hnone : held.workerId = none)
    (b : BatchId) :
    ((Write.batch (.attach held workerId)).apply w).distributed b = w.distributed b := by
  by_cases h : (BatchWrite.attach held workerId).Applies w.db
  · rw [World.distributed_eq, World.distributed_eq, Write.apply_batch_db]
    cases hown : BatchWrite.ownRow w.db held workerId with
    | none =>
        rw [BatchWrite.allocations_setWorker h hown]
        exact Table.sum_update_of_eq (f := BatchWrite.setWorker workerId) _ (fun _ => rfl)
          fun _ => rfl
    | some own =>
        obtain ⟨hfind, hbatch, hworker⟩ := BatchWrite.find_ownRow hown
        have hne : own.id ≠ held.id := by
          intro hid
          rw [hid, hheld] at hfind
          rw [← Option.some.inj hfind, hnone] at hworker
          contradiction
        have hstay : (w.db.allocations.update own.id (BatchWrite.addShare held)).find held.id =
            some held := by
          rw [Table.find_update (f := BatchWrite.addShare held) _ fun _ => rfl, if_neg hne, hheld]
        have hupdate := Table.sum_update (f := BatchWrite.addShare held) _ (fun _ => rfl) hfind
          (WorkerAllocation.netIn b)
        have herase := Table.sum_erase_key _ hstay (WorkerAllocation.netIn b)
        have hadd : (BatchWrite.addShare held own).netIn b = own.netIn b + held.netIn b := by
          by_cases hb : held.batchId = b
          · simp [WorkerAllocation.netIn, BatchWrite.addShare, hbatch, hb]
          · simp [WorkerAllocation.netIn, BatchWrite.addShare, hbatch, hb]
        rw [BatchWrite.allocations_merge h hown]
        omega
  · rw [Write.apply, BatchWrite.apply, if_neg h]

/-- A calculation without a blocking issue distributes its pool. -/
theorem distributed_saveCalculation [Collation] {w : World} {seen : Option AllocationBatch}
    {c : Calculation} {tips : List AllocationTipInput} {shifts : List AllocationShiftInput}
    {policy : AllocationPolicyInput} (h : (BatchWrite.saveCalculation seen c).Applies w.db)
    (hseen : seen = none → BatchWrite.rowsOf w.db c.batchId = [])
    (htips : ∀ tip ∈ tips, 0 ≤ tip.grossAmountUsdCents)
    (hc : computeAllocationBatch tips shifts policy = .ok c.result)
    (hstatus : c.status.Distributed) :
    ((Write.batch (.saveCalculation seen c)).apply w).distributed c.batchId =
      c.result.poolUsdCents := by
  have hclean : ¬ c.result.HasBlockingIssue := by
    intro hblock
    rw [Calculation.status, if_pos hblock] at hstatus
    revert hstatus
    decide
  have hrows := BatchWrite.rowsOf_saveCalculation h hseen
  calc ((Write.batch (.saveCalculation seen c)).apply w).distributed c.batchId
      = ((BatchWrite.newRows c w.db.nextAllocationId).map
            WorkerAllocation.netAllocatedUsdCents).sum := by
        rw [World.distributed, Write.apply_batch_db, hrows]
    _ = (c.result.allocations.map WorkerAllocationResult.netAllocatedUsdCents).sum := by
        rw [BatchWrite.map_newRows c _ fun _ _ => rfl]
    _ = c.result.poolUsdCents := computeAllocationBatch_sum htips hc hclean

/-! ## One command -/

/-- A tip from outside is not negative. -/
def TipNonneg : EnvMove → World → Prop
  | .record (.saveTip row), _ => 0 ≤ row.grossAmountUsdCents
  | _, _ => True

instance (e : EnvMove) (w : World) : Decidable (TipNonneg e w) :=
  match e with
  | .record (.saveTip row) => inferInstanceAs (Decidable (0 ≤ row.grossAmountUsdCents))
  | .chain _ | .record (.csvTip ..) | .record (.csvShift ..) | .record (.saveShift ..)
  | .record (.propose ..) | .record (.verify ..) | .record (.rejectAccount ..)
  | .record (.createVersion ..) | .record (.saveVenue ..) | .record (.saveWorker ..)
  | .record (.addWallet ..) | .record (.setWalletStatus ..) => isTrue trivial

section Commit

variable {ok : Write → World → Prop} {w : World}

theorem Distributing.congr {s t : World} (hi : Distributing s)
    (ht : t.db.tips = s.db.tips) (hb : t.db.batches = s.db.batches)
    (hd : ∀ b, t.distributed b = s.distributed b) : Distributing t where
  tips := ht ▸ hi.tips
  pool b r hr hs := (hd b).trans (hi.pool b r (hb ▸ hr) hs)

/-- A batch without a row has no shares. -/
theorem rowsOf_of_find_none {w : World} {b : BatchId} (h : w.db.batches.find b = none) :
    BatchWrite.rowsOf w.db b = [] := by
  rw [List.eq_nil_iff_forall_not_mem]
  intro a ha
  obtain ⟨hrow, hbatch⟩ := BatchWrite.mem_rowsOf.mp ha
  have hsome := w.db.batch_of_allocation a hrow
  rw [hbatch, h] at hsome
  contradiction

variable [Collation]

theorem Distributing.saveCalculation (hi : Distributing w) {seen : Option AllocationBatch}
    {c : Calculation}
    (hk : BatchKnown (.alone Write.apply Distributing ok) Kept (.saveCalculation seen c) w)
    (h : (BatchWrite.saveCalculation seen c).Applies w.db) :
    ∀ b r, ((BatchWrite.saveCalculation seen c).apply w.db).batches.find b = some r →
      r.status.Distributed →
      ((Write.batch (.saveCalculation seen c)).apply w).distributed b =
        r.tipPoolAmountUsdCents := by
  obtain ⟨hseen, -, tips, shifts, policy, hc, htips⟩ := hk
  intro b r hr hs
  rw [BatchWrite.find_batches_saveCalculation h] at hr
  split at hr
  · next hb =>
    subst hb
    obtain rfl := Option.some.inj hr
    refine distributed_saveCalculation h (fun hnone => ?_) (fun tip htip => ?_) hc hs
    · exact rowsOf_of_find_none (hseen.still.trans hnone)
    · obtain ⟨t, ht, rfl⟩ := List.mem_map.mp htip
      exact hi.tips t (htips.still t ht)
  · next hb =>
    have hrows := BatchWrite.rowsOf_saveCalculation_of_ne h hb
    refine Eq.trans ?_ (hi.pool b r hr hs)
    rw [World.distributed, World.distributed, Write.apply_batch_db, hrows]

/-- A batch command keeps the shares adding up. -/
theorem Distributing.apply_batch (hi : Distributing w) {c : BatchWrite}
    (hk : BatchKnown (.alone Write.apply Distributing ok) Kept c w) :
    Distributing ((Write.batch c).apply w) := by
  have htips : (c.apply w.db).tips = w.db.tips := congrArg Records.tips (c.records_apply w.db)
  by_cases h : c.Applies w.db
  · refine ⟨fun t ht => hi.tips t (htips ▸ ht), fun b r hr hs => ?_⟩
    rw [Write.apply_batch_db] at hr
    cases c with
    | saveCalculation seen c => exact hi.saveCalculation hk h b r hr hs
    | approve seen u t =>
        rw [World.distributed_congr (BatchWrite.allocations_approve _ _ _ w.db)]
        rw [BatchWrite.find_batches_approve h] at hr
        split at hr
        · next hb =>
          subst hb
          have hseen := hk.1.still
          rw [hseen] at hr
          obtain rfl := Option.some.inj hr
          exact hi.pool _ seen hseen (by rw [hk.2]; decide)
        · exact hi.pool b r hr hs
    | reject seen u reason =>
        rw [World.distributed_congr (BatchWrite.allocations_reject _ _ _ w.db)]
        rw [BatchWrite.find_batches_reject h] at hr
        split at hr
        · obtain ⟨r, -, rfl⟩ := Option.map_eq_some_iff.mp hr
          exact absurd hs (show ¬ AllocationBatchStatus.draft.Distributed by decide)
        · exact hi.pool b r hr hs
    | rollup id status =>
        rw [World.distributed_congr (BatchWrite.allocations_rollup _ _ w.db)]
        rw [BatchWrite.find_batches_rollup h] at hr
        split at hr
        · next hb =>
          subst hb
          obtain ⟨r₀, hr₀, rfl, hs₀⟩ := h
          rw [Table.find_key hr₀] at hr
          obtain rfl := Option.some.inj hr
          exact hi.pool _ r₀ (Table.find_key hr₀) hs₀.distributed
        · exact hi.pool b r hr hs
    | attach held workerId =>
        obtain ⟨⟨s, -, hkept, hheld⟩, hnone⟩ := hk
        rw [distributed_attach (hkept.held held hheld hnone) hnone]
        rw [BatchWrite.batches_attach] at hr
        exact hi.pool b r hr hs
  · rwa [Write.apply, BatchWrite.apply, if_neg h]

theorem Distributing.apply (c : Write) (s : World) (hi : Distributing s)
    (hk : Known (.alone Write.apply Distributing ok) Kept c s) : Distributing (c.apply s) := by
  cases c with
  | payout c =>
      exact hi.congr (congrArg Records.tips (c.records_apply s.db)) (c.batches_apply s.db)
        (distributed_payout c s)
  | batch c => exact hi.apply_batch hk
  | record c =>
      refine ⟨RecordWrite.tips_nonneg_apply (fun row hrow => absurd hrow (hk row)) hi.tips, ?_⟩
      intro b r hr hs
      rw [World.distributed_congr (c.allocations_apply s.db)]
      exact hi.pool b r (c.batches_apply s.db ▸ hr) hs
  | broadcast p tx => exact ⟨hi.tips, hi.pool⟩

omit [Collation] in
theorem Distributing.env (e : EnvMove) (s : World) (hi : Distributing s) (hok : TipNonneg e s) :
    Distributing (e.apply s) := by
  cases e with
  | chain step => exact ⟨hi.tips, hi.pool⟩
  | record c =>
      refine ⟨RecordWrite.tips_nonneg_apply (fun row hrow => ?_) hi.tips, fun b r hr hs => ?_⟩
      · subst hrow
        exact hok
      · refine (World.distributed_congr (c.allocations_apply s.db) b).trans ?_
        exact hi.pool b r (c.batches_apply s.db ▸ hr) hs

end Commit

/-- **Every batch distributes its pool**: after every run of one call at a time,
from a store without batches and with non-negative tips only, the shares of a
calculated or approved batch, held ones included, add up to its tip pool. -/
theorem pool_distributed [Collation] {s : World} (hbatches : s.db.batches.rows = [])
    (htips : ∀ t ∈ s.db.tips.rows, 0 ≤ t.grossAmountUsdCents) {as : List (Act Call EnvMove)}
    (has : service.Admits (fun _ _ => True) TipNonneg as s) {b : BatchId} {r : AllocationBatch}
    (hr : (service.performAll as s).db.batches.find b = some r) (hs : r.status.Distributed) :
    (service.performAll as s).distributed b = r.tipPoolAmountUsdCents := by
  have hstart : Distributing s :=
    ⟨htips, fun b r hr => absurd (Table.mem_of_find hr) (hbatches ▸ List.not_mem_nil)⟩
  have hend : Distributing (service.performAll as s) :=
    alone_inv (fun c s hi _ hk => hi.apply c s hk) (fun e s hi hok => hi.env e s hok) hstart has
  exact hend.pool b r hr hs

section Example

open Scenario

/-- A held share is merged into the worker's own row after the approval. -/
theorem pool_distributed_merged :
    let t := (@service byCodePoint).performAll (approvedHeld ++ [.call accept 20]) World.empty
    t.distributed batch = 500 ∧ (BatchWrite.rowsOf t.db batch).length = 1 := by
  intro t
  obtain ⟨r, hr, hpool, hs⟩ : ∃ r, t.db.batches.find batch = some r ∧
      r.tipPoolAmountUsdCents = 500 ∧ r.status.Distributed := by
    refine ⟨(t.db.batches.find batch).get (by decide +kernel), Option.some_get .. |>.symm,
      ?_, ?_⟩ <;> decide +kernel
  refine ⟨?_, by decide +kernel⟩
  rw [← hpool]
  exact @pool_distributed byCodePoint World.empty rfl (fun _ h => absurd h List.not_mem_nil)
    (approvedHeld ++ [.call accept 20]) (by decide +kernel) batch r hr hs

end Example

end ServeProof
