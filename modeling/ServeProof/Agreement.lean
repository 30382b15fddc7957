import ServeProof.Completed

/-!
# ServeProof.Agreement

The payment status on an allocation is a copy of the status of its payout.
Between completed calls the copy agrees with the payout, as long as no
transaction is built again for a payout that has failed: this brings the payout
under way again and leaves the allocation `FAILED`.
-/

namespace ServeProof

open Interleave System

/-- The status of an allocation agrees with the status of its payout. -/
structure StatusAgrees (payout : Option PayoutStatus) (allocation : WorkerAllocationPayoutStatus) :
    Prop where
  paid : allocation = .paid ↔ payout = some .finalized
  pending : allocation = .pending ↔
    ∃ status ∈ payout, status ∈ [PayoutStatus.created, .initiated, .submitted, .confirmed]
  failed : allocation = .failed ↔ payout = some .failed
  unpaid : allocation = .unpaid ↔ payout = none

instance (payout : Option PayoutStatus) (allocation : WorkerAllocationPayoutStatus) :
    Decidable (StatusAgrees payout allocation) :=
  decidable_of_iff (_ ∧ _ ∧ _ ∧ _)
    ⟨fun h => ⟨h.1, h.2.1, h.2.2.1, h.2.2.2⟩, fun h => ⟨h.paid, h.pending, h.failed, h.unpaid⟩⟩

/-- Every allocation agrees with its payout. -/
def World.StatusesAgree (w : World) : Prop :=
  ∀ a ∈ w.db.allocations.rows, StatusAgrees (w.payoutStatusOf a.id) a.payoutStatus

instance (w : World) : Decidable w.StatusesAgree :=
  inferInstanceAs (Decidable (∀ a ∈ _, StatusAgrees _ _))

/-- No transaction is built for a payout that has failed. -/
def BuildsUnfailed : Write → World → Prop
  | .payout (.claimBuild seen ..), w => w.payoutStatusOf seen.paymentId ≠ some .failed
  | _, _ => True

instance (c : Write) (w : World) : Decidable (BuildsUnfailed c w) :=
  match c with
  | .payout (.claimBuild ..) => inferInstanceAs (Decidable (_ ≠ _))
  | .payout (.heal ..) | .payout (.create ..) | .payout (.reset ..) | .payout (.expire ..)
  | .payout (.expireAllocation ..) | .payout (.claimSubmit ..) | .payout (.noteBroadcastError ..)
  | .payout (.registerLegacy ..) | .payout (.setStatus ..) | .payout (.finalize ..)
  | .payout (.markFailed ..) | .payout (.countRebroadcast ..) | .batch _ | .record _
  | .broadcast .. => isTrue trivial

/-! ## One payout command -/

theorem StatusAgrees.pending_of {payout : Option PayoutStatus}
    {allocation : WorkerAllocationPayoutStatus} (h : StatusAgrees payout allocation)
    {status : PayoutStatus} (hp : payout = some status)
    (hs : status ∈ [PayoutStatus.created, .initiated, .submitted, .confirmed]) :
    allocation = .pending :=
  h.pending.mpr ⟨status, hp, hs⟩

theorem statusAgrees_pending {status : PayoutStatus}
    (h : status ∈ [PayoutStatus.created, .initiated, .submitted, .confirmed]) :
    StatusAgrees (some status) .pending := by
  cases status <;> first | decide | (revert h; decide)

/-- The status an allocation is healed to is the one the payout calls for. -/
theorem statusAgrees_of_allocationStatusOf {status : PayoutStatus}
    {allocation : WorkerAllocationPayoutStatus} (h : allocationStatusOf status = some allocation) :
    StatusAgrees (some status) allocation := by
  cases status <;> cases allocation <;> first | decide | (revert h; decide)

section Commit

variable {w : World} {c : PayoutWrite}

/-- A single write keeps the two in step. -/
theorem statusAgrees_of_fits (h : c.Applies w.db) (hfits : c.Fits w)
    (hok : BuildsUnfailed (.payout c) w) {a : WorkerAllocation}
    (ha : StatusAgrees (w.payoutStatusOf c.target) a.payoutStatus) :
    StatusAgrees (c.status.or (w.payoutStatusOf c.target)) (c.pay a).payoutStatus := by
  have hmet := h.2
  cases c with
  | heal seen status =>
      obtain ⟨hseen, hstatus, -⟩ := hfits
      have hagrees := statusAgrees_of_allocationStatusOf hstatus
      rwa [← hseen] at hagrees
  | create data => exact statusAgrees_pending (by decide)
  | reset seen data => exact statusAgrees_pending (by decide)
  | markFailed seen cause => exact show StatusAgrees (some .failed) .failed by decide
  | noteBroadcastError p message => exact ha
  | countRebroadcast p now => exact ha
  | claimBuild seen built now by' signer =>
      cases hf : w.db.payouts.find seen.paymentId with
      | none =>
          rw [PayoutWrite.target, hf] at hmet
          exact hmet.elim
      | some old =>
          rw [PayoutWrite.target, hf] at hmet
          have hold := payoutStatusOf_of_find hf
          have hne : old.status ≠ .failed := fun heq => hok (hold.trans (congrArg some heq))
          have hopen : old.status ∈ [PayoutStatus.created, .initiated, .submitted, .confirmed] := by
            have hin : old.status ∈ [PayoutStatus.created, .initiated, .failed] := hmet
            simp only [List.mem_cons, List.not_mem_nil, or_false] at hin ⊢
            grind
          have hpending := ha.pending_of hold hopen
          exact show StatusAgrees (some .initiated) a.payoutStatus from
            hpending ▸ statusAgrees_pending (by decide)
  | claimSubmit seen tx now by' =>
      cases hf : w.db.payouts.find seen.paymentId with
      | none =>
          rw [PayoutWrite.target, hf] at hmet
          exact hmet.elim
      | some old =>
          rw [PayoutWrite.target, hf] at hmet
          have hin : old.status = .initiated := List.mem_singleton.mp hmet
          have hpending := ha.pending_of (payoutStatusOf_of_find hf) (by rw [hin]; decide)
          exact show StatusAgrees (some .submitted) a.payoutStatus from
            hpending ▸ statusAgrees_pending (by decide)
  | setStatus seen status =>
      obtain ⟨hstatus, old, hold, hin⟩ := hfits
      have hopen : ∀ s ∈ [PayoutStatus.initiated, .submitted, .confirmed],
          s ∈ [PayoutStatus.created, .initiated, .submitted, .confirmed] := by decide
      have hpending := ha.pending_of hold (hopen old hin)
      have hnew : status ∈ [PayoutStatus.created, .initiated, .submitted, .confirmed] := by
        rcases List.mem_pair.mp hstatus with rfl | rfl <;> decide
      exact show StatusAgrees (some status) a.payoutStatus from
        hpending ▸ statusAgrees_pending hnew
  | expire p => exact hfits.elim
  | expireAllocation p => exact hfits.elim
  | registerLegacy l => exact hfits.elim
  | finalize seen record slot time => exact hfits.elim

/-- The allocations of other payouts stay in step. -/
theorem agrees_payout_of_ne (h : c.Applies w.db)
    (hw : ∀ a ∈ w.db.allocations.rows, a.id ≠ c.target →
      StatusAgrees (w.payoutStatusOf a.id) a.payoutStatus) :
    ∀ a ∈ ((Write.payout c).apply w).db.allocations.rows, a.id ≠ c.target →
      StatusAgrees (((Write.payout c).apply w).payoutStatusOf a.id) a.payoutStatus := by
  intro a ha hne
  have hfind := Table.find_key ha
  rw [Write.apply_payout_db, PayoutWrite.find_allocations_apply h, if_neg (Ne.symm hne)] at hfind
  rw [payoutStatusOf_apply h, if_neg (Ne.symm hne)]
  exact hw a (Table.mem_of_find hfind) hne

/-- All are in step when the payout that is written is. -/
theorem agrees_payout (h : c.Applies w.db)
    (hw : ∀ a ∈ w.db.allocations.rows, a.id ≠ c.target →
      StatusAgrees (w.payoutStatusOf a.id) a.payoutStatus)
    (htarget : ∀ a, w.db.allocations.find c.target = some a →
      StatusAgrees (c.status.or (w.payoutStatusOf c.target)) (c.pay a).payoutStatus) :
    ((Write.payout c).apply w).StatusesAgree := by
  intro a' ha'
  by_cases hid : a'.id = c.target
  · have hfind := Table.find_key ha'
    rw [Write.apply_payout_db, PayoutWrite.find_allocations_apply h, if_pos hid.symm] at hfind
    obtain ⟨a, ha, rfl⟩ := Option.map_eq_some_iff.mp hfind
    rw [payoutStatusOf_apply h, if_pos hid.symm, hid]
    exact htarget a ha
  · exact agrees_payout_of_ne h hw a' ha' hid

theorem World.StatusesAgree.congr {s t : World} (hs : s.StatusesAgree)
    (hp : t.db.payouts = s.db.payouts) (ha : t.db.allocations = s.db.allocations) :
    t.StatusesAgree := by
  intro a hmem
  rw [World.payoutStatusOf, hp]
  exact hs a (ha ▸ hmem)

end Commit

/-- What the calls that pay restore. -/
theorem completes_agreement (p : AllocationId) :
    Completes BuildsUnfailed p World.StatusesAgree where
  payout c w hc hw hok h hfits := by
    refine agrees_payout h (fun a ha _ => hw a ha) fun a ha => ?_
    have hagrees := hw a (Table.mem_of_find ha)
    rw [Table.key_of_find ha] at hagrees
    exact statusAgrees_of_fits h hfits hok hagrees
  paid c w a hc hw h hpay hfin _ _ := by
    have hpaid : ((Write.payout c).apply w).StatusesAgree := by
      refine agrees_payout h (fun a ha _ => hw a ha) fun b _ => ?_
      subst hc
      have hstatus : c.status.or (w.payoutStatusOf c.target) = some .finalized :=
        (payoutStatusOf_apply_target h).symm.trans hfin
      have hpaid : (c.pay b).payoutStatus = .paid := by
        obtain ⟨x, hx, hx₂⟩ := Option.map_eq_some_iff.mp hpay
        rw [PayoutWrite.pay, hx]
        exact hx₂
      rw [hstatus, hpaid]
      decide
    exact hpaid.congr (BatchWrite.payouts_apply _ _) (BatchWrite.allocations_rollup _ _ _)
  expired w hw h := by
    have hothers := agrees_payout_of_ne h fun a ha _ => hw a ha
    obtain ⟨a, ha⟩ := Option.isSome_iff_exists.mp h.1
    have happ : (PayoutWrite.expireAllocation p).Applies
        ((Write.payout (.expire p)).apply w).db :=
      ⟨Option.isSome_iff_exists.mpr ⟨_, find_allocation_apply_target h ha⟩, trivial⟩
    have hfailed : ((Write.payout (.expire p)).apply w).payoutStatusOf p = some .failed :=
      payoutStatusOf_apply_target h
    refine agrees_payout happ hothers fun b _ => ?_
    exact show StatusAgrees (((Write.payout (.expire p)).apply w).payoutStatusOf p) .failed from
      hfailed ▸ by decide
  broadcast tx w hw := hw

/-- New allocations have no payout, and no command that writes a batch changes
the status of another. -/
theorem agrees_batch {w : World} (hw : w.StatusesAgree) (c : BatchWrite) :
    ((Write.batch c).apply w).StatusesAgree := by
  intro a' ha'
  have hpayout : ((Write.batch c).apply w).payoutStatusOf a'.id = w.payoutStatusOf a'.id := by
    rw [World.payoutStatusOf, Write.apply_batch_db, BatchWrite.payouts_apply]
    rfl
  rw [hpayout]
  rcases BatchWrite.allocation_before (Table.find_key ha') with ⟨hnew, hunpaid⟩ | ⟨a, ha, -, hsame⟩
  · have hnone : w.payoutStatusOf a'.id = none := by
      rw [World.payoutStatusOf, Option.map_eq_none_iff, Table.find_eq_none_iff]
      intro row hrow hid
      obtain ⟨a, ha⟩ := Option.isSome_iff_exists.mp (w.db.allocation_of_payout row hrow)
      have hlt := w.db.fresh a (Table.mem_of_find ha)
      rw [Table.key_of_find ha, hid] at hlt
      exact absurd hnew (Nat.not_le_of_lt hlt)
    rw [hnone, hunpaid]
    decide
  · have hagrees := hw a (Table.mem_of_find ha)
    rwa [Table.key_of_find ha, hsame] at hagrees

/-- **The copies agree**: after every sequence of calls that build no transaction
for a failed payout, the payment status of every allocation agrees with the
status of its payout. -/
theorem statuses_agree [Collation] {s : World} (hs : s.StatusesAgree)
    {ops : List (Op Call EnvMove)}
    (had : service.AdmittedAll BuildsUnfailed (fun _ _ => True) ops s) :
    (service.evalAll ops s).StatusesAgree := by
  refine service_ends completes_agreement (fun c w hc hw _ _ => ?_) (fun e w hw _ => ?_) hs had
  · cases c with
    | batch c => exact agrees_batch hw c
    | record c => exact hw.congr (c.payouts_apply w.db) (c.allocations_apply w.db)
    | payout c => exact hc.elim
    | broadcast p tx => exact hc.elim
  · exact hw.congr (e.payouts_apply w) (e.allocations_apply w)

/-! ## A transaction for a failed payout -/

section Concrete

open Scenario

/-- The batch of the day is calculated and approved, one call after the other. -/
def Scenario.approvedOps : List (Op Call EnvMove) :=
  opening.map .env ++ [.call (.allocation calculateDay), .call (.allocation approveDay)]

/-- The payout is submitted, settles, and is confirmed by the worker. -/
theorem statuses_agree_settled :
    ((@service byCodePoint).evalAll (approvedOps ++
      [.call create, .call build, .call (submit firstTx)] ++ settles.map .env ++
      [.call (confirmation firstTx)]) World.empty).StatusesAgree :=
  @statuses_agree byCodePoint World.empty (by decide +kernel) _ (by decide +kernel)

/-- The first transaction expires before it is submitted; the second is built
for the payout that has failed. -/
def rebuiltAfterFailure : List (Op Call EnvMove) :=
  approvedOps ++ [.call create, .call build] ++ expires.map .env ++
    [.call (submit firstTx), .call build]

/-- The payout is under way, and its allocation has failed. -/
theorem statuses_disagree :
    World.empty.StatusesAgree ∧
      let t := (@service byCodePoint).evalAll rebuiltAfterFailure World.empty
      ¬ t.StatusesAgree ∧ t.payoutStatusOf 1 = some .initiated ∧
        (t.db.allocations.find 1).map WorkerAllocation.payoutStatus = some .failed := by
  decide +kernel

end Concrete

end ServeProof
