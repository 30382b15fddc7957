import ServeProof.Alone
import ServeProof.Finality

/-!
# ServeProof.Amounts

A worker marked `PAID` was paid what was allocated, when calls do not overlap
and no held share is merged into an allocation that is being paid.

The amount is copied into the payout when the payout is created; merging a
held share changes the allocation only.
-/

namespace ServeProof

open Interleave System

/-- A failed payout that is taken up again is of the amount allocated. -/
def World.RetriesAmount (w : World) (p : AllocationId) : Prop :=
  ∀ row ∈ w.db.payouts.find p, row.status = .failed →
    ∀ a ∈ w.db.allocations.find p, row.amountUsdCents = a.netAllocatedUsdCents

instance (w : World) (p : AllocationId) : Decidable (w.RetriesAmount p) :=
  inferInstanceAs (Decidable (∀ row ∈ _, _ → ∀ a ∈ _, _))

/-- A held share that is worth something is merged into an allocation whose
payout, if there is one, has failed; and a failed payout is built again, or
registered, for the amount allocated now. -/
def MergesUnpaid : Write → World → Prop
  | .batch (.attach held workerId), w =>
      ∀ own ∈ BatchWrite.ownRow w.db held workerId, held.netAllocatedUsdCents ≠ 0 →
        ∀ row ∈ w.db.payouts.find own.id, row.status = .failed
  | .payout (.claimBuild seen ..), w => w.RetriesAmount seen.paymentId
  | .payout (.registerLegacy l), w => w.RetriesAmount l.paymentId
  | _, _ => True

instance (c : Write) (w : World) : Decidable (MergesUnpaid c w) :=
  match c with
  | .batch (.attach ..) => inferInstanceAs (Decidable (∀ own ∈ _, _ → ∀ row ∈ _, _))
  | .payout (.claimBuild ..) | .payout (.registerLegacy ..) =>
      inferInstanceAs (Decidable (World.RetriesAmount _ _))
  | .batch (.saveCalculation ..) | .batch (.approve ..) | .batch (.reject ..)
  | .batch (.rollup ..) | .payout (.heal ..) | .payout (.create ..) | .payout (.reset ..)
  | .payout (.expire ..) | .payout (.expireAllocation ..) | .payout (.claimSubmit ..)
  | .payout (.noteBroadcastError ..) | .payout (.setStatus ..) | .payout (.finalize ..)
  | .payout (.markFailed ..) | .payout (.countRebroadcast ..) | .record _ | .broadcast .. =>
      isTrue trivial

/-- A payout that has not failed is of the amount allocated, and what is paid
has a finalized payout. -/
structure Matched (w : World) : Prop where
  amount : ∀ p row a, w.db.payouts.find p = some row → w.db.allocations.find p = some a →
    row.status ≠ .failed → row.amountUsdCents = a.netAllocatedUsdCents
  paid : ∀ p, w.Paid p → w.Finalized p

theorem Matched.congr {s t : World} (hi : Matched s) (hp : t.db.payouts = s.db.payouts)
    (ha : t.db.allocations = s.db.allocations) : Matched t where
  amount p row a hrow hfind hs := hi.amount p row a (hp ▸ hrow) (ha ▸ hfind) hs
  paid p h := by
    rw [World.Finalized, hp]
    exact hi.paid p (by rwa [World.Paid, ha] at h)

section Payout

variable {ok : Write → World → Prop} {w : World} {c : PayoutWrite}

/-- The row a command finds had not failed, when the row it leaves has not:
unless it starts over, builds again or registers. -/
theorem status_before (hk : PayoutKnown (.alone Write.apply Matched ok) Kept c w)
    (h : c.Applies w.db) {row : Payout} (hrow : w.db.payouts.find c.target = some row)
    (hs : (c.update row).status ≠ .failed) :
    row.status ≠ .failed ∨ (∃ seen data, c = .reset seen data) ∨
      (∃ seen built now u signer, c = .claimBuild seen built now u signer) ∨
        ∃ l, c = .registerLegacy l := by
  have hmet := h.2
  rw [hrow] at hmet
  cases c with
  | reset seen data => exact .inr (.inl ⟨seen, data, rfl⟩)
  | claimBuild seen built now u signer =>
      exact .inr (.inr (.inl ⟨seen, built, now, u, signer, rfl⟩))
  | registerLegacy l => exact .inr (.inr (.inr ⟨l, rfl⟩))
  | create data => exact absurd hmet (Option.some_ne_none row)
  | heal | expireAllocation | noteBroadcastError | countRebroadcast => exact .inl hs
  | expire | markFailed => exact absurd rfl hs
  | claimSubmit seen tx now u =>
      have hinitiated : row.status = .initiated := List.mem_singleton.mp hmet
      exact .inl (by rw [hinitiated]; decide)
  | setStatus seen status =>
      obtain ⟨row', hrow', -, hstay⟩ := hk.1.row
      obtain rfl := Option.some.inj (hrow.symm.trans hrow')
      exact .inl (hstay hk.active_of_setStatus).2
  | finalize seen record slot blockTime =>
      obtain ⟨-, -, -, first, hid, hactive, hrecall⟩ := hk
      obtain ⟨row', hrow', -, hstay⟩ := hrecall.row
      rw [hid] at hrow'
      obtain rfl := Option.some.inj (hrow.symm.trans hrow')
      exact .inl (hstay hactive).2

/-- The row a command leaves is of the amount allocated. -/
theorem amount_apply (hi : Matched w)
    (hk : PayoutKnown (.alone Write.apply Matched ok) Kept c w) (hok : MergesUnpaid (.payout c) w)
    (h : c.Applies w.db) {row : Payout} {a : WorkerAllocation}
    (hrow : c.row (w.db.payouts.find c.target) = some row)
    (ha : w.db.allocations.find c.target = some a) (hs : row.status ≠ .failed) :
    row.amountUsdCents = a.netAllocatedUsdCents := by
  have hpayable : ∀ {data : UsdcPayout}, data.paymentId = c.target → Payable data w →
      data.amountUsdCents = a.netAllocatedUsdCents := by
    rintro data hid ⟨a', b, ha', -, -, -, -, -, hamount, -⟩
    rw [hid, ha] at ha'
    rw [hamount, Option.some.inj ha']
  cases hold : w.db.payouts.find c.target with
  | none =>
      rw [hold] at hrow
      cases c with
      | create data =>
          obtain rfl := Option.some.inj hrow
          exact hpayable rfl hk.still
      | registerLegacy l =>
          obtain rfl := Option.some.inj hrow
          obtain ⟨a', b, ha', -, -, -, -, hamount⟩ := hk.still
          obtain rfl := Option.some.inj (ha.symm.trans ha')
          exact hamount
      | _ => contradiction
  | some old =>
      rw [hold] at hrow
      obtain rfl := Option.some.inj hrow
      have hretry : (∀ r : Payout, (c.update r).amountUsdCents = r.amountUsdCents) →
          w.RetriesAmount c.target → (c.update old).amountUsdCents = a.netAllocatedUsdCents := by
        intro hsame hretries
        rw [hsame]
        by_cases hfailed : old.status = .failed
        · exact hretries old hold hfailed a ha
        · exact hi.amount c.target old a hold ha hfailed
      rcases status_before hk h hold hs with
        hne | ⟨seen, data, rfl⟩ | ⟨seen, built, now, u, signer, rfl⟩ | ⟨l, rfl⟩
      · have hamount := hi.amount c.target old a hold ha hne
        cases c with
        | reset seen data => exact hpayable hk.2.2.2.1 hk.1.still
        | _ => exact hamount
      · exact hpayable hk.2.2.2.1 hk.1.still
      · exact hretry (fun _ => rfl) hok
      · exact hretry (fun _ => rfl) hok

/-- What a command pays is finalized. -/
theorem finalized_of_paid (hi : Matched w)
    (hk : PayoutKnown (.alone Write.apply Matched ok) Kept c w) (h : c.Applies w.db)
    (hp : c.payment.map Prod.snd = some .paid ∨ (c.payment = none ∧ w.Paid c.target)) :
    c.status = some .finalized ∨ (c.status = none ∧ w.Finalized c.target) := by
  -- a payment that was paid before has a finalized row
  have hrow : w.Paid c.target →
      ∃ row, w.db.payouts.find c.target = some row ∧ row.status = .finalized :=
    fun hpaid => Option.map_eq_some_iff.mp (hi.paid _ hpaid)
  have hmet := h.2
  cases c with
  | heal seen status =>
      rcases hp with hp | ⟨hp, -⟩
      · have hseen : w.db.payouts.find seen.paymentId = some seen := hk.1.still
        obtain rfl : status = .paid := Option.some.inj hp
        refine .inr ⟨rfl, ?_⟩
        rw [World.Finalized, PayoutWrite.target, hseen]
        exact congrArg some (allocationStatusOf_eq_paid.mp hk.2)
      · contradiction
  | create | reset | expireAllocation | markFailed => simp [PayoutWrite.payment] at hp
  | registerLegacy | finalize => exact .inl rfl
  | noteBroadcastError | countRebroadcast =>
      rcases hp with hp | ⟨-, hp⟩
      · contradiction
      · exact .inr ⟨rfl, hi.paid _ hp⟩
  | claimBuild | expire | claimSubmit =>
      rcases hp with hp | ⟨-, hp⟩
      · contradiction
      · obtain ⟨row, hfind, hstatus⟩ := hrow hp
        rw [hfind] at hmet
        simp [PayoutWrite.need, PayoutWrite.Need.Met, hstatus] at hmet
  | setStatus seen status =>
      rcases hp with hp | ⟨-, hp⟩
      · contradiction
      · obtain ⟨row, hfind, hstatus⟩ := hrow hp
        obtain ⟨row', hrow', -, hstay⟩ := hk.1.row
        obtain rfl := Option.some.inj (hfind.symm.trans hrow')
        exact absurd hstatus (hstay hk.active_of_setStatus).1

theorem Matched.apply_payout (hi : Matched w)
    (hk : PayoutKnown (.alone Write.apply Matched ok) Kept c w) (hok : MergesUnpaid (.payout c) w) :
    Matched ((Write.payout c).apply w) := by
  by_cases h : c.Applies w.db
  · refine ⟨fun p row a hrow ha hs => ?_, fun p hp => ?_⟩
    · rw [Write.apply_payout_db] at hrow ha
      rw [PayoutWrite.find_payouts_apply h] at hrow
      rw [PayoutWrite.find_allocations_apply h] at ha
      split at hrow
      · next ht =>
        rw [if_pos ht] at ha
        obtain ⟨a₀, ha₀, rfl⟩ := Option.map_eq_some_iff.mp ha
        rw [c.pay_net]
        exact amount_apply hi hk hok h hrow ha₀ hs
      · next ht =>
        rw [if_neg ht] at ha
        exact hi.amount p row a hrow ha hs
    · rw [paid_apply h] at hp
      rw [finalized_apply h]
      split at hp
      · next ht =>
        subst ht
        rw [if_pos rfl]
        exact finalized_of_paid hi hk h hp
      · next ht =>
        rw [if_neg ht]
        exact hi.paid p hp
  · rwa [Write.apply, PayoutWrite.apply_of_not_applies h]

end Payout

/-- A batch command leaves the amounts of payments, unless it merges a share
into one. -/
theorem Matched.apply_batch {w : World} (hi : Matched w) {c : BatchWrite}
    (hok : MergesUnpaid (.batch c) w) : Matched ((Write.batch c).apply w) where
  amount p row a' hrow ha' hs := by
    rw [Write.apply_batch_db] at hrow ha'
    rw [BatchWrite.payouts_apply] at hrow
    obtain ⟨a, ha⟩ := w.db.find_allocation_of_payout hrow
    have hamount := hi.amount p row a hrow ha hs
    rcases BatchWrite.find_allocations_apply ha hrow c with
      h | ⟨held, workerId, rfl, ⟨hown, h⟩ | ⟨-, -, h⟩⟩
    · rw [hamount, Option.some.inj (h.symm.trans ha')]
    · rw [← Option.some.inj (h.symm.trans ha')]
      have hzero : held.netAllocatedUsdCents = 0 := by
        by_contra hne
        have hid : a.id = p := Table.key_of_find ha
        exact hs (hok a hown hne row (by rw [hid]; exact hrow))
      rw [BatchWrite.addShare, hzero, add_zero, hamount]
    · rw [← Option.some.inj (h.symm.trans ha'), hamount]
      rfl
  paid p hp := by
    obtain ⟨a', ha', hpaid⟩ := Option.map_eq_some_iff.mp hp
    rw [World.Finalized, Write.apply_batch_db, BatchWrite.payouts_apply]
    rcases BatchWrite.allocation_before ha' with ⟨-, hunpaid⟩ | ⟨a, ha, -, hstatus⟩
    · rw [hpaid] at hunpaid
      contradiction
    · exact hi.paid p (Option.map_eq_some_iff.mpr ⟨a, ha, hstatus.trans hpaid⟩)

theorem Matched.apply [Collation] (c : Write) (s : World) (hi : Matched s)
    (hok : MergesUnpaid c s) (hk : Known (.alone Write.apply Matched MergesUnpaid) Kept c s) :
    Matched (c.apply s) := by
  cases c with
  | payout c => exact hi.apply_payout hk hok
  | batch c => exact hi.apply_batch hok
  | record c => exact hi.congr (c.payouts_apply s.db) (c.allocations_apply s.db)
  | broadcast p tx => exact hi.congr rfl rfl

/-- **Paid is paid in full**: after every run of one call at a time that merges
no held share into an allocation being paid, an allocation that is `PAID` has a
`FINALIZED` payout of the amount allocated. -/
theorem paid_as_allocated [Collation] {s : World} (hs : s.db.allocations.rows = [])
    {as : List (Act Call EnvMove)} (has : service.Admits MergesUnpaid (fun _ _ => True) as s)
    {p : AllocationId} {a : WorkerAllocation}
    (ha : (service.performAll as s).db.allocations.find p = some a)
    (hpaid : a.payoutStatus = .paid) :
    ∃ row, (service.performAll as s).db.payouts.find p = some row ∧ row.status = .finalized ∧
      row.amountUsdCents = a.netAllocatedUsdCents := by
  have hnone : ∀ p, s.db.allocations.find p = none := fun p => by
    rw [Table.find_eq_none_iff, hs]
    exact fun _ hr => absurd hr List.not_mem_nil
  have hstart : Matched s :=
    { amount := fun p _ a _ ha _ => absurd (ha.symm.trans (hnone p)) (Option.some_ne_none a)
      paid := fun p hp => by rw [World.Paid, hnone] at hp; contradiction }
  have hend : Matched (service.performAll as s) :=
    alone_inv Matched.apply
      (fun e s hi _ => hi.congr (e.payouts_apply s) (e.allocations_apply s)) hstart has
  have hfinal := hend.paid p (Option.map_eq_some_iff.mpr ⟨a, ha, hpaid⟩)
  obtain ⟨row, hrow, hstatus⟩ := Option.map_eq_some_iff.mp hfinal
  exact ⟨row, hrow, hstatus, hend.amount p row a hrow ha (by rw [hstatus]; decide)⟩

section Example

open Scenario

/-- The held share is merged before the worker is paid. -/
theorem paid_as_allocated_merged :
    let t := (@service byCodePoint).performAll
      (approvedHeld ++ [.call accept 20, .call (register 2) 20]) World.empty
    ∃ a row, t.db.allocations.find 2 = some a ∧ t.db.payouts.find 2 = some row ∧
      row.status = .finalized ∧ row.amountUsdCents = a.netAllocatedUsdCents := by
  intro t
  obtain ⟨a, ha, hpaid⟩ := Option.map_eq_some_iff.mp (show
    (t.db.allocations.find 2).map WorkerAllocation.payoutStatus = some .paid by decide +kernel)
  obtain ⟨row, hrow⟩ := @paid_as_allocated byCodePoint World.empty rfl
    (approvedHeld ++ [.call accept 20, .call (register 2) 20]) (by decide +kernel) 2 a ha hpaid
  exact ⟨a, row, ha, hrow⟩

/-- Merged after the worker was paid, the held share leaves an allocation of 500
cents `PAID` with a payout of 250. -/
theorem paid_less_than_allocated :
    let t := (@service byCodePoint).performAll
      (approvedHeld ++ [.call (register 2) 20, .call accept 20]) World.empty
    (t.db.allocations.find 2).map (fun a => (a.payoutStatus, a.netAllocatedUsdCents)) =
        some (.paid, 500) ∧
      (t.db.payouts.find 2).map (fun row => (row.status, row.amountUsdCents)) =
        some (.finalized, 250) := by
  decide +kernel

end Example

end ServeProof
