import ServeProof.Attempts

/-!
# ServeProof.Alone

Calls that do not overlap.  What a call has read is still so when it writes,
but for what it has written itself; `Kept` says what its own writes keep.

`alone_inv` is the rule for runs of one call at a time.
-/

namespace ServeProof

open Interleave System

/-- What a call remembers of the payment `p` while its writes spare it: nothing
happens to the chain but that it is handed transactions, the payout keeps its
attempt and stays active, a held share stays as it is. -/
structure Kept (p : AllocationId) (s t : World) : Prop where
  later : s.chain.Later t.chain
  included : t.chain.included = s.chain.included
  finalized : t.chain.finalized = s.chain.finalized
  row : ∀ row, s.db.payouts.find p = some row → ∃ row', t.db.payouts.find p = some row' ∧
    row'.attempt = row.attempt ∧ (row.Active → row'.Active)
  held : ∀ a, s.db.allocations.find p = some a → a.workerId = none →
    t.db.allocations.find p = some a

theorem Kept.refl (p : AllocationId) (s : World) : Kept p s s where
  later := Chain.Later.refl _
  included := rfl
  finalized := rfl
  row row hrow := ⟨row, hrow, rfl, id⟩
  held _ ha _ := ha

theorem Kept.trans {p : AllocationId} {s t u : World} (hst : Kept p s t) (htu : Kept p t u) :
    Kept p s u where
  later := hst.later.trans htu.later
  included := htu.included.trans hst.included
  finalized := htu.finalized.trans hst.finalized
  row row hrow := by
    obtain ⟨row', hrow', hattempt, hactive⟩ := hst.row row hrow
    obtain ⟨row'', hrow'', hattempt', hactive'⟩ := htu.row row' hrow'
    exact ⟨row'', hrow'', hattempt'.trans hattempt, fun h => hactive' (hactive h)⟩
  held a ha hheld := htu.held a (hst.held a ha hheld) hheld

/-- A command that leaves the rows of the payment. -/
theorem Kept.of_eq {p : AllocationId} {s t : World} (hc : t.chain = s.chain)
    (hp : t.db.payouts.find p = s.db.payouts.find p)
    (ha : ∀ a, s.db.allocations.find p = some a → a.workerId = none →
      t.db.allocations.find p = some a) : Kept p s t where
  later := hc ▸ Chain.Later.refl _
  included := by rw [hc]
  finalized := by rw [hc]
  row row hrow := ⟨row, hp.trans hrow, rfl, id⟩
  held := ha

/-- A payout command that sets no payment column, keeps the attempt, and leaves
an active payout active. -/
theorem kept_of_target {w : World} {c : PayoutWrite} (h : c.Applies w.db)
    (hattempt : ∀ r : Payout, (c.update r).attempt = r.attempt)
    (hactive : ∀ r : Payout, r.Active → (c.update r).Active) (hpayment : c.payment = none) :
    Kept c.target w ((Write.payout c).apply w) where
  later := Chain.Later.refl _
  included := rfl
  finalized := rfl
  row row hrow := by
    refine ⟨c.update row, ?_, hattempt row, hactive row⟩
    rw [Write.apply_payout_db, PayoutWrite.find_payouts_apply h, if_pos rfl, hrow]
    rfl
  held a ha _ := by
    rw [Write.apply_payout_db, PayoutWrite.find_allocations_apply h, if_pos rfl, ha,
      Option.map_some, PayoutWrite.pay, hpayment]

section Commit

variable {D : Discipline World Write} {since : AllocationId → World → World → Prop}
  {w : World} {p : AllocationId}

theorem kept_payout {c : PayoutWrite} (hk : PayoutKnown D since c w)
    (hspares : Write.Spares p (.payout c)) : Kept p w ((Write.payout c).apply w) := by
  by_cases h : c.Applies w.db
  · by_cases hp : c.target = p
    · subst hp
      cases c with
      | setStatus seen status =>
          refine kept_of_target h (fun _ => rfl) (fun _ _ => ?_) rfl
          rcases hk.2 with ⟨rfl, -⟩ | ⟨rfl, -⟩
          · exact ⟨by simp [PayoutWrite.update], by simp [PayoutWrite.update]⟩
          · exact ⟨by simp [PayoutWrite.update], by simp [PayoutWrite.update]⟩
      | countRebroadcast q now => exact kept_of_target h (fun _ => rfl) (fun _ => id) rfl
      | _ => exact absurd rfl hspares
    · refine Kept.of_eq rfl ?_ fun a ha _ => ?_
      · rw [Write.apply_payout_db, PayoutWrite.find_payouts_apply h, if_neg hp]
      · rw [Write.apply_payout_db, PayoutWrite.find_allocations_apply h, if_neg hp, ha]
  · rw [Write.apply, PayoutWrite.apply_of_not_applies h]
    exact Kept.refl p w

theorem kept_attach {held : WorkerAllocation} {workerId : WorkerId} (hheld : held.id ≠ p) :
    Kept p w ((Write.batch (.attach held workerId)).apply w) := by
  refine Kept.of_eq rfl ?_ fun a ha hnone => ?_
  · rw [Write.apply_batch_db, BatchWrite.payouts_apply]
  · rw [Write.apply_batch_db]
    by_cases h : (BatchWrite.attach held workerId).Applies w.db
    · cases hown : BatchWrite.ownRow w.db held workerId with
      | none => rw [BatchWrite.find_allocations_setWorker h hown, if_neg hheld, ha]
      | some own =>
          have hne : own.id ≠ p := by
            rintro rfl
            obtain ⟨hfind, -, hworker⟩ := BatchWrite.find_ownRow hown
            obtain rfl := Option.some.inj (ha.symm.trans hfind)
            rw [hnone] at hworker
            contradiction
          rw [BatchWrite.find_allocations_merge h hown, if_neg hheld, if_neg hne, ha]
    · rw [BatchWrite.apply, if_neg h, ha]

variable [Collation]

/-- A spared command keeps what is remembered. -/
theorem kept_apply {c : Write} (hk : Known D since c w) (hspares : Write.Spares p c) :
    Kept p w (c.apply w) := by
  cases c with
  | payout c => exact kept_payout hk hspares
  | record c => exact hspares.elim
  | broadcast q tx =>
      exact { Kept.refl p w with later := Chain.hand_later _ _ _ }
  | batch c =>
      cases c with
      | rollup id status =>
          refine Kept.of_eq rfl ?_ fun a ha _ => ?_
          · rw [Write.apply_batch_db, BatchWrite.payouts_apply]
          · rw [Write.apply_batch_db, BatchWrite.apply]
            split <;> exact ha
      | attach held workerId => exact kept_attach hspares
      | saveCalculation | approve | reject => exact hspares.elim

theorem memory_alone {inv : World → Prop} {ok : Write → World → Prop} :
    Memory (.alone Write.apply inv ok) Kept where
  remembers p :=
    { refl := Kept.refl p
      trans := Kept.trans
      of_rely := fun h => h ▸ Kept.refl p _
      of_commit := fun _ _ hk hspares => kept_apply hk hspares }
  later h := h.later

/-- The rule for calls that do not overlap: an invariant that each admitted
command keeps holds after every run. -/
theorem alone_inv {inv : World → Prop} {ok : Write → World → Prop}
    {okEnv : EnvMove → World → Prop}
    (hcommit : ∀ c s, inv s → ok c s → Known (.alone Write.apply inv ok) Kept c s →
      inv (c.apply s))
    (henv : ∀ e s, inv s → okEnv e s → inv (e.apply s))
    {as : List (Act Call EnvMove)} {s : World} (hs : inv s) (has : service.Admits ok okEnv as s) :
    inv (service.performAll as s) :=
  performAll_inv hcommit henv
    (fun c _ _ => c.sat_prog (Discipline.alone_lawful _ _ _) memory_alone) hs has

end Commit

/-! ## What is still so -/

section Still

variable {inv : World → Prop} {ok : Write → World → Prop} {w : World}

/-- What a call that runs alone has seen still holds. -/
theorem Seen.still {P : World → Prop} (h : Seen (.alone Write.apply inv ok) P w) : P w := by
  obtain ⟨s, -, rfl, hP⟩ := h
  exact hP

/-- A row that is recalled is there, with the same attempt. -/
theorem Recall.row {row : Payout}
    (h : Recall (.alone Write.apply inv ok) Kept row.paymentId (RowIs row) w) :
    ∃ row', w.db.payouts.find row.paymentId = some row' ∧ row'.attempt = row.attempt ∧
      (row.Active → row'.Active) := by
  obtain ⟨s, -, hk, hrow⟩ := h
  exact hk.row row hrow

end Still

end ServeProof
