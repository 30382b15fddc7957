import ServeProof.Scenario

/-!
# ServeProof.Finality

Once a payout is `FINALIZED` and its allocation `PAID`, both stay so.  The
statements that claim a row by its status respect this by themselves; the ones
keyed by id alone do as long as they do not meet a payout that was finalized
after the call had read it.
-/

namespace ServeProof

open Interleave System

/-- The payout is finalized. -/
def World.Finalized (w : World) (p : AllocationId) : Prop :=
  (w.db.payouts.find p).map Payout.status = some .finalized

/-- The allocation is paid. -/
def World.Paid (w : World) (p : AllocationId) : Prop :=
  (w.db.allocations.find p).map WorkerAllocation.payoutStatus = some .paid

instance (w : World) (p : AllocationId) : Decidable (w.Finalized p) :=
  inferInstanceAs (Decidable (_ = _))

instance (w : World) (p : AllocationId) : Decidable (w.Paid p) :=
  inferInstanceAs (Decidable (_ = _))

/-- A statement keyed by id alone finds the payout finalized only if the call
had read it so. -/
def FinalAsRead : Write → World → Prop
  | .payout (.heal seen _), w | .payout (.reset seen _), w | .payout (.setStatus seen _), w
  | .payout (.markFailed seen _), w => w.Finalized seen.paymentId → seen.status = .finalized
  | .payout (.expireAllocation p), w => ¬ w.Finalized p
  | _, _ => True

instance (c : Write) (w : World) : Decidable (FinalAsRead c w) :=
  match c with
  | .payout (.heal ..) | .payout (.reset ..) | .payout (.setStatus ..)
  | .payout (.markFailed ..) => inferInstanceAs (Decidable (_ → _))
  | .payout (.expireAllocation _) => inferInstanceAs (Decidable (¬ _))
  | .payout (.create ..) | .payout (.claimBuild ..) | .payout (.expire ..)
  | .payout (.claimSubmit ..) | .payout (.noteBroadcastError ..) | .payout (.registerLegacy ..)
  | .payout (.finalize ..) | .payout (.countRebroadcast ..) | .batch _ | .record _
  | .broadcast .. => isTrue trivial

/-- Finalized payouts stay finalized, and their allocations are paid. -/
def finality : Discipline World Write where
  apply := Write.apply
  rely s t := s.chain.Later t.chain ∧ ∀ p, s.Finalized p → t.Finalized p
  inv w := ∀ p, w.Finalized p → w.Paid p
  ok := FinalAsRead

theorem finality_lawful : finality.Lawful where
  refl _ := ⟨Chain.Later.refl _, fun _ => id⟩
  trans hst htu := ⟨hst.1.trans htu.1, fun p hp => htu.2 p (hst.2 p hp)⟩

section Commit

variable {D : Discipline World Write} {since : AllocationId → World → World → Prop} {w : World}
  {c : PayoutWrite}

theorem finalized_apply (h : c.Applies w.db) (p : AllocationId) :
    ((Write.payout c).apply w).Finalized p ↔
      if c.target = p then
        c.status = some .finalized ∨ (c.status = none ∧ w.Finalized p)
      else w.Finalized p := by
  rw [World.Finalized, Write.apply_payout_db, PayoutWrite.find_payouts_apply h]
  split
  · next hp =>
    subst hp
    rw [PayoutWrite.status_row h.2, Option.or_eq_some_iff]
    rfl
  · rfl

theorem paid_apply (h : c.Applies w.db) (p : AllocationId) :
    ((Write.payout c).apply w).Paid p ↔
      if c.target = p then
        c.payment.map Prod.snd = some .paid ∨ (c.payment = none ∧ w.Paid p)
      else w.Paid p := by
  rw [World.Paid, Write.apply_payout_db, PayoutWrite.find_allocations_apply h]
  split
  · next hp =>
    subst hp
    obtain ⟨a, ha⟩ := Option.isSome_iff_exists.mp h.1
    rw [World.Paid, ha]
    cases hc : c.payment with
    | none => simp [PayoutWrite.pay, hc]
    | some x => simp [PayoutWrite.pay, hc]
  · rfl

/-- A command that meets a finalized payout leaves its status, or sets it
again. -/
theorem status_of_finalized (hk : PayoutKnown D since c w)
    (hok : FinalAsRead (.payout c) w) (h : c.Applies w.db) (hf : w.Finalized c.target) :
    c.status = some .finalized ∨ c.status = none := by
  obtain ⟨row, hrow, hstatus⟩ := Option.map_eq_some_iff.mp hf
  have hneed := h.2
  rw [hrow] at hneed
  cases c with
  | heal | expireAllocation | noteBroadcastError | countRebroadcast => exact .inr rfl
  | registerLegacy | finalize => exact .inl rfl
  | create => simp [PayoutWrite.need, PayoutWrite.Need.Met] at hneed
  | claimBuild | expire | claimSubmit =>
      simp [PayoutWrite.need, PayoutWrite.Need.Met, hstatus] at hneed
  | reset seen data => exact absurd (hok hf) (by simp [hk.2.2.1])
  | setStatus seen status =>
      have hseen := hk.2
      simp [hok hf] at hseen
  | markFailed seen cause => exact absurd (hok hf) hk.2.1.1

/-- A command that leaves a payout finalized sets its allocation paid, or
leaves both as they were. -/
theorem paid_of_finalized (hk : PayoutKnown D since c w)
    (hok : FinalAsRead (.payout c) w) (hs : c.status = some .finalized ∨
      (c.status = none ∧ w.Finalized c.target)) :
    c.payment.map Prod.snd = some .paid ∨ (c.payment = none ∧ w.Finalized c.target) := by
  cases c with
  | registerLegacy | finalize => exact .inl rfl
  | noteBroadcastError | countRebroadcast =>
      simp only [PayoutWrite.status, reduceCtorEq, false_or, true_and] at hs
      exact .inr ⟨rfl, hs⟩
  | create | reset | markFailed | claimBuild | expire | claimSubmit =>
      simp [PayoutWrite.status] at hs
  | setStatus seen status =>
      rcases hk.2 with ⟨rfl, -⟩ | ⟨rfl, -⟩ <;> simp [PayoutWrite.status] at hs
  | expireAllocation p =>
      simp only [PayoutWrite.status, reduceCtorEq, false_or, true_and] at hs
      exact absurd hs hok
  | heal seen status =>
      simp only [PayoutWrite.status, reduceCtorEq, false_or, true_and] at hs
      have hseen := hk.2
      rw [hok hs] at hseen
      cases hseen
      exact .inl rfl

/-- The condition leaves out nothing else: a command that breaks it, on a
finalized payout, opens the payout or the allocation again. -/
theorem reopens (hk : PayoutKnown D since c w) (hok : ¬ FinalAsRead (.payout c) w) :
    (∃ s, c.status = some s ∧ s ≠ .finalized) ∨
      ∃ s, c.payment.map Prod.snd = some s ∧ s ≠ .paid := by
  cases c with
  | reset | markFailed => exact .inl ⟨_, rfl, by decide⟩
  | expireAllocation => exact .inr ⟨_, rfl, by decide⟩
  | setStatus seen status =>
      refine .inl ⟨_, rfl, ?_⟩
      rcases hk.2 with ⟨rfl, -⟩ | ⟨rfl, -⟩ <;> decide
  | heal seen status =>
      refine .inr ⟨_, rfl, ?_⟩
      rintro rfl
      exact hok fun _ => allocationStatusOf_eq_paid.mp hk.2
  | _ => exact absurd trivial hok

theorem finality_payout (hi : ∀ p, w.Finalized p → w.Paid p) (hok : FinalAsRead (.payout c) w)
    (hk : PayoutKnown D since c w) (h : c.Applies w.db) :
    (∀ p, w.Finalized p → ((Write.payout c).apply w).Finalized p) ∧
      ∀ p, ((Write.payout c).apply w).Finalized p → ((Write.payout c).apply w).Paid p := by
  constructor
  · intro p hp
    rw [finalized_apply h]
    split
    · next ht =>
      subst ht
      exact (status_of_finalized hk hok h hp).imp id fun hs => ⟨hs, hp⟩
    · exact hp
  · intro p hp
    rw [finalized_apply h] at hp
    rw [paid_apply h]
    split
    · next ht =>
      subst ht
      rw [if_pos rfl] at hp
      exact (paid_of_finalized hk hok hp).imp id fun hs => ⟨hs.1, hi c.target hs.2⟩
    · next ht =>
      rw [if_neg ht] at hp
      exact hi p hp

/-- A batch command writes no payout, and leaves what is paid. -/
theorem finality_batch (hi : finality.inv w) (c : BatchWrite) :
    finality.inv ((Write.batch c).apply w) := by
  intro p hp
  have hf : w.Finalized p := by
    simpa only [World.Finalized, Write.apply_batch_db, BatchWrite.payouts_apply] using hp
  obtain ⟨x, hx, -⟩ := Option.map_eq_some_iff.mp hf
  obtain ⟨a, ha, hpaid⟩ := Option.map_eq_some_iff.mp (hi p hf)
  obtain ⟨a', ha', hstatus, -⟩ := BatchWrite.payoutStatus_apply ha hx c
  exact Option.map_eq_some_iff.mpr ⟨a', ha', hstatus.trans hpaid⟩

/-- A record command writes neither. -/
theorem finality_record (c : RecordWrite) (p : AllocationId) :
    (((Write.record c).apply w).Finalized p ↔ w.Finalized p) ∧
      (((Write.record c).apply w).Paid p ↔ w.Paid p) := by
  simp [World.Finalized, World.Paid]

/-- One command. -/
theorem finality_commit [Collation] (c : Write) (s : World) (hi : finality.inv s)
    (hok : finality.ok c s) (hk : Known finality since c s) :
    finality.rely s (c.apply s) ∧ finality.inv (c.apply s) := by
  cases c with
  | payout c =>
      by_cases h : c.Applies s.db
      · obtain ⟨hstay, hpaid⟩ := finality_payout hi hok hk h
        exact ⟨⟨Chain.Later.refl _, hstay⟩, hpaid⟩
      · have hsame : (Write.payout c).apply s = s := by
          rw [Write.apply, PayoutWrite.apply_of_not_applies h]
        rw [hsame]
        exact ⟨finality_lawful.refl s, hi⟩
  | batch c =>
      refine ⟨⟨Chain.Later.refl _, fun p hp => ?_⟩, finality_batch hi c⟩
      simpa only [World.Finalized, Write.apply_batch_db, BatchWrite.payouts_apply] using hp
  | record c =>
      refine ⟨⟨Chain.Later.refl _, fun p hp => ((finality_record c p).1).mpr hp⟩, fun p hp => ?_⟩
      exact ((finality_record c p).2).mpr (hi p (((finality_record c p).1).mp hp))
  | broadcast p tx => exact ⟨⟨Write.apply_later _ s, fun _ => id⟩, hi⟩

/-- One move of the world around the calls. -/
theorem finality_env (e : EnvMove) (s : World) (hi : finality.inv s) :
    finality.rely s (e.apply s) ∧ finality.inv (e.apply s) := by
  cases e with
  | chain step => exact ⟨⟨Chain.step_later s.chain step, fun _ => id⟩, hi⟩
  | record c =>
      refine ⟨⟨Chain.Later.refl _, fun p hp => ((finality_record c p).1).mpr hp⟩, fun p hp => ?_⟩
      exact ((finality_record c p).2).mpr (hi p (((finality_record c p).1).mp hp))

end Commit

theorem finality_sound [Collation] :
    service.Sound (fun _ _ => True) finality (Known finality fun _ => finality.rely) :=
  service_sound finality_lawful rfl (fun h => h.1) finality_commit
    fun e s hi _ => finality_env e s hi

/-- **Finality**: in every run whose statements by id meet no payout that was
finalized behind their back, a payout that is `FINALIZED` stays so, and its
allocation stays `PAID`. -/
theorem finalized_absorbing [Collation] {s : World} (hs : ∀ p, s.Finalized p → s.Paid p)
    {ms ms' : List (Move Call EnvMove)}
    (hms : service.Respects FinalAsRead (fun _ _ => True) (ms ++ ms') (Config.start s))
    {p : AllocationId} (hp : (service.exec ms (Config.start s)).store.Finalized p) :
    (service.exec (ms ++ ms') (Config.start s)).store.Finalized p ∧
      (service.exec (ms ++ ms') (Config.start s)).store.Paid p := by
  have hlater := (finality_sound.exec_rely hs hms).2 p hp
  exact ⟨hlater, finality_sound.exec_inv hs hms p hlater⟩

/-! ## A late event -/

section Example

open Scenario

/-- The transaction is broadcast; the handler of a `PayoutSettled` event reads
the row; the confirmation job finalizes the payout. -/
def eventDuringConfirmation : List (Move Call EnvMove) :=
  moves 0 submitted ++ [.call (.worker (.onPayoutSettled 1)), .step 5] ++
    settles.map .env ++ moves 6 [.call (confirmation firstTx) 20]

/-- The same, with the handler done before the job starts. -/
def eventBeforeConfirmation : List (Move Call EnvMove) :=
  moves 0 submitted ++ moves 5 [.call (.worker (.onPayoutSettled 1)) 20] ++
    settles.map .env ++ moves 6 [.call (confirmation firstTx) 20]

theorem finalized_absorbing_event :
    ((@service byCodePoint).exec (eventBeforeConfirmation ++ moves 7 [.call create 20])
      (Config.start World.empty)).store.Finalized 1 ∧
    ((@service byCodePoint).exec (eventBeforeConfirmation ++ moves 7 [.call create 20])
      (Config.start World.empty)).store.Paid 1 :=
  @finalized_absorbing byCodePoint World.empty (fun _ h => nomatch h)
    eventBeforeConfirmation (moves 7 [.call create 20]) (by decide +kernel) 1
    (by decide +kernel)

/-- Resumed after the payout is finalized, the handler sets it `CONFIRMED`. -/
theorem finalized_reopened :
    ((@service byCodePoint).exec eventDuringConfirmation
      (Config.start World.empty)).store.Finalized 1 ∧
    ¬ ((@service byCodePoint).exec (eventDuringConfirmation ++ [.step 5])
      (Config.start World.empty)).store.Finalized 1 := by
  decide +kernel

end Example

end ServeProof
