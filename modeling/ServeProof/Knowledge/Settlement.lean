import ServeProof.Knowledge.Payouts

/-!
# ServeProof.Knowledge.Settlement

What the settlement worker knows at its commands.  The reconciliation reads
its rows once and handles them one after the other: what it recalls of a row
outlasts its handling of the others, since that writes other rows only.
-/

namespace ServeProof

open Interleave
open Prog (require Only)

/-! ## Commands of the worker -/

section Only

variable {p q : AllocationId}

theorem only_refreshBatchPaymentStatus (b : BatchId) :
    (refreshBatchPaymentStatus b).Only (Write.Spares q) := by
  simp only [refreshBatchPaymentStatus, Prog.only_get_bind, only_commit_bind, Prog.only_pure]
  exact fun _ => ⟨trivial, fun _ => trivial⟩

theorem only_finalizeFromChain (h : p ≠ q) (slot : Option Nat) :
    (finalizeFromChain p slot).Only (Write.Spares q) := by
  rw [finalizeFromChain, Prog.only_get_bind]
  intro s
  cases hf : s.db.payouts.find p with
  | none => trivial
  | some payout =>
      have hpid : payout.paymentId = p := Table.key_of_find hf
      simp only
      split
      · trivial
      · simp only [Prog.only_get_bind, Prog.only_orThrow_bind, refreshBatchOf]
        intro _ record _ _
        refine Only.bind (only_transact.mpr ?_) fun _ => ?_
        · exact fun hq => h (hpid.symm.trans hq)
        · rw [Prog.only_get_bind]
          intro t
          split
          · trivial
          · exact only_refreshBatchPaymentStatus _

theorem only_markFailed {payout : Payout} (h : payout.paymentId ≠ q) (cause : FailCause) :
    (markFailed payout cause).Only (Write.Spares q) :=
  only_transact.mpr h

theorem only_setPayoutStatus (payout : Payout) (status : PayoutStatus) :
    (setPayoutStatus payout status).Only (Write.Spares q) :=
  only_transact.mpr trivial

theorem only_finalizeOrFail {payout : Payout} (h : payout.paymentId ≠ q) (cause : FailCause) :
    (finalizeOrFail payout cause).Only (Write.Spares q) := by
  rw [finalizeOrFail, Prog.only_get_bind]
  exact fun _ => Only.ite (only_finalizeFromChain h none) (only_markFailed h cause)

theorem only_failIfObservedForkWasDropped {payout : Payout} (h : payout.paymentId ≠ q)
    (sig : Signature) (slot : Nat) (expired : Bool) :
    (failIfObservedForkWasDropped payout sig slot expired).Only (Write.Spares q) := by
  unfold failIfObservedForkWasDropped
  refine Only.ite trivial fun _ => Only.ite trivial fun _ => Only.ite trivial ?_
  exact Only.bind (only_finalizeOrFail h .forkDropped) fun _ => trivial

theorem only_rebroadcastSameTransaction (payout : Payout) (now : Time) :
    (rebroadcastSameTransaction payout now).Only (Write.Spares q) := by
  unfold rebroadcastSameTransaction
  split
  · rw [only_commit_bind]
    exact ⟨trivial, fun _ => Prog.only_put.mpr trivial⟩
  · trivial

theorem only_reconcileStatus {payout : Payout} (h : payout.paymentId ≠ q) (expired : Bool)
    (now : Time) (status : Option (Signature × SignatureStatus)) :
    (reconcileStatus payout expired now status).Only (Write.Spares q) := by
  cases status with
  | none =>
      refine Only.ite (only_markFailed h _) (Only.ite (only_rebroadcastSameTransaction _ _) ?_)
      exact Only.when (only_markFailed h _)
  | some x =>
      simp only [reconcileStatus]
      split
      · exact only_markFailed h _
      · split
        · exact only_markFailed h _
        · refine Only.bind (Only.when (only_setPayoutStatus _ _)) fun _ => ?_
          exact Only.bind (only_failIfObservedForkWasDropped h _ _ _) fun _ => trivial
        · refine Only.bind (only_failIfObservedForkWasDropped h _ _ _) fun _ => ?_
          exact Only.when (only_rebroadcastSameTransaction _ _)

theorem only_reconcilePayout {payout : Payout} (h : payout.paymentId ≠ q) (height : Nat)
    (now : Time) : (reconcilePayout height now payout).Only (Write.Spares q) := by
  rw [reconcilePayout, Prog.only_get_bind]
  refine fun _ => Only.ite (only_finalizeFromChain h none) fun _ => ?_
  exact only_reconcileStatus h _ now _

end Only

/-! ## What the worker knows -/

section Calls

variable [Collation] {D : Discipline World Write} {since : AllocationId → World → World → Prop}
  {s₀ : World} {payout : Payout}

theorem CauseKnown.of_rely (hM : Memory D since) {cause : FailCause} {s t : World}
    (h : CauseKnown D since payout cause s) (hr : D.rely s t) :
    CauseKnown D since payout cause t := by
  cases cause with
  | onchainError err =>
      obtain ⟨sig, hsig, hst⟩ := h
      exact ⟨sig, hsig, hst.of_rely hM hr⟩
  | dropped =>
      obtain ⟨sig, n, hsig, hn, hst, hexp⟩ := h
      exact ⟨sig, n, hsig, hn, hst.of_rely hM hr, hexp.of_rely hM hr⟩
  | staleDropped =>
      obtain ⟨n, hn, hst⟩ := h
      exact ⟨n, hn, hst.of_rely hM hr⟩
  | finalizedWithoutSettlement =>
      obtain ⟨sig, hsig, hst, hrec⟩ := h
      exact ⟨sig, hsig, hst.of_rely hM hr, hrec.of_rely hM hr⟩
  | forkDropped => exact h
  | legacyAttemptTimeout => exact h

theorem sat_markFailed (hM : Memory D since) {cause : FailCause}
    (hrow : Recall D since payout.paymentId (RowIs payout) s₀) (hact : payout.Active)
    (hcause : CauseKnown D since payout cause s₀) :
    (markFailed payout cause).Sat D (Known D since) s₀ fun _ _ => True :=
  sat_transact_last fun _ hr => ⟨hrow.of_rely hM hr, hact, hcause.of_rely hM hr⟩

theorem sat_setPayoutStatus (hM : Memory D since) {status : PayoutStatus}
    (hrow : Recall D since payout.paymentId (RowIs payout) s₀)
    (hst : (status = .confirmed ∧ payout.status ∈ [.submitted, .initiated]) ∨
      (status = .submitted ∧ payout.status = .submitted)) :
    (setPayoutStatus payout status).Sat D (Known D since) s₀ fun _ _ => True :=
  sat_transact_last fun _ hr => ⟨hrow.of_rely hM hr, hst⟩

theorem sat_finalizeFromChain (hD : D.Lawful) (hM : Memory D since)
    (hrow : Recall D since payout.paymentId (RowIs payout) s₀) (hact : payout.Active)
    (slot : Option Nat) :
    (finalizeFromChain payout.paymentId slot).Sat D (Known D since) s₀ fun _ _ => True := by
  rw [finalizeFromChain, Prog.sat_get_bind]
  intro s₁ h₁ i₁
  cases hf : s₁.db.payouts.find payout.paymentId with
  | none => exact fun _ _ _ => trivial
  | some row =>
      have hid : row.paymentId = payout.paymentId := Table.key_of_find hf
      simp only
      split
      · exact fun _ _ _ => trivial
      · next hfin =>
        simp only [Prog.sat_get_bind, Prog.sat_orThrow_bind]
        intro s₂ h₂ i₂ record hrec s₃ h₃ _
        rw [sat_transact_bind]
        intro s₄ h₄ _ _
        have h₂₄ : D.rely s₂ s₄ := hD.trans h₃ h₄
        have h₁₄ : D.rely s₁ s₄ := hD.trans h₂ h₂₄
        refine ⟨⟨⟨s₁, i₁, h₁₄, ?_⟩, hfin, ⟨s₂, i₂, h₂₄, ?_⟩, payout, hid.symm, hact,
          hrow.of_rely hM (hD.trans h₁ h₁₄)⟩, fun _ => ?_⟩
        · rw [RowIs, hid]; exact hf
        · rw [hid]; exact hrec
        · rw [refreshBatchOf, Prog.sat_get_bind]
          intro s₅ _ _
          split
          · exact fun _ _ _ => trivial
          · exact sat_refreshBatchPaymentStatus _

theorem sat_finalizeOrFail (hD : D.Lawful) (hM : Memory D since) {cause : FailCause}
    (hrow : Recall D since payout.paymentId (RowIs payout) s₀) (hact : payout.Active)
    (hcause : CauseKnown D since payout cause s₀) :
    (finalizeOrFail payout cause).Sat D (Known D since) s₀ fun _ _ => True := by
  rw [finalizeOrFail, Prog.sat_get_bind]
  intro s₁ h₁ _
  split
  · exact sat_finalizeFromChain hD hM (hrow.of_rely hM h₁) hact none
  · exact sat_markFailed hM (hrow.of_rely hM h₁) hact (hcause.of_rely hM h₁)

/-- A status the signature had names a block it is in. -/
def Observed (sig : Signature) (slot : Nat) (w : World) : Prop :=
  ∃ i ∈ w.chain.included.rows, i.tx = sig.message ∧ i.height = slot

/-- The dropped-fork branch is never taken: a transaction that was observed
below the finalized root is in finalized history. -/
theorem sat_failIfObservedForkWasDropped (hM : Memory D since) {sig : Signature} {slot : Nat}
    (hobs : Recall D since payout.paymentId (Observed sig slot) s₀) (expired : Bool) :
    (failIfObservedForkWasDropped payout sig slot expired).Sat D (Known D since) s₀
      fun _ s => since payout.paymentId s₀ s := by
  have hm := hM.remembers payout.paymentId
  unfold failIfObservedForkWasDropped
  split
  · exact fun s hr _ => hm.of_rely hr
  · rw [Prog.sat_get_bind]
    intro s₁ h₁ _
    have hs₁ := hm.of_rely h₁
    split
    · exact fun s hr _ => hm.trans hs₁ (hm.of_rely hr)
    · next hroot =>
      rw [Prog.sat_get_bind]
      intro s₂ h₂ _
      have hs₂ := hm.trans hs₁ (hm.of_rely h₂)
      split
      · exact fun s hr _ => hm.trans hs₂ (hm.of_rely hr)
      · next habsent =>
        obtain ⟨s, _, hs, i, hi, htx, hslot⟩ := hobs.of_rely hM h₁
        have hi₂ := (hM.rely_later h₂).included i ((hM.later hs).included i hi)
        have hle : i.height ≤ s₂.chain.level .finalized := by
          have hfin := (hM.rely_later h₂).finalized
          simp only [Chain.getSlot, Chain.level] at hroot ⊢
          omega
        exact absurd (Chain.getTransaction_isSome hi₂ htx hle) habsent

omit [Collation] in
theorem observed_of_status {sig : Signature} {st : SignatureStatus} {w : World}
    (h : w.chain.getSignatureStatus sig = some st) : Observed sig st.slot w := by
  obtain ⟨i, hi, htx, hslot, -⟩ := Chain.getSignatureStatus_some h
  exact ⟨i, hi, htx, hslot⟩

theorem sat_rebroadcastSameTransaction (hM : Memory D since)
    (hrow : Recall D since payout.paymentId (RowIs payout) s₀) (hact : payout.Active)
    (now : Time) :
    (rebroadcastSameTransaction payout now).Sat D (Known D since) s₀ fun _ _ => True := by
  unfold rebroadcastSameTransaction
  split
  · next sig tx hsig htx =>
    rw [sat_commit_bind]
    intro s₁ h₁ i₁ ok₁
    refine ⟨trivial, ?_⟩
    rw [Prog.sat_put]
    intro s₂ h₂ _ _
    have hcommit : since payout.paymentId s₁
        (D.apply (.payout (.countRebroadcast payout.paymentId now)) s₁) :=
      (hM.remembers _).of_commit i₁ ok₁ trivial trivial
    have hrow₂ := ((hrow.of_rely hM h₁).lasts hM hcommit).of_rely hM h₂
    exact ⟨.inr ⟨payout, rfl, hact, by simp [hsig], htx, hrow₂⟩, fun _ _ _ => trivial⟩
  · exact fun _ _ _ => trivial

theorem sat_onPayoutSettled (hM : Memory D since) (p : AllocationId) :
    (onPayoutSettled p).Sat D (Known D since) s₀ fun _ _ => True := by
  rw [onPayoutSettled, Prog.sat_get_bind]
  intro s₁ _ i₁
  cases hf : s₁.db.payouts.find p with
  | none => exact fun _ _ _ => trivial
  | some row =>
      have hid : row.paymentId = p := Table.key_of_find hf
      simp only
      split
      · next hst =>
        exact sat_setPayoutStatus hM (.here hM i₁ (by rw [RowIs, hid]; exact hf))
          (.inl ⟨rfl, hst⟩)
      · exact fun _ _ _ => trivial

/-! ## processConfirmation -/

/-- After the expiry check: the rest may rely on its answer. -/
theorem sat_blockhashExpiredNow_bind (hD : D.Lawful) {β : Type} {f : Bool → Service β}
    {post : β → World → Prop}
    (h : ∀ s b, D.rely s₀ s → D.inv s →
      (b = true → ∃ n, payout.lastValidBlockHeight = some n ∧ Seen D (Expired n) s) →
      (f b).Sat D (Known D since) s post) :
    (blockhashExpiredNow payout >>= f).Sat D (Known D since) s₀ post := by
  refine Prog.Sat.bind hD ?_
  unfold blockhashExpiredNow
  split
  · exact fun s hr hi => h s false hr hi fun hf => absurd hf Bool.false_ne_true
  · next n hn =>
    intro s hr hi t ht hit
    exact h t _ (hD.trans hr ht) hit fun hexp => ⟨n, hn, s, hi, ht, hexp⟩

theorem sat_pollConfirmed (hD : D.Lawful) (hM : Memory D since) {sig : Signature} {slot : Nat}
    (hrow : Recall D since payout.paymentId (RowIs payout) s₀)
    (hobs : Recall D since payout.paymentId (Observed sig slot) s₀) :
    (pollConfirmed payout sig slot).Sat D (Known D since) s₀ fun _ _ => True := by
  unfold pollConfirmed
  refine hM.sat_bind hD (q := payout.paymentId) (Prog.sat_when fun hst => ?_)
    (Only.when (only_setPayoutStatus payout _)) fun _ s₁ h₁ => ?_
  · exact sat_setPayoutStatus hM hrow (.inl ⟨rfl, by simp [hst]⟩)
  · refine sat_blockhashExpiredNow_bind hD fun s₂ expired h₂ _ _ => ?_
    refine Prog.Sat.bind hD ((sat_failIfObservedForkWasDropped hM ?_ expired).mono
      fun _ _ _ => ?_)
    · exact (hobs.lasts hM h₁).of_rely hM h₂
    · unfold Prog.require
      split
      · exact fun _ _ _ => trivial
      · trivial

theorem sat_pollAbsent (hD : D.Lawful) (hM : Memory D since) {sig : Signature}
    (hrow : Recall D since payout.paymentId (RowIs payout) s₀) (hact : payout.Active)
    (hsig : payout.txSignature = some sig)
    (habsent : Recall D since payout.paymentId
      (fun w => w.chain.getSignatureStatus sig = none) s₀) (now : Time) :
    (pollAbsent payout now).Sat D (Known D since) s₀ fun _ _ => True := by
  unfold pollAbsent
  refine sat_blockhashExpiredNow_bind hD fun s₁ expired h₁ _ hexp => ?_
  split
  · next hreplace =>
    obtain ⟨n, hn, hexp⟩ := hexp (by simpa [canReplaceTransactionBlockhash] using hreplace)
    refine sat_finalizeOrFail hD hM (hrow.of_rely hM h₁) hact ?_
    exact ⟨sig, n, hsig, hn, habsent.of_rely hM h₁, hexp.recall hM⟩
  · refine Prog.Sat.andThen hD (Prog.sat_when fun _ => ?_) fun _ _ => trivial
    exact sat_rebroadcastSameTransaction hM (hrow.of_rely hM h₁) hact now

theorem sat_pollProcessed (hD : D.Lawful) (hM : Memory D since) {sig : Signature} {slot : Nat}
    (hrow : Recall D since payout.paymentId (RowIs payout) s₀) (hact : payout.Active)
    (hobs : Recall D since payout.paymentId (Observed sig slot) s₀) (now : Time) :
    (pollProcessed payout sig slot now).Sat D (Known D since) s₀ fun _ _ => True := by
  unfold pollProcessed
  refine sat_blockhashExpiredNow_bind hD fun s₁ expired h₁ _ _ => ?_
  have hrow₁ := hrow.of_rely hM h₁
  split
  · refine Prog.Sat.bind hD ((sat_failIfObservedForkWasDropped hM (hobs.of_rely hM h₁)
      expired).mono fun _ _ _ => ?_)
    unfold Prog.require
    split
    · exact fun _ _ _ => trivial
    · trivial
  · refine hM.sat_bind hD (q := payout.paymentId) (Prog.sat_when fun _ => ?_)
      (Only.when (only_rebroadcastSameTransaction payout now)) fun _ s₂ h₂ => ?_
    · exact sat_rebroadcastSameTransaction hM hrow₁ hact now
    · refine Prog.Sat.andThen hD (Prog.sat_when fun hst => ?_) fun _ _ => trivial
      exact sat_setPayoutStatus hM (hrow₁.lasts hM h₂) (.inr ⟨rfl, hst⟩)

theorem sat_confirmStatus (hD : D.Lawful) (hM : Memory D since) {sig : Signature}
    {status : Option SignatureStatus}
    (hrow : Recall D since payout.paymentId (RowIs payout) s₀) (hact : payout.Active)
    (hsig : payout.txSignature = some sig)
    (hstatus : Recall D since payout.paymentId
      (fun w => w.chain.getSignatureStatus sig = status) s₀) (now : Time) :
    (confirmStatus payout sig now status).Sat D (Known D since) s₀ fun _ _ => True := by
  cases status with
  | none => exact sat_pollAbsent hD hM hrow hact hsig hstatus now
  | some st =>
      have hobs : Recall D since payout.paymentId (Observed sig st.slot) s₀ := by
        obtain ⟨s, hi, hs, hst⟩ := hstatus
        exact ⟨s, hi, hs, observed_of_status hst⟩
      simp only [confirmStatus]
      split
      · next err herr =>
        have hcause : CauseKnown D since payout (.onchainError err) s₀ := by
          obtain ⟨s, hi, hs, hst⟩ := hstatus
          exact ⟨sig, hsig, s, hi, hs, st, hst, by simp [herr]⟩
        exact sat_finalizeOrFail hD hM hrow hact hcause
      · split
        · exact sat_finalizeFromChain hD hM hrow hact (some st.slot)
        · exact sat_pollConfirmed hD hM hrow hobs
        · exact sat_pollProcessed hD hM hrow hact hobs now

theorem sat_processConfirmation (hD : D.Lawful) (hM : Memory D since) (p : AllocationId)
    (sig : Signature) (now : Time) :
    (processConfirmation p sig now).Sat D (Known D since) s₀ fun _ _ => True := by
  rw [processConfirmation, Prog.sat_get_bind]
  intro s₁ _ i₁
  cases hf : s₁.db.payouts.find p with
  | none => exact fun _ _ _ => trivial
  | some row =>
      have hid : row.paymentId = p := Table.key_of_find hf
      simp only
      split
      · next hgo =>
        rw [Prog.sat_get_bind]
        intro s₂ h₂ i₂
        have hrow : Recall D since row.paymentId (RowIs row) s₂ :=
          (Recall.here hM i₁ (by rw [RowIs, hid]; exact hf)).of_rely hM h₂
        exact sat_confirmStatus hD hM hrow hgo.1 hgo.2 (.here hM i₂ rfl) now
      · exact fun _ _ _ => trivial

/-! ## reconcileStalePayouts -/

omit [Collation] in
theorem statusOf_eq_some {w : World} {sig : Signature} {st : SignatureStatus}
    (h : w.statusOf payout = some (sig, st)) :
    payout.txSignature = some sig ∧ w.chain.getSignatureStatus sig = some st := by
  obtain ⟨sig', hsig, h⟩ := Option.bind_eq_some_iff.mp h
  obtain ⟨st', hst, h⟩ := Option.bind_eq_some_iff.mp h
  cases h
  exact ⟨hsig, hst⟩

omit [Collation] in
theorem statusOf_eq_none {w : World} (h : w.statusOf payout = none) :
    ∀ sig ∈ payout.txSignature, w.chain.getSignatureStatus sig = none := by
  intro sig hsig
  cases hst : w.chain.getSignatureStatus sig with
  | none => rfl
  | some st =>
      rw [World.statusOf, show payout.txSignature = some sig from hsig] at h
      simp [hst] at h

theorem sat_reconcileAbsent (hM : Memory D since) {expired : Bool}
    (hrow : Recall D since payout.paymentId (RowIs payout) s₀) (hact : payout.Active)
    (hstatus : Recall D since payout.paymentId (fun w => w.statusOf payout = none ∧
      (expired = true → ∃ n, payout.lastValidBlockHeight = some n ∧ Expired n w)) s₀)
    (now : Time) :
    (reconcileAbsent payout expired now).Sat D (Known D since) s₀ fun _ _ => True := by
  unfold reconcileAbsent
  split
  · next h =>
    have hcause : CauseKnown D since payout .staleDropped s₀ := by
      obtain ⟨s, hi, hs, hst, hexp⟩ := hstatus
      obtain ⟨n, hn, hexp⟩ := hexp (by simpa [canReplaceTransactionBlockhash] using h.2)
      exact ⟨n, hn, s, hi, hs, statusOf_eq_none hst, hexp⟩
    exact sat_markFailed hM hrow hact hcause
  · split
    · exact sat_rebroadcastSameTransaction hM hrow hact now
    · refine Prog.sat_when fun h => ?_
      have hcause : CauseKnown D since payout .legacyAttemptTimeout s₀ := by
        obtain ⟨hlast, t, ht, -⟩ := h
        exact ⟨hlast, Option.ne_none_iff_exists'.mpr ⟨t, ht⟩⟩
      exact sat_markFailed hM hrow hact hcause

theorem sat_reconcileStatus (hD : D.Lawful) (hM : Memory D since) {expired : Bool}
    {status : Option (Signature × SignatureStatus)}
    (hrow : Recall D since payout.paymentId (RowIs payout) s₀) (hact : payout.Active)
    (hrecord : Recall D since payout.paymentId (fun w =>
      w.chain.fetchSettlementRecord payout.paymentId .finalized = none) s₀)
    (hstatus : Recall D since payout.paymentId (fun w => w.statusOf payout = status ∧
      (expired = true → ∃ n, payout.lastValidBlockHeight = some n ∧ Expired n w)) s₀)
    (now : Time) :
    (reconcileStatus payout expired now status).Sat D (Known D since) s₀ fun _ _ => True := by
  cases status with
  | none => exact sat_reconcileAbsent hM hrow hact hstatus now
  | some x =>
      obtain ⟨sig, st⟩ := x
      obtain ⟨s, hi, hs, hst, -⟩ := hstatus
      obtain ⟨hsig, hst⟩ := statusOf_eq_some hst
      have hobs : Recall D since payout.paymentId (Observed sig st.slot) s₀ :=
        ⟨s, hi, hs, observed_of_status hst⟩
      simp only [reconcileStatus]
      split
      · next err herr =>
        have hcause : CauseKnown D since payout (.onchainError err) s₀ :=
          ⟨sig, hsig, s, hi, hs, st, hst, by simp [herr]⟩
        exact sat_markFailed hM hrow hact hcause
      · next herr =>
        split
        · next hfin =>
          have hcause : CauseKnown D since payout .finalizedWithoutSettlement s₀ :=
            ⟨sig, hsig, ⟨s, hi, hs, st, hst, herr, hfin⟩, hrecord⟩
          exact sat_markFailed hM hrow hact hcause
        · refine hM.sat_bind hD (q := payout.paymentId) (Prog.sat_when fun hst => ?_)
            (Only.when (only_setPayoutStatus payout _)) fun _ s₁ h₁ => ?_
          · exact sat_setPayoutStatus hM hrow (.inl ⟨rfl, by simp [hst]⟩)
          · refine Prog.Sat.bind hD ((sat_failIfObservedForkWasDropped hM (hobs.lasts hM h₁)
              expired).mono fun _ _ _ => ?_)
            exact fun _ _ _ => trivial
        · refine Prog.Sat.bind hD ((sat_failIfObservedForkWasDropped hM hobs expired).mono
            fun _ s₁ h₁ => Prog.sat_when fun _ => ?_)
          exact sat_rebroadcastSameTransaction hM (hrow.lasts hM h₁) hact now

theorem sat_reconcilePayout (hD : D.Lawful) (hM : Memory D since) {height : Nat}
    (hrow : Recall D since payout.paymentId (RowIs payout) s₀) (hact : payout.Active)
    (hheight : Recall D since payout.paymentId
      (fun w => w.chain.getBlockHeight .confirmed = height) s₀) (now : Time) :
    (reconcilePayout height now payout).Sat D (Known D since) s₀ fun _ _ => True := by
  rw [reconcilePayout, Prog.sat_get_bind]
  intro s₁ h₁ i₁
  have hrow₁ := hrow.of_rely hM h₁
  split
  · exact sat_finalizeFromChain hD hM hrow₁ hact none
  · next hnone =>
    rw [Prog.sat_get_bind]
    intro s₂ h₂ i₂
    refine sat_reconcileStatus hD hM (hrow₁.of_rely hM h₂) hact ?_ ?_ now
    · exact ⟨s₁, i₁, (hM.remembers _).of_rely h₂, by simpa using hnone⟩
    · refine .here hM i₂ ⟨rfl, fun hexp => ?_⟩
      obtain ⟨n, hn, hexp⟩ := (Option.any_eq_true _ _).mp hexp
      obtain ⟨s, -, hs, rfl⟩ := (hheight.of_rely hM h₁).of_rely hM h₂
      exact ⟨n, hn, (hM.later hs).expired hexp⟩

omit [Collation] in
/-- The reconciliation looks at every payout once. -/
theorem nodup_stalePayouts (w : World) : (w.stalePayouts.map Payout.paymentId).Nodup := by
  have hfilter : ((w.db.payouts.rows.filter fun p => decide p.Stale).map Payout.paymentId).Nodup :=
    (List.filter_sublist.map _).nodup w.db.payouts.nodup
  have hsort := (List.perm_insertionSort InitiatedLe
    (w.db.payouts.rows.filter fun p => decide p.Stale)).map Payout.paymentId
  exact ((List.take_sublist 50 _).map _).nodup (hsort.nodup_iff.mpr hfilter)

omit [Collation] in
theorem mem_stalePayouts {w : World} {p : Payout} (h : p ∈ w.stalePayouts) :
    RowIs p w ∧ p.Stale := by
  have hmem := (List.mem_insertionSort _).mp (List.mem_of_mem_take h)
  rw [List.mem_filter, decide_eq_true_iff] at hmem
  exact ⟨Table.find_key hmem.1, hmem.2⟩

theorem sat_reconcileStalePayouts (hD : D.Lawful) (hM : Memory D since) (now : Time) :
    (reconcileStalePayouts now).Sat D (Known D since) s₀ fun _ _ => True := by
  rw [reconcileStalePayouts, Prog.sat_get_bind]
  intro s₁ _ i₁
  split
  · exact fun _ _ _ => trivial
  · rw [Prog.sat_get_bind]
    intro s₂ h₂ i₂
    refine Prog.sat_forEach_remember hD hM.remembers (nodup_stalePayouts s₁) ?_ ?_
    · intro x hx s hs
      obtain ⟨hrow, hstale⟩ := mem_stalePayouts hx
      have hrow₂ : Recall D since x.paymentId (RowIs x) s₂ :=
        (Recall.here hM i₁ hrow).of_rely hM h₂
      have hheight : Recall D since x.paymentId (fun w => w.chain.getBlockHeight .confirmed =
          s₂.chain.getBlockHeight .confirmed) s₂ := .here hM i₂ rfl
      exact sat_reconcilePayout hD hM (hrow₂.lasts hM hs) hstale.active (hheight.lasts hM hs) now
    · exact fun x _ p hp => only_reconcilePayout (Ne.symm hp) _ now

end Calls

end ServeProof
