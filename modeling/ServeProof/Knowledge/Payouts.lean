import ServeProof.Knowledge

/-!
# ServeProof.Knowledge.Payouts

What the calls of the payout service know at their commands.
-/

namespace ServeProof

open Interleave
open Prog (require)

section Calls

variable [Collation] {D : Discipline World Write} {since : AllocationId → World → World → Prop}
  {s₀ : World}

theorem sat_refreshBatchPaymentStatus (b : BatchId) :
    (refreshBatchPaymentStatus b).Sat D (Known D since) s₀ fun _ _ => True := by
  rw [refreshBatchPaymentStatus, Prog.sat_get_bind]
  intro s _ _
  exact sat_commit_last fun _ _ => paymentStatus_approved _

/-- What a failed payout with a blockhash still knows when its turn comes. -/
theorem sat_requireExpired_bind {β : Type} {n : Option Nat} {f : Unit → Service β}
    {post : β → World → Prop} (hD : D.Lawful)
    (h : ∀ s, D.rely s₀ s → D.inv s → (∀ k ∈ n, Seen D (Expired k) s) →
      (f ()).Sat D (Known D since) s post) :
    (requireExpired n >>= f).Sat D (Known D since) s₀ post := by
  refine Prog.Sat.bind hD ?_
  cases n with
  | none =>
      exact fun s hr hi => h s hr hi fun k hk => absurd hk (Option.not_mem_none k)
  | some k =>
      simp only [requireExpired, Prog.sat_get_bind]
      intro s hr hi
      unfold require
      split
      · next hexp =>
        intro t ht hit
        refine h t (hD.trans hr ht) hit fun k' hk' => ?_
        cases hk'
        exact ⟨s, hi, ht, hexp⟩
      · trivial

theorem sat_healAllocation (hD : D.Lawful) {v : AllocationView} {existing : Payout}
    (h : Seen D (RowIs existing) s₀) :
    (healAllocation v existing).Sat D (Known D since) s₀ fun _ _ => True := by
  unfold healAllocation
  split
  · exact fun _ _ _ => trivial
  · next status hst =>
    split
    · rw [sat_transact_bind]
      intro s hr _ _
      refine ⟨⟨h.of_rely hD hr, hst⟩, fun _ => ?_⟩
      split
      · exact sat_refreshBatchPaymentStatus _
      · exact fun _ _ _ => trivial
    · exact fun _ _ _ => trivial

theorem sat_createUsdcPayout (hD : D.Lawful) (p : AllocationId) (by' : Option UserId) :
    (createUsdcPayout p by').Sat D (Known D since) s₀ fun _ _ => True := by
  simp only [createUsdcPayout, Prog.sat_get_bind, Prog.sat_orThrow_bind, Prog.sat_require_bind]
  intro s₁ _ i₁ v hv worker hworker hbatch hunpaid hpos wallet hwallet key _ s₂ h₂ i₂
  obtain ⟨ha, hb, hw, hdef⟩ := findAllocation_eq_some hv
  rw [hworker] at hw
  rw [hdef, Option.filter_eq_some_iff] at hwallet
  obtain ⟨wid, -, hwallet⟩ := Option.bind_eq_some_iff.mp hwallet.1
  obtain rfl := Table.key_of_find hwallet
  generalize hdata : UsdcPayout.mk p worker.id v.batch.id.venueId wallet.id
    v.allocation.netAllocatedUsdCents by' = data
  have hid : data.paymentId = p := hdata ▸ rfl
  have hpayable : Payable data s₁ := by
    subst hdata
    refine ⟨v.allocation, v.batch, ha, hb, ?_, hbatch, hunpaid, hpos, rfl, rfl, wallet, hwallet⟩
    obtain ⟨id, hid, -⟩ := Option.bind_eq_some_iff.mp hw.symm
    simp [hid]
  cases hex : s₂.db.payouts.find p with
  | none => exact sat_writeRow fun s hr => ⟨s₁, i₁, hD.trans h₂ hr, hpayable⟩
  | some payout =>
      have hpid : payout.paymentId = p := Table.key_of_find hex
      have hrow : RowIs payout s₂ := by rw [RowIs, hpid]; exact hex
      simp only
      split
      · refine Prog.Sat.andThen hD (sat_healAllocation hD ⟨s₂, i₂, hD.refl s₂, hrow⟩) ?_
        exact fun _ _ _ _ _ => trivial
      · next hfailed =>
        refine sat_requireExpired_bind hD fun s₃ h₃ i₃ hexp => sat_writeRow fun s hr => ?_
        refine ⟨⟨s₁, i₁, hD.trans h₂ (hD.trans h₃ hr), hpayable⟩, ⟨s₂, i₂, hD.trans h₃ hr, hrow⟩,
          not_not.mp hfailed, hid.trans hpid.symm, fun n hn => (hexp n hn).of_rely hD hr⟩

theorem sat_buildTransaction (hD : D.Lawful) (p : AllocationId) (by' : Option UserId)
    (now : Time) : (buildTransaction p by' now).Sat D (Known D since) s₀ fun _ _ => True := by
  simp only [buildTransaction, Prog.sat_get_bind, Prog.sat_orThrow_bind, Prog.sat_require_bind]
  intro s₁ _ i₁ v hv hstatus s₂ h₂ i₂ _
  obtain ⟨hrow, -, -⟩ := findPayout_eq_some hv
  have hpid : v.payout.paymentId = p := Table.key_of_find hrow
  refine sat_requireExpired_bind hD fun s₃ h₃ i₃ hexp => ?_
  simp only [Prog.sat_get_bind, Prog.sat_orThrow_bind, buildSettlePayoutTx]
  intro s₄ h₄ _ signer _ wallet _ hash _ s₅ h₅ _ mint _ authority _ worker _ _ _
  refine Prog.Sat.bind hD ?_
  rw [Prog.sat_get_bind]
  intro s₆ h₆ _ s₇ h₇ _
  rw [sat_commit_bind]
  intro s₈ h₈ _ _
  have hsince : D.rely s₃ s₈ :=
    hD.trans h₄ (hD.trans h₅ (hD.trans h₆ (hD.trans h₇ h₈)))
  refine ⟨⟨⟨s₁, i₁, hD.trans h₂ (hD.trans h₃ hsince), ?_⟩, hstatus, fun hne n hn => ?_⟩, ?_⟩
  · rw [RowIs, hpid]; exact hrow
  · refine (hexp n ?_).of_rely hD hsince
    rw [if_pos]
    · exact hn
    · simpa [hne] using hstatus
  · split
    · exact fun _ _ _ => trivial
    · exact fun _ _ _ => trivial

theorem sat_answerUnclaimed (p : AllocationId) :
    (answerUnclaimed p).Sat D (Known D since) s₀ fun _ _ => True := by
  rw [answerUnclaimed, Prog.sat_get_bind]
  intro s _ _
  split
  · split
    · exact fun _ _ _ => trivial
    · trivial
  · trivial

theorem sat_expireSubmission (p : AllocationId) :
    (expireSubmission p).Sat D (Known D since) s₀ fun _ _ => True := by
  rw [expireSubmission, sat_commit_bind]
  intro s _ hi _
  refine ⟨trivial, ?_⟩
  split
  · next hdone =>
    rw [sat_transact_bind]
    exact fun t ht _ _ => ⟨⟨s, hi, of_decide_eq_true hdone, ht⟩, fun _ => trivial⟩
  · exact sat_answerUnclaimed p

theorem sat_submitSigned (hD : D.Lawful) (p : AllocationId)
    (payload : Option SubmittedTransaction) (by' : Option UserId) (now : Time)
    (sendError : Option String) :
    (submitSigned p payload by' now sendError).Sat D (Known D since) s₀ fun _ _ => True := by
  simp only [submitSigned, Prog.sat_get_bind, Prog.sat_orThrow_bind]
  intro s₁ _ i₁ payout hfound
  have hpid : payout.paymentId = p := Table.key_of_find hfound
  split
  · exact fun _ _ _ => trivial
  · simp only [Prog.sat_get_bind, Prog.sat_orThrow_bind, Prog.sat_require_bind]
    intro hstatus blockhash hblockhash n _ submitted _ htx _ _ s₂ h₂ _
    split
    · exact sat_expireSubmission p
    · rw [sat_commit_bind]
      intro s₃ h₃ i₃ hok
      have hknown : ∀ by'' : Option UserId,
          PayoutKnown D since (.claimSubmit payout submitted.tx now by'') s₃ := fun _ =>
        ⟨⟨s₁, i₁, hD.trans h₂ h₃, by rw [RowIs, hpid]; exact hfound⟩, hstatus,
          hblockhash.trans (congrArg some htx.symm)⟩
      refine ⟨hknown (by'.or payout.submittedByUserId), ?_⟩
      split
      · next hdone =>
        simp only [Prog.sat_get_bind, Prog.sat_orThrow_bind, broadcastFirst]
        intro s₄ h₄ _ updated _
        refine Prog.Sat.bind hD ?_
        rw [Prog.sat_put_bind]
        intro s₅ h₅ _ _
        refine ⟨.inl ⟨payout, now, _, hpid, s₃, i₃, hok, hknown _, of_decide_eq_true hdone,
          hD.trans h₄ h₅⟩, ?_⟩
        cases sendError with
        | none => exact fun _ _ _ _ _ _ => trivial
        | some message =>
            refine (sat_commit_last fun _ _ => trivial).mono fun _ _ _ => ?_
            exact fun _ _ _ => trivial
      · exact sat_answerUnclaimed p

theorem sat_registerLegacyEvidence (hD : D.Lawful) (p : AllocationId) (rail : LegacyRail)
    (reference : String) (by' : Option UserId) (now : Time) :
    (registerLegacyEvidence p rail reference by' now).Sat D (Known D since) s₀
      fun _ _ => True := by
  simp only [registerLegacyEvidence, Prog.sat_get_bind, Prog.sat_orThrow_bind]
  intro s₁ _ i₁ v hv workerId hworker
  obtain ⟨ha, hb, -, -⟩ := findAllocation_eq_some hv
  split
  · rw [Prog.sat_get_bind]
    intro s₂ _ _
    unfold Prog.orThrow
    split
    · exact fun _ _ _ => trivial
    · trivial
  · next hunpaid =>
    rw [Prog.sat_require_bind]
    intro hbatch
    refine Prog.Sat.andThen hD (sat_writeRow fun s hr => ?_) fun _ _ => ?_
    · refine ⟨s₁, i₁, hr, v.allocation, v.batch, ha, hb, ?_, hbatch, hunpaid, rfl⟩
      simp [hworker]
    · refine Prog.Sat.andThen hD (sat_refreshBatchPaymentStatus _) fun _ _ => ?_
      exact fun _ _ _ => trivial

end Calls

end ServeProof
