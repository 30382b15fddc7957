import ServeProof.Alone
import ServeProof.Audit
import ServeProof.Finality
import ServeProof.Interleave.Ends

/-!
# ServeProof.Completed

What a call that pays leaves behind when it has run to its end.

Some writes come in two transactions, a payout that is finalized and the
rollup of its batch, a payout that expires and the status of its allocation.
Between the two the tables disagree.  `Completes` says what a property must
survive to hold again at the end of every call: `ends_*` go through the calls.
-/

namespace ServeProof

open Interleave System
open Prog (Ends)

/-! ## Single writes -/

/-- The status of the payout `p`, if there is one. -/
def World.payoutStatusOf (w : World) (p : AllocationId) : Option PayoutStatus :=
  (w.db.payouts.find p).map Payout.status

/-- The payout `p` has a status among these. -/
def World.PayoutIn (w : World) (p : AllocationId) (among : List PayoutStatus) : Prop :=
  ∃ status ∈ w.payoutStatusOf p, status ∈ among

/-- The payout `p` is neither finalized nor failed. -/
def World.PayoutActive (w : World) (p : AllocationId) : Prop :=
  ∃ status ∈ w.payoutStatusOf p, status ≠ .finalized ∧ status ≠ .failed

/-- The allocation `p` belongs to an approved batch. -/
def World.InApproved (w : World) (p : AllocationId) : Prop :=
  ∀ a ∈ w.db.allocations.find p, w.Approved a.batchId

/-- What a call knows of the payout it writes, when the write is all there is
to do. -/
def PayoutWrite.Fits : PayoutWrite → World → Prop
  | heal seen status, w =>
      w.payoutStatusOf seen.paymentId = some seen.status ∧
        allocationStatusOf seen.status = some status ∧ status ≠ .paid
  | create data, w => ¬ w.Paid data.paymentId ∧ w.InApproved data.paymentId
  | reset seen _, w => ¬ w.Paid seen.paymentId
  | setStatus seen status, w =>
      status ∈ [.submitted, .confirmed] ∧
        w.PayoutIn seen.paymentId [.initiated, .submitted, .confirmed]
  | markFailed seen _, w => w.PayoutActive seen.paymentId
  | claimBuild .., _ | claimSubmit .., _ | noteBroadcastError .., _ | countRebroadcast .., _ => True
  | expire _, _ | expireAllocation _, _ | registerLegacy _, _ | finalize .., _ => False

/-- The batch rolled up over its rows. -/
def World.rolledUp (w : World) (b : BatchId) : World :=
  (Write.batch (.rollup b (paymentStatus (BatchWrite.rowsOf w.db b)))).apply w

/-- What the calls that write the payout `p` leave of a property when they have
ended: single writes keep it, a payout that is finalized is rolled up, one that
expires takes its allocation with it. -/
structure Completes (ok : Write → World → Prop) (p : AllocationId) (inv : World → Prop) :
    Prop where
  payout : ∀ (c : PayoutWrite) (w : World), c.target = p → inv w → ok (.payout c) w →
    c.Applies w.db → c.Fits w → inv ((Write.payout c).apply w)
  paid : ∀ (c : PayoutWrite) (w : World) (a : WorkerAllocation), c.target = p → inv w →
    c.Applies w.db → c.payment.map Prod.snd = some .paid →
    ((Write.payout c).apply w).Finalized p → w.db.allocations.find p = some a →
    (w.db.payouts.find p = none → w.Approved a.batchId) →
    inv (((Write.payout c).apply w).rolledUp a.batchId)
  expired : ∀ w : World, inv w → (PayoutWrite.expire p).Applies w.db →
    inv ((Write.payout (.expireAllocation p)).apply ((Write.payout (.expire p)).apply w))
  broadcast : ∀ (tx : SignedTransaction) (w : World), inv w →
    inv ((Write.broadcast p tx).apply w)

theorem payoutStatusOf_of_find {w : World} {p : AllocationId} {row : Payout}
    (h : w.db.payouts.find p = some row) : w.payoutStatusOf p = some row.status := by
  rw [World.payoutStatusOf, h, Option.map_some]

theorem RowIs.payoutStatusOf {w : World} {row : Payout} (h : RowIs row w) :
    w.payoutStatusOf row.paymentId = some row.status :=
  payoutStatusOf_of_find h

theorem World.PayoutIn.of_eq {w : World} {p : AllocationId} {among : List PayoutStatus}
    {status : PayoutStatus} (h : w.payoutStatusOf p = some status) (hs : status ∈ among) :
    w.PayoutIn p among :=
  ⟨status, h, hs⟩

theorem RowIs.payoutActive {w : World} {row : Payout} (h : RowIs row w) (hact : row.Active) :
    w.PayoutActive row.paymentId :=
  ⟨row.status, h.payoutStatusOf, hact⟩

/-- The status of a payout after a command. -/
theorem payoutStatusOf_apply {w : World} {c : PayoutWrite} (h : c.Applies w.db)
    (p : AllocationId) :
    ((Write.payout c).apply w).payoutStatusOf p =
      if c.target = p then c.status.or (w.payoutStatusOf p) else w.payoutStatusOf p := by
  rw [World.payoutStatusOf, Write.apply_payout_db, PayoutWrite.find_payouts_apply h]
  split
  · next hp =>
    subst hp
    exact PayoutWrite.status_row h.2
  · rfl

theorem payoutStatusOf_apply_target {w : World} {c : PayoutWrite} (h : c.Applies w.db) :
    ((Write.payout c).apply w).payoutStatusOf c.target =
      c.status.or (w.payoutStatusOf c.target) :=
  (payoutStatusOf_apply h c.target).trans (if_pos rfl)

theorem find_allocation_apply_target {w : World} {c : PayoutWrite} (h : c.Applies w.db)
    {a : WorkerAllocation} (ha : w.db.allocations.find c.target = some a) :
    ((Write.payout c).apply w).db.allocations.find c.target = some (c.pay a) := by
  rw [Write.apply_payout_db, PayoutWrite.find_allocations_apply h, if_pos rfl, ha, Option.map_some]

/-- A payout that is finalized, or was. -/
theorem finalized_apply_target {w : World} {c : PayoutWrite} (h : c.Applies w.db)
    (hc : c.status = some .finalized ∨ (c.status = none ∧ w.Finalized c.target)) :
    ((Write.payout c).apply w).Finalized c.target :=
  (finalized_apply h c.target).mpr ((if_pos rfl).mpr hc)

/-- Other payouts can be remembered. -/
theorem Completes.remember {ok : Write → World → Prop} {p : AllocationId} {inv : World → Prop}
    (h : Completes ok p inv) {rows : List Payout} (hne : ∀ row ∈ rows, row.paymentId ≠ p) :
    Completes ok p fun w => inv w ∧ ∀ row ∈ rows, RowIs row w := by
  have hkeep (c : PayoutWrite) (w : World) (hc : c.target = p) (hrows : ∀ row ∈ rows, RowIs row w) :
      ∀ row ∈ rows, RowIs row ((Write.payout c).apply w) := by
    intro row hrow
    by_cases happ : c.Applies w.db
    · rw [RowIs, Write.apply_payout_db, PayoutWrite.find_payouts_apply happ,
        if_neg (hc ▸ Ne.symm (hne row hrow))]
      exact hrows row hrow
    · rw [RowIs, Write.apply_payout_db, PayoutWrite.apply_of_not_applies happ]
      exact hrows row hrow
  have hroll (w : World) (b : BatchId) (hrows : ∀ row ∈ rows, RowIs row w) :
      ∀ row ∈ rows, RowIs row (w.rolledUp b) := by
    intro row hrow
    rw [RowIs, World.rolledUp, Write.apply_batch_db, BatchWrite.payouts_apply]
    exact hrows row hrow
  exact
    { payout := fun c w hc hw hok happ hfits =>
        ⟨h.payout c w hc hw.1 hok happ hfits, hkeep c w hc hw.2⟩
      paid := fun c w a hc hw happ hpay hfin ha happr =>
        ⟨h.paid c w a hc hw.1 happ hpay hfin ha happr, hroll _ _ (hkeep c w hc hw.2)⟩
      expired := fun w hw happ =>
        ⟨h.expired w hw.1 happ, hkeep _ _ rfl (hkeep _ _ rfl hw.2)⟩
      broadcast := fun tx w hw => ⟨h.broadcast tx w hw.1, hw.2⟩ }

/-- A write that is all there is to do, whether it goes through or not. -/
theorem Completes.commit {ok : Write → World → Prop} {p : AllocationId} {inv : World → Prop}
    (h : Completes ok p inv) {c : PayoutWrite} {w : World} (hok : ok (.payout c) w)
    (hc : c.target = p) (hw : inv w) (hfits : c.Fits w) : inv ((Write.payout c).apply w) := by
  by_cases happ : c.Applies w.db
  · exact h.payout c w hc hw hok happ hfits
  · rw [Write.apply, PayoutWrite.apply_of_not_applies happ]
    exact hw

/-! ## Transactions -/

theorem Write.apply_of_not_applies {c : Write} {w : World} (h : ¬ c.Applies w) : c.apply w = w := by
  cases c with
  | payout c => rw [Write.apply, PayoutWrite.apply_of_not_applies h]
  | batch c =>
      have hc : ¬ c.Applies w.db := h
      rw [Write.apply, BatchWrite.apply, if_neg hc]
  | record c => exact absurd trivial h
  | broadcast p tx => exact absurd trivial h

section Ends

variable {ok : Write → World → Prop} {fails : World → Prop} {s : World} {β : Type}

/-- A transaction that goes through, or throws and leaves everything. -/
theorem Ends.transact_bind {c : Write} {e : ApiError} {f : Unit → Service β}
    {post : β → World → Prop} (hs : ¬ c.Applies s → fails s)
    (h : ok c s → c.Applies s → (f ()).Ends Write.apply ok fails (c.apply s) post) :
    (transact c e >>= f).Ends Write.apply ok fails s post := by
  intro hok
  change (Prog.require (decide (c.Applies s) = true) e >>= f).Ends Write.apply ok fails
    (c.apply s) post
  by_cases happ : c.Applies s
  · simp only [happ, decide_true, Prog.require, if_true]
    exact h hok happ
  · simp only [happ, decide_false, Prog.require, Bool.false_eq_true, if_false]
    rw [Write.apply_of_not_applies happ]
    exact hs happ

theorem Ends.transact {c : Write} {e : ApiError} {post : Unit → World → Prop} (hs : fails s)
    (h : ok c s → c.Applies s → post () (c.apply s)) :
    (ServeProof.transact c e).Ends Write.apply ok fails s post := by
  intro hok
  change (Prog.require (decide (c.Applies s) = true) e).Ends Write.apply ok fails (c.apply s) post
  by_cases happ : c.Applies s
  · simp only [happ, decide_true, Prog.require, if_true]
    exact h hok happ
  · simp only [happ, decide_false, Prog.require, Bool.false_eq_true, if_false]
    rw [Write.apply_of_not_applies happ]
    exact hs

/-- A payout write that must go through. -/
theorem Ends.writeRow_bind {c : PayoutWrite} {e : ApiError} {f : Payout → Service β}
    {post : β → World → Prop} (hs : fails s)
    (hrow : c.Applies s.db → ∃ row, c.row (s.db.payouts.find c.target) = some row)
    (h : ∀ row, ok (.payout c) s → c.Applies s.db →
      (f row).Ends Write.apply ok fails ((Write.payout c).apply s) post) :
    (writeRow c e >>= f).Ends Write.apply ok fails s post := by
  rw [writeRow, Prog.bind_assoc, Prog.ends_putGet_bind]
  intro hok
  by_cases happ : c.Applies s.db
  · obtain ⟨row, hrow⟩ := hrow happ
    rw [if_pos happ, hrow]
    exact h row hok happ
  · rw [if_neg happ, Write.apply_of_not_applies (c := .payout c) happ]
    exact hs

/-- The last write of a call. -/
theorem Ends.writeRow {c : PayoutWrite} {e : ApiError} (hs : fails s)
    (h : ok (.payout c) s → c.Applies s.db → fails ((Write.payout c).apply s)) :
    (ServeProof.writeRow c e).Ends Write.apply ok fails s fun _ t => fails t := by
  rw [ServeProof.writeRow, Prog.ends_putGet_bind]
  intro hok
  by_cases happ : c.Applies s.db
  · cases if c.Applies s.db then c.row (s.db.payouts.find c.target) else none with
    | none => exact h hok happ
    | some row => exact h hok happ
  · rw [if_neg happ, Write.apply_of_not_applies (c := .payout c) happ]
    exact hs

end Ends

/-! ## The worker -/

section Calls

variable {ok : Write → World → Prop} {p : AllocationId} {inv : World → Prop} {s : World}

/-- What the calls on the payout `p` end in. -/
abbrev EndsIn (ok : Write → World → Prop) (inv : World → Prop) (q : Service Unit) (s : World) :
    Prop :=
  q.Ends Write.apply ok inv s fun _ t => inv t

theorem ends_markFailed {payout : Payout} (h : Completes ok payout.paymentId inv) (hs : inv s)
    (hact : s.PayoutActive payout.paymentId) (cause : FailCause) :
    EndsIn ok inv (markFailed payout cause) s :=
  Ends.transact hs fun hok happ => h.payout _ s rfl hs hok happ hact

/-- A status is set on a payout that is under way. -/
theorem ends_setPayoutStatus {payout : Payout} (h : Completes ok payout.paymentId inv) (hs : inv s)
    (hin : s.PayoutIn payout.paymentId [.initiated, .submitted, .confirmed])
    {status : PayoutStatus} (hstatus : status ∈ [PayoutStatus.submitted, .confirmed]) :
    (setPayoutStatus payout status).Ends Write.apply ok inv s
      fun _ t => inv t ∧ t.PayoutActive payout.paymentId := by
  refine Ends.transact hs fun hok happ =>
    ⟨h.payout _ s rfl hs hok happ ⟨hstatus, hin⟩, status, ?_, ?_⟩
  · exact payoutStatusOf_apply_target happ
  · rcases List.mem_pair.mp hstatus with rfl | rfl <;> exact ⟨by decide, by decide⟩

theorem ends_refreshBatchOf {a : WorkerAllocation} (ha : s.db.allocations.find p = some a)
    (hs : inv (s.rolledUp a.batchId)) : EndsIn ok inv (refreshBatchOf p) s := by
  rw [EndsIn, refreshBatchOf, Prog.ends_get_bind, ha]
  exact fun _ => hs

/-- A finalization is followed by the rollup. -/
theorem ends_finalizeFromChain (h : Completes ok p inv) (hs : inv s) (slot : Option Nat) :
    EndsIn ok inv (finalizeFromChain p slot) s := by
  rw [EndsIn, finalizeFromChain, Prog.ends_get_bind]
  cases hf : s.db.payouts.find p with
  | none => exact hs
  | some payout =>
      obtain rfl : payout.paymentId = p := Table.key_of_find hf
      refine Ends.ite (fun _ => hs) fun _ => ?_
      rw [Prog.ends_get_bind]
      refine Ends.orThrow hs fun record _ => ?_
      rw [Prog.ends_get_bind]
      refine Ends.transact_bind (fun _ => hs) fun _ happ => ?_
      obtain ⟨a, ha⟩ := Option.isSome_iff_exists.mp happ.1
      have hroll := h.paid _ s a rfl hs happ rfl (finalized_apply_target happ (.inl rfl)) ha
        fun hnone => by rw [hf] at hnone; contradiction
      exact ends_refreshBatchOf (find_allocation_apply_target happ ha) hroll

theorem ends_finalizeOrFail {payout : Payout} (h : Completes ok payout.paymentId inv) (hs : inv s)
    (hact : s.PayoutActive payout.paymentId) (cause : FailCause) :
    EndsIn ok inv (finalizeOrFail payout cause) s := by
  rw [EndsIn, finalizeOrFail, Prog.ends_get_bind]
  exact Ends.ite (fun _ => ends_finalizeFromChain h hs none)
    fun _ => ends_markFailed h hs hact cause

theorem ends_failIfObservedForkWasDropped {payout : Payout}
    (h : Completes ok payout.paymentId inv) (hs : inv s)
    (hact : s.PayoutActive payout.paymentId) (sig : Signature) (slot : Nat) (expired : Bool) :
    (failIfObservedForkWasDropped payout sig slot expired).Ends Write.apply ok inv s
      fun resolved t => inv t ∧ (resolved = false → t = s) := by
  unfold failIfObservedForkWasDropped
  refine Ends.ite (fun _ => ⟨hs, fun _ => rfl⟩) fun _ => ?_
  rw [Prog.ends_get_bind]
  refine Ends.ite (fun _ => ⟨hs, fun _ => rfl⟩) fun _ => ?_
  rw [Prog.ends_get_bind]
  refine Ends.ite (fun _ => ⟨hs, fun _ => rfl⟩) fun _ => ?_
  exact Ends.bind ((ends_finalizeOrFail h hs hact .forkDropped).mono
    fun _ t ht => ⟨ht, fun hfalse => absurd hfalse (by decide)⟩)

/-- A rebroadcast leaves the status of the payout. -/
theorem ends_rebroadcastSameTransaction {payout : Payout}
    (h : Completes ok payout.paymentId inv) (hs : inv s) (now : Time) :
    (rebroadcastSameTransaction payout now).Ends Write.apply ok inv s
      fun _ t => inv t ∧ t.payoutStatusOf payout.paymentId = s.payoutStatusOf payout.paymentId := by
  unfold rebroadcastSameTransaction
  split
  · next sig tx _ _ =>
    intro hok _
    by_cases happ : (PayoutWrite.countRebroadcast payout.paymentId now).Applies s.db
    · refine ⟨h.broadcast tx _ (h.payout _ s rfl hs hok happ trivial), ?_⟩
      exact payoutStatusOf_apply_target happ
    · rw [Write.apply_of_not_applies (c := .payout _) happ]
      exact ⟨h.broadcast tx s hs, rfl⟩
  · exact ⟨hs, rfl⟩

/-! The confirmation job. -/

theorem ends_blockhashExpiredNow_bind {α : Type} {payout : Payout} {f : Bool → Service α}
    {post : α → World → Prop} (h : ∀ expired, (f expired).Ends Write.apply ok inv s post) :
    (blockhashExpiredNow payout >>= f).Ends Write.apply ok inv s post := by
  unfold blockhashExpiredNow
  split
  · exact h false
  · exact h _

/-- A submitted payout may be set to another pending status on the way. -/
theorem ends_when_setPayoutStatus {payout : Payout} (h : Completes ok payout.paymentId inv)
    (hs : inv s) (hrow : s.payoutStatusOf payout.paymentId = some payout.status)
    (hact : payout.Active) {status : PayoutStatus}
    (hstatus : status ∈ [PayoutStatus.submitted, .confirmed]) :
    (Prog.when (payout.status = .submitted) (setPayoutStatus payout status)).Ends Write.apply ok inv
      s fun _ t => inv t ∧ t.PayoutActive payout.paymentId := by
  refine Ends.when (fun hsub => ends_setPayoutStatus h hs (.of_eq hrow ?_) hstatus)
    fun _ => ⟨hs, payout.status, hrow, hact⟩
  rw [hsub]
  decide

theorem ends_pollConfirmed {payout : Payout} (h : Completes ok payout.paymentId inv) (hs : inv s)
    (hrow : RowIs payout s) (hact : payout.Active) (sig : Signature) (slot : Nat) :
    EndsIn ok inv (pollConfirmed payout sig slot) s := by
  refine Ends.bind ((ends_when_setPayoutStatus h hs hrow.payoutStatusOf hact (by decide)).mono
    fun _ t ht => ends_blockhashExpiredNow_bind fun expired => Ends.bind ?_)
  refine (ends_failIfObservedForkWasDropped h ht.1 ht.2 sig slot expired).mono
    fun resolved u hu => ?_
  unfold Prog.require
  split <;> exact hu.1

theorem ends_pollAbsent {payout : Payout} (h : Completes ok payout.paymentId inv) (hs : inv s)
    (hrow : RowIs payout s) (hact : payout.Active) (now : Time) :
    EndsIn ok inv (pollAbsent payout now) s := by
  refine ends_blockhashExpiredNow_bind fun expired => Ends.ite (fun _ => ?_) fun _ => ?_
  · exact ends_finalizeOrFail h hs (hrow.payoutActive hact) .dropped
  · refine Ends.bind (Ends.when (fun _ => ?_) fun _ => hs)
    exact (ends_rebroadcastSameTransaction h hs now).mono fun _ t ht => ht.1

theorem ends_pollProcessed {payout : Payout} (h : Completes ok payout.paymentId inv) (hs : inv s)
    (hrow : RowIs payout s) (hact : payout.Active) (sig : Signature) (slot : Nat) (now : Time) :
    EndsIn ok inv (pollProcessed payout sig slot now) s := by
  refine ends_blockhashExpiredNow_bind fun expired => Ends.ite (fun _ => ?_) fun _ => ?_
  · refine Ends.bind ((ends_failIfObservedForkWasDropped h hs (hrow.payoutActive hact) sig slot
      expired).mono fun resolved t ht => ?_)
    unfold Prog.require
    split <;> exact ht.1
  · have hset (t : World) (ht : inv t)
        (hst : t.payoutStatusOf payout.paymentId = some payout.status) :
        EndsIn ok inv
          (Prog.when (payout.status = .submitted) (setPayoutStatus payout .submitted) >>=
            fun _ => Prog.throw (.internal "awaiting confirmation")) t :=
      Ends.bind ((ends_when_setPayoutStatus h ht hst hact (by decide)).mono fun _ u hu => hu.1)
    refine Ends.bind (Ends.when (fun _ => ?_) fun _ => hset s hs hrow.payoutStatusOf)
    exact (ends_rebroadcastSameTransaction h hs now).mono fun _ t ht =>
      hset t ht.1 (ht.2.trans hrow.payoutStatusOf)

theorem ends_confirmStatus {payout : Payout} (h : Completes ok payout.paymentId inv) (hs : inv s)
    (hrow : RowIs payout s) (hact : payout.Active) (sig : Signature) (now : Time)
    (status : Option SignatureStatus) : EndsIn ok inv (confirmStatus payout sig now status) s := by
  unfold confirmStatus
  split
  · exact ends_pollAbsent h hs hrow hact now
  · split
    · exact ends_finalizeOrFail h hs (hrow.payoutActive hact) _
    · split
      · exact ends_finalizeFromChain h hs _
      · exact ends_pollConfirmed h hs hrow hact sig _
      · exact ends_pollProcessed h hs hrow hact sig _ now

theorem ends_processConfirmation (h : Completes ok p inv) (hs : inv s) (sig : Signature)
    (now : Time) : EndsIn ok inv (processConfirmation p sig now) s := by
  rw [EndsIn, processConfirmation, Prog.ends_get_bind]
  cases hf : s.db.payouts.find p with
  | none => exact hs
  | some payout =>
      obtain rfl : payout.paymentId = p := Table.key_of_find hf
      refine Ends.ite (fun hact => ?_) fun _ => hs
      rw [Prog.ends_get_bind]
      exact ends_confirmStatus h hs hf hact.1 sig now _

theorem ends_onPayoutSettled (h : Completes ok p inv) (hs : inv s) :
    EndsIn ok inv (onPayoutSettled p) s := by
  rw [EndsIn, onPayoutSettled, Prog.ends_get_bind]
  cases hf : s.db.payouts.find p with
  | none => exact hs
  | some payout =>
      obtain rfl : payout.paymentId = p := Table.key_of_find hf
      refine Ends.ite (fun hin => ?_) fun _ => hs
      refine (ends_setPayoutStatus h hs (.of_eq (payoutStatusOf_of_find hf) ?_) (by decide)).mono
        fun _ t ht => ht.1
      rcases List.mem_pair.mp hin with hst | hst <;> rw [hst] <;> decide

/-! The reconciliation. -/

theorem ends_reconcileAbsent {payout : Payout} (h : Completes ok payout.paymentId inv) (hs : inv s)
    (hrow : RowIs payout s) (hact : payout.Active) (expired : Bool) (now : Time) :
    EndsIn ok inv (reconcileAbsent payout expired now) s := by
  have hfail (cause : FailCause) : EndsIn ok inv (markFailed payout cause) s :=
    ends_markFailed h hs (hrow.payoutActive hact) cause
  refine Ends.ite (fun _ => hfail _) fun _ => Ends.ite (fun _ => ?_) fun _ => ?_
  · exact (ends_rebroadcastSameTransaction h hs now).mono fun _ t ht => ht.1
  · exact Ends.when (fun _ => hfail _) fun _ => hs

theorem ends_reconcileStatus {payout : Payout} (h : Completes ok payout.paymentId inv) (hs : inv s)
    (hrow : RowIs payout s) (hact : payout.Active) (expired : Bool) (now : Time)
    (status : Option (Signature × SignatureStatus)) :
    EndsIn ok inv (reconcileStatus payout expired now status) s := by
  have hactive := hrow.payoutActive hact
  unfold reconcileStatus
  split
  · exact ends_reconcileAbsent h hs hrow hact expired now
  · split
    · exact ends_markFailed h hs hactive _
    · split
      · exact ends_markFailed h hs hactive _
      · refine Ends.bind ((ends_when_setPayoutStatus h hs hrow.payoutStatusOf hact
          (by decide)).mono fun _ t ht => Ends.bind ?_)
        exact (ends_failIfObservedForkWasDropped h ht.1 ht.2 _ _ expired).mono
          fun _ u hu => hu.1
      · refine Ends.bind ((ends_failIfObservedForkWasDropped h hs hactive _ _ expired).mono
          fun resolved t ht => Ends.when (fun hres => ?_) fun _ => ht.1)
        exact (ends_rebroadcastSameTransaction h ht.1 now).mono fun _ u hu => hu.1

theorem ends_reconcilePayout {payout : Payout} (h : Completes ok payout.paymentId inv) (hs : inv s)
    (hrow : RowIs payout s) (hact : payout.Active) (height : Nat) (now : Time) :
    EndsIn ok inv (reconcilePayout height now payout) s := by
  rw [EndsIn, reconcilePayout, Prog.ends_get_bind]
  refine Ends.ite (fun _ => ends_finalizeFromChain h hs none) fun _ => ?_
  rw [Prog.ends_get_bind]
  exact ends_reconcileStatus h hs hrow hact _ now _

/-- The rows still to be handled are as they were read. -/
theorem ends_reconcileStalePayouts (h : ∀ p, Completes ok p inv) (hs : inv s) (now : Time) :
    EndsIn ok inv (reconcileStalePayouts now) s := by
  rw [EndsIn, reconcileStalePayouts, Prog.ends_get_bind]
  refine Ends.ite (fun _ => hs) fun _ => ?_
  rw [Prog.ends_get_bind]
  let J (rows : List Payout) (w : World) : Prop :=
    inv w ∧ (rows.map Payout.paymentId).Nodup ∧ ∀ row ∈ rows, RowIs row w ∧ row.Stale
  have hstart : J s.stalePayouts s :=
    ⟨hs, nodup_stalePayouts s, fun row hrow => mem_stalePayouts hrow⟩
  refine (Ends.forEach (J := J) (fun row rows t ht => ?_) hstart).mono fun _ t ht => ht.1
  obtain ⟨hinv, hnodup, hrows⟩ := ht
  rw [List.map_cons, List.nodup_cons] at hnodup
  have hne : ∀ other ∈ rows, other.paymentId ≠ row.paymentId := fun other hother heq =>
    hnodup.1 (heq ▸ List.mem_map_of_mem hother)
  have hrow := hrows row List.mem_cons_self
  have hend := ends_reconcilePayout ((h row.paymentId).remember hne)
    ⟨hinv, fun other hother => (hrows other (List.mem_cons_of_mem row hother)).1⟩ hrow.1
    hrow.2.active (s.chain.getBlockHeight .confirmed) now
  refine (hend.imp_fails fun _ hu => hu.1).mono
    fun _ u hu => ⟨hu.1, hnodup.2, fun other hother => ?_⟩
  exact ⟨hu.2 other hother, (hrows other (List.mem_cons_of_mem row hother)).2⟩

/-! ## The payout service -/

/-- An allocation that is paid already or has no payout to heal is left alone;
one that becomes paid is rolled up. -/
theorem ends_healAllocation {v : AllocationView} {payout : Payout}
    (h : Completes ok payout.paymentId inv) (hs : inv s) (hrow : RowIs payout s)
    (hv : s.db.allocations.find payout.paymentId = some v.allocation) :
    EndsIn ok inv (healAllocation v payout) s := by
  unfold healAllocation
  split
  · exact hs
  · next status hstatus =>
    refine Ends.ite (fun _ => Ends.transact_bind (fun _ => hs) fun hok happ =>
      Ends.ite (fun hpaid => ?_) fun hpaid => ?_) fun _ => hs
    · subst hpaid
      have hfin : s.Finalized payout.paymentId := by
        rw [World.Finalized, show s.db.payouts.find payout.paymentId = some payout from hrow,
          Option.map_some, allocationStatusOf_eq_paid.mp hstatus]
      have hroll := h.paid _ s v.allocation rfl hs happ rfl
        (finalized_apply_target happ (.inr ⟨rfl, hfin⟩)) hv fun hnone => by
          rw [show s.db.payouts.find payout.paymentId = some payout from hrow] at hnone
          contradiction
      exact fun _ => hroll
    · exact h.payout _ s rfl hs hok happ ⟨hrow.payoutStatusOf, hstatus, hpaid⟩

theorem ends_requireExpired_bind {α : Type} {height : Option Nat} {f : Unit → Service α}
    {post : α → World → Prop} (hs : inv s) (h : (f ()).Ends Write.apply ok inv s post) :
    (requireExpired height >>= f).Ends Write.apply ok inv s post := by
  unfold requireExpired
  split
  · exact h
  · rw [Prog.bind_assoc, Prog.ends_get_bind]
    exact Ends.require hs fun _ => h

theorem approved_of_findAllocation {v : AllocationView} (h : s.findAllocation p = some v)
    (hstatus : v.batch.status ∈ [AllocationBatchStatus.payable, .partiallyPaid]) :
    s.Approved v.allocation.batchId := by
  refine World.approved_iff.mpr ⟨v.batch, (findAllocation_eq_some h).2.1, ?_⟩
  rcases List.mem_pair.mp hstatus with hb | hb <;> rw [hb] <;> decide

theorem ends_createUsdcPayout (h : Completes ok p inv) (hs : inv s) (by' : Option UserId) :
    (createUsdcPayout p by').Ends Write.apply ok inv s fun _ t => inv t := by
  rw [createUsdcPayout, Prog.ends_get_bind]
  refine Ends.orThrow hs fun v hv => Ends.orThrow hs fun worker _ => Ends.require hs fun hbatch =>
    Ends.require hs fun hunpaid => Ends.require hs fun _ => Ends.orThrow hs fun wallet _ =>
    Ends.orThrow hs fun _ _ => ?_
  rw [Prog.ends_get_bind]
  have ha := (findAllocation_eq_some hv).1
  have hnot : ¬ s.Paid p := by
    rw [World.Paid, ha, Option.map_some, Option.some.injEq]
    exact hunpaid
  have happroved : s.InApproved p := fun a hfound => by
    obtain rfl := Option.some.inj (ha.symm.trans hfound)
    exact approved_of_findAllocation hv hbatch
  cases hf : s.db.payouts.find p with
  | none => exact Ends.writeRow hs fun hok happ => h.payout _ s rfl hs hok happ ⟨hnot, happroved⟩
  | some payout =>
      obtain rfl : payout.paymentId = p := Table.key_of_find hf
      refine Ends.ite (fun _ => ?_) fun _ => ends_requireExpired_bind hs ?_
      · exact Ends.bind ((ends_healAllocation h hs hf ha).mono fun _ t ht => ht)
      · exact Ends.writeRow hs fun hok happ => h.payout _ s rfl hs hok happ hnot

theorem ends_buildTransaction (h : Completes ok p inv) (hs : inv s) (by' : Option UserId)
    (now : Time) :
    (buildTransaction p by' now).Ends Write.apply ok inv s fun _ t => inv t := by
  rw [buildTransaction, Prog.ends_get_bind]
  refine Ends.orThrow hs fun v hv => Ends.require hs fun _ => ?_
  obtain ⟨hf, -⟩ := findPayout_eq_some hv
  obtain hid : v.payout.paymentId = p := Table.key_of_find hf
  rw [Prog.ends_get_bind]
  refine Ends.require hs fun _ => ends_requireExpired_bind hs ?_
  rw [Prog.ends_get_bind]
  refine Ends.orThrow hs fun signer _ => Ends.orThrow hs fun wallet _ =>
    Ends.orThrow hs fun hash _ => ?_
  rw [Prog.ends_get_bind]
  refine Ends.orThrow hs fun mint _ => Ends.orThrow hs fun authority _ =>
    Ends.orThrow hs fun address _ => Ends.orThrow hs fun _ _ => ?_
  rw [buildSettlePayoutTx, Prog.bind_assoc, Prog.ends_get_bind]
  intro hok
  have hinv := h.commit hok hid hs trivial
  exact Ends.ite (fun _ => hinv) fun _ => hinv

/-! The submission. -/

theorem ends_answerUnclaimed (hs : inv s) :
    (answerUnclaimed p).Ends Write.apply ok inv s fun _ t => inv t := by
  rw [answerUnclaimed, Prog.ends_get_bind]
  split
  · exact Ends.ite (fun _ => hs) fun _ => hs
  · exact hs

/-- A payout that expires takes its allocation with it. -/
theorem ends_expireSubmission (h : Completes ok p inv) (hs : inv s) :
    (expireSubmission p).Ends Write.apply ok inv s fun _ t => inv t := by
  intro hok
  refine Ends.ite (fun hexp => ?_) fun hexp => ?_
  · have happ : (PayoutWrite.expire p).Applies s.db := of_decide_eq_true hexp
    have halloc : (Write.payout (.expireAllocation p)).Applies
        ((Write.payout (.expire p)).apply s) := by
      obtain ⟨a, ha⟩ := Option.isSome_iff_exists.mp happ.1
      exact ⟨Option.isSome_iff_exists.mpr ⟨_, find_allocation_apply_target happ ha⟩, trivial⟩
    exact Ends.transact_bind (fun hnot => absurd halloc hnot) fun _ _ => h.expired s hs happ
  · have hnot : ¬ (PayoutWrite.expire p).Applies s.db := fun happ => hexp (decide_eq_true happ)
    rw [Write.apply_of_not_applies (c := .payout (.expire p)) hnot]
    exact ends_answerUnclaimed hs

theorem ends_broadcastFirst (h : Completes ok p inv) (hs : inv s) (tx : SignedTransaction)
    (sendError : Option String) :
    EndsIn ok inv (broadcastFirst p tx sendError) s := by
  intro _
  have hsent := h.broadcast tx s hs
  cases sendError with
  | none => exact hsent
  | some message => exact fun hok => h.commit hok rfl hsent trivial

theorem ends_submitSigned (h : Completes ok p inv) (hs : inv s)
    (payload : Option SubmittedTransaction) (by' : Option UserId) (now : Time)
    (sendError : Option String) :
    (submitSigned p payload by' now sendError).Ends Write.apply ok inv s fun _ t => inv t := by
  rw [submitSigned, Prog.ends_get_bind]
  refine Ends.orThrow hs fun payout hf => Ends.ite (fun _ => hs) fun _ => Ends.require hs fun _ =>
    Ends.orThrow hs fun blockhash _ => Ends.orThrow hs fun height _ => Ends.orThrow hs fun sub _ =>
    Ends.require hs fun _ => Ends.require hs fun _ => Ends.require hs fun _ => ?_
  rw [Prog.ends_get_bind]
  refine Ends.ite (fun _ => ends_expireSubmission h hs) fun _ hok => ?_
  have hid : payout.paymentId = p := Table.key_of_find hf
  have hclaim := h.commit hok hid hs trivial
  refine Ends.ite (fun _ => ?_) fun _ => ends_answerUnclaimed hclaim
  rw [Prog.ends_get_bind]
  refine Ends.orThrow hclaim fun row _ => Ends.bind ?_
  exact (ends_broadcastFirst h hclaim sub.tx sendError).mono fun _ t ht => ht

/-- A registration is followed by the rollup. -/
theorem ends_registerLegacyEvidence (h : Completes ok p inv) (hs : inv s) (rail : LegacyRail)
    (reference : String) (by' : Option UserId) (now : Time) :
    (registerLegacyEvidence p rail reference by' now).Ends Write.apply ok inv s
      fun _ t => inv t := by
  rw [registerLegacyEvidence, Prog.ends_get_bind]
  refine Ends.orThrow hs fun v hv => Ends.orThrow hs fun workerId _ => Ends.ite (fun _ => ?_)
    fun _ => Ends.require hs fun hbatch => ?_
  · rw [Prog.ends_get_bind]
    unfold Prog.orThrow
    split <;> exact hs
  · have ha := (findAllocation_eq_some hv).1
    refine Ends.writeRow_bind hs (fun _ => ?_) fun row _ happ => ?_
    · cases s.db.payouts.find _ with
      | none => exact ⟨_, rfl⟩
      | some old => exact ⟨_, rfl⟩
    · exact fun _ => h.paid _ s v.allocation rfl hs happ rfl
        (finalized_apply_target happ (.inl rfl)) ha fun _ => approved_of_findAllocation hv hbatch

end Calls

/-! ## All calls -/

/-- A command of the calls that make batches and those that feed them. -/
def Write.Stores : Write → Prop
  | .batch (.rollup ..) | .payout _ | .broadcast .. => False
  | .batch _ | .record _ => True

theorem MakesBatch.stores {c : Write} (h : MakesBatch c) : c.Stores := by
  cases c with
  | batch c => cases c <;> trivial
  | payout c => exact h.elim
  | record c => exact h.elim
  | broadcast p tx => exact h.elim

section Service

variable [Collation] {ok : Write → World → Prop} {inv : World → Prop}

theorem only_evidenceProg (c : EvidenceCall) : (Call.evidenceProg c).Only Write.Stores := by
  cases c with
  | importCsv venueId csv by' now =>
      simp only [Call.evidenceProg, importCsv, Prog.only_get_bind, Prog.only_orThrow_bind]
      intro _ _ _ _
      refine Prog.Only.bind (Prog.Only.forEach fun tip _ => ?_) fun _ =>
        Prog.Only.bind (Prog.Only.forEach fun shift _ => ?_) fun _ =>
          Prog.Only.forEach fun date _ => ?_
      · exact Prog.Only.bind (only_commit.mpr trivial) fun _ => trivial
      · exact Prog.Only.bind (only_commit.mpr trivial) fun _ => trivial
      · refine Prog.Only.bind (Prog.Only.attempt ?_) fun _ => trivial
        exact (only_calculate venueId date none by' now).imp fun c hc => hc.stores
  | createVersion venueId input => exact Prog.Only.bind (only_commit.mpr trivial) fun _ => trivial
  | newVersionFrom id overrides =>
      simp only [Call.evidenceProg, newVersionFrom, Prog.only_get_bind, Prog.only_orThrow_bind]
      exact fun _ _ _ => Prog.Only.bind (only_commit.mpr trivial) fun _ => trivial
  | respondToMapping id user decision =>
      simp only [Call.evidenceProg, respondToMapping, Prog.only_get_bind, Prog.only_orThrow_bind,
        Prog.only_require_bind]
      intro _ _ _ _
      cases decision with
      | reject =>
          simp only [Prog.only_require_bind]
          exact fun _ => Prog.Only.bind (only_commit.mpr trivial) fun _ => trivial
      | accept =>
          simp only [Prog.only_require_bind, Prog.only_ite]
          refine fun _ => ⟨fun _ => trivial, fun _ => ?_⟩
          simp only [verifyMapping, Prog.only_get_bind, Prog.only_orThrow_bind,
            Prog.only_require_bind]
          refine fun _ _ _ _ => Prog.Only.bind (only_commit.mpr trivial) fun _ => ?_
          rw [attachHeldAllocations, Prog.only_get_bind]
          exact fun _ => Prog.Only.forEach fun held _ => only_transact.mpr trivial

omit [Collation] in
theorem ends_discardResult {α : Type} {p : Service α} {s : World}
    (h : p.Ends Write.apply ok inv s fun _ t => inv t) : EndsIn ok inv (discardResult p) s :=
  Ends.bind h

omit [Collation] in
theorem ends_payoutProg (h : ∀ p, Completes ok p inv) {s : World} (hs : inv s) (c : PayoutCall) :
    EndsIn ok inv (Call.payoutProg c) s := by
  cases c with
  | createUsdcPayout p by' => exact ends_discardResult (ends_createUsdcPayout (h p) hs by')
  | buildTransaction p by' now => exact ends_discardResult (ends_buildTransaction (h p) hs by' now)
  | submitSigned p payload by' now sendError =>
      exact ends_discardResult (ends_submitSigned (h p) hs payload by' now sendError)
  | registerLegacyEvidence p rail reference by' now =>
      exact ends_discardResult (ends_registerLegacyEvidence (h p) hs rail reference by' now)

omit [Collation] in
theorem ends_workerProg (h : ∀ p, Completes ok p inv) {s : World} (hs : inv s) (c : WorkerCall) :
    EndsIn ok inv (Call.workerProg c) s := by
  cases c with
  | processConfirmation p sig now => exact ends_processConfirmation (h p) hs sig now
  | reconcileStalePayouts now => exact ends_reconcileStalePayouts h hs now
  | onPayoutSettled p => exact ends_onPayoutSettled (h p) hs

/-- The rule for calls that run one after the other: a property that every call
that pays has restored when it ends, and that every other command keeps. -/
theorem service_ends {okEnv : EnvMove → World → Prop} (h : ∀ p, Completes ok p inv)
    (hstore : ∀ (c : Write) (w : World), c.Stores → inv w → ok c w →
      Known (.alone Write.apply inv ok) Kept c w → inv (c.apply w))
    (henv : ∀ (e : EnvMove) (w : World), inv w → okEnv e w → inv (e.apply w))
    {ops : List (Op Call EnvMove)} {s : World} (hs : inv s)
    (had : service.AdmittedAll ok okEnv ops s) : inv (service.evalAll ops s) := by
  have hD : (Discipline.alone Write.apply inv ok).Lawful := Discipline.alone_lawful _ _ _
  have hstores {q : Service Unit} {w : World} (honly : q.Only Write.Stores)
      (hsat : q.Sat (.alone Write.apply inv ok) (Known (.alone Write.apply inv ok) Kept) w
        fun _ _ => True) (hw : inv w) (hadq : q.Admitted Write.apply ok w) :
      inv (q.eval Write.apply w).2 :=
    ((hsat.only honly).eval (fun c t ht hok hk => hstore c t hk.1 ht hok hk.2) hw hadq).1
  refine System.evalAll_of_ends (fun i w hw hadi => ?_) henv hs had
  cases i with
  | payout c => exact (ends_payoutProg h hw c).eval hadi fun _ _ ht => ht
  | worker c => exact (ends_workerProg h hw c).eval hadi fun _ _ ht => ht
  | allocation c =>
      refine hstores ((only_allocationProg c).imp fun k hk => hk.stores)
        (Call.sat_allocationProg hD c) hw hadi
  | evidence c =>
      exact hstores (only_evidenceProg c) (Call.sat_evidenceProg hD memory_alone c) hw hadi

end Service

end ServeProof
