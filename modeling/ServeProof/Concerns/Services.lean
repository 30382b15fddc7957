import ServeProof.Concerns
import ServeProof.Interleave.Reaches

/-!
# ServeProof.Concerns.Services

Which rows the services write.

* `Write.IsIn` -- rows of one venue, by their keys: batches, evidence, policies, accounts;
* `Write.IsFor` -- the payment of one allocation, and the rollup of its batch;
* `Write.FilesNone` -- no new payout: what the jobs of the worker write.
-/

namespace ServeProof

open Interleave
open Prog (Only Reaches reaches_get_bind reaches_require_bind reaches_orThrow_bind)

/-! ## What the services write -/

/-- The command writes rows of the venue, by their keys. -/
def Write.IsIn (v : VenueId) : Write → Prop
  | .batch (.saveCalculation _ c) => c.batchId.venueId = v
  | .batch (.approve seen ..) | .batch (.reject seen ..) => seen.id.venueId = v
  | .record c => c.venueId = some v
  | .payout _ | .batch (.rollup ..) | .batch (.attach ..) | .broadcast .. => False

/-- The venue that a new payout is filed under. -/
def PayoutWrite.filed : PayoutWrite → Option VenueId
  | create data | reset _ data => some data.venueId
  | registerLegacy l => some l.venueId
  | _ => none

/-- The command is one of the payment of an allocation of the batch. -/
def Write.IsFor (p : AllocationId) (b : BatchId) : Write → Prop
  | .payout c => c.target = p ∧ ∀ v ∈ c.filed, v = b.venueId
  | .batch (.rollup id _) => id = b
  | .broadcast .. => True
  | .batch _ | .record _ => False

/-- A command that files no payout. -/
theorem Write.isFor_of_filed {p : AllocationId} {b : BatchId} {c : PayoutWrite}
    (htarget : c.target = p) (hfiled : c.filed = none) : (Write.payout c).IsFor p b := by
  refine ⟨htarget, fun v hv => ?_⟩
  rw [hfiled] at hv
  exact absurd hv (Option.not_mem_none v)

section Services

theorem isIn_calculate [Collation] (venueId : VenueId) (date : String) (version : Option Nat)
    (calculatedBy : Option UserId) (now : Time) :
    (calculate venueId date version calculatedBy now).Only (Write.IsIn venueId) := by
  simp only [calculate, Prog.only_get_bind, Prog.only_orThrow_bind, Prog.only_require_bind]
  intro _ _ _ _ _ _ _ _ _ _ _ _ _
  refine Only.bind (only_transact.mpr rfl) fun _ => ?_
  rw [Prog.only_get_bind]
  intro s
  cases s.db.batches.find _ <;> trivial

theorem isIn_approve (id : BatchId) (userId : UserId) (now : Time) :
    (approve id userId now).Only (Write.IsIn id.venueId) := by
  simp only [approve, Prog.only_get_bind, Prog.only_orThrow_bind, Prog.only_require_bind]
  intro s batch hbatch _ _
  exact only_transact.mpr (congrArg BatchId.venueId (Table.key_of_find hbatch))

theorem isIn_reject (id : BatchId) (userId : UserId) (reason : String) :
    (reject id userId reason).Only (Write.IsIn id.venueId) := by
  simp only [reject, Prog.only_get_bind, Prog.only_orThrow_bind, Prog.only_require_bind]
  intro s batch hbatch _
  exact only_transact.mpr (congrArg BatchId.venueId (Table.key_of_find hbatch))

theorem isIn_importCsv [Collation] (venueId : VenueId) (csv : CsvNormalizationResult)
    (actorUserId : Option UserId) (now : Time) :
    (importCsv venueId csv actorUserId now).Only (Write.IsIn venueId) := by
  simp only [importCsv, Prog.only_get_bind, Prog.only_orThrow_bind]
  intro _ _ _ _
  refine Only.bind (Only.forEach fun tip _ => ?_) fun _ => ?_
  · exact Only.bind (only_commit.mpr rfl) fun _ => trivial
  refine Only.bind (Only.forEach fun shift _ => ?_) fun _ => ?_
  · exact Only.bind (only_commit.mpr rfl) fun _ => trivial
  refine Only.forEach fun date _ => ?_
  exact Only.bind (Only.attempt (isIn_calculate venueId date none actorUserId now)) fun _ => trivial

theorem isIn_createVersion (venueId : VenueId) (input : PolicyInput) :
    (createVersion venueId input).Only (Write.IsIn venueId) :=
  Only.bind (only_commit.mpr rfl) fun _ => trivial

theorem isIn_newVersionFrom (id : PolicyId) (overrides : PolicyOverrides) :
    (newVersionFrom id overrides).Only (Write.IsIn id.venueId) := by
  simp only [newVersionFrom, Prog.only_get_bind, Prog.only_orThrow_bind]
  intro s base hbase
  obtain rfl : base.id = id := Table.key_of_find hbase
  exact isIn_createVersion base.id.venueId _

theorem isIn_createMapping (id : AccountId) (workerId : WorkerId) :
    (createMapping id workerId).Only (Write.IsIn id.venueId) := by
  simp only [createMapping, Prog.only_get_bind, Prog.only_orThrow_bind]
  intro _ _ _
  exact Only.bind (only_commit.mpr rfl) fun _ _ => trivial

/-! ## The payments -/

variable {p : AllocationId} {b : BatchId}

theorem isFor_refreshBatchPaymentStatus (b : BatchId) :
    (refreshBatchPaymentStatus b).Only (Write.IsFor p b) := by
  rw [refreshBatchPaymentStatus, Prog.only_get_bind]
  exact fun _ => Only.bind (only_commit.mpr rfl) fun _ => trivial

theorem isFor_writeRow {c : PayoutWrite} (h : (Write.payout c).IsFor p b) (e : ApiError) :
    (writeRow c e).Only (Write.IsFor p b) := by
  rw [writeRow, Prog.only_putGet_bind]
  exact ⟨h, fun _ => Prog.only_orThrow⟩

theorem only_requireExpired {ok : Write → Prop} (height : Option Nat) :
    (requireExpired height).Only ok := by
  cases height with
  | none => trivial
  | some height =>
      rw [requireExpired, Prog.only_get_bind]
      exact fun _ => Prog.only_require

theorem isFor_healAllocation {v : AllocationView} {existing : Payout}
    (h : existing.paymentId = p) :
    (healAllocation v existing).Only (Write.IsFor p v.allocation.batchId) := by
  unfold healAllocation
  split
  · trivial
  · refine Only.ite (Only.bind (only_transact.mpr (Write.isFor_of_filed h rfl)) fun _ => ?_) trivial
    exact Only.ite (isFor_refreshBatchPaymentStatus v.allocation.batchId) trivial

/-- The payment of an allocation concerns it and its batch, as they were read. -/
theorem writes_createUsdcPayout {initiatedByUserId : Option UserId} {l : List World} {c : Write}
    (h : (createUsdcPayout p initiatedByUserId).Reaches l (.commits c)) :
    ∃ w ∈ l, ∃ a ∈ w.db.allocations.find p, c.IsFor p a.batchId := by
  rw [createUsdcPayout, reaches_get_bind] at h
  obtain ⟨w, l, rfl, h⟩ := h
  rw [reaches_orThrow_bind] at h
  obtain ⟨v, hv, h⟩ := h
  obtain ⟨hallocation, hbatch, -⟩ := findAllocation_eq_some hv
  have hvenue : ∀ u ∈ some v.batch.id.venueId, u = v.allocation.batchId.venueId :=
    fun u hu => Option.some.inj hu ▸ congrArg BatchId.venueId (Table.key_of_find hbatch)
  refine ⟨w, List.mem_cons_self, v.allocation, hallocation, ?_⟩
  refine Only.reaches ?_ h
  simp only [Prog.only_orThrow_bind, Prog.only_require_bind, Prog.only_get_bind]
  intro worker _ _ _ _ wallet _ _ _ t
  cases hpayout : t.db.payouts.find p with
  | none => exact isFor_writeRow (by exact ⟨rfl, hvenue⟩) _
  | some payout =>
      have hp : payout.paymentId = p := Table.key_of_find hpayout
      refine Only.ite (Only.bind (isFor_healAllocation hp) fun _ => trivial) ?_
      exact Only.bind (only_requireExpired _) fun _ => isFor_writeRow (by exact ⟨hp, hvenue⟩) _

theorem writes_registerLegacyEvidence {rail : LegacyRail} {reference : String}
    {submittedBy : Option UserId} {now : Time} {l : List World} {c : Write}
    (h : (registerLegacyEvidence p rail reference submittedBy now).Reaches l (.commits c)) :
    ∃ w ∈ l, ∃ a ∈ w.db.allocations.find p, c.IsFor p a.batchId := by
  rw [registerLegacyEvidence, reaches_get_bind] at h
  obtain ⟨w, l, rfl, h⟩ := h
  rw [reaches_orThrow_bind] at h
  obtain ⟨v, hv, h⟩ := h
  obtain ⟨hallocation, hbatch, -⟩ := findAllocation_eq_some hv
  have hvenue : ∀ u ∈ some v.batch.id.venueId, u = v.allocation.batchId.venueId :=
    fun u hu => Option.some.inj hu ▸ congrArg BatchId.venueId (Table.key_of_find hbatch)
  refine ⟨w, List.mem_cons_self, v.allocation, hallocation, ?_⟩
  refine Only.reaches ?_ h
  rw [Prog.only_orThrow_bind]
  intro workerId _
  refine Only.ite ?_ ?_
  · exact fun _ => Prog.only_orThrow
  · rw [Prog.only_require_bind]
    refine fun _ => Only.bind (isFor_writeRow (by exact ⟨rfl, hvenue⟩) _) fun _ => ?_
    exact Only.bind (isFor_refreshBatchPaymentStatus _) fun _ => trivial

theorem isFor_buildTransaction (p : AllocationId) (b : BatchId)
    (initiatedByUserId : Option UserId) (now : Time) :
    (buildTransaction p initiatedByUserId now).Only (Write.IsFor p b) := by
  simp only [buildTransaction, Prog.only_get_bind, Prog.only_orThrow_bind, Prog.only_require_bind]
  intro w v hv _ _ _
  have hp : v.payout.paymentId = p := Table.key_of_find (findPayout_eq_some hv).1
  refine Only.bind (only_requireExpired _) fun _ => ?_
  simp only [Prog.only_get_bind, Prog.only_orThrow_bind, buildSettlePayoutTx]
  intro _ _ _ _ _ _ _ _ _ _ _ _ _ _ _ _
  refine Only.bind (fun _ => trivial) fun built => ?_
  rw [only_commit_bind]
  exact ⟨Write.isFor_of_filed hp rfl, fun _ => Only.ite trivial fun _ => trivial⟩

theorem only_answerUnclaimed {ok : Write → Prop} : (answerUnclaimed p).Only ok := by
  rw [answerUnclaimed, Prog.only_get_bind]
  intro w
  split
  · exact Only.ite trivial trivial
  · trivial

theorem isFor_broadcastFirst (tx : SignedTransaction) (sendError : Option String) :
    (broadcastFirst p tx sendError).Only (Write.IsFor p b) := by
  unfold broadcastFirst
  rw [Prog.only_put_bind]
  refine ⟨trivial, fun _ => ?_⟩
  cases sendError with
  | none => trivial
  | some message =>
      exact Only.bind (only_commit.mpr (Write.isFor_of_filed rfl rfl)) fun _ => trivial

theorem isFor_submitSigned (p : AllocationId) (b : BatchId)
    (payload : Option SubmittedTransaction) (submittedBy : Option UserId) (now : Time)
    (sendError : Option String) :
    (submitSigned p payload submittedBy now sendError).Only (Write.IsFor p b) := by
  simp only [submitSigned, Prog.only_get_bind, Prog.only_orThrow_bind]
  intro w payout hpayout
  have hp : payout.paymentId = p := Table.key_of_find hpayout
  refine Only.ite trivial ?_
  simp only [Prog.only_orThrow_bind, Prog.only_require_bind, Prog.only_get_bind]
  intro _ _ _ _ _ submitted _ _ _ _ _
  refine Only.ite ?_ ?_
  · rw [expireSubmission, only_commit_bind]
    refine ⟨Write.isFor_of_filed rfl rfl, fun _ => Only.ite ?_ only_answerUnclaimed⟩
    exact Only.bind (only_transact.mpr (Write.isFor_of_filed rfl rfl)) fun _ => trivial
  · rw [only_commit_bind]
    refine ⟨Write.isFor_of_filed hp rfl, fun _ => Only.ite ?_ only_answerUnclaimed⟩
    simp only [Prog.only_get_bind, Prog.only_orThrow_bind]
    exact fun _ _ _ => Only.bind (isFor_broadcastFirst _ _) fun _ => trivial

end Services

/-! ## The planned rails -/

section Rails

variable {l : List World} {k : RailWrite}

theorem only_setPlannedRail (p : AllocationId) (rail : WorkerPayoutRail) :
    (setPlannedRail p rail).Only (· = ⟨[(p, rail)]⟩) := by
  simp only [setPlannedRail, Prog.only_get_bind, Prog.only_orThrow_bind, Prog.only_require_bind]
  exact fun _ _ _ _ => only_planRails _ _ rfl

theorem writes_autoAssignRails {id : BatchId}
    (h : (autoAssignRails id).Reaches l (.commits k)) :
    ∃ w ∈ l, k.assignments = w.autoAssignments id := by
  rw [autoAssignRails, reaches_get_bind] at h
  obtain ⟨w, l, rfl, h⟩ := h
  rw [reaches_orThrow_bind] at h
  obtain ⟨assignments, hfound, h⟩ := h
  obtain ⟨batch, -, rfl⟩ := Option.map_eq_some_iff.mp hfound
  have honly : (Prog.when (w.autoAssignments id ≠ []) (planRails (w.autoAssignments id))).Only
      (· = ⟨w.autoAssignments id⟩) := Only.when (only_planRails _ _ rfl)
  obtain ⟨k', hk', h⟩ | ⟨_, _, _, -, -, h⟩ := Prog.reaches_bind h
  · cases hk'
    exact ⟨w, List.mem_cons_self, congrArg RailWrite.assignments (honly.reaches h)⟩
  · cases h

end Rails

/-! ## The answer to a mapping -/

/-- The account is proposed to the user. -/
def World.ProposedTo (w : World) (userId : UserId) (id : AccountId) : Prop :=
  ∃ a ∈ w.db.accounts.find id, (w.db.workers.find a.workerId).map Worker.userId = some userId

section Mapping

variable {l : List World} {c : Write}

theorem writes_attachHeldAllocations {mapping : ExternalWorkerAccount}
    (h : (attachHeldAllocations mapping).Reaches l (.commits c)) :
    ∃ w ∈ l, ∃ a ∈ w.heldShares mapping.id, c = .batch (.attach a mapping.workerId) := by
  rw [attachHeldAllocations, reaches_get_bind] at h
  obtain ⟨w, l, rfl, h⟩ := h
  have honly : (Prog.forEach (w.heldShares mapping.id) fun a =>
      transact (.batch (.attach a mapping.workerId)) (.internal "Record to update not found")).Only
      fun c => ∃ a ∈ w.heldShares mapping.id, c = .batch (.attach a mapping.workerId) :=
    Only.forEach fun a ha => only_transact.mpr ⟨a, ha, rfl⟩
  exact ⟨w, List.mem_cons_self, honly.reaches h⟩

theorem writes_verifyMapping {id : AccountId} {verifiedBy : UserId}
    (h : (verifyMapping id verifiedBy).Reaches l (.commits c)) :
    c.IsIn id.venueId ∨
      ∃ w ∈ l, ∃ a ∈ w.heldShares id, ∃ workerId, c = .batch (.attach a workerId) := by
  rw [verifyMapping, reaches_get_bind] at h
  obtain ⟨w, l, rfl, h⟩ := h
  rw [reaches_orThrow_bind] at h
  obtain ⟨mapping, hmapping, h⟩ := h
  rw [reaches_require_bind] at h
  obtain rfl : mapping.id = id := Table.key_of_find hmapping
  obtain ⟨c', hc', h⟩ | ⟨l₁, l₂, _, rfl, -, h⟩ := Prog.reaches_bind h.2
  · cases hc'
    have honly : (commit (.record (.verify mapping verifiedBy))).Only
        (Write.IsIn mapping.id.venueId) := only_commit.mpr rfl
    exact .inl (honly.reaches h)
  · obtain ⟨t, ht, a, ha, hc⟩ := writes_attachHeldAllocations h
    exact .inr ⟨t, List.mem_cons_of_mem w (List.mem_append_right l₁ ht), a, ha, _, hc⟩

/-- The account is proposed to who answers, and only rows of its venue are written. -/
theorem writes_respondToMapping {id : AccountId} {userId : UserId} {decision : MappingDecision}
    (h : (respondToMapping id userId decision).Reaches l (.commits c)) :
    (∃ w ∈ l, w.ProposedTo userId id) ∧ (c.IsIn id.venueId ∨
      ∃ w ∈ l, ∃ a ∈ w.heldShares id, ∃ workerId, c = .batch (.attach a workerId)) := by
  rw [respondToMapping, reaches_get_bind] at h
  obtain ⟨w, l, rfl, h⟩ := h
  rw [reaches_orThrow_bind] at h
  obtain ⟨mapping, hfound, h⟩ := h
  rw [reaches_require_bind] at h
  obtain ⟨a, hfind, rfl⟩ := Option.map_eq_some_iff.mp hfound
  refine ⟨⟨w, List.mem_cons_self, a, hfind, h.1⟩, ?_⟩
  obtain rfl : a.id = id := Table.key_of_find hfind
  replace h := h.2
  cases decision with
  | reject =>
      have honly : (do
          Prog.require (a.mappingStatus ≠ .confirmed)
            (.badRequest "A confirmed mapping cannot be rejected")
          let _ ← commit (.record (.rejectAccount a userId)) : Service Unit).Only
          (Write.IsIn a.id.venueId) := by
        rw [Prog.only_require_bind]
        exact fun _ => Only.bind (only_commit.mpr rfl) fun _ => trivial
      exact .inl (honly.reaches h)
  | accept =>
      simp only [reaches_require_bind] at h
      replace h := h.2
      split at h
      · cases h
      · obtain hin | ⟨t, ht, x, hx, hc⟩ := writes_verifyMapping h
        · exact .inl hin
        · exact .inr ⟨t, List.mem_cons_of_mem w ht, x, hx, hc⟩

end Mapping

/-! ## The jobs of the worker -/

/-- The command files no payout. -/
def Write.FilesNone : Write → Prop
  | .payout c => c.filed = none
  | .batch _ | .record _ | .broadcast .. => True

section Worker

variable {payout : Payout}

theorem filesNone_refreshBatchPaymentStatus (b : BatchId) :
    (refreshBatchPaymentStatus b).Only Write.FilesNone := by
  rw [refreshBatchPaymentStatus, Prog.only_get_bind]
  exact fun _ => Only.bind (only_commit.mpr trivial) fun _ => trivial

theorem filesNone_finalizeFromChain (p : AllocationId) (slot : Option Nat) :
    (finalizeFromChain p slot).Only Write.FilesNone := by
  rw [finalizeFromChain, Prog.only_get_bind]
  intro s
  cases s.db.payouts.find p with
  | none => trivial
  | some payout =>
      refine Only.ite trivial ?_
      simp only [Prog.only_get_bind, Prog.only_orThrow_bind, refreshBatchOf]
      intro _ record _ _
      refine Only.bind (only_transact.mpr rfl) fun _ => ?_
      rw [Prog.only_get_bind]
      intro t
      split
      · trivial
      · exact filesNone_refreshBatchPaymentStatus _

theorem filesNone_markFailed (cause : FailCause) :
    (markFailed payout cause).Only Write.FilesNone := only_transact.mpr rfl

theorem filesNone_setPayoutStatus (status : PayoutStatus) :
    (setPayoutStatus payout status).Only Write.FilesNone := only_transact.mpr rfl

theorem filesNone_finalizeOrFail (cause : FailCause) :
    (finalizeOrFail payout cause).Only Write.FilesNone := by
  rw [finalizeOrFail, Prog.only_get_bind]
  exact fun _ => Only.ite (filesNone_finalizeFromChain _ _) (filesNone_markFailed cause)

theorem filesNone_failIfObservedForkWasDropped (sig : Signature) (slot : Nat)
    (expired : Bool) :
    (failIfObservedForkWasDropped payout sig slot expired).Only Write.FilesNone := by
  unfold failIfObservedForkWasDropped
  refine Only.ite trivial fun _ => Only.ite trivial fun _ => Only.ite trivial ?_
  exact Only.bind (filesNone_finalizeOrFail .forkDropped) fun _ => trivial

theorem filesNone_rebroadcastSameTransaction (now : Time) :
    (rebroadcastSameTransaction payout now).Only Write.FilesNone := by
  unfold rebroadcastSameTransaction
  split
  · rw [only_commit_bind]
    exact ⟨rfl, fun _ => Prog.only_put.mpr trivial⟩
  · trivial

theorem filesNone_reconcilePayout (height : Nat) (now : Time) :
    (reconcilePayout height now payout).Only Write.FilesNone := by
  rw [reconcilePayout, Prog.only_get_bind]
  refine fun _ => Only.ite (filesNone_finalizeFromChain _ _) ?_
  rw [Prog.only_get_bind]
  intro w
  cases w.statusOf payout with
  | none =>
      refine Only.ite (filesNone_markFailed _) (Only.ite ?_ (Only.when ?_))
      · exact filesNone_rebroadcastSameTransaction now
      · exact filesNone_markFailed _
  | some x =>
      simp only [reconcileStatus]
      split
      · exact filesNone_markFailed _
      · split
        · exact filesNone_markFailed _
        · refine Only.bind (Only.when (filesNone_setPayoutStatus _)) fun _ => ?_
          exact Only.bind (filesNone_failIfObservedForkWasDropped _ _ _) fun _ => trivial
        · refine Only.bind (filesNone_failIfObservedForkWasDropped _ _ _) fun _ => ?_
          exact Only.when (filesNone_rebroadcastSameTransaction now)

theorem only_blockhashExpiredNow {ok : Write → Prop} : (blockhashExpiredNow payout).Only ok := by
  unfold blockhashExpiredNow
  split
  · trivial
  · exact fun _ => trivial

theorem filesNone_confirmStatus (sig : Signature) (now : Time)
    (status : Option SignatureStatus) :
    (confirmStatus payout sig now status).Only Write.FilesNone := by
  cases status with
  | none =>
      refine Only.bind only_blockhashExpiredNow fun _ => Only.ite ?_ ?_
      · exact filesNone_finalizeOrFail _
      · exact Only.bind (Only.when (filesNone_rebroadcastSameTransaction now)) fun _ => trivial
  | some status =>
      simp only [confirmStatus]
      split
      · exact filesNone_finalizeOrFail _
      · split
        · exact filesNone_finalizeFromChain _ _
        · refine Only.bind (Only.when (filesNone_setPayoutStatus _)) fun _ => ?_
          refine Only.bind only_blockhashExpiredNow fun _ => ?_
          refine Only.bind (filesNone_failIfObservedForkWasDropped _ _ _) fun _ => ?_
          exact Prog.only_require
        · refine Only.bind only_blockhashExpiredNow fun _ => Only.ite ?_ ?_
          · refine Only.bind (filesNone_failIfObservedForkWasDropped _ _ _) fun _ => ?_
            exact Prog.only_require
          · refine Only.bind (Only.when (filesNone_rebroadcastSameTransaction now)) fun _ => ?_
            exact Only.bind (Only.when (filesNone_setPayoutStatus _)) fun _ => trivial

theorem filesNone_workerProg [Collation] (c : WorkerCall) :
    (Call.workerProg c).Only Write.FilesNone := by
  cases c with
  | processConfirmation p sig now =>
      simp only [Call.workerProg, processConfirmation, Prog.only_get_bind]
      intro w
      split
      · trivial
      · refine Only.ite ?_ trivial
        exact fun _ => filesNone_confirmStatus sig now _
  | reconcileStalePayouts now =>
      simp only [Call.workerProg, reconcileStalePayouts, Prog.only_get_bind]
      intro w
      refine Only.ite trivial fun _ => ?_
      exact Only.forEach fun payout _ => filesNone_reconcilePayout _ now
  | onPayoutSettled p =>
      simp only [Call.workerProg, onPayoutSettled, Prog.only_get_bind]
      intro w
      split
      · trivial
      · exact Only.ite (filesNone_setPayoutStatus _) trivial

end Worker

/-! ## Which venue a command is about -/

section Venue

variable {c : Write} {v : VenueId} {w : World}

theorem Write.IsIn.venue {u : VenueId} (h : c.IsIn u) (hc : c.Concerns w v) : u = v := by
  cases c with
  | payout | broadcast => exact h.elim
  | record c => exact Option.some.inj (h.symm.trans hc)
  | batch c =>
      cases c with
      | saveCalculation | approve | reject => exact h.symm.trans hc
      | rollup | attach => exact h.elim

theorem Write.IsFor.venue {p : AllocationId} {a : WorkerAllocation} {d : Db}
    (h : c.IsFor p a.batchId) (ha : d.allocations.find p = some a) (hd : d.KeepsIds w.db)
    (hc : c.Concerns w v) : a.batchId.venueId = v := by
  cases c with
  | broadcast => exact hc.elim
  | record => exact h.elim
  | payout c =>
      obtain ⟨a', ha', hv⟩ := hc
      exact hd.batchId ha (h.1 ▸ ha') ▸ hv
  | batch c =>
      cases c with
      | rollup id status => exact (congrArg BatchId.venueId h).symm.trans hc
      | saveCalculation | approve | reject | attach => exact h.elim

/-- A held share is one of the venue of its account. -/
theorem venue_of_attach {a : WorkerAllocation} {id : AccountId} {workerId : WorkerId} {w₀ : World}
    (ha : a ∈ w₀.heldShares id) (hd : w₀.db.KeepsIds w.db)
    (hc : (Write.batch (.attach a workerId)).Concerns w v) : id.venueId = v := by
  obtain ⟨hmem, hheld⟩ := List.mem_filter.mp ha
  have hvenue : a.batchId.venueId = id.venueId := (of_decide_eq_true hheld).2.2.2
  obtain hv | ⟨a', ha', hv⟩ := hc
  · exact hvenue.symm.trans hv
  · have hbatch : a'.batchId = a.batchId := hd.batchId (Table.find_key hmem) ha'
    exact hvenue.symm.trans (hbatch ▸ hv)

end Venue

end ServeProof
