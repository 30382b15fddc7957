import ServeProof.Agreement

/-!
# ServeProof.Recovery

The reconciliation resolves every payout in the end.

A payout is *decided* when its blockhash has expired and what the chain holds of it is
final (`Payout.Decided`).  A pass over the stale payouts resolves 50 of them at most,
as the chain says (`Resolves`); so a few passes resolve them all.
-/

namespace ServeProof

open Interleave
open Prog (get forEach eval_get_bind eval_bind)

/-! ## What the chain says -/

/-- The status that the chain calls for. -/
def Chain.outcome (c : Chain) (p : AllocationId) : PayoutStatus :=
  if c.Settled p then .finalized else .failed

/-- What the allocation of a resolved payout says of its payment. -/
def Chain.paidOrFailed (c : Chain) (p : AllocationId) : WorkerAllocationPayoutStatus :=
  if c.Settled p then .paid else .failed

/-- Nothing more can become of the transaction of the payout. -/
structure Payout.Decided (now : Time) (c : Chain) (payout : Payout) : Prop where
  expired :
    payout.lastValidBlockHeight.any (isBlockhashExpired (c.getBlockHeight .confirmed)) = true ∨
      payout.lastValidBlockHeight = none ∧ ∃ t ∈ payout.initiatedAt, t + abandonedAfter < now
  record_final : ∀ i ∈ c.included.rows, i.Records (.payment payout.paymentId) →
    i.height ≤ c.finalized
  status_final : ∀ signature ∈ payout.txSignature, ∀ i ∈ c.included.find signature.message,
    i.height ≤ c.finalized

instance (now : Time) (c : Chain) (payout : Payout) : Decidable (payout.Decided now c) :=
  decidable_of_iff (_ ∧ _ ∧ _) ⟨fun h => ⟨h.1, h.2.1, h.2.2⟩, fun h => ⟨h.1, h.2, h.3⟩⟩

/-- The payouts of `ids` have been resolved, and nothing else has changed of the
payouts and the allocations. -/
structure Resolves (ids : List AllocationId) (w w' : World) : Prop where
  chain : w'.chain = w.chain
  payout : ∀ p ∈ ids, ∃ row, w'.db.payouts.find p = some row ∧ row.status = w.chain.outcome p
  allocation : ∀ p ∈ ids, ∃ a, w'.db.allocations.find p = some a ∧
    a.payoutStatus = w.chain.paidOrFailed p
  others : ∀ q, q ∉ ids → w'.db.payouts.find q = w.db.payouts.find q ∧
    w'.db.allocations.find q = w.db.allocations.find q

theorem Resolves.refl (w : World) : Resolves [] w w :=
  ⟨rfl, by simp, by simp, fun _ _ => ⟨rfl, rfl⟩⟩

theorem Resolves.trans {ids ids' : List AllocationId} {w w' w'' : World}
    (h : Resolves ids w w') (h' : Resolves ids' w' w'') : Resolves (ids ++ ids') w w'' where
  chain := h'.chain.trans h.chain
  payout p hp := by
    rw [← h.chain]
    by_cases hp' : p ∈ ids'
    · exact h'.payout p hp'
    · have hids : p ∈ ids := (List.mem_append.mp hp).resolve_right hp'
      rw [(h'.others p hp').1, h.chain]
      exact h.payout p hids
  allocation p hp := by
    rw [← h.chain]
    by_cases hp' : p ∈ ids'
    · exact h'.allocation p hp'
    · have hids : p ∈ ids := (List.mem_append.mp hp).resolve_right hp'
      rw [(h'.others p hp').2, h.chain]
      exact h.allocation p hids
  others q hq := by
    rw [List.mem_append, not_or] at hq
    exact ⟨(h'.others q hq.2).1.trans (h.others q hq.1).1,
      (h'.others q hq.2).2.trans (h.others q hq.1).2⟩

theorem Resolves.congr {ids ids' : List AllocationId} {w w' : World} (h : Resolves ids w w')
    (hids : ∀ p, p ∈ ids ↔ p ∈ ids') : Resolves ids' w w' where
  chain := h.chain
  payout p hp := h.payout p ((hids p).mpr hp)
  allocation p hp := h.allocation p ((hids p).mpr hp)
  others q hq := h.others q fun hmem => hq ((hids q).mp hmem)

/-! ## One payout -/

section One

variable {w : World} {payout : Payout}

theorem eval_transact {c : Write} {e : ApiError} (h : c.Applies w) :
    (transact c e).eval Write.apply w = (.ok (), c.apply w) := by
  change (Prog.require (decide (c.Applies w) = true) e).eval Write.apply (c.apply w) = _
  rw [Prog.require, if_pos (decide_eq_true h)]
  rfl

/-- The rollup of a batch leaves the payouts and the allocations. -/
theorem eval_refreshBatchOf (p : AllocationId) (w : World) :
    ∃ w', (refreshBatchOf p).eval Write.apply w = (.ok (), w') ∧ w'.chain = w.chain ∧
      w'.db.payouts = w.db.payouts ∧ w'.db.allocations = w.db.allocations := by
  unfold refreshBatchOf
  rw [eval_get_bind]
  cases w.db.allocations.find p with
  | none => exact ⟨w, rfl, rfl, rfl, rfl⟩
  | some a => exact ⟨_, rfl, rfl, by simp, by simp⟩

/-- A write that gives a payout the status the chain calls for. -/
theorem resolves_write {c : PayoutWrite} (happlies : c.Applies w.db)
    (hstatus : c.status = some (w.chain.outcome c.target))
    (hpayment : c.payment.map Prod.snd = some (w.chain.paidOrFailed c.target)) :
    Resolves [c.target] w ((Write.payout c).apply w) where
  chain := rfl
  payout p hp := by
    obtain rfl := List.mem_singleton.mp hp
    rw [Write.apply_payout_db, PayoutWrite.find_payouts_apply happlies, if_pos rfl]
    have hrow := PayoutWrite.status_row happlies.2
    rw [hstatus, Option.some_or] at hrow
    obtain ⟨row, hrow, hst⟩ := Option.map_eq_some_iff.mp hrow
    exact ⟨row, hrow, hst⟩
  allocation p hp := by
    obtain rfl := List.mem_singleton.mp hp
    rw [Write.apply_payout_db, PayoutWrite.find_allocations_apply happlies, if_pos rfl]
    obtain ⟨a, ha⟩ := Option.isSome_iff_exists.mp happlies.1
    refine ⟨c.pay a, by rw [ha]; rfl, ?_⟩
    obtain ⟨⟨rail, status⟩, hpay, hst⟩ := Option.map_eq_some_iff.mp hpayment
    simp only [PayoutWrite.pay, hpay]
    exact hst
  others q hq := by
    have hne : c.target ≠ q := fun h => hq (List.mem_singleton.mpr h.symm)
    rw [Write.apply_payout_db, PayoutWrite.find_payouts_apply happlies, if_neg hne,
      PayoutWrite.find_allocations_apply happlies, if_neg hne]
    exact ⟨rfl, rfl⟩

theorem eval_markFailed (hrow : (w.db.payouts.find payout.paymentId).isSome)
    (hsettled : ¬ w.chain.Settled payout.paymentId) (cause : FailCause) :
    ∃ w', (markFailed payout cause).eval Write.apply w = (.ok (), w') ∧
      Resolves [payout.paymentId] w w' := by
  obtain ⟨row, hfind⟩ := Option.isSome_iff_exists.mp hrow
  obtain ⟨a, ha⟩ := w.db.find_allocation_of_payout hfind
  have happlies : (PayoutWrite.markFailed payout cause).Applies w.db :=
    ⟨Option.isSome_iff_exists.mpr ⟨a, ha⟩, hrow⟩
  refine ⟨_, eval_transact happlies, resolves_write happlies ?_ ?_⟩
  · exact congrArg some (if_neg hsettled).symm
  · exact congrArg some (if_neg hsettled).symm

theorem eval_finalizeFromChain {row : Payout} (hrow : w.db.payouts.find row.paymentId = some row)
    (hopen : row.status ≠ .finalized) {record : SettlementRecordView}
    (hrecord : w.chain.fetchSettlementRecord row.paymentId .finalized = some record)
    (hsettled : w.chain.Settled row.paymentId) (slot : Option Nat) :
    ∃ w', (finalizeFromChain row.paymentId slot).eval Write.apply w = (.ok (), w') ∧
      Resolves [row.paymentId] w w' := by
  obtain ⟨a, ha⟩ := w.db.find_allocation_of_payout hrow
  unfold finalizeFromChain
  rw [eval_get_bind, hrow]
  dsimp only
  rw [if_neg hopen, eval_get_bind, hrecord, Prog.eval_orThrow_bind]
  dsimp only
  rw [eval_get_bind]
  set blockTime := ((slot.filter (· ≠ 0)).bind w.chain.getBlockTime).filter (· ≠ 0)
  set c := PayoutWrite.finalize row record (slot.filter (· ≠ 0)) (blockTime.map (· * 1000))
  have happlies : c.Applies w.db :=
    ⟨Option.isSome_iff_exists.mpr ⟨a, ha⟩, Option.isSome_iff_exists.mpr ⟨row, hrow⟩⟩
  have hwrite : Resolves [row.paymentId] w ((Write.payout c).apply w) := by
    refine resolves_write happlies ?_ ?_
    · exact congrArg some (if_pos hsettled).symm
    · exact congrArg some (if_pos hsettled).symm
  obtain ⟨w', heval, hchain, hpayouts, hallocations⟩ :=
    eval_refreshBatchOf row.paymentId ((Write.payout c).apply w)
  refine ⟨w', ?_, ?_⟩
  · have hgone : (Write.payout c).Applies w := happlies
    rw [eval_bind, eval_transact hgone]
    exact heval
  · exact {
      chain := hchain.trans hwrite.chain
      payout := by rw [hpayouts]; exact hwrite.payout
      allocation := by rw [hallocations]; exact hwrite.allocation
      others := by rw [hpayouts, hallocations]; exact hwrite.others }

/-- The status of a decided payout is final. -/
theorem Payout.Decided.status {now : Time} {c : Chain} (hdecided : payout.Decided now c)
    {signature : Signature} (hsignature : payout.txSignature = some signature)
    {status : SignatureStatus} (hstatus : c.getSignatureStatus signature = some status) :
    status.confirmationStatus = .finalized := by
  obtain ⟨i, hi, rfl⟩ := Option.map_eq_some_iff.mp hstatus
  exact if_pos (hdecided.status_final signature hsignature i hi)

/-- Without a settlement record, each branch of the reconciliation fails a payout
that is decided. -/
theorem eval_reconcileStatus {now : Time} (hdecided : payout.Decided now w.chain)
    (hrow : (w.db.payouts.find payout.paymentId).isSome)
    (hsettled : ¬ w.chain.Settled payout.paymentId) :
    ∃ w', (reconcileStatus payout (payout.lastValidBlockHeight.any
        (isBlockhashExpired (w.chain.getBlockHeight .confirmed))) now (w.statusOf payout)).eval
        Write.apply w = (.ok (), w') ∧ Resolves [payout.paymentId] w w' := by
  have hfail := eval_markFailed hrow hsettled
  cases hstatusOf : w.statusOf payout with
  | none =>
      rw [reconcileStatus, reconcileAbsent]
      obtain hexpired | ⟨hnone, hold⟩ := hdecided.expired
      · have hsome : payout.lastValidBlockHeight.isSome = true := by
          cases h : payout.lastValidBlockHeight with
          | none => rw [h] at hexpired; cases hexpired
          | some height => rfl
        rw [hexpired, if_pos ⟨hsome, rfl⟩]
        exact hfail .staleDropped
      · rw [hnone, if_neg (by simp), if_neg (by simp), Prog.when, if_pos ⟨rfl, hold⟩]
        exact hfail .legacyAttemptTimeout
  | some found =>
      obtain ⟨signature, status⟩ := found
      obtain ⟨signature', hsignature, hsome⟩ := Option.bind_eq_some_iff.mp hstatusOf
      obtain ⟨status', hstatus, heq⟩ := Option.bind_eq_some_iff.mp hsome
      cases heq
      have hfinal := hdecided.status hsignature hstatus
      rw [reconcileStatus]
      cases herr : status.err with
      | some err => exact hfail (.onchainError err)
      | none =>
          dsimp only
          rw [hfinal]
          exact hfail .finalizedWithoutSettlement

/-- What a pass makes of a stale payout that is decided. -/
theorem eval_reconcilePayout {now : Time} {row : Payout}
    (hrow : w.db.payouts.find row.paymentId = some row) (hstale : row.Stale)
    (hdecided : row.Decided now w.chain) :
    ∃ w', (reconcilePayout (w.chain.getBlockHeight .confirmed) now row).eval Write.apply w =
        (.ok (), w') ∧ Resolves [row.paymentId] w w' := by
  unfold reconcilePayout
  rw [eval_get_bind]
  cases hrecord : w.chain.fetchSettlementRecord row.paymentId .finalized with
  | some record =>
      obtain ⟨i, hi, hrecords, -⟩ := Chain.fetchSettlementRecord_some hrecord
      exact eval_finalizeFromChain hrow hstale.active.1 hrecord ⟨i, hi, hrecords⟩ none
  | none =>
      have hsettled : ¬ w.chain.Settled row.paymentId := by
        rintro ⟨i, hi, hrecords⟩
        have hlevel : i.height ≤ w.chain.level .finalized := hdecided.record_final i hi hrecords
        have hsome := Chain.fetchSettlementRecord_isSome hi hrecords hlevel
        rw [hrecord] at hsome
        cases hsome
      simp only [Option.isSome_none, Bool.false_eq_true, if_false]
      rw [eval_get_bind]
      refine eval_reconcileStatus hdecided ?_ hsettled
      rw [hrow]
      rfl

end One

/-! ## A pass -/

/-- The turns of a pass, over payouts that are as they were read. -/
theorem eval_forEach_reconcilePayout {now : Time} {stale : List Payout} {height : Nat}
    (hnodup : (stale.map Payout.paymentId).Nodup) (hstale : ∀ row ∈ stale, row.Stale) {w : World}
    (hheight : height = w.chain.getBlockHeight .confirmed)
    (hrows : ∀ row ∈ stale, w.db.payouts.find row.paymentId = some row)
    (hdecided : ∀ row ∈ stale, row.Decided now w.chain) :
    ∃ w', (forEach stale (reconcilePayout height now)).eval Write.apply w = (.ok (), w') ∧
      Resolves (stale.map Payout.paymentId) w w' := by
  induction stale generalizing w with
  | nil => exact ⟨w, rfl, .refl w⟩
  | cons row stale ih =>
      rw [List.map_cons, List.nodup_cons] at hnodup
      obtain ⟨w₁, heval, hone⟩ := eval_reconcilePayout (hrows row List.mem_cons_self)
        (hstale row List.mem_cons_self) (hdecided row List.mem_cons_self)
      -- the payouts that are left are as they were
      have hrest (other : Payout) (hother : other ∈ stale) :
          w₁.db.payouts.find other.paymentId = some other := by
        have hne : other.paymentId ∉ [row.paymentId] := fun h => by
          rw [← List.mem_singleton.mp h] at hnodup
          exact hnodup.1 (List.mem_map_of_mem hother)
        rw [(hone.others _ hne).1]
        exact hrows other (List.mem_cons_of_mem row hother)
      obtain ⟨w₂, heval₂, hall⟩ := ih hnodup.2 (fun x hx => hstale x (List.mem_cons_of_mem row hx))
        (by rw [hone.chain]; exact hheight) hrest
        (fun x hx => by rw [hone.chain]; exact hdecided x (List.mem_cons_of_mem row hx))
      refine ⟨w₂, ?_, hone.trans hall⟩
      change (reconcilePayout height now row >>= fun _ =>
        forEach stale (reconcilePayout height now)).eval Write.apply w = _
      rw [eval_bind, hheight, heval, ← hheight]
      exact heval₂

namespace World

/-- The payouts that are left for the reconciliation. -/
def staleRows (w : World) : List Payout := w.db.payouts.rows.filter fun p => decide p.Stale

theorem mem_staleRows {w : World} {row : Payout} :
    row ∈ w.staleRows ↔ w.db.payouts.find row.paymentId = some row ∧ row.Stale := by
  rw [staleRows, List.mem_filter, decide_eq_true_iff]
  exact and_congr_left fun _ => ⟨Table.find_key, Table.mem_of_find⟩

theorem perm_staleRows (w : World) : (w.staleRows.insertionSort InitiatedLe).Perm w.staleRows :=
  List.perm_insertionSort ..

theorem nodup_staleRows (w : World) : (w.staleRows.map Payout.paymentId).Nodup :=
  w.db.payouts.nodup.sublist (List.filter_sublist.map _)

theorem mem_stalePayouts {w : World} {row : Payout} (h : row ∈ w.stalePayouts) :
    row ∈ w.staleRows :=
  w.perm_staleRows.mem_iff.mp (List.mem_of_mem_take h)

theorem nodup_stalePayouts (w : World) : (w.stalePayouts.map Payout.paymentId).Nodup :=
  ((w.perm_staleRows.map _).nodup_iff.mpr w.nodup_staleRows).sublist
    ((List.take_sublist 50 _).map _)

end World

/-- A resolved payout is no longer left. -/
theorem Resolves.mem_staleRows {ids : List AllocationId} {w w' : World} (h : Resolves ids w w')
    {row : Payout} : row ∈ w'.staleRows ↔ row ∈ w.staleRows ∧ row.paymentId ∉ ids := by
  rw [World.mem_staleRows, World.mem_staleRows]
  by_cases hids : row.paymentId ∈ ids
  · refine ⟨fun ⟨hfind, hstale⟩ => ?_, fun ⟨_, hnot⟩ => absurd hids hnot⟩
    obtain ⟨row', hrow', hstatus⟩ := h.payout row.paymentId hids
    obtain rfl := Option.some.inj (hfind.symm.trans hrow')
    have hactive := hstale.active
    rw [Payout.Active, hstatus, Chain.outcome] at hactive
    split at hactive
    · exact absurd rfl hactive.1
    · exact absurd rfl hactive.2
  · rw [(h.others row.paymentId hids).1]
    exact ⟨fun hrow => ⟨hrow, hids⟩, And.left⟩

/-- A pass resolves 50 payouts, or all that are left. -/
theorem eval_reconcileStalePayouts {w : World} {now : Time}
    (hdecided : ∀ row ∈ w.staleRows, row.Decided now w.chain) :
    ∃ w', (reconcileStalePayouts now).eval Write.apply w = (.ok (), w') ∧
      Resolves (w.stalePayouts.map Payout.paymentId) w w' := by
  unfold reconcileStalePayouts
  rw [eval_get_bind]
  by_cases hnone : w.stalePayouts = []
  · rw [if_pos hnone, hnone]
    exact ⟨w, rfl, .refl w⟩
  · rw [if_neg hnone, eval_get_bind]
    exact eval_forEach_reconcilePayout w.nodup_stalePayouts
      (fun row hrow => (World.mem_staleRows.mp (World.mem_stalePayouts hrow)).2) rfl
      (fun row hrow => (World.mem_staleRows.mp (World.mem_stalePayouts hrow)).1)
      (fun row hrow => hdecided row (World.mem_stalePayouts hrow))

/-- What is left after a pass: all but the first 50. -/
theorem length_staleRows {w w' : World}
    (h : Resolves (w.stalePayouts.map Payout.paymentId) w w') :
    w'.staleRows.length = w.staleRows.length - 50 := by
  have hsplit := List.take_append_drop 50 (w.staleRows.insertionSort InitiatedLe)
  have hkeys := (w.perm_staleRows.map Payout.paymentId).nodup_iff.mpr w.nodup_staleRows
  rw [← hsplit, List.map_append, List.nodup_append'] at hkeys
  obtain ⟨-, hdrop, hdisjoint⟩ := hkeys
  have hperm : w'.staleRows.Perm ((w.staleRows.insertionSort InitiatedLe).drop 50) := by
    refine (List.perm_ext_iff_of_nodup (List.Nodup.of_map _ w'.nodup_staleRows)
      (List.Nodup.of_map _ hdrop)).mpr fun row => ?_
    rw [h.mem_staleRows, ← w.perm_staleRows.mem_iff]
    constructor
    · rintro ⟨hrow, hnot⟩
      rw [← hsplit, List.mem_append] at hrow
      exact hrow.resolve_left fun htake => hnot (List.mem_map_of_mem htake)
    · intro hrow
      exact ⟨List.mem_of_mem_drop hrow, fun htake => hdisjoint htake (List.mem_map_of_mem hrow)⟩
  rw [hperm.length_eq, List.length_drop, w.perm_staleRows.length_eq]

/-! ## Many passes -/

section Passes

variable [Collation]

/-- Passes at these times. -/
def reconciliations (nows : List Time) : List (Op Call EnvMove) :=
  nows.map fun now => .call (.worker (.reconcileStalePayouts now))

/-- What passes resolve, and how many payouts they leave. -/
theorem evalAll_reconciliations {w : World} {nows : List Time}
    (hdecided : ∀ now ∈ nows, ∀ row ∈ w.staleRows, row.Decided now w.chain) :
    ∃ ids, ids ⊆ w.staleRows.map Payout.paymentId ∧
      Resolves ids w (service.evalAll (reconciliations nows) w) ∧
      (service.evalAll (reconciliations nows) w).staleRows.length =
        w.staleRows.length - 50 * nows.length := by
  induction nows generalizing w with
  | nil => exact ⟨[], by simp, .refl w, rfl⟩
  | cons now nows ih =>
      obtain ⟨w₁, heval, hpass⟩ := eval_reconcileStalePayouts (hdecided now List.mem_cons_self)
      have hstep : service.evalOp (.call (.worker (.reconcileStalePayouts now))) w = w₁ :=
        congrArg Prod.snd heval
      obtain ⟨ids, hids, hresolves, hlength⟩ := ih (w := w₁) fun now' hnow row hrow => by
        rw [hpass.chain]
        exact hdecided now' (List.mem_cons_of_mem now hnow) row (hpass.mem_staleRows.mp hrow).1
      refine ⟨w.stalePayouts.map Payout.paymentId ++ ids, ?_, ?_, ?_⟩
      · refine List.append_subset.mpr ⟨?_, fun p hp => ?_⟩
        · exact List.map_subset _ fun row hrow => World.mem_stalePayouts hrow
        · obtain ⟨row, hrow, rfl⟩ := List.mem_map.mp (hids hp)
          exact List.mem_map_of_mem (hpass.mem_staleRows.mp hrow).1
      · rw [reconciliations, List.map_cons, System.evalAll_cons, hstep]
        exact hpass.trans hresolves
      · rw [reconciliations, List.map_cons, System.evalAll_cons, hstep]
        refine hlength.trans ?_
        rw [length_staleRows hpass, List.length_cons]
        omega

/-- **Recovery**: when everything the chain holds of the stale payouts is final and
their blockhashes have expired, one pass for each 50 of them resolves them all, as
the chain says: those that were settled are finalized and their allocations paid,
the others have failed.  Other payouts and allocations stay, and nothing is sent. -/
theorem reconciliation_resolves {w : World} {nows : List Time}
    (hpasses : w.staleRows.length ≤ 50 * nows.length)
    (hdecided : ∀ now ∈ nows, ∀ row ∈ w.staleRows, row.Decided now w.chain) :
    Resolves (w.staleRows.map Payout.paymentId) w (service.evalAll (reconciliations nows) w) ∧
      (service.evalAll (reconciliations nows) w).staleRows = [] := by
  obtain ⟨ids, hids, hresolves, hlength⟩ := evalAll_reconciliations hdecided
  have hnone : (service.evalAll (reconciliations nows) w).staleRows = [] :=
    List.eq_nil_of_length_eq_zero (by omega)
  refine ⟨hresolves.congr fun p => ⟨fun hp => hids hp, fun hp => ?_⟩, hnone⟩
  obtain ⟨row, hrow, rfl⟩ := List.mem_map.mp hp
  by_contra hnot
  have hleft := hresolves.mem_staleRows.mpr ⟨hrow, hnot⟩
  rw [hnone] at hleft
  cases hleft

end Passes

section Concrete

open Scenario

/-- The transaction of allocation 1 settles, and the worker does not hear of it. -/
def Scenario.settledUnheard : World :=
  (@service byCodePoint).evalAll
    (approvedOps ++ [.call create, .call build, .call (submit firstTx)] ++
      (settles ++ expires).map .env) World.empty

theorem reconciliation_resolves_settled :
    Resolves (settledUnheard.staleRows.map Payout.paymentId) settledUnheard
        ((@service byCodePoint).evalAll (@reconciliations [0]) settledUnheard) ∧
      ((@service byCodePoint).evalAll (@reconciliations [0]) settledUnheard).staleRows = [] :=
  @reconciliation_resolves byCodePoint settledUnheard [0] (by decide +kernel) (by decide +kernel)

end Concrete

end ServeProof
