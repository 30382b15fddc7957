import Mathlib.Data.List.Sort
import ServeProof.Services.Payouts

/-!
# ServeProof.Services.Settlement

The settlement worker: the confirmation job, the reconciliation of stale
payouts and the handler of `PayoutSettled` events.

Queries are made in the order the worker makes them, each a read of its own.
Before a failure is declared the settlement record is checked, except where
the worker does not.  An error that is thrown only makes the job run again.
-/

namespace ServeProof

open Interleave
open Prog (get put require orThrow forEach when)

/-! ## Writes -/

/-- Ten minutes, in milliseconds. -/
def abandonedAfter : Time := 10 * 60 * 1000

def markFailed (payout : Payout) (cause : FailCause) : Service Unit :=
  transact (.payout (.markFailed payout cause)) (.internal "Record to update not found")

def setPayoutStatus (payout : Payout) (status : PayoutStatus) : Service Unit :=
  transact (.payout (.setStatus payout status)) (.internal "Record to update not found")

/-- The rollup of the batch an allocation belongs to. -/
def refreshBatchOf (allocationId : AllocationId) : Service Unit := do
  let allocation ← get fun w => w.db.allocations.find allocationId
  match allocation with
  | none => pure ()
  | some a => refreshBatchPaymentStatus a.batchId

/-- Finalize a payout from its settlement record.  An amount that differs from
the record is only logged. -/
def finalizeFromChain (payoutId : AllocationId) (slot : Option Nat) : Service Unit := do
  let found ← get fun w => w.db.payouts.find payoutId
  match found with
  | none => pure ()
  | some payout =>
      if payout.status = .finalized then pure ()
      else do
        let fetched ← get fun w => w.chain.fetchSettlementRecord payoutId .finalized
        let record ← orThrow fetched
          (.internal "finalize requested but SettlementRecord not found")
        -- slot and block time 0 are falsy
        let slot := slot.filter (· ≠ 0)
        let blockTime ← get fun w => slot.bind w.chain.getBlockTime
        let blockTime := (blockTime.filter (· ≠ 0)).map (· * 1000)
        transact (.payout (.finalize payout record slot blockTime))
          (.internal "Record to update not found")
        refreshBatchOf payoutId

/-- A finalized settlement record is the final authority: finalize when it
exists, else fail. -/
def finalizeOrFail (payout : Payout) (cause : FailCause) : Service Unit := do
  let record ← get fun w => w.chain.fetchSettlementRecord payout.paymentId .finalized
  if record.isSome = true then finalizeFromChain payout.paymentId none
  else markFailed payout cause

/-- Once the finalized root has passed the observed slot, absence from
finalized history proves that the observation cannot land.  The result says
whether the payout was resolved. -/
def failIfObservedForkWasDropped (payout : Payout) (signature : Signature) (observedSlot : Nat)
    (blockhashExpired : Bool) : Service Bool :=
  if blockhashExpired = false then pure false
  else do
    let finalizedRoot ← get fun w => w.chain.getSlot .finalized
    if finalizedRoot ≤ observedSlot then pure false
    else do
      let finalizedTransaction ← get fun w => w.chain.getTransaction signature .finalized
      if finalizedTransaction.isSome = true then pure false
      else do
        finalizeOrFail payout .forkDropped
        pure true

/-- Send the exact signed bytes again. -/
def rebroadcastSameTransaction (payout : Payout) (now : Time) : Service Unit :=
  match payout.txSignature, payout.signedTransaction with
  | some _, some tx => do
      let _ ← commit (.payout (.countRebroadcast payout.paymentId now))
      put (.broadcast payout.paymentId tx)
  | _, _ => pure ()

/-! ## startEventIndexer -/

/-- The handler of a `PayoutSettled` event, a fast signal of confirmation. -/
def onPayoutSettled (paymentId : AllocationId) : Service Unit := do
  let found ← get fun w => w.db.payouts.find paymentId
  match found with
  | none => pure ()
  | some payout =>
      if payout.status ∈ [.submitted, .initiated] then setPayoutStatus payout .confirmed
      else pure ()

/-! ## processConfirmation -/

/-- Whether the recorded blockhash has expired by now; without one, it has
not. -/
def blockhashExpiredNow (payout : Payout) : Service Bool :=
  match payout.lastValidBlockHeight with
  | none => pure false
  | some height => get fun w => isBlockhashExpired (w.chain.getBlockHeight .confirmed) height

/-- Keep polling a confirmed signature until it finalizes or disappears from a
fork. -/
def pollConfirmed (payout : Payout) (signature : Signature) (slot : Nat) : Service Unit := do
  when (payout.status = .submitted) (setPayoutStatus payout .confirmed)
  let blockhashExpired ← blockhashExpiredNow payout
  let resolved ← failIfObservedForkWasDropped payout signature slot blockhashExpired
  require (resolved = true) (.internal "awaiting finalization")

/-- The signature is absent: it failed if its blockhash expired, else it is
sent again. -/
def pollAbsent (payout : Payout) (now : Time) : Service Unit := do
  let blockhashExpired ← blockhashExpiredNow payout
  if canReplaceTransactionBlockhash none blockhashExpired = true then
    finalizeOrFail payout .dropped
  else do
    when (shouldRebroadcastSignedTransaction none false = true)
      (rebroadcastSameTransaction payout now)
    Prog.throw (.internal "awaiting confirmation")

/-- The signature is processed but not confirmed: while its blockhash is valid
it is sent again. -/
def pollProcessed (payout : Payout) (signature : Signature) (slot : Nat) (now : Time) :
    Service Unit := do
  let blockhashExpired ← blockhashExpiredNow payout
  if blockhashExpired = true then do
    let resolved ← failIfObservedForkWasDropped payout signature slot blockhashExpired
    require (resolved = true) (.internal
      "expired blockhash has an observed signature; awaiting fork outcome")
  else do
    when (shouldRebroadcastSignedTransaction (some .processed) false = true)
      (rebroadcastSameTransaction payout now)
    when (payout.status = .submitted) (setPayoutStatus payout .submitted)
    Prog.throw (.internal "awaiting confirmation")

/-- What the confirmation job does with the status of the signature. -/
def confirmStatus (payout : Payout) (signature : Signature) (now : Time) :
    Option SignatureStatus → Service Unit
  | none => pollAbsent payout now
  | some status =>
      match status.err with
      | some err => finalizeOrFail payout (.onchainError err)
      | none =>
          match status.confirmationStatus with
          | .finalized => finalizeFromChain payout.paymentId (some status.slot)
          | .confirmed => pollConfirmed payout signature status.slot
          | .processed => pollProcessed payout signature status.slot now

/-- A payout the worker still has to resolve. -/
def Payout.Active (p : Payout) : Prop := p.status ≠ .finalized ∧ p.status ≠ .failed

instance (p : Payout) : Decidable p.Active := inferInstanceAs (Decidable (_ ∧ _))

/-- The `solana-confirmation` job.  Jobs of an older attempt are ignored. -/
def processConfirmation (payoutId : AllocationId) (signature : Signature) (now : Time) :
    Service Unit := do
  let found ← get fun w => w.db.payouts.find payoutId
  match found with
  | none => pure ()
  | some payout =>
      if payout.Active ∧ payout.txSignature = some signature then do
        let status ← get fun w => w.chain.getSignatureStatus signature
        confirmStatus payout signature now status
      else pure ()

/-! ## reconcileStalePayouts -/

/-- The payouts the reconciliation looks at. -/
def Payout.Stale (p : Payout) : Prop :=
  p.rail = .usdc ∧ p.status ∈ [.initiated, .submitted, .confirmed]

instance (p : Payout) : Decidable p.Stale := inferInstanceAs (Decidable (_ ∧ _))

theorem Payout.Stale.active {p : Payout} (h : p.Stale) : p.Active := by
  have hs := h.2
  constructor <;> intro heq <;> rw [heq] at hs <;> revert hs <;> decide

/-- `orderBy: { initiatedAt: "asc" }`: nulls come last. -/
def InitiatedLe (a b : Payout) : Prop :=
  match a.initiatedAt, b.initiatedAt with
  | some s, some t => s ≤ t
  | _, none => True
  | none, some _ => False

instance : DecidableRel InitiatedLe := fun a b =>
  match ha : a.initiatedAt, hb : b.initiatedAt with
  | some s, some t => decidable_of_iff (s ≤ t) (by simp [InitiatedLe, ha, hb])
  | some _, none => isTrue (by simp [InitiatedLe, hb])
  | none, none => isTrue (by simp [InitiatedLe, hb])
  | none, some _ => isFalse (by simp [InitiatedLe, ha, hb])

/-- The first 50 of them. -/
def World.stalePayouts (w : World) : List Payout :=
  ((w.db.payouts.rows.filter fun p => decide p.Stale).insertionSort InitiatedLe).take 50

/-- A confirmed signature. -/
def reconcileConfirmed (payout : Payout) (signature : Signature) (slot : Nat)
    (blockhashExpired : Bool) : Service Unit := do
  when (payout.status = .submitted) (setPayoutStatus payout .confirmed)
  let _ ← failIfObservedForkWasDropped payout signature slot blockhashExpired

/-- A processed signature. -/
def reconcileProcessed (payout : Payout) (signature : Signature) (slot : Nat)
    (blockhashExpired : Bool) (now : Time) : Service Unit := do
  let resolved ← failIfObservedForkWasDropped payout signature slot blockhashExpired
  when (resolved = false ∧
      shouldRebroadcastSignedTransaction (some .processed) blockhashExpired = true)
    (rebroadcastSameTransaction payout now)

/-- No signature, or one without a status. -/
def reconcileAbsent (payout : Payout) (blockhashExpired : Bool) (now : Time) : Service Unit :=
  if payout.lastValidBlockHeight.isSome = true ∧
      canReplaceTransactionBlockhash none blockhashExpired = true then
    markFailed payout .staleDropped
  else if payout.lastValidBlockHeight.isSome = true ∧
      shouldRebroadcastSignedTransaction none blockhashExpired = true then
    rebroadcastSameTransaction payout now
  else
    -- attempts created before blockhash metadata existed
    when (payout.lastValidBlockHeight = none ∧
        ∃ t ∈ payout.initiatedAt, t + abandonedAfter < now)
      (markFailed payout .legacyAttemptTimeout)

/-- What the reconciliation does with a signature and its status.  No
settlement record was found before. -/
def reconcileStatus (payout : Payout) (blockhashExpired : Bool) (now : Time) :
    Option (Signature × SignatureStatus) → Service Unit
  | none => reconcileAbsent payout blockhashExpired now
  | some (signature, status) =>
      match status.err with
      | some err => markFailed payout (.onchainError err)
      | none =>
          match status.confirmationStatus with
          | .finalized => markFailed payout .finalizedWithoutSettlement
          | .confirmed => reconcileConfirmed payout signature status.slot blockhashExpired
          | .processed => reconcileProcessed payout signature status.slot blockhashExpired now

/-- The signature of a payout with its status. -/
def World.statusOf (w : World) (payout : Payout) : Option (Signature × SignatureStatus) := do
  let signature ← payout.txSignature
  let status ← w.chain.getSignatureStatus signature
  return (signature, status)

/-- One stale payout, with the block height read at the start of the pass. -/
def reconcilePayout (currentBlockHeight : Nat) (now : Time) (payout : Payout) :
    Service Unit := do
  let record ← get fun w => w.chain.fetchSettlementRecord payout.paymentId .finalized
  if record.isSome = true then finalizeFromChain payout.paymentId none
  else do
    let status ← get fun w => w.statusOf payout
    let blockhashExpired := payout.lastValidBlockHeight.any (isBlockhashExpired currentBlockHeight)
    reconcileStatus payout blockhashExpired now status

/-- The `payout-reconcile` job. -/
def reconcileStalePayouts (now : Time) : Service Unit := do
  let stale ← get World.stalePayouts
  if stale = [] then pure ()
  else do
    let currentBlockHeight ← get fun w => w.chain.getBlockHeight .confirmed
    forEach stale (reconcilePayout currentBlockHeight now)

end ServeProof
