import ServeProof.Money
import ServeProof.World

/-!
# ServeProof.Writes.Payouts

The transactions that write one payout row and the payment columns of its
allocation.  Each is a command that carries what it writes, and the row the
caller had read (`seen`) where it was chosen by it.

* `PayoutWrite.applies` -- the statement finds what it needs: a conditional
  update claims the row, an insert violates no constraint;
* `PayoutWrite.update`, `insert` -- the row it leaves;
* `PayoutWrite.payment` -- the payment columns it sets on the allocation.

`find_payouts_apply` and `find_allocations_apply` say what every one of them
does to the two tables.
-/

namespace ServeProof

/-! ## What is written -/

/-- The columns `createUsdcPayout` chooses. -/
structure UsdcPayout where
  paymentId : AllocationId
  workerId : WorkerId
  venueId : VenueId
  walletId : WalletId
  amountUsdCents : Int
  initiatedByUserId : Option UserId
  deriving DecidableEq, Repr

/-- The row of a new attempt: no transaction yet. -/
def UsdcPayout.row (d : UsdcPayout) : Payout where
  paymentId := d.paymentId
  workerId := d.workerId
  venueId := d.venueId
  walletId := some d.walletId
  rail := .usdc
  asset := "tUSDC"
  amountBaseUnits := centsToUsdcBaseUnits d.amountUsdCents
  amountUsdCents := d.amountUsdCents
  status := .created
  externalReference := none
  txSignature := none
  settlementPda := none
  recentBlockhash := none
  lastValidBlockHeight := none
  signedTransaction := none
  lastBroadcastAt := none
  broadcastAttempts := 0
  slot := none
  blockTime := none
  initiatedAt := none
  initiatedByUserId := d.initiatedByUserId
  submittedByUserId := none
  signerWallet := none
  settledAt := none
  failedReason := none

/-- What `buildSettlePayoutTx` returns: the unsigned transaction, as the
instruction, the fee payer and the blockhash it is made of. -/
structure BuiltSettleTx where
  instruction : SettlePayout
  feePayer : Pubkey
  blockhash : Blockhash
  settlementPda : SettlementPda
  deriving DecidableEq, Repr

/-- Legacy evidence, as it is registered. -/
structure LegacyEvidence where
  paymentId : AllocationId
  workerId : WorkerId
  venueId : VenueId
  amountUsdCents : Int
  rail : LegacyRail
  externalReference : String
  settledAt : Time
  submittedByUserId : Option UserId

/-- The row of a payment that had none. -/
def LegacyEvidence.row (l : LegacyEvidence) : Payout where
  paymentId := l.paymentId
  workerId := l.workerId
  venueId := l.venueId
  walletId := none
  rail := l.rail
  asset := "USD"
  amountBaseUnits := 0
  amountUsdCents := l.amountUsdCents
  status := .finalized
  externalReference := some l.externalReference
  txSignature := none
  settlementPda := none
  recentBlockhash := none
  lastValidBlockHeight := none
  signedTransaction := none
  lastBroadcastAt := none
  broadcastAttempts := 0
  slot := none
  blockTime := none
  initiatedAt := none
  initiatedByUserId := l.submittedByUserId
  submittedByUserId := l.submittedByUserId
  signerWallet := none
  settledAt := some l.settledAt
  failedReason := none

/-- Why the worker declares a payout `FAILED`. -/
inductive FailCause where
  /-- The transaction was included and ended with an error. -/
  | onchainError (err : String)
  /-- The confirmation job finds no status, then an expired blockhash. -/
  | dropped
  /-- The reconciliation finds an expired blockhash, then no status. -/
  | staleDropped
  | finalizedWithoutSettlement
  | forkDropped
  | legacyAttemptTimeout
  deriving DecidableEq, Repr

/-- `failedReason`. -/
def FailCause.reason (seen : Payout) : FailCause → String
  | onchainError err => err
  | dropped => "transaction_dropped"
  | staleDropped =>
      if seen.txSignature.isSome then "transaction_dropped" else "blockhash_expired_before_submit"
  | finalizedWithoutSettlement => "finalized_without_settlement"
  | forkDropped => "fork_dropped_after_blockhash_expiry"
  | legacyAttemptTimeout => "legacy_attempt_timeout"

inductive PayoutWrite where
  /-- Heal the denormalized status of the allocation of an existing payout. -/
  | heal (seen : Payout) (allocationStatus : WorkerAllocationPayoutStatus)
  | create (data : UsdcPayout)
  /-- Start over on a failed payout: an update by id. -/
  | reset (seen : Payout) (data : UsdcPayout)
  /-- Claim a payout for a newly built transaction. -/
  | claimBuild (seen : Payout) (built : BuiltSettleTx) (now : Time)
      (initiatedByUserId : Option UserId) (signerWallet : Address)
  /-- Fail an initiated payout whose blockhash expired. -/
  | expire (paymentId : AllocationId)
  | expireAllocation (paymentId : AllocationId)
  /-- Claim an initiated payout for a signed transaction. -/
  | claimSubmit (seen : Payout) (tx : SignedTransaction) (now : Time)
      (submittedByUserId : Option UserId)
  | noteBroadcastError (paymentId : AllocationId) (message : String)
  | registerLegacy (evidence : LegacyEvidence)
  /-- Set the status: an update by id. -/
  | setStatus (seen : Payout) (status : PayoutStatus)
  | finalize (seen : Payout) (record : SettlementRecordView) (slot : Option Nat)
      (blockTime : Option Nat)
  | markFailed (seen : Payout) (cause : FailCause)
  | countRebroadcast (paymentId : AllocationId) (now : Time)

namespace PayoutWrite

/-- The payment the command writes. -/
def target : PayoutWrite → AllocationId
  | heal seen _ => seen.paymentId
  | create data => data.paymentId
  | reset seen _ => seen.paymentId
  | claimBuild seen .. => seen.paymentId
  | expire p => p
  | expireAllocation p => p
  | claimSubmit seen .. => seen.paymentId
  | noteBroadcastError p _ => p
  | registerLegacy l => l.paymentId
  | setStatus seen _ => seen.paymentId
  | finalize seen .. => seen.paymentId
  | markFailed seen _ => seen.paymentId
  | countRebroadcast p _ => p

/-- What a command needs of the row it writes. -/
inductive Need where
  | nothing
  | noRow
  | row
  /-- The row is claimed by its status (`updateMany`). -/
  | status (among : List PayoutStatus)

def Need.Met : Need → Option Payout → Prop
  | nothing, _ => True
  | noRow, old => old = none
  | row, old => old.isSome
  | status among, some old => old.status ∈ among
  | status _, none => False

instance (n : Need) (old : Option Payout) : Decidable (n.Met old) :=
  match n, old with
  | .nothing, _ => isTrue trivial
  | .noRow, old => inferInstanceAs (Decidable (old = none))
  | .row, old => inferInstanceAs (Decidable (old.isSome))
  | .status among, some old => inferInstanceAs (Decidable (old.status ∈ among))
  | .status _, none => isFalse id

def need : PayoutWrite → Need
  | heal .. | expireAllocation _ | registerLegacy _ => .nothing
  | create _ => .noRow
  | reset .. | setStatus .. | finalize .. | markFailed .. => .row
  | claimBuild .. => .status [.created, .initiated, .failed]
  | expire _ | claimSubmit .. => .status [.initiated]
  | noteBroadcastError .. => .status [.submitted]
  | countRebroadcast .. => .status [.submitted, .confirmed]

/-- The statement goes through: the allocation exists, and the row is as
needed. -/
def Applies (c : PayoutWrite) (d : Db) : Prop :=
  (d.allocations.find c.target).isSome ∧ c.need.Met (d.payouts.find c.target)

instance (c : PayoutWrite) (d : Db) : Decidable (c.Applies d) :=
  inferInstanceAs (Decidable (_ ∧ _))

/-- The row the command leaves in place of `r`. -/
def update : PayoutWrite → Payout → Payout
  | heal .., r => r
  | create _, r => r
  | expireAllocation _, r => r
  | reset _ data, r =>
      { data.row with
        paymentId := r.paymentId
        externalReference := r.externalReference
        slot := r.slot
        blockTime := r.blockTime }
  | claimBuild _ built now initiatedByUserId signerWallet, r =>
      { r with
        status := .initiated
        settlementPda := some built.settlementPda
        recentBlockhash := some built.blockhash
        lastValidBlockHeight := some built.blockhash.lastValidBlockHeight
        signedTransaction := none
        txSignature := none
        lastBroadcastAt := none
        broadcastAttempts := 0
        initiatedAt := some now
        initiatedByUserId := initiatedByUserId
        submittedByUserId := none
        signerWallet := some signerWallet
        failedReason := none }
  | expire _, r =>
      { r with status := .failed, failedReason := some "blockhash_expired_before_submit" }
  | claimSubmit _ tx now submittedByUserId, r =>
      { r with
        status := .submitted
        txSignature := some tx.signature
        signedTransaction := some tx
        lastBroadcastAt := some now
        broadcastAttempts := 1
        submittedByUserId := submittedByUserId }
  | noteBroadcastError _ message, r =>
      { r with
        failedReason := some (String.ofList (("initial_broadcast:" ++ message).toList.take 500)) }
  | registerLegacy l, r =>
      { r with
        rail := l.rail
        externalReference := some l.externalReference
        status := .finalized
        settledAt := some l.settledAt
        submittedByUserId := l.submittedByUserId }
  | setStatus _ status, r => { r with status := status }
  | finalize _ record slot blockTime, r =>
      { r with
        status := .finalized
        slot := slot.or r.slot
        blockTime := blockTime.or r.blockTime
        settledAt := some (record.settledAt * 1000)
        failedReason := none }
  | markFailed seen cause, r =>
      { r with status := .failed, failedReason := some (cause.reason seen) }
  | countRebroadcast _ now, r =>
      { r with broadcastAttempts := r.broadcastAttempts + 1, lastBroadcastAt := some now }

/-- The row the command inserts when there is none. -/
def insert : PayoutWrite → Option Payout
  | create data => some data.row
  | registerLegacy l => some l.row
  | _ => none

def row (c : PayoutWrite) : Option Payout → Option Payout
  | some r => some (c.update r)
  | none => c.insert

/-- The status the command sets. -/
def status : PayoutWrite → Option PayoutStatus
  | create _ | reset .. => some .created
  | claimBuild .. => some .initiated
  | claimSubmit .. => some .submitted
  | setStatus _ status => some status
  | registerLegacy _ | finalize .. => some .finalized
  | expire _ | markFailed .. => some .failed
  | heal .. | expireAllocation _ | noteBroadcastError .. | countRebroadcast .. => none

/-- The status of the row a command leaves. -/
theorem status_row {c : PayoutWrite} {old : Option Payout} (h : c.need.Met old) :
    (c.row old).map Payout.status = c.status.or (old.map Payout.status) := by
  cases old with
  | some o =>
      cases c with
      | create data => exact absurd h (Option.some_ne_none o)
      | _ => rfl
  | none =>
      cases c with
      | create | registerLegacy | heal | expireAllocation => rfl
      | reset | setStatus | finalize | markFailed => exact absurd h Bool.false_ne_true
      | _ => exact h.elim

/-- The payment columns the command sets on the allocation: the rail, if it
sets one, and the status. -/
def payment : PayoutWrite → Option (Option WorkerPayoutRail × WorkerAllocationPayoutStatus)
  | heal _ status => some (some .usdc, status)
  | create _ | reset .. => some (some .usdc, .pending)
  | registerLegacy l => some (some l.rail, .paid)
  | finalize .. => some (none, .paid)
  | expireAllocation _ | markFailed .. => some (none, .failed)
  | claimBuild .. | expire _ | claimSubmit .. | noteBroadcastError .. | setStatus ..
  | countRebroadcast .. => none

def pay (c : PayoutWrite) (a : WorkerAllocation) : WorkerAllocation :=
  match c.payment with
  | some (rail, status) => { a with payoutRail := rail.or a.payoutRail, payoutStatus := status }
  | none => a

@[simp] theorem pay_id (c : PayoutWrite) (a : WorkerAllocation) : (c.pay a).id = a.id := by
  unfold pay; split <;> rfl

@[simp] theorem pay_batchId (c : PayoutWrite) (a : WorkerAllocation) :
    (c.pay a).batchId = a.batchId := by
  unfold pay; split <;> rfl

@[simp] theorem pay_workerId (c : PayoutWrite) (a : WorkerAllocation) :
    (c.pay a).workerId = a.workerId := by
  unfold pay; split <;> rfl

@[simp] theorem pay_net (c : PayoutWrite) (a : WorkerAllocation) :
    (c.pay a).netAllocatedUsdCents = a.netAllocatedUsdCents := by
  unfold pay; split <;> rfl

/-- A command writes the row of its target. -/
theorem row_paymentId {c : PayoutWrite} {old : Option Payout} {r : Payout}
    (hold : ∀ o, old = some o → o.paymentId = c.target) (h : c.row old = some r) :
    r.paymentId = c.target := by
  cases old with
  | none =>
      cases c <;> simp only [row, insert, Option.some.injEq, reduceCtorEq] at h <;> subst h <;> rfl
  | some o =>
      have ho := hold o rfl
      cases c <;> simp only [row, update, Option.some.injEq] at h <;> subst h <;> exact ho

/-! ## What a command does to the tables -/

def effect (c : PayoutWrite) (d : Db) : Db :=
  (match c.row (d.payouts.find c.target) with
    | some r => d.setPayout r
    | none => d).updateAllocation c.target c.pay fun a => ⟨c.pay_id a, c.pay_batchId a⟩

def apply (c : PayoutWrite) (d : Db) : Db := if c.Applies d then c.effect d else d

theorem apply_of_not_applies {c : PayoutWrite} {d : Db} (h : ¬ c.Applies d) : c.apply d = d :=
  if_neg h

/-- The payout rows after a command. -/
theorem find_payouts_apply {c : PayoutWrite} {d : Db} (h : c.Applies d) (p : AllocationId) :
    (c.apply d).payouts.find p =
      if c.target = p then c.row (d.payouts.find c.target) else d.payouts.find p := by
  rw [apply, if_pos h, effect, Db.updateAllocation_payouts]
  cases hr : c.row (d.payouts.find c.target) with
  | none =>
      by_cases hp : c.target = p
      · subst hp
        rw [if_pos rfl]
        cases hf : d.payouts.find c.target with
        | none => rfl
        | some o => rw [hf, row] at hr; contradiction
      · rw [if_neg hp]
  | some r =>
      have hid : r.paymentId = c.target :=
        row_paymentId (fun o ho => Table.key_of_find ho) hr
      have hset : (d.setPayout r).payouts = d.payouts.set r :=
        Db.setPayout_payouts (hid ▸ h.1)
      simp only [hset, Table.find_set, hid]

/-- The allocations after a command. -/
theorem allocations_apply {c : PayoutWrite} {d : Db} (h : c.Applies d) :
    (c.apply d).allocations = d.allocations.update c.target c.pay := by
  rw [apply, if_pos h, effect, Db.updateAllocation_allocations]
  cases c.row (d.payouts.find c.target) <;> simp

theorem find_allocations_apply {c : PayoutWrite} {d : Db} (h : c.Applies d) (p : AllocationId) :
    (c.apply d).allocations.find p =
      if c.target = p then (d.allocations.find c.target).map c.pay else d.allocations.find p := by
  rw [allocations_apply h, Table.find_update _ c.pay_id]

@[simp] theorem batches_apply (c : PayoutWrite) (d : Db) : (c.apply d).batches = d.batches := by
  unfold apply effect
  split
  · rw [Db.updateAllocation_batches]
    cases c.row (d.payouts.find c.target) <;> simp
  · rfl

@[simp] theorem records_apply (c : PayoutWrite) (d : Db) : (c.apply d).records = d.records := by
  unfold apply effect
  split
  · rw [Db.updateAllocation_records]
    cases c.row (d.payouts.find c.target) <;> simp
  · rfl

@[simp] theorem nextAllocationId_apply (c : PayoutWrite) (d : Db) :
    (c.apply d).nextAllocationId = d.nextAllocationId := by
  unfold apply effect
  split
  · rw [Db.updateAllocation_nextAllocationId]
    cases c.row (d.payouts.find c.target) <;> simp
  · rfl

end PayoutWrite
end ServeProof
