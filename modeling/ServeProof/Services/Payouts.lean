import ServeProof.Writes

/-!
# ServeProof.Services.Payouts

The payout service of the API: a payout is created for an approved allocation,
a transaction is built for the venue wallet to sign, the signed transaction is
claimed and broadcast; or evidence of a payment on a legacy rail is
registered.

Times, and what the RPC answers to a broadcast, are parameters of a call.
Refreshing the income projection writes none of the modelled tables and is
left out.
-/

namespace ServeProof

open Interleave
open Prog (get put putGet require orThrow)

/-! ## Rows with what a query includes -/

/-- An allocation with its batch, its worker and the worker's default wallet. -/
structure AllocationView where
  allocation : WorkerAllocation
  batch : AllocationBatch
  worker : Option Worker
  wallet : Option WorkerWallet

def World.findAllocation (w : World) (id : AllocationId) : Option AllocationView := do
  let allocation ← w.db.allocations.find id
  let batch ← w.db.batches.find allocation.batchId
  let worker := allocation.workerId.bind w.db.workers.find
  let wallet := (worker.bind Worker.defaultWallet).bind w.db.wallets.find
  return { allocation, batch, worker, wallet }

/-- A payout with its wallet and the batch of its allocation. -/
structure PayoutView where
  payout : Payout
  wallet : Option WorkerWallet
  batch : AllocationBatch

def World.findPayout (w : World) (id : AllocationId) : Option PayoutView := do
  let payout ← w.db.payouts.find id
  let allocation ← w.db.allocations.find id
  let batch ← w.db.batches.find allocation.batchId
  return { payout, wallet := payout.walletId.bind w.db.wallets.find, batch }

theorem findAllocation_eq_some {w : World} {id : AllocationId} {v : AllocationView}
    (h : w.findAllocation id = some v) :
    w.db.allocations.find id = some v.allocation ∧
      w.db.batches.find v.allocation.batchId = some v.batch ∧
      v.worker = v.allocation.workerId.bind w.db.workers.find ∧
      v.wallet = (v.worker.bind Worker.defaultWallet).bind w.db.wallets.find := by
  obtain ⟨a, ha, h⟩ := Option.bind_eq_some_iff.mp h
  obtain ⟨b, hb, h⟩ := Option.bind_eq_some_iff.mp h
  cases h
  exact ⟨ha, hb, rfl, rfl⟩

theorem findPayout_eq_some {w : World} {id : AllocationId} {v : PayoutView}
    (h : w.findPayout id = some v) :
    w.db.payouts.find id = some v.payout ∧
      v.wallet = v.payout.walletId.bind w.db.wallets.find ∧
      ∃ a, w.db.allocations.find id = some a ∧ w.db.batches.find a.batchId = some v.batch := by
  obtain ⟨p, hp, h⟩ := Option.bind_eq_some_iff.mp h
  obtain ⟨a, ha, h⟩ := Option.bind_eq_some_iff.mp h
  obtain ⟨b, hb, h⟩ := Option.bind_eq_some_iff.mp h
  cases h
  exact ⟨hp, rfl, a, ha, hb⟩

/-! ## Batch rollup -/

/-- The payment status of a batch with these allocations. -/
def paymentStatus (allocations : List WorkerAllocation) : AllocationBatchStatus :=
  let paid := allocations.countP fun a => decide (a.payoutStatus = .paid)
  if paid = 0 then .payable else if paid = allocations.length then .paid else .partiallyPaid

theorem paymentStatus_approved (allocations : List WorkerAllocation) :
    (paymentStatus allocations).Approved := by
  simp only [paymentStatus]
  split
  · decide
  · split <;> decide

/-- PARTIALLY_PAID / PAID rollup on the batch. -/
def refreshBatchPaymentStatus (batchId : BatchId) : Service Unit := do
  let allocations ← get fun w =>
    w.db.allocations.rows.filter fun a => decide (a.batchId = batchId)
  let _ ← commit (.batch (.rollup batchId (paymentStatus allocations)))

/-! ## createUsdcPayout -/

/-- A payout write that must go through, with the row it leaves. -/
def writeRow (c : PayoutWrite) (e : ApiError) : Service Payout := do
  let row ← putGet (.payout c) fun w =>
    if c.Applies w.db then c.row (w.db.payouts.find c.target) else none
  orThrow row e

/-- The allocation status an existing payout calls for. -/
def allocationStatusOf (status : PayoutStatus) : Option WorkerAllocationPayoutStatus :=
  if status = .finalized then some .paid
  else if status ∈ [.created, .initiated, .submitted, .confirmed] then some .pending
  else none

theorem allocationStatusOf_eq_paid {status : PayoutStatus} :
    allocationStatusOf status = some .paid ↔ status = .finalized := by
  cases status <;> decide

/-- Idempotent retries also heal the denormalized allocation status. -/
def healAllocation (v : AllocationView) (existing : Payout) : Service Unit :=
  match allocationStatusOf existing.status with
  | none => pure ()
  | some status =>
      if v.allocation.payoutStatus ≠ status ∨ v.allocation.payoutRail ≠ some .usdc then do
        transact (.payout (.heal existing status)) (.internal "Record to update not found")
        if status = .paid then refreshBatchPaymentStatus v.allocation.batchId else pure ()
      else pure ()

/-- The previous signed transaction may be accepted until its blockhash
expires; never issue a new blockhash in that window. -/
def requireExpired (lastValidBlockHeight : Option Nat) : Service Unit :=
  match lastValidBlockHeight with
  | none => pure ()
  | some height => do
      let currentBlockHeight ← get fun w => w.chain.getBlockHeight .confirmed
      require (isBlockhashExpired currentBlockHeight height = true)
        (.conflict s!"Previous payout blockhash is still valid through height {height}")

/-- Create the payout row.  `paymentId` is the allocation id, so the unique
constraint makes one logical payment per allocation. -/
def createUsdcPayout (allocationId : AllocationId) (initiatedByUserId : Option UserId) :
    Service Payout := do
  let found ← get fun w => w.findAllocation allocationId
  let v ← orThrow found (.notFound s!"Allocation {allocationId} not found")
  let worker ← orThrow v.worker (.badRequest
    "This share is held for a worker who has not connected their account yet")
  require (v.batch.status ∈ [.payable, .partiallyPaid]) (.badRequest
    ("Batch is " ++ v.batch.status.text ++ "; payouts require an approved (PAYABLE) batch"))
  require (v.allocation.payoutStatus ≠ .paid) (.conflict "Allocation is already paid")
  require (0 < v.allocation.netAllocatedUsdCents)
    (.badRequest "Allocation amount must be positive")
  let wallet ← orThrow (v.wallet.filter fun x => decide (x.status = .active))
    (.badRequest "Worker has no active default wallet")
  let _ ← orThrow (parsePubkey wallet.address) (.internal "Invalid Solana address")
  let data : UsdcPayout :=
    { paymentId := allocationId
      workerId := worker.id
      venueId := v.batch.id.venueId
      walletId := wallet.id
      amountUsdCents := v.allocation.netAllocatedUsdCents
      initiatedByUserId := initiatedByUserId }
  let existing ← get fun w => w.db.payouts.find allocationId
  match existing with
  | none => writeRow (.create data) (.internal "Unique constraint failed on paymentId")
  | some payout =>
      if payout.status ≠ .failed then do
        healAllocation v payout
        return payout
      else do
        requireExpired payout.lastValidBlockHeight
        writeRow (.reset payout data) (.internal "Record to update not found")

/-! ## buildTransaction -/

/-- The arguments and accounts of the instruction that settles a payout. -/
def settleInstruction (payout : Payout) (allocationHash : Digest) (workerWallet : Pubkey) :
    SettlePayout where
  paymentIdHash := .payment payout.paymentId
  allocationHash := allocationHash
  amount := payout.amountBaseUnits.toNat
  venue := deriveVenuePda payout.venueId
  workerWallet := workerWallet

/-- `buildSettlePayoutTx`: an unsigned transaction for the venue wallet. -/
def buildSettlePayoutTx (payout : Payout) (allocationHash : Digest)
    (venueAuthority workerWallet : Pubkey) : Service BuiltSettleTx := do
  let blockhash ← get fun w => w.chain.latestBlockhash
  return {
    instruction := settleInstruction payout allocationHash workerWallet
    feePayer := venueAuthority
    blockhash := blockhash
    settlementPda := deriveSettlementPda payout.paymentId }

def cannotRebuild (current : Option Payout) : ApiError :=
  .conflict ("Payout is " ++ (current.map fun p => p.status.text).getD "UNKNOWN" ++
    "; cannot rebuild transaction")

/-- Build the unsigned `settle_payout` transaction for the venue wallet to
sign, and record its blockhash. -/
def buildTransaction (payoutId : AllocationId) (initiatedByUserId : Option UserId) (now : Time) :
    Service BuiltSettleTx := do
  let found ← get fun w => w.findPayout payoutId
  let v ← orThrow found (.notFound s!"Payout {payoutId} not found")
  let payout := v.payout
  require (payout.status ∈ [.created, .initiated, .failed]) (cannotRebuild (some payout))
  -- never rebuild if the settlement already landed
  let onchain ← get fun w => w.chain.fetchSettlementRecord payoutId .confirmed
  require (onchain = none)
    (.conflict "Settlement already exists on-chain; run reconciliation")
  requireExpired (if payout.status ∈ [.initiated, .failed] then payout.lastValidBlockHeight
    else none)
  let venue ← get fun w => w.db.venues.find payout.venueId
  let signer ← orThrow (venue.bind Venue.payoutSignerWallet)
    (.badRequest "Venue payout signer wallet is not configured")
  let wallet ← orThrow v.wallet (.badRequest "Payout has no worker wallet")
  let allocationHash ← orThrow v.batch.allocationHash
    (.badRequest "Batch is missing its allocation hash")
  let mint ← get World.usdcMint
  let usdcMint ← orThrow mint (.badRequest "USDC_MINT is not configured")
  let venueAuthority ← orThrow (parsePubkey signer) (.internal "Invalid Solana address")
  let workerWallet ← orThrow (parsePubkey wallet.address) (.internal "Invalid Solana address")
  let _ ← orThrow (parsePubkey usdcMint) (.internal "Invalid Solana address")
  let built ← buildSettlePayoutTx payout allocationHash venueAuthority workerWallet
  let claimed ← commit (.payout (.claimBuild payout built now
    (initiatedByUserId.or payout.initiatedByUserId) signer))
  if claimed = true then return built
  else do
    let current ← get fun w => w.db.payouts.find payoutId
    Prog.throw (cannotRebuild current)

/-! ## submitSigned -/

/-- What the browser submits, decoded: a transaction, whether its first
signature is there, and whether its signatures verify. -/
structure SubmittedTransaction where
  tx : SignedTransaction
  signed : Bool
  verifies : Bool
  deriving DecidableEq, Repr

def Payout.InFlight (p : Payout) : Prop := p.status ∈ [.submitted, .confirmed, .finalized]

instance (p : Payout) : Decidable p.InFlight := inferInstanceAs (Decidable (_ ∈ _))

def notInitiated (current : Option Payout) : ApiError :=
  .conflict ("Payout is " ++ (current.map fun p => p.status.text).getD "UNKNOWN" ++
    "; expected INITIATED")

/-- The answer when the row was not claimed: an earlier submission counts as
success, and the second payload is never broadcast. -/
def answerUnclaimed (payoutId : AllocationId) : Service Payout := do
  let current ← get fun w => w.db.payouts.find payoutId
  match current with
  | some payout => if payout.InFlight then return payout else Prog.throw (notInitiated current)
  | none => Prog.throw (notInitiated current)

/-- The blockhash expired before the submission. -/
def expireSubmission (payoutId : AllocationId) : Service Payout := do
  let expired ← commit (.payout (.expire payoutId))
  if expired = true then do
    transact (.payout (.expireAllocation payoutId)) (.internal "Record to update not found")
    Prog.throw (.conflict "Payout blockhash expired before submission; rebuild and sign again")
  else answerUnclaimed payoutId

/-- Hand the bytes to the RPC.  An error is ambiguous and leaves the payout
submitted. -/
def broadcastFirst (payoutId : AllocationId) (tx : SignedTransaction)
    (sendError : Option String) : Service Unit := do
  put (.broadcast payoutId tx)
  match sendError with
  | none => pure ()
  | some message => do
      let _ ← commit (.payout (.noteBroadcastError payoutId message))

/-- Claim the payout for the signed transaction, then broadcast it.  The
signature is persisted before the broadcast. -/
def submitSigned (payoutId : AllocationId) (payload : Option SubmittedTransaction)
    (submittedByUserId : Option UserId) (now : Time) (sendError : Option String) :
    Service Payout := do
  let found ← get fun w => w.db.payouts.find payoutId
  let payout ← orThrow found (.notFound s!"Payout {payoutId} not found")
  if payout.InFlight then return payout
  else do
    require (payout.status = .initiated) (notInitiated (some payout))
    let recentBlockhash ← orThrow payout.recentBlockhash
      (.conflict "Payout is missing its blockhash validity metadata; rebuild it")
    let lastValidBlockHeight ← orThrow payout.lastValidBlockHeight
      (.conflict "Payout is missing its blockhash validity metadata; rebuild it")
    let submitted ← orThrow payload (.internal "Transaction cannot be decoded")
    let tx := submitted.tx
    require (tx.recentBlockhash = recentBlockhash)
      (.badRequest "Signed transaction blockhash does not match this payout")
    require (submitted.signed = true) (.badRequest "Transaction is not signed")
    require (submitted.verifies = true) (.internal "Signature verification failed")
    let currentBlockHeight ← get fun w => w.chain.getBlockHeight .confirmed
    if isBlockhashExpired currentBlockHeight lastValidBlockHeight = true then
      expireSubmission payoutId
    else do
      let claimed ← commit (.payout (.claimSubmit payout tx now
        (submittedByUserId.or payout.submittedByUserId)))
      if claimed = true then do
        let row ← get fun w => w.db.payouts.find payoutId
        let updated ← orThrow row (.internal "No Payout found")
        broadcastFirst payoutId tx sendError
        return updated
      else answerUnclaimed payoutId

/-! ## registerLegacyEvidence -/

/-- Legacy rails: the payout is venue-attested, so it finalizes immediately. -/
def registerLegacyEvidence (allocationId : AllocationId) (rail : LegacyRail)
    (externalReference : String) (submittedByUserId : Option UserId) (now : Time) :
    Service Payout := do
  let found ← get fun w => w.findAllocation allocationId
  let v ← orThrow found (.notFound s!"Allocation {allocationId} not found")
  let workerId ← orThrow v.allocation.workerId (.badRequest
    "This share is held for a worker who has not connected their account yet")
  if v.allocation.payoutStatus = .paid then do
    let row ← get fun w => w.db.payouts.find allocationId
    orThrow (row.filter fun p => decide (p.status = .finalized))
      (.conflict "Allocation is already paid")
  else do
    require (v.batch.status ∈ [.payable, .partiallyPaid])
      (.badRequest ("Batch is " ++ v.batch.status.text))
    let payout ← writeRow (.registerLegacy
      { paymentId := allocationId
        workerId := workerId
        venueId := v.batch.id.venueId
        amountUsdCents := v.allocation.netAllocatedUsdCents
        rail := rail
        externalReference := externalReference
        settledAt := now
        submittedByUserId := submittedByUserId }) (.internal "Record to update not found")
    refreshBatchPaymentStatus v.allocation.batchId
    return payout

end ServeProof
