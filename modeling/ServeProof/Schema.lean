import Mathlib.Data.Rat.Defs
import ServeProof.Table

/-!
# ServeProof.Schema

The database of the service: the enumerations and the rows of
`schema.prisma` with the columns the settlement core reads and writes.

Identifiers follow the unique constraints of the schema.  A batch *is* its
`(venueId, businessDate, policyVersion)`, a policy its `(venueId, version)`,
an external account its `(venueId, provider, externalWorkerId)`.  A payout is
identified by its `paymentId`, which every writer sets to the allocation id;
rows never change these columns, so the surrogate uuid next to them says
nothing more.

Hashes are symbolic: a `Digest` is what was hashed, so that equal digests are
equal preimages.
-/

namespace ServeProof

abbrev VenueId := String
abbrev UserId := String
abbrev WorkerId := String
abbrev WalletId := Nat
abbrev AllocationId := Nat

/-- A point in time, in milliseconds. -/
abbrev Time := Nat

/-- A date, in milliseconds since 1970. -/
abbrev Date := Int

/-- A Solana public key. -/
abbrev Pubkey := Nat

/-! ## Enumerations -/

inductive TipType where
  | cashTip | cardTip | qrTip | automaticGratuity | serviceCharge
  deriving DecidableEq, Repr

inductive PaymentStatus where
  | completed | pending | canceled
  deriving DecidableEq, Repr

inductive RefundStatus where
  | none | partialRefund | full
  deriving DecidableEq, Repr

/-- How a piece of evidence entered the system. -/
inductive EvidenceIngestSource where
  | csvUpload | providerApi | platformAttested
  deriving DecidableEq, Repr

inductive ShiftStatus where
  | inProgress | completed | approved | voided
  deriving DecidableEq, Repr

inductive MappingStatus where
  | pending | confirmed | rejected
  deriving DecidableEq, Repr

inductive PolicyStatus where
  | draft | active | archived
  deriving DecidableEq, Repr

inductive WalletStatus where
  | active | disabled
  deriving DecidableEq, Repr

inductive AllocationBatchStatus where
  | draft | calculated | reviewRequired | approved | payable | partiallyPaid | paid
  | corrected | reversed | disputed
  deriving DecidableEq, Repr

inductive WorkerPayoutRail where
  | cashRetained | cashDrawer | payroll | payoutProvider | bankReference | usdc
  deriving DecidableEq, Repr

inductive WorkerAllocationPayoutStatus where
  | unpaid | pending | paid | failed
  deriving DecidableEq, Repr

inductive PayoutStatus where
  | created | initiated | submitted | confirmed | finalized | failed | reversed | corrected
  deriving DecidableEq, Repr

inductive AllocationIssueCode where
  | unmappedWorker | nonPositiveMinutes | unknownRole | refundedPaymentExcluded
  | canceledPaymentExcluded | emptyPool | noEligibleShifts
  deriving DecidableEq, Repr

namespace AllocationBatchStatus

def text : AllocationBatchStatus → String
  | draft => "DRAFT"
  | calculated => "CALCULATED"
  | reviewRequired => "REVIEW_REQUIRED"
  | approved => "APPROVED"
  | payable => "PAYABLE"
  | partiallyPaid => "PARTIALLY_PAID"
  | paid => "PAID"
  | corrected => "CORRECTED"
  | reversed => "REVERSED"
  | disputed => "DISPUTED"

/-- The statuses of a batch that was approved: `PAYABLE` and what the payment
rollup makes of it. -/
def Approved (s : AllocationBatchStatus) : Prop := s ∈ [payable, partiallyPaid, paid]

/-- The statuses in which a batch may be calculated again. -/
def Recalculable (s : AllocationBatchStatus) : Prop := s ∈ [draft, calculated, reviewRequired]

instance : DecidablePred Approved := fun s => inferInstanceAs (Decidable (s ∈ _))

instance : DecidablePred Recalculable := fun s => inferInstanceAs (Decidable (s ∈ _))

/-- An approved batch may not be calculated again. -/
theorem Recalculable.not_approved {s : AllocationBatchStatus} (h : s.Recalculable) :
    ¬ s.Approved := by
  cases s <;> revert h <;> decide

end AllocationBatchStatus

def PayoutStatus.text : PayoutStatus → String
  | .created => "CREATED"
  | .initiated => "INITIATED"
  | .submitted => "SUBMITTED"
  | .confirmed => "CONFIRMED"
  | .finalized => "FINALIZED"
  | .failed => "FAILED"
  | .reversed => "REVERSED"
  | .corrected => "CORRECTED"

/-- The rails evidence is registered for by hand: every rail but USDC. -/
abbrev LegacyRail := { r : WorkerPayoutRail // r ≠ .usdc }

/-! ## Issues and shares of a calculation -/

/-- A value in the detail of an issue. -/
inductive DetailValue where
  | text (s : String)
  | number (n : Int)
  deriving DecidableEq, Repr

structure AllocationIssue where
  code : AllocationIssueCode
  /-- `true`: the batch must go to `REVIEW_REQUIRED` instead of `CALCULATED`. -/
  blocking : Bool
  detail : List (String × DetailValue)
  deriving DecidableEq, Repr

/-- One recipient's share.  `workerId = none` is a share held for an external
worker who has not connected an account yet. -/
structure WorkerAllocationResult where
  workerId : Option WorkerId
  provider : Option String
  externalWorkerId : Option String
  score : ℚ
  pooledTipUsdCents : Int
  netAllocatedUsdCents : Int
  deriving DecidableEq, Repr

/-! ## Hashes and addresses -/

/-- What a sha-256 digest is the digest of.  `raw` is any other 32 bytes. -/
inductive Digest where
  | payment (paymentId : AllocationId)
  | venue (venueId : VenueId)
  | evidence (tips shifts : List Nat)
  | allocation (policyVersion : Nat) (poolUsdCents : Int)
      (allocations : List WorkerAllocationResult)
  | raw (n : Nat)
  deriving DecidableEq, Repr

/-- 32 zero bytes. -/
def Digest.zero : Digest := .raw 0

/-- A wallet address as stored: base58 of a key, or a text that is none. -/
inductive Address where
  | key (k : Pubkey)
  | malformed (text : String)
  deriving DecidableEq, Repr

/-- `parsePubkey`: the key of an address; invalid addresses throw. -/
def parsePubkey : Address → Option Pubkey
  | .key k => some k
  | .malformed _ => none

/-- The venue account of the program: the PDA of the venue's id hash. -/
structure VenuePda where
  venueIdHash : Digest
  deriving DecidableEq, Repr

/-- The settlement record account: the PDA of the payment's id hash. -/
structure SettlementPda where
  paymentIdHash : Digest
  deriving DecidableEq, Repr

def deriveVenuePda (venueId : VenueId) : VenuePda := ⟨.venue venueId⟩

def deriveSettlementPda (paymentId : AllocationId) : SettlementPda := ⟨.payment paymentId⟩

/-! ## Transactions as the database stores them -/

/-- A recent blockhash and the last block height at which a transaction that
carries it can be included. -/
structure Blockhash where
  id : Nat
  lastValidBlockHeight : Nat
  deriving DecidableEq, Repr

/-- The `settle_payout` instruction: its arguments, and the accounts the
program copies into the record. -/
structure SettlePayout where
  paymentIdHash : Digest
  allocationHash : Digest
  amount : Nat
  venue : VenuePda
  workerWallet : Pubkey
  deriving DecidableEq, Repr

/-- A transaction as the client signed it.  `settlement` is its `settle_payout`
instruction, `memo` whatever else the client put into the message. -/
structure SignedTransaction where
  recentBlockhash : Blockhash
  feePayer : Pubkey
  settlement : Option SettlePayout
  memo : Nat
  deriving DecidableEq, Repr

/-- The signature of a transaction; it determines the signed message. -/
structure Signature where
  message : SignedTransaction
  deriving DecidableEq, Repr

def SignedTransaction.signature (tx : SignedTransaction) : Signature := ⟨tx⟩

/-- The transaction settles the payment `p`. -/
def SignedTransaction.Settles (tx : SignedTransaction) (p : AllocationId) : Prop :=
  tx.settlement.map SettlePayout.paymentIdHash = some (.payment p)

instance (tx : SignedTransaction) (p : AllocationId) : Decidable (tx.Settles p) :=
  inferInstanceAs (Decidable (_ = _))

/-- A transaction settles one payment at most. -/
theorem SignedTransaction.Settles.unique {tx : SignedTransaction} {p q : AllocationId}
    (hp : tx.Settles p) (hq : tx.Settles q) : p = q :=
  Digest.payment.inj (Option.some.inj (hp.symm.trans hq))

/-- The transaction settles no payment but `p`. -/
def SignedTransaction.SettlesOnly (tx : SignedTransaction) (p : AllocationId) : Prop :=
  ∀ q, tx.Settles q → q = p

instance (tx : SignedTransaction) (p : AllocationId) : Decidable (tx.SettlesOnly p) :=
  match h : tx.settlement.map SettlePayout.paymentIdHash with
  | some (.payment q) =>
      decidable_of_iff (q = p) ⟨fun hq r hr => hq ▸ SignedTransaction.Settles.unique hr h,
        fun hall => hall q h⟩
  | none | some (.venue _) | some (.evidence ..) | some (.allocation ..) | some (.raw _) =>
      isTrue fun q hq => by rw [SignedTransaction.Settles, h] at hq; cases hq

/-! ## Rows -/

structure Venue where
  id : VenueId
  name : String
  payoutSignerWallet : Option Address
  deriving DecidableEq, Repr

structure Worker where
  id : WorkerId
  userId : UserId
  /-- The display name of the worker's user. -/
  displayName : String
  defaultWallet : Option WalletId
  deriving DecidableEq, Repr

structure WorkerWallet where
  id : WalletId
  address : Address
  status : WalletStatus
  deriving DecidableEq, Repr

/-- `(venueId, provider, externalWorkerId)`. -/
structure AccountId where
  venueId : VenueId
  provider : String
  externalWorkerId : String
  deriving DecidableEq, Repr

structure ExternalWorkerAccount where
  id : AccountId
  workerId : WorkerId
  mappingStatus : MappingStatus
  verifiedBy : Option UserId
  deriving DecidableEq, Repr

/-- `(venueId, provider, externalPaymentId, tipType)`. -/
structure TipId where
  venueId : VenueId
  provider : String
  externalPaymentId : String
  tipType : TipType
  deriving DecidableEq, Repr

structure TipEvidence where
  id : TipId
  grossAmountUsdCents : Int
  paymentStatus : PaymentStatus
  refundStatus : RefundStatus
  businessDate : String
  sourceHash : Nat
  deriving DecidableEq, Repr

/-- `(venueId, provider, externalShiftId)`. -/
structure ShiftId where
  venueId : VenueId
  provider : String
  externalShiftId : String
  deriving DecidableEq, Repr

structure ShiftEvidence where
  id : ShiftId
  ingestSource : EvidenceIngestSource
  externalWorkerId : String
  mappedWorkerId : Option WorkerId
  role : String
  clockIn : Date
  clockOut : Option Date
  workedMinutes : Int
  shiftStatus : ShiftStatus
  businessDate : String
  sourceHash : Nat
  sourcePayoutRail : Option WorkerPayoutRail
  sourcePayrollStatus : Option String
  deriving DecidableEq, Repr

/-- `(venueId, version)`. -/
structure PolicyId where
  venueId : VenueId
  version : Nat
  deriving DecidableEq, Repr

structure AllocationPolicy where
  id : PolicyId
  status : PolicyStatus
  roleWeights : List (String × ℚ)
  poolInclusion : List (TipType × Bool)
  excludedRoles : List String
  deriving DecidableEq, Repr

/-- `(venueId, businessDate, policyVersion)`. -/
structure BatchId where
  venueId : VenueId
  businessDate : String
  policyVersion : Nat
  deriving DecidableEq, Repr

structure AllocationBatch where
  id : BatchId
  tipPoolAmountUsdCents : Int
  status : AllocationBatchStatus
  evidenceHash : Option Digest
  allocationHash : Option Digest
  reviewIssues : List AllocationIssue
  calculatedAt : Option Time
  calculatedBy : Option UserId
  approvedAt : Option Time
  approvedBy : Option UserId
  deriving DecidableEq, Repr

structure WorkerAllocation where
  id : AllocationId
  batchId : BatchId
  /-- `none`: a held share, whose future owner `provider` and
  `externalWorkerId` identify. -/
  workerId : Option WorkerId
  provider : Option String
  externalWorkerId : Option String
  pooledTipUsdCents : Int
  netAllocatedUsdCents : Int
  plannedPayoutRail : Option WorkerPayoutRail
  payoutRail : Option WorkerPayoutRail
  payoutStatus : WorkerAllocationPayoutStatus
  deriving DecidableEq, Repr

structure Payout where
  /-- The idempotency key: the id of the allocation that is paid. -/
  paymentId : AllocationId
  workerId : WorkerId
  venueId : VenueId
  walletId : Option WalletId
  rail : WorkerPayoutRail
  asset : String
  amountBaseUnits : Int
  amountUsdCents : Int
  status : PayoutStatus
  externalReference : Option String
  txSignature : Option Signature
  settlementPda : Option SettlementPda
  recentBlockhash : Option Blockhash
  lastValidBlockHeight : Option Nat
  signedTransaction : Option SignedTransaction
  lastBroadcastAt : Option Time
  broadcastAttempts : Nat
  slot : Option Nat
  blockTime : Option Nat
  initiatedAt : Option Time
  initiatedByUserId : Option UserId
  submittedByUserId : Option UserId
  signerWallet : Option Address
  settledAt : Option Time
  failedReason : Option String
  deriving DecidableEq, Repr

inductive AuditAction where
  | allocationBatchApproved (allocationHash evidenceHash : Option Digest)
      (tipPoolAmountUsdCents : Int)
  | allocationBatchRejected (reason : String)
  deriving DecidableEq, Repr

structure AuditLog where
  venueId : VenueId
  actorUserId : UserId
  entityId : BatchId
  action : AuditAction
  deriving DecidableEq, Repr

/-! ## The database -/

/-- The tables, with the foreign keys the service relies on: an allocation
belongs to a batch, a payout to an allocation.  Allocation ids are drawn from
a counter; like the uuids they stand for, no two inserts draw the same one. -/
structure Db where
  venues : Table Venue.id
  workers : Table Worker.id
  wallets : Table WorkerWallet.id
  accounts : Table ExternalWorkerAccount.id
  tips : Table TipEvidence.id
  shifts : Table ShiftEvidence.id
  policies : Table AllocationPolicy.id
  batches : Table AllocationBatch.id
  allocations : Table WorkerAllocation.id
  payouts : Table Payout.paymentId
  auditLog : List AuditLog
  nextAllocationId : AllocationId
  batch_of_allocation : ∀ a ∈ allocations.rows, (batches.find a.batchId).isSome
  allocation_of_payout : ∀ p ∈ payouts.rows, (allocations.find p.paymentId).isSome
  fresh : ∀ a ∈ allocations.rows, a.id < nextAllocationId

end ServeProof
