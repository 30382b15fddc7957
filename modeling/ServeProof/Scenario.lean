import ServeProof.Calls

/-!
# ServeProof.Scenario

A venue with one worker, from an empty database to an approved batch: the
setting of the concrete runs that show where a property fails, and that the
conditions of the general results can be met.
-/

namespace ServeProof

open Interleave System

/-- Comparison by code points; on the keys of these runs every locale agrees. -/
abbrev byCodePoint : Collation where
  localeCompare a b := if a < b then .lt else if a = b then .eq else .gt

def Db.empty : Db where
  venues := ∅
  workers := ∅
  wallets := ∅
  accounts := ∅
  tips := ∅
  shifts := ∅
  policies := ∅
  batches := ∅
  allocations := ∅
  payouts := ∅
  auditLog := []
  nextAllocationId := 1
  batch_of_allocation := fun _ h => absurd h List.not_mem_nil
  allocation_of_payout := fun _ h => absurd h List.not_mem_nil
  fresh := fun _ h => absurd h List.not_mem_nil

def Chain.genesis : Chain where
  head := 1
  confirmed := 0
  finalized := 0
  latestBlockhash := ⟨0, 2⟩
  handed := []
  included := ∅
  confirmed_lt_head := Nat.zero_lt_one
  finalized_le_confirmed := le_refl 0
  height_le_head := fun _ h => absurd h List.not_mem_nil
  height_le_valid := fun _ h => absurd h List.not_mem_nil
  one_record := fun _ h => absurd h List.not_mem_nil
  included_handed := fun _ h => absurd h List.not_mem_nil

/-- Nothing has happened yet. -/
def World.empty : World where
  db := Db.empty
  chain := Chain.genesis
  usdcMint := some (.key 7)

namespace Scenario

abbrev venue : VenueId := "venue"
abbrev worker : WorkerId := "worker"
abbrev owner : UserId := "owner"
abbrev date : String := "2026-07-01"
abbrev batch : BatchId := ⟨venue, date, 1⟩

/-- The key the venue signs with, and the worker's wallet. -/
abbrev venueKey : Pubkey := 10
abbrev workerKey : Pubkey := 20

def policy : PolicyInput where
  roleWeights := [("SERVER", 1)]
  poolInclusion := [(.cardTip, true)]
  excludedRoles := []

def shift : ShiftEvidence where
  id := ⟨venue, "square", "shift"⟩
  ingestSource := .providerApi
  externalWorkerId := "external"
  mappedWorkerId := some worker
  role := "SERVER"
  clockIn := 1782900000000
  clockOut := some 1782903600000
  workedMinutes := 60
  shiftStatus := .completed
  businessDate := date
  sourceHash := 1
  sourcePayoutRail := none
  sourcePayrollStatus := none

def tip : TipEvidence where
  id := ⟨venue, "square", "payment", .cardTip⟩
  grossAmountUsdCents := 500
  paymentStatus := .completed
  refundStatus := .none
  businessDate := date
  sourceHash := 2

/-- A venue, a worker with a wallet, a policy, a shift and a tip. -/
def opening : List EnvMove :=
  [.record (.saveVenue ⟨venue, "Venue", some (.key venueKey)⟩),
    .record (.addWallet ⟨1, .key workerKey, .active⟩),
    .record (.saveWorker ⟨worker, "worker-user", "Worker", some 1⟩),
    .record (.createVersion venue policy),
    .record (.saveShift shift),
    .record (.saveTip tip)]

def calculateDay : AllocationCall := .calculate venue date none none 0

def approveDay : AllocationCall := .approve batch owner 0

/-- The batch of the day is calculated and approved: allocation 1 is worth
500 cents. -/
def approved : List (Act Call EnvMove) :=
  opening.map .env ++ [.call (.allocation calculateDay) 20, .call (.allocation approveDay) 20]

/-! ## A held share -/

/-- A shift of an external worker who has no account yet. -/
def heldShift : ShiftEvidence :=
  { shift with
    id := ⟨venue, "square", "held-shift"⟩
    externalWorkerId := "held"
    mappedWorkerId := none }

/-- Two shifts of one length: allocation 1 is held, allocation 2 is the
worker's, each is worth 250 cents.  The venue proposes the external worker's
account to the worker. -/
def approvedHeld : List (Act Call EnvMove) :=
  opening.map .env ++
    [.env (.record (.saveShift heldShift)), .call (.allocation calculateDay) 20,
      .call (.allocation approveDay) 20,
      .env (.record (.propose ⟨venue, "square", "held"⟩ worker))]

/-- The worker accepts; the held share goes to the worker. -/
def accept : Call := .evidence (.respondToMapping ⟨venue, "square", "held"⟩ "worker-user" .accept)

def cash : LegacyRail := ⟨.cashDrawer, by decide⟩

/-- Evidence of a payment in cash. -/
def register (p : AllocationId) : Call :=
  .payout (.registerLegacyEvidence p cash "receipt" (some owner) 0)

/-! ## A payout in USDC -/

/-- The allocation hash of the batch. -/
def allocationHash : Digest :=
  .allocation 1 500
    [{ workerId := some worker
       provider := none
       externalWorkerId := none
       score := 60
       pooledTipUsdCents := 500
       netAllocatedUsdCents := 500 }]

/-- The instruction that settles allocation 1. -/
def settlement : SettlePayout where
  paymentIdHash := .payment 1
  allocationHash := allocationHash
  amount := 5000000
  venue := deriveVenuePda venue
  workerWallet := workerKey

def signed (b : Blockhash) : SignedTransaction := ⟨b, venueKey, some settlement, 0⟩

def create : Call := .payout (.createUsdcPayout 1 (some owner))

def build : Call := .payout (.buildTransaction 1 (some owner) 0)

def submit (tx : SignedTransaction) : Call :=
  .payout (.submitSigned 1 (some ⟨tx, true, true⟩) (some owner) 0 none)

def confirmation (tx : SignedTransaction) : Call :=
  .worker (.processConfirmation 1 tx.signature 0)

/-- The transaction of the first blockhash, valid through height 2. -/
def firstTx : SignedTransaction := signed ⟨0, 2⟩

/-- Allocation 1 has its transaction broadcast. -/
def submitted : List (Act Call EnvMove) :=
  approved ++ [.call create 20, .call build 20, .call (submit firstTx) 20]

/-- The first blockhash expires, and a new one is handed out. -/
def expires : List EnvMove :=
  [.chain .produceBlock, .chain .produceBlock, .chain .produceBlock, .chain .confirm,
    .chain .confirm, .chain .confirm, .chain (.newBlockhash ⟨1, 9⟩)]

/-- The first transaction handed over is included, and its block is finalized. -/
def settles : List EnvMove :=
  [.chain (.includeTx 0 none 9 none), .chain .produceBlock, .chain .confirm, .chain .finalize]

end Scenario
end ServeProof
