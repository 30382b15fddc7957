import ServeProof.Interleave.ReadCommitted
import ServeProof.Schema

/-!
# ServeProof.Services.Wallets

The wallets of the workers, one statement at a time: `addWallet` and
`setDefaultWallet`.

Workers and wallets are the rows of one table.  A wallet is known by its worker and its
address, on the one chain there is.  A read before a transaction is one of its statements,
and so is each half of an upsert.
-/

namespace ServeProof.Wallets

open ReadCommitted

/-! ## Rows -/

inductive WalletType where
  | external | embedded
  deriving DecidableEq, Repr

/-- `(workerId, address)`. -/
structure WalletKey where
  workerId : WorkerId
  address : String
  deriving DecidableEq, Repr

structure WorkerRow where
  id : WorkerId
  userId : UserId
  defaultWalletId : Option WalletKey
  deriving DecidableEq, Repr

structure WalletRow where
  id : WalletKey
  walletType : WalletType
  status : WalletStatus
  isDefault : Bool
  deriving DecidableEq, Repr

inductive Row where
  | worker (worker : WorkerRow)
  | wallet (wallet : WalletRow)
  deriving DecidableEq, Repr

inductive RowKey where
  | worker (id : WorkerId)
  | wallet (id : WalletKey)
  deriving DecidableEq, Repr

def Row.key : Row → RowKey
  | worker w => .worker w.id
  | wallet x => .wallet x.id

abbrev WalletTx := Tx Row.key

def getWorkerByUserId (t : Table Row.key) (userId : UserId) : Option WorkerRow :=
  t.rows.findSome? fun
    | .worker w => if w.userId = userId then some w else none
    | .wallet _ => none

def findWallet (t : Table Row.key) (id : WalletKey) : Option WalletRow :=
  match t.find (.wallet id) with
  | some (.wallet x) => some x
  | _ => none

/-! ## Updates -/

/-- Change a wallet; its id stays. -/
def updateWallets (p : WalletRow → Bool) (f : WalletRow → WalletRow) (hf : ∀ x, (f x).id = x.id) :
    Update Row.key where
  p
    | .worker _ => false
    | .wallet x => p x
  change
    | .worker w => .worker w
    | .wallet x => .wallet (f x)
  key_change r := by
    cases r with
    | worker w => rfl
    | wallet x => exact congrArg RowKey.wallet (hf x)

def activate (id : WalletKey) : Update Row.key :=
  updateWallets (fun x => decide (x.id = id)) (fun x => { x with status := .active }) fun _ => rfl

def makeDefault (id : WalletKey) : Update Row.key :=
  updateWallets (fun x => decide (x.id = id)) (fun x => { x with isDefault := true }) fun _ => rfl

def clearDefaults (workerId : WorkerId) : Update Row.key :=
  updateWallets (fun x => decide (x.id.workerId = workerId))
    (fun x => { x with isDefault := false }) fun _ => rfl

def pointTo (workerId : WorkerId) (id : WalletKey) : Update Row.key where
  p
    | .worker w => decide (w.id = workerId)
    | .wallet _ => false
  change
    | .worker w => .worker { w with defaultWalletId := some id }
    | .wallet x => .wallet x
  key_change r := by cases r <;> rfl

/-! ## addWallet -/

/-- The first wallet becomes the default: `worker` is the row that was read before the
transaction. -/
def settleDefault (worker : WorkerRow) (id : WalletKey) : WalletTx :=
  if worker.defaultWalletId = none then
    .update (pointTo worker.id id) (.update (makeDefault id) .commit)
  else .commit

/-- The upsert of the wallet. -/
def upsertWallet (worker : WorkerRow) (address : String) (walletType : WalletType) : WalletTx :=
  let id : WalletKey := ⟨worker.id, address⟩
  .query fun t =>
    match findWallet t id with
    | some _ => .update (activate id) (settleDefault worker id)
    | none => .insert (.wallet ⟨id, walletType, .active, false⟩) (settleDefault worker id)

def addWallet (userId : UserId) (address : String) (walletType : Option WalletType) : WalletTx :=
  .query fun t =>
    match getWorkerByUserId t userId with
    | none => .rollback
    | some worker => upsertWallet worker address (walletType.getD .external)

/-! ## setDefaultWallet -/

/-- The transaction. -/
def replaceDefault (workerId : WorkerId) (walletId : WalletKey) : WalletTx :=
  .update (clearDefaults workerId)
    (.update (makeDefault walletId) (.update (pointTo workerId walletId) .commit))

/-- The wallet is read, and checked. -/
def checkWallet (worker : WorkerRow) (walletId : WalletKey) : WalletTx :=
  .query fun t =>
    match findWallet t walletId with
    | none => .rollback
    | some wallet =>
        if wallet.id.workerId ≠ worker.id then .rollback
        else if wallet.status ≠ .active then .rollback
        else replaceDefault worker.id walletId

def setDefaultWallet (userId : UserId) (walletId : WalletKey) : WalletTx :=
  .query fun t =>
    match getWorkerByUserId t userId with
    | none => .rollback
    | some worker => checkWallet worker walletId

/-! ## The calls -/

inductive WalletCall where
  | addWallet (userId : UserId) (address : String) (walletType : Option WalletType)
  | setDefaultWallet (userId : UserId) (walletId : WalletKey)

def WalletCall.tx : WalletCall → WalletTx
  | addWallet userId address walletType => Wallets.addWallet userId address walletType
  | setDefaultWallet userId walletId => Wallets.setDefaultWallet userId walletId

end ServeProof.Wallets
