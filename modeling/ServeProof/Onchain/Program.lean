import ServeProof.Onchain.Ledger

/-!
# ServeProof.Onchain.Program

The settlement program: its seven instructions with the accounts a caller
passes, and of the token program what they call.

An instruction reads the accounts it is given, checks the constraints that are
declared on them, in the order the framework checks them (the accounts are
loaded, those marked `init` are created, then the constraints of the others are
checked), and runs its body.  It fails with the first error and then changes
nothing.
-/

namespace ServeProof.Onchain

/-! ## Errors -/

inductive SpError where
  | protocolPaused
  | venueInactive
  | unauthorized
  | invalidMint
  | insufficientVaultBalance
  | zeroAllocationHash
  | zeroAmount
  | venueMismatch
  deriving DecidableEq, Repr

/-- The errors of the program, of the framework and of the token program. -/
inductive Error where
  | program (e : SpError)
  | accountNotInitialized
  | accountDiscriminatorMismatch
  | accountNotSigner
  | accountAlreadyInUse
  | constraintSeeds
  | constraintTokenMint
  | constraintTokenOwner
  | constraintAssociated
  | mintMismatch
  | mintDecimalsMismatch
  | insufficientFunds
  | ownerMismatch
  | missingRequiredSignature
  deriving DecidableEq, Repr

def require (p : Prop) [Decidable p] (e : Error) : Except Error Unit :=
  if p then .ok () else .error e

@[simp] theorem require_eq_ok {p : Prop} [Decidable p] {e : Error} {u : Unit} :
    require p e = .ok u ↔ p := by
  rw [require]
  split <;> simp_all

@[simp] theorem bind_eq_ok {ε α β : Type} {x : Except ε α} {f : α → Except ε β} {b : β} :
    x >>= f = .ok b ↔ ∃ a, x = .ok a ∧ f a = .ok b := by
  cases x <;> simp [bind, Except.bind]

@[simp] theorem pure_eq_ok {ε α : Type} {a b : α} : (pure a : Except ε α) = .ok b ↔ a = b := by
  simp [pure, Except.pure]

namespace Ledger

/-- `Account<'info, T>`: the account holds data of type `T`. -/
def load {α : Type} (read : Ledger → Pubkey → Option α) (s : Ledger) (x : Pubkey) :
    Except Error α :=
  match read s x with
  | some a => .ok a
  | none =>
      .error (if s.get x = none then .accountNotInitialized else .accountDiscriminatorMismatch)

@[simp] theorem load_eq_ok {α : Type} {read : Ledger → Pubkey → Option α} {s : Ledger}
    {x : Pubkey} {a : α} : load read s x = .ok a ↔ read s x = some a := by
  rw [load]
  split <;> simp_all

/-! ## The token program -/

/-- Create the associated token account of `owner` at `x`. -/
def createAssociatedTokenAccount (mint owner x : Pubkey) (s : Ledger) : Except Error Ledger := do
  let _ ← s.load mint? mint
  require (x = .associatedToken mint owner) .constraintAssociated
  require (s.get x = none) .accountAlreadyInUse
  return s.put x (.token ⟨mint, owner, 0⟩)

/-- `init_if_needed` of an associated token account. -/
def initTokenIfNeeded (mint owner x : Pubkey) (s : Ledger) : Except Error Ledger :=
  if s.get x = none then s.createAssociatedTokenAccount mint owner x
  else do
    let t ← s.load token? x
    require (t.mint = mint) .constraintTokenMint
    require (t.owner = owner) .constraintTokenOwner
    require (x = .associatedToken mint owner) .constraintAssociated
    return s

/-- `transfer_checked`, with the keys that signed.  Nothing moves when source and
destination are one account. -/
def transferChecked (source mint destination authority : Pubkey) (amount decimals : Nat)
    (signers : List Pubkey) (s : Ledger) : Except Error Ledger := do
  let src ← s.load token? source
  let dst ← s.load token? destination
  require (amount ≤ src.amount) .insufficientFunds
  require (src.mint = dst.mint) .mintMismatch
  require (src.mint = mint) .mintMismatch
  let m ← s.load mint? mint
  require (decimals = m.decimals) .mintDecimalsMismatch
  require (authority = src.owner) .ownerMismatch
  require (authority ∈ signers) .missingRequiredSignature
  if source = destination then return s
  else
    return (s.put source (.token { src with amount := src.amount - amount })).put destination
      (.token { dst with amount := dst.amount + amount })

end Ledger

/-! ## Instruction contexts -/

structure InitializeConfig where
  config : Pubkey
  usdcMint : Pubkey
  admin : Pubkey
  deriving DecidableEq, Repr

structure RegisterVenue where
  config : Pubkey
  venue : Pubkey
  admin : Pubkey
  deriving DecidableEq, Repr

structure InitializeVenueVault where
  config : Pubkey
  venue : Pubkey
  vaultAuthority : Pubkey
  usdcMint : Pubkey
  venueVault : Pubkey
  payer : Pubkey
  deriving DecidableEq, Repr

structure SettlePayout where
  config : Pubkey
  venue : Pubkey
  venueAuthority : Pubkey
  vaultAuthority : Pubkey
  venueVault : Pubkey
  workerWallet : Pubkey
  workerTokenAccount : Pubkey
  settlementRecord : Pubkey
  usdcMint : Pubkey
  deriving DecidableEq, Repr

structure MarkCorrected where
  config : Pubkey
  venue : Pubkey
  settlementRecord : Pubkey
  authority : Pubkey
  deriving DecidableEq, Repr

structure SetPaused where
  config : Pubkey
  admin : Pubkey
  deriving DecidableEq, Repr

/-! ## Instructions -/

def settlementStatusSettled : Nat := 1
def settlementStatusCorrected : Nat := 2
def settlementStatusDisputed : Nat := 3

/-- `[0u8; 32]`. -/
def zeroHash : Bytes32 := .replicate 32 0

namespace Ledger

section Instructions

-- the keys that signed the transaction, and the clock
variable (signers : List Pubkey) (now : Int)

/-- Create the configuration and pin the mint. -/
def initializeConfig (ctx : InitializeConfig) (s : Ledger) : Except Error Ledger := do
  let _ ← s.load mint? ctx.usdcMint
  require (ctx.admin ∈ signers) .accountNotSigner
  require (ctx.config = .config) .constraintSeeds
  require (s.get ctx.config = none) .accountAlreadyInUse
  return s.put ctx.config
    (.globalConfig { admin := ctx.admin, usdcMint := ctx.usdcMint, paused := false, version := 1 })

/-- The admin registers a venue. -/
def registerVenue (ctx : RegisterVenue) (venueIdHash : Bytes32) (venueAuthority : Pubkey)
    (s : Ledger) : Except Error Ledger := do
  let config ← s.load globalConfig? ctx.config
  require (ctx.admin ∈ signers) .accountNotSigner
  require (ctx.venue = .venue venueIdHash) .constraintSeeds
  require (s.get ctx.venue = none) .accountAlreadyInUse
  require (ctx.config = .config) .constraintSeeds
  require (ctx.admin = config.admin) (.program .unauthorized)
  return s.put ctx.venue
    (.venue
      { venueIdHash := venueIdHash
        venueAuthority := venueAuthority
        vaultAuthority := .vaultAuthority ctx.venue
        active := true
        createdAt := now })

/-- Create the vault of a venue. -/
def initializeVenueVault (ctx : InitializeVenueVault) (s : Ledger) : Except Error Ledger := do
  let config ← s.load globalConfig? ctx.config
  let venue ← s.load venue? ctx.venue
  require (ctx.payer ∈ signers) .accountNotSigner
  let s ← s.createAssociatedTokenAccount ctx.usdcMint ctx.vaultAuthority ctx.venueVault
  require (ctx.config = .config) .constraintSeeds
  require (ctx.venue = .venue venue.venueIdHash) .constraintSeeds
  require (ctx.vaultAuthority = .vaultAuthority ctx.venue) .constraintSeeds
  require (ctx.usdcMint = config.usdcMint) (.program .invalidMint)
  return s

/-- Settle one allocation: a transfer out of the vault and a record of it. -/
def settlePayout (ctx : SettlePayout) (paymentIdHash allocationHash : Bytes32) (amount : Nat)
    (s : Ledger) : Except Error Ledger := do
  let config ← s.load globalConfig? ctx.config
  let venue ← s.load venue? ctx.venue
  require (ctx.venueAuthority ∈ signers) .accountNotSigner
  let vault ← s.load token? ctx.venueVault
  let mint ← s.load mint? ctx.usdcMint
  let s ← s.initTokenIfNeeded ctx.usdcMint ctx.workerWallet ctx.workerTokenAccount
  require (ctx.settlementRecord = .settlement paymentIdHash) .constraintSeeds
  require (s.get ctx.settlementRecord = none) .accountAlreadyInUse
  require (ctx.config = .config) .constraintSeeds
  require (ctx.venue = .venue venue.venueIdHash) .constraintSeeds
  require (ctx.venueAuthority = venue.venueAuthority) (.program .unauthorized)
  require (ctx.vaultAuthority = .vaultAuthority ctx.venue) .constraintSeeds
  require (vault.owner = ctx.vaultAuthority) .constraintTokenOwner
  require (ctx.venueVault = .associatedToken ctx.usdcMint ctx.vaultAuthority) .constraintAssociated
  require (ctx.usdcMint = config.usdcMint) (.program .invalidMint)
  require (config.paused = false) (.program .protocolPaused)
  require (venue.active = true) (.program .venueInactive)
  require (amount ≤ vault.amount) (.program .insufficientVaultBalance)
  require (allocationHash ≠ zeroHash) (.program .zeroAllocationHash)
  require (0 < amount) (.program .zeroAmount)
  let s ← s.transferChecked ctx.venueVault ctx.usdcMint ctx.workerTokenAccount ctx.vaultAuthority
    amount mint.decimals (.vaultAuthority ctx.venue :: signers)
  return s.put ctx.settlementRecord
    (.settlementRecord
      { paymentIdHash := paymentIdHash
        allocationHash := allocationHash
        venue := ctx.venue
        workerWallet := ctx.workerWallet
        amount := amount
        status := settlementStatusSettled
        settledAt := now
        correctionReference := zeroHash })

/-- Mark a settlement as corrected or disputed; it is never deleted. -/
def markCorrected (ctx : MarkCorrected) (paymentIdHash correctionHash : Bytes32) (disputed : Bool)
    (s : Ledger) : Except Error Ledger := do
  let config ← s.load globalConfig? ctx.config
  let venue ← s.load venue? ctx.venue
  let record ← s.load settlementRecord? ctx.settlementRecord
  require (ctx.authority ∈ signers) .accountNotSigner
  require (ctx.config = .config) .constraintSeeds
  require (ctx.venue = .venue venue.venueIdHash) .constraintSeeds
  require (ctx.settlementRecord = .settlement paymentIdHash) .constraintSeeds
  require (record.venue = ctx.venue) (.program .venueMismatch)
  require (ctx.authority = venue.venueAuthority ∨ ctx.authority = config.admin)
    (.program .unauthorized)
  return s.put ctx.settlementRecord
    (.settlementRecord
      { record with
        status := if disputed then settlementStatusDisputed else settlementStatusCorrected
        correctionReference := correctionHash })

/-- `pause` and `unpause`, for the admin only. -/
def setPaused (paused : Bool) (ctx : SetPaused) (s : Ledger) : Except Error Ledger := do
  let config ← s.load globalConfig? ctx.config
  require (ctx.admin ∈ signers) .accountNotSigner
  require (ctx.config = .config) .constraintSeeds
  require (ctx.admin = config.admin) (.program .unauthorized)
  return s.put ctx.config (.globalConfig { config with paused := paused })

def pause (ctx : SetPaused) (s : Ledger) : Except Error Ledger := s.setPaused signers true ctx

def unpause (ctx : SetPaused) (s : Ledger) : Except Error Ledger := s.setPaused signers false ctx

end Instructions

end Ledger

end ServeProof.Onchain
