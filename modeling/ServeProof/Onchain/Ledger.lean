import Mathlib.Logic.Relation
import ServeProof.Table

/-!
# ServeProof.Onchain.Ledger

The accounts the settlement program and the token program keep on the chain.

Addresses are terms: a program derived address *is* its seeds, so derivation is
injective and no derived address is a `key`, the addresses that can sign a
transaction.  An account is what its data say, whatever its address; the bump
of a derived address is a function of its seeds and is left out.

* `Account.At x` -- what may be stored at the address `x`;
* `Ledger.Write` -- how an account is ever written;
* `Ledger.Writes` -- a chain of writes: nothing is closed, and an account keeps
  what `Account.fixed` shows of it.
-/

namespace ServeProof.Onchain

/-- `[u8; 32]`. -/
abbrev Bytes32 := Vector UInt8 32

/-- An address.  `key n` is one that can sign: a keypair's, or one another
program signs for. -/
inductive Pubkey where
  | key (n : Nat)
  | config
  | venue (venueIdHash : Bytes32)
  | vaultAuthority (venue : Pubkey)
  | settlement (paymentIdHash : Bytes32)
  | associatedToken (mint owner : Pubkey)
  deriving DecidableEq, Repr

/-! ## Accounts -/

structure GlobalConfig where
  admin : Pubkey
  usdcMint : Pubkey
  paused : Bool
  version : Nat
  deriving DecidableEq, Repr

structure Venue where
  venueIdHash : Bytes32
  venueAuthority : Pubkey
  vaultAuthority : Pubkey
  active : Bool
  createdAt : Int
  deriving DecidableEq, Repr

structure SettlementRecord where
  paymentIdHash : Bytes32
  allocationHash : Bytes32
  venue : Pubkey
  workerWallet : Pubkey
  amount : Nat
  status : Nat
  settledAt : Int
  correctionReference : Bytes32
  deriving DecidableEq, Repr

/-- The columns of a record that say what was paid. -/
def SettlementRecord.terms (r : SettlementRecord) :
    Bytes32 × Bytes32 × Pubkey × Pubkey × Nat × Int :=
  (r.paymentIdHash, r.allocationHash, r.venue, r.workerWallet, r.amount, r.settledAt)

structure TokenAccount where
  mint : Pubkey
  owner : Pubkey
  amount : Nat
  deriving DecidableEq, Repr

structure Mint where
  decimals : Nat
  deriving DecidableEq, Repr

/-- The data of an account, with the program that owns it. -/
inductive Account where
  | globalConfig (c : GlobalConfig)
  | venue (v : Venue)
  | settlementRecord (r : SettlementRecord)
  | token (t : TokenAccount)
  | mint (m : Mint)
  deriving DecidableEq, Repr

namespace Account

/-- What the programs store at an address.  The vault authority is an address
without data. -/
def At (x : Pubkey) (a : Account) : Prop :=
  match x with
  | .key _ => (∃ t, a = .token t) ∨ ∃ m, a = .mint m
  | .config => ∃ c, a = .globalConfig c
  | .venue h => ∃ v, a = .venue v ∧ v.venueIdHash = h
  | .vaultAuthority _ => False
  | .settlement h => ∃ r, a = .settlementRecord r ∧ r.paymentIdHash = h
  | .associatedToken m o => ∃ t, a = .token t ∧ t.mint = m ∧ t.owner = o

/-- What stays of an account: all of it but the pause switch, the status of a
record with its correction, and the amount of a token account. -/
def fixed : Account → Account
  | .globalConfig c => .globalConfig { c with paused := false }
  | .venue v => .venue v
  | .settlementRecord r =>
      .settlementRecord { r with status := 0, correctionReference := .replicate 32 0 }
  | .token t => .token { t with amount := 0 }
  | .mint m => .mint m

theorem At.of_fixed {x : Pubkey} {a b : Account} (ha : a.At x) (h : b.fixed = a.fixed) :
    b.At x := by
  cases x <;> cases a <;> cases b <;> simp [At, fixed] at ha h ⊢ <;> grind

end Account

/-! ## The ledger -/

/-- The accounts by address. -/
abbrev Ledger := Table (Prod.fst : Pubkey × Account → Pubkey)

namespace Ledger

def get (s : Ledger) (x : Pubkey) : Option Account := (s.find x).map Prod.snd

def put (s : Ledger) (x : Pubkey) (a : Account) : Ledger := s.set (x, a)

@[simp] theorem get_empty (x : Pubkey) : get ∅ x = none := rfl

theorem get_put (s : Ledger) (x : Pubkey) (a : Account) (y : Pubkey) :
    (s.put x a).get y = if x = y then some a else s.get y := by
  rw [get, put, s.find_set]
  split <;> simp [get]

@[simp] theorem get_put_self (s : Ledger) (x : Pubkey) (a : Account) :
    (s.put x a).get x = some a := by
  simp [get_put]

theorem get_put_of_ne (s : Ledger) {x y : Pubkey} (a : Account) (h : x ≠ y) :
    (s.put x a).get y = s.get y := by
  simp [get_put, h]

/-! ## Reading an account of a given type -/

def globalConfig? (s : Ledger) (x : Pubkey) : Option GlobalConfig :=
  match s.get x with
  | some (.globalConfig c) => some c
  | _ => none

def venue? (s : Ledger) (x : Pubkey) : Option Venue :=
  match s.get x with
  | some (.venue v) => some v
  | _ => none

def settlementRecord? (s : Ledger) (x : Pubkey) : Option SettlementRecord :=
  match s.get x with
  | some (.settlementRecord r) => some r
  | _ => none

def token? (s : Ledger) (x : Pubkey) : Option TokenAccount :=
  match s.get x with
  | some (.token t) => some t
  | _ => none

def mint? (s : Ledger) (x : Pubkey) : Option Mint :=
  match s.get x with
  | some (.mint m) => some m
  | _ => none

/-- The amount of a token account; 0 where there is none. -/
def balance (s : Ledger) (x : Pubkey) : Nat :=
  match s.get x with
  | some (.token t) => t.amount
  | _ => 0

/-- The record of a payment. -/
def record? (s : Ledger) (paymentIdHash : Bytes32) : Option SettlementRecord :=
  s.settlementRecord? (.settlement paymentIdHash)

variable {s t : Ledger} {x y : Pubkey}

@[simp] theorem globalConfig?_eq_some {c : GlobalConfig} :
    s.globalConfig? x = some c ↔ s.get x = some (.globalConfig c) := by
  rw [globalConfig?]
  split <;> simp_all

@[simp] theorem venue?_eq_some {v : Venue} :
    s.venue? x = some v ↔ s.get x = some (.venue v) := by
  rw [venue?]
  split <;> simp_all

@[simp] theorem settlementRecord?_eq_some {r : SettlementRecord} :
    s.settlementRecord? x = some r ↔ s.get x = some (.settlementRecord r) := by
  rw [settlementRecord?]
  split <;> simp_all

@[simp] theorem token?_eq_some {a : TokenAccount} :
    s.token? x = some a ↔ s.get x = some (.token a) := by
  rw [token?]
  split <;> simp_all

@[simp] theorem mint?_eq_some {m : Mint} :
    s.mint? x = some m ↔ s.get x = some (.mint m) := by
  rw [mint?]
  split <;> simp_all

theorem balance_of_get {a : TokenAccount} (h : s.get x = some (.token a)) :
    s.balance x = a.amount := by
  simp [balance, h]

theorem balance_congr (h : s.get x = t.get x) : s.balance x = t.balance x := by
  rw [balance, h, balance]

theorem balance_of_get_none (h : s.get x = none) : s.balance x = 0 := by
  simp [balance, h]

/-! ## Writing -/

/-- An account is created, a token account empty, or written with its fixed part
kept. -/
inductive Write (s : Ledger) : Ledger → Prop where
  | create {x : Pubkey} {a : Account} (hnew : s.get x = none) (hat : a.At x)
      (hempty : ∀ t, a = .token t → t.amount = 0) : Write s (s.put x a)
  | change {x : Pubkey} {a b : Account} (h : s.get x = some a) (hfixed : b.fixed = a.fixed) :
      Write s (s.put x b)

/-- A chain of writes. -/
abbrev Writes : Ledger → Ledger → Prop := Relation.ReflTransGen Write

/-- Every account is at an address of its kind. -/
def WellFormed (s : Ledger) : Prop := ∀ x a, s.get x = some a → a.At x

theorem wellFormed_empty : WellFormed ∅ := by simp [WellFormed]

/-- A write replaces an account only by one with the same fixed part. -/
theorem Write.get (h : s.Write t) {a : Account} (ha : s.get x = some a) :
    ∃ b, t.get x = some b ∧ b.fixed = a.fixed := by
  cases h with
  | @create y b hnew _ _ =>
      have hne : y ≠ x := fun e => by simp [← e, hnew] at ha
      exact ⟨a, by simp [get_put, hne, ha], rfl⟩
  | @change y b c hy hfixed =>
      by_cases hyx : y = x
      · have hab : a = b := by rw [← hyx, hy] at ha; exact (Option.some.inj ha).symm
        exact ⟨c, by simp [hyx], by rw [hfixed, hab]⟩
      · exact ⟨a, by simp [get_put, hyx, ha], rfl⟩

theorem Writes.get (h : s.Writes t) {a : Account} (ha : s.get x = some a) :
    ∃ b, t.get x = some b ∧ b.fixed = a.fixed := by
  induction h with
  | refl => exact ⟨a, ha, rfl⟩
  | tail _ hw ih =>
      obtain ⟨b, hb, hab⟩ := ih
      obtain ⟨c, hc, hbc⟩ := hw.get hb
      exact ⟨c, hc, hbc.trans hab⟩

/-- What a write puts down is at an address of its kind. -/
theorem Write.wellFormed (h : s.Write t) (hs : s.WellFormed) : t.WellFormed := by
  intro x a ha
  cases h with
  | @create y b hnew hat _ =>
      rw [get_put] at ha
      split at ha
      · next hyx =>
        rw [← Option.some.inj ha, ← hyx]
        exact hat
      · exact hs x a ha
  | @change y b c hy hfixed =>
      rw [get_put] at ha
      split at ha
      · next hyx =>
        have hb : b.At y := hs y b hy
        rw [← Option.some.inj ha, ← hyx]
        exact hb.of_fixed hfixed
      · exact hs x a ha

theorem Writes.wellFormed (h : s.Writes t) (hs : s.WellFormed) : t.WellFormed := by
  induction h with
  | refl => exact hs
  | tail _ hw ih => exact hw.wellFormed ih

/-! ## What a chain of writes keeps -/

/-- The registration of a venue stays. -/
theorem Writes.venue (h : s.Writes t) {v : Venue} (hv : s.get x = some (.venue v)) :
    t.get x = some (.venue v) := by
  obtain ⟨b, hb, hfix⟩ := h.get hv
  cases b <;> simp [Account.fixed] at hfix
  rw [hb, hfix]

/-- The admin and the mint of the configuration stay. -/
theorem Writes.globalConfig (h : s.Writes t) {c : GlobalConfig}
    (hc : s.get x = some (.globalConfig c)) :
    ∃ c', t.get x = some (.globalConfig c') ∧ c'.admin = c.admin ∧ c'.usdcMint = c.usdcMint := by
  obtain ⟨b, hb, hfix⟩ := h.get hc
  cases b with
  | globalConfig c' =>
      simp only [Account.fixed, Account.globalConfig.injEq, GlobalConfig.mk.injEq] at hfix
      exact ⟨c', hb, hfix.1, hfix.2.1⟩
  | _ => simp [Account.fixed] at hfix

/-- A record stays, with its terms. -/
theorem Writes.settlementRecord (h : s.Writes t) {r : SettlementRecord}
    (hr : s.get x = some (.settlementRecord r)) :
    ∃ r', t.get x = some (.settlementRecord r') ∧ r'.terms = r.terms := by
  obtain ⟨b, hb, hfix⟩ := h.get hr
  cases b with
  | settlementRecord r' =>
      simp only [Account.fixed, Account.settlementRecord.injEq, SettlementRecord.mk.injEq] at hfix
      exact ⟨r', hb, by simp [SettlementRecord.terms, hfix]⟩
  | _ => simp [Account.fixed] at hfix

end Ledger

end ServeProof.Onchain
