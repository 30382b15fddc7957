import ServeProof.Onchain.Program

/-!
# ServeProof.Onchain.Effects

What the instructions do to a well-formed ledger when they succeed.

`SettlePayout.Accepts` is the exact condition on the ledger under which
`settle_payout` succeeds, and `settlePayout_ok_iff` says what it leaves.  The
other instructions write one account, for which a chain of `Writes` says all.
-/

namespace ServeProof.Onchain

namespace Ledger

variable {s t : Ledger} {signers : List Pubkey} {now : Int}

/-! ## The token program -/

/-- The ledger with the associated token account of `owner`. -/
def opened (mint owner : Pubkey) (s : Ledger) : Ledger :=
  if s.get (.associatedToken mint owner) = none then
    s.put (.associatedToken mint owner) (.token ⟨mint, owner, 0⟩)
  else s

/-- Give a token account another amount. -/
def setAmount (x : Pubkey) (n : Nat) (s : Ledger) : Ledger :=
  match s.get x with
  | some (.token t) => s.put x (.token { t with amount := n })
  | _ => s

/-- The ledger after a transfer. -/
def moved (source destination : Pubkey) (amount : Nat) (s : Ledger) : Ledger :=
  if source = destination then s
  else
    (s.setAmount source (s.balance source - amount)).setAmount destination
      (s.balance destination + amount)

theorem get_opened (s : Ledger) (mint owner x : Pubkey) :
    (s.opened mint owner).get x =
      if x = .associatedToken mint owner ∧ s.get x = none then some (.token ⟨mint, owner, 0⟩)
      else s.get x := by
  rw [opened]
  by_cases hx : x = .associatedToken mint owner
  · subst hx
    by_cases hnone : s.get (.associatedToken mint owner) = none <;> simp [hnone]
  · have hne : Pubkey.associatedToken mint owner ≠ x := fun e => hx e.symm
    split <;> simp [get_put, hx, hne]

theorem setAmount_of_get {x : Pubkey} {a : TokenAccount} (h : s.get x = some (.token a)) (n : Nat) :
    s.setAmount x n = s.put x (.token { a with amount := n }) := by
  simp [setAmount, h]

theorem get_setAmount_of_ne (s : Ledger) {x y : Pubkey} (n : Nat) (h : x ≠ y) :
    (s.setAmount x n).get y = s.get y := by
  rw [setAmount]
  split <;> simp [get_put, h]

theorem setAmount_writes (s : Ledger) (x : Pubkey) (n : Nat) : s.Writes (s.setAmount x n) := by
  rw [setAmount]
  split
  · next a h => exact .single (.change h (by simp [Account.fixed]))
  · exact .refl

theorem opened_writes (s : Ledger) (mint owner : Pubkey) : s.Writes (s.opened mint owner) := by
  rw [opened]
  split
  · next h => exact .single (.create h (by simp [Account.At]) (by simp +contextual))
  · exact .refl

theorem moved_writes (s : Ledger) (source destination : Pubkey) (amount : Nat) :
    s.Writes (s.moved source destination amount) := by
  rw [moved]
  split
  · exact .refl
  · exact (setAmount_writes ..).trans (setAmount_writes ..)

theorem get_moved_of_ne (s : Ledger) {source destination x : Pubkey} (amount : Nat)
    (hs : source ≠ x) (hd : destination ≠ x) :
    (s.moved source destination amount).get x = s.get x := by
  rw [moved]
  split
  · rfl
  · rw [get_setAmount_of_ne _ _ hd, get_setAmount_of_ne _ _ hs]

/-- What an associated token address holds. -/
theorem WellFormed.associatedToken (hs : s.WellFormed) (mint owner : Pubkey) :
    s.get (.associatedToken mint owner) = none ∨
      ∃ n, s.get (.associatedToken mint owner) = some (.token ⟨mint, owner, n⟩) := by
  cases h : s.get (.associatedToken mint owner) with
  | none => exact .inl rfl
  | some a =>
      obtain ⟨⟨m, o, n⟩, rfl, hm, ho⟩ := hs _ a h
      subst hm ho
      exact .inr ⟨n, rfl⟩

theorem createAssociatedTokenAccount_ok {mint owner x : Pubkey} :
    s.createAssociatedTokenAccount mint owner x = .ok t ↔
      (∃ m, s.get mint = some (.mint m)) ∧ x = .associatedToken mint owner ∧ s.get x = none ∧
        t = s.opened mint owner := by
  simp only [createAssociatedTokenAccount, bind_eq_ok, load_eq_ok, mint?_eq_some, require_eq_ok,
    pure_eq_ok, opened]
  constructor
  · rintro ⟨m, hm, -, rfl, -, hnone, rfl⟩
    exact ⟨⟨m, hm⟩, rfl, hnone, by simp [hnone]⟩
  · rintro ⟨⟨m, hm⟩, rfl, hnone, rfl⟩
    exact ⟨m, hm, (), rfl, (), hnone, by simp [hnone]⟩

theorem initTokenIfNeeded_ok (hs : s.WellFormed) {mint owner x : Pubkey} {m : Mint}
    (hm : s.get mint = some (.mint m)) :
    s.initTokenIfNeeded mint owner x = .ok t ↔
      x = .associatedToken mint owner ∧ t = s.opened mint owner := by
  rw [initTokenIfNeeded]
  by_cases hx : s.get x = none
  · rw [if_pos hx, createAssociatedTokenAccount_ok]
    constructor
    · rintro ⟨-, hat, -, ht⟩
      exact ⟨hat, ht⟩
    · rintro ⟨hat, ht⟩
      exact ⟨⟨m, hm⟩, hat, hx, ht⟩
  · rw [if_neg hx]
    simp only [bind_eq_ok, load_eq_ok, token?_eq_some, require_eq_ok, pure_eq_ok, opened]
    constructor
    · rintro ⟨a, -, -, -, -, -, -, rfl, rfl⟩
      exact ⟨rfl, by simp [hx]⟩
    · rintro ⟨rfl, rfl⟩
      obtain hnone | ⟨n, hn⟩ := hs.associatedToken mint owner
      · exact absurd hnone hx
      · exact ⟨_, hn, (), rfl, (), rfl, (), rfl, by simp [hx]⟩

/-- A transfer between two accounts of the mint, signed for by the owner. -/
theorem transferChecked_ok {source mint destination authority : Pubkey} {amount : Nat} {m : Mint}
    {src dst : TokenAccount} (hm : s.get mint = some (.mint m))
    (hsrc : s.get source = some (.token src)) (hdst : s.get destination = some (.token dst))
    (hsrcMint : src.mint = mint) (hdstMint : dst.mint = mint) (howner : src.owner = authority)
    (hsigned : authority ∈ signers) :
    s.transferChecked source mint destination authority amount m.decimals signers = .ok t ↔
      amount ≤ s.balance source ∧ t = s.moved source destination amount := by
  have hbs : s.balance source = src.amount := balance_of_get hsrc
  have hbd : s.balance destination = dst.amount := balance_of_get hdst
  subst hsrcMint howner
  simp only [transferChecked, bind_eq_ok, load_eq_ok, token?_eq_some, mint?_eq_some, require_eq_ok,
    hsrc, hdst, hm, Option.some.injEq, Account.token.injEq, Account.mint.injEq, exists_eq_left',
    hdstMint, hsigned, moved, hbs, hbd, exists_const, true_and]
  by_cases hsd : source = destination
  · rw [if_pos hsd, if_pos hsd, pure_eq_ok, eq_comm (b := t)]
  · have hdst' :
        (s.setAmount source (src.amount - amount)).get destination = some (.token dst) := by
      rw [get_setAmount_of_ne _ _ hsd, hdst]
    rw [if_neg hsd, if_neg hsd, setAmount_of_get hdst', setAmount_of_get hsrc, pure_eq_ok,
      eq_comm (b := t), hdstMint]

end Ledger

/-! ## `settle_payout` -/

namespace SettlePayout

variable (ctx : SettlePayout) (signers : List Pubkey) (paymentIdHash allocationHash : Bytes32)
  (amount : Nat) (s : Ledger)

/-- When `settle_payout` succeeds. -/
structure Accepts : Prop where
  config : ctx.config = .config
  vaultAuthority : ctx.vaultAuthority = .vaultAuthority ctx.venue
  venueVault : ctx.venueVault = .associatedToken ctx.usdcMint ctx.vaultAuthority
  workerTokenAccount : ctx.workerTokenAccount = .associatedToken ctx.usdcMint ctx.workerWallet
  settlementRecord : ctx.settlementRecord = .settlement paymentIdHash
  signed : ctx.venueAuthority ∈ signers
  running : ∃ c, s.get .config = some (.globalConfig c) ∧ c.usdcMint = ctx.usdcMint ∧
    c.paused = false
  registered : ∃ v, s.get ctx.venue = some (.venue v) ∧ ctx.venue = .venue v.venueIdHash ∧
    v.venueAuthority = ctx.venueAuthority ∧ v.active = true
  mint : ∃ m, s.get ctx.usdcMint = some (.mint m)
  vault : s.get ctx.venueVault ≠ none
  covered : amount ≤ s.balance ctx.venueVault
  fresh : s.get (.settlement paymentIdHash) = none
  allocationHash_ne : allocationHash ≠ zeroHash
  amount_pos : 0 < amount

/-- The ledger after the transfer of `settle_payout`. -/
def paid : Ledger :=
  (s.opened ctx.usdcMint ctx.workerWallet).moved ctx.venueVault ctx.workerTokenAccount amount

/-- The record `settle_payout` creates. -/
def record (now : Int) : SettlementRecord where
  paymentIdHash := paymentIdHash
  allocationHash := allocationHash
  venue := ctx.venue
  workerWallet := ctx.workerWallet
  amount := amount
  status := settlementStatusSettled
  settledAt := now
  correctionReference := zeroHash

end SettlePayout

namespace Ledger

variable {s t : Ledger} {signers : List Pubkey} {now : Int} {paymentIdHash allocationHash : Bytes32}
  {amount : Nat}

/-- The worker's token account is there once it is opened. -/
theorem get_opened_self (hs : s.WellFormed) (mint owner : Pubkey) :
    ∃ n, (s.opened mint owner).get (.associatedToken mint owner) =
      some (.token ⟨mint, owner, n⟩) := by
  obtain hnone | ⟨n, hn⟩ := hs.associatedToken mint owner
  · exact ⟨0, by simp [get_opened, hnone]⟩
  · exact ⟨n, by simp [get_opened, hn]⟩

theorem get_opened_of_some {x : Pubkey} {a : Account} (h : s.get x = some a)
    (mint owner : Pubkey) : (s.opened mint owner).get x = some a := by
  simp [get_opened, h]

/-- The transfer of `settle_payout`, out of a vault of the mint. -/
theorem transfer_paid (hs : s.WellFormed) {ctx : SettlePayout} {m : Mint} {vault : TokenAccount}
    (hm : s.get ctx.usdcMint = some (.mint m))
    (hvault : s.get ctx.venueVault = some (.token vault))
    (hauth : ctx.vaultAuthority = .vaultAuthority ctx.venue)
    (hat : ctx.venueVault = .associatedToken ctx.usdcMint ctx.vaultAuthority)
    (hdst : ctx.workerTokenAccount = .associatedToken ctx.usdcMint ctx.workerWallet) :
    (s.opened ctx.usdcMint ctx.workerWallet).transferChecked ctx.venueVault ctx.usdcMint
        ctx.workerTokenAccount ctx.vaultAuthority amount m.decimals
        (.vaultAuthority ctx.venue :: signers) = .ok t ↔
      amount ≤ s.balance ctx.venueVault ∧ t = ctx.paid amount s := by
  have hsrc := get_opened_of_some hvault ctx.usdcMint ctx.workerWallet
  obtain ⟨n, hn⟩ := get_opened_self hs ctx.usdcMint ctx.workerWallet
  rw [← hdst] at hn
  obtain ⟨hmint, howner⟩ : vault.mint = ctx.usdcMint ∧ vault.owner = ctx.vaultAuthority := by
    have hplace := hs _ _ hvault
    rw [hat] at hplace
    obtain ⟨a, ha, hmint, howner⟩ := hplace
    cases ha
    exact ⟨hmint, howner⟩
  rw [transferChecked_ok (get_opened_of_some hm ..) hsrc hn hmint rfl howner (by simp [hauth]),
    balance_of_get hsrc, balance_of_get hvault, SettlePayout.paid]

theorem settlePayout_ok_iff (hs : s.WellFormed) {ctx : SettlePayout} :
    s.settlePayout signers now ctx paymentIdHash allocationHash amount = .ok t ↔
      ctx.Accepts signers paymentIdHash allocationHash amount s ∧
        t = (ctx.paid amount s).put (.settlement paymentIdHash)
          (.settlementRecord (ctx.record paymentIdHash allocationHash amount now)) := by
  simp only [settlePayout, bind_eq_ok, load_eq_ok, require_eq_ok, pure_eq_ok, exists_const,
    globalConfig?_eq_some, venue?_eq_some, token?_eq_some, mint?_eq_some]
  constructor
  · rintro ⟨config, hconfig, venue, hvenue, hsigned, vault, hvault, mint, hmint, u, hopen, hrecord,
      hfresh, hcfg, hven, hauth, hva, -, hat, husdc, hpaused, hactive, hcovered, hhash, hpos, v,
      hpay, rfl⟩
    obtain ⟨hdst, rfl⟩ := (initTokenIfNeeded_ok hs hmint).mp hopen
    obtain ⟨hle, rfl⟩ := (transfer_paid hs hmint hvault hva hat hdst).mp hpay
    refine ⟨?_, by rw [hrecord, SettlePayout.record]⟩
    exact
      { config := hcfg
        vaultAuthority := hva
        venueVault := hat
        workerTokenAccount := hdst
        settlementRecord := hrecord
        signed := hsigned
        running := ⟨config, hcfg ▸ hconfig, husdc.symm, hpaused⟩
        registered := ⟨venue, hvenue, hven, hauth.symm, hactive⟩
        mint := ⟨mint, hmint⟩
        vault := by simp [hvault]
        covered := hle
        fresh := by simpa [hrecord, get_opened] using hfresh
        allocationHash_ne := hhash
        amount_pos := hpos }
  · rintro ⟨h, rfl⟩
    obtain ⟨config, hconfig, husdc, hpaused⟩ := h.running
    obtain ⟨venue, hvenue, hven, hauth, hactive⟩ := h.registered
    obtain ⟨mint, hmint⟩ := h.mint
    obtain ⟨n, hvault⟩ : ∃ n, s.get ctx.venueVault =
        some (.token ⟨ctx.usdcMint, ctx.vaultAuthority, n⟩) := by
      have hsome := h.vault
      rw [h.venueVault] at hsome ⊢
      exact (hs.associatedToken _ _).resolve_left hsome
    have hcovered := h.covered
    rw [balance_of_get hvault] at hcovered
    refine ⟨config, h.config ▸ hconfig, venue, hvenue, h.signed, _, hvault, mint, hmint, _,
      (initTokenIfNeeded_ok hs hmint).mpr ⟨h.workerTokenAccount, rfl⟩, h.settlementRecord, ?_,
      h.config, hven, hauth.symm, h.vaultAuthority, rfl, h.venueVault, husdc.symm, hpaused, hactive,
      hcovered, h.allocationHash_ne, h.amount_pos, _,
      (transfer_paid hs hmint hvault h.vaultAuthority h.venueVault h.workerTokenAccount).mpr
        ⟨h.covered, rfl⟩, by rw [h.settlementRecord, SettlePayout.record]⟩
    rw [h.settlementRecord]
    simpa [get_opened] using h.fresh

/-- The transfer of a settlement leaves every other account than the two alone. -/
theorem get_paid_of_ne {ctx : SettlePayout}
    (h : ctx.Accepts signers paymentIdHash allocationHash amount s) {x : Pubkey}
    (hv : x ≠ ctx.venueVault) (hw : x ≠ ctx.workerTokenAccount) :
    (ctx.paid amount s).get x = s.get x := by
  have hne : x ≠ .associatedToken ctx.usdcMint ctx.workerWallet := h.workerTokenAccount ▸ hw
  rw [SettlePayout.paid, get_moved_of_ne _ _ hv.symm hw.symm, get_opened]
  simp [hne]

/-- There is no record before the settlement creates it. -/
theorem get_paid_settlement {ctx : SettlePayout}
    (h : ctx.Accepts signers paymentIdHash allocationHash amount s) :
    (ctx.paid amount s).get (.settlement paymentIdHash) = none := by
  rw [get_paid_of_ne h (by simp [h.venueVault]) (by simp [h.workerTokenAccount]), h.fresh]

end Ledger

end ServeProof.Onchain
