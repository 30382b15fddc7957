import ServeProof.Onchain.Effects

/-!
# ServeProof.Onchain.Runs

Runs of the chain: the instructions of the settlement program, sent by anyone
with any accounts, between moves of the token program.

The token program creates mints and token accounts for anyone, credits any
account (a mint, or a transfer from somewhere else) and debits an account that
its owner signs for.  A move that fails changes nothing.

* `Move.next` -- the ledger after one move;
* `Ledger.run` -- the ledger after a list of moves;
* `exec_writes` -- every move is a chain of writes, so a run from the empty
  ledger stays well formed and closes no account.
-/

namespace ServeProof.Onchain

open Ledger

inductive Instruction where
  | initializeConfig (ctx : InitializeConfig)
  | registerVenue (ctx : RegisterVenue) (venueIdHash : Bytes32) (venueAuthority : Pubkey)
  | initializeVenueVault (ctx : InitializeVenueVault)
  | settlePayout (ctx : SettlePayout) (paymentIdHash allocationHash : Bytes32) (amount : Nat)
  | markCorrected (ctx : MarkCorrected) (paymentIdHash correctionHash : Bytes32) (disputed : Bool)
  | pause (ctx : SetPaused)
  | unpause (ctx : SetPaused)
  deriving DecidableEq, Repr

def Instruction.exec (signers : List Pubkey) (now : Int) :
    Instruction → Ledger → Except Error Ledger
  | .initializeConfig ctx, s => s.initializeConfig signers ctx
  | .registerVenue ctx venueIdHash venueAuthority, s =>
      s.registerVenue signers now ctx venueIdHash venueAuthority
  | .initializeVenueVault ctx, s => s.initializeVenueVault signers ctx
  | .settlePayout ctx paymentIdHash allocationHash amount, s =>
      s.settlePayout signers now ctx paymentIdHash allocationHash amount
  | .markCorrected ctx paymentIdHash correctionHash disputed, s =>
      s.markCorrected signers ctx paymentIdHash correctionHash disputed
  | .pause ctx, s => s.pause signers ctx
  | .unpause ctx, s => s.unpause signers ctx

/-- A move of the chain.  `signers` are the keys that signed it. -/
inductive Move where
  | instruction (signers : List Nat) (now : Int) (ix : Instruction)
  | createMint (address decimals : Nat)
  | createTokenAccount (address : Nat) (mint owner : Pubkey)
  | createAssociatedTokenAccount (mint owner : Pubkey)
  | deposit (account : Pubkey) (amount : Nat)
  | withdraw (signers : List Nat) (account : Pubkey) (amount : Nat)
  deriving DecidableEq, Repr

namespace Move

def exec : Move → Ledger → Except Error Ledger
  | .instruction signers now ix, s => ix.exec (signers.map .key) now s
  | .createMint address decimals, s => do
      require (s.get (.key address) = none) .accountAlreadyInUse
      return s.put (.key address) (.mint ⟨decimals⟩)
  | .createTokenAccount address mint owner, s => do
      let _ ← s.load mint? mint
      require (s.get (.key address) = none) .accountAlreadyInUse
      return s.put (.key address) (.token ⟨mint, owner, 0⟩)
  | .createAssociatedTokenAccount mint owner, s =>
      s.createAssociatedTokenAccount mint owner (.associatedToken mint owner)
  | .deposit account amount, s => do
      let t ← s.load token? account
      return s.put account (.token { t with amount := t.amount + amount })
  | .withdraw signers account amount, s => do
      let t ← s.load token? account
      require (amount ≤ t.amount) .insufficientFunds
      require (t.owner ∈ signers.map Pubkey.key) .ownerMismatch
      return s.put account (.token { t with amount := t.amount - amount })

/-- The ledger after the move; a move that fails changes nothing. -/
def next (m : Move) (s : Ledger) : Ledger :=
  match m.exec s with
  | .ok t => t
  | .error _ => s

/-- The move succeeds. -/
def Succeeds (m : Move) (s : Ledger) : Prop := ∃ t, m.exec s = .ok t

instance (m : Move) (s : Ledger) : Decidable (m.Succeeds s) :=
  match h : m.exec s with
  | .ok t => .isTrue ⟨t, h⟩
  | .error _ => .isFalse fun ⟨t, ht⟩ => by rw [h] at ht; contradiction

end Move

/-- The ledger after a list of moves. -/
def Ledger.run (ms : List Move) (s : Ledger) : Ledger := ms.foldl (fun s m => m.next s) s

namespace Ledger

@[simp] theorem run_nil (s : Ledger) : run [] s = s := rfl

@[simp] theorem run_cons (m : Move) (ms : List Move) (s : Ledger) :
    run (m :: ms) s = run ms (m.next s) := rfl

theorem run_append (ms ms' : List Move) (s : Ledger) : run (ms ++ ms') s = run ms' (run ms s) := by
  simp [run, List.foldl_append]

/-- Every move of the run satisfies `P`, on the ledger it meets. -/
def Along (P : Ledger → Move → Prop) : List Move → Ledger → Prop
  | [], _ => True
  | m :: ms, s => P s m ∧ Along P ms (m.next s)

instance Along.decidable (P : Ledger → Move → Prop) [∀ s m, Decidable (P s m)] :
    (ms : List Move) → (s : Ledger) → Decidable (Along P ms s)
  | [], _ => .isTrue trivial
  | m :: ms, s =>
      haveI := Along.decidable P ms (m.next s)
      inferInstanceAs (Decidable (_ ∧ _))

theorem along_append {P : Ledger → Move → Prop} {ms ms' : List Move} {s : Ledger} :
    Along P (ms ++ ms') s ↔ Along P ms s ∧ Along P ms' (run ms s) := by
  induction ms generalizing s with
  | nil => simp [Along]
  | cons m ms ih => simp [Along, ih, and_assoc]

/-- What holds along a run holds of each of its moves. -/
theorem Along.at {P : Ledger → Move → Prop} {ms ms₁ ms₂ : List Move} {m : Move} {s : Ledger}
    (h : Along P ms s) (hms : ms = ms₁ ++ m :: ms₂) : P (run ms₁ s) m := by
  rw [hms, along_append] at h
  exact h.2.1

theorem along_of_forall {P : Ledger → Move → Prop} {ms : List Move} {s : Ledger}
    (h : ∀ ms₁ m ms₂, ms = ms₁ ++ m :: ms₂ → P (run ms₁ s) m) : Along P ms s := by
  induction ms generalizing s with
  | nil => trivial
  | cons m ms ih =>
      refine ⟨h [] m ms rfl, ih fun ms₁ m' ms₂ hms => ?_⟩
      exact h (m :: ms₁) m' ms₂ (by rw [hms, List.cons_append])

end Ledger

theorem Move.next_of_ok {m : Move} {s t : Ledger} (h : m.exec s = .ok t) : m.next s = t := by
  simp [Move.next, h]

/-- A move that changes something succeeds. -/
theorem Move.next_cases (m : Move) (s : Ledger) : m.exec s = .ok (m.next s) ∨ m.next s = s := by
  rw [Move.next]
  cases h : m.exec s with
  | ok t => exact .inl rfl
  | error e => exact .inr rfl

/-! ## Every move is a chain of writes -/

section Writes

variable {s t : Ledger} {signers : List Pubkey} {now : Int}

theorem initializeConfig_ok_iff {ctx : InitializeConfig} :
    s.initializeConfig signers ctx = .ok t ↔
      ctx.config = .config ∧ ctx.admin ∈ signers ∧ (∃ m, s.get ctx.usdcMint = some (.mint m)) ∧
        s.get .config = none ∧
        t = s.put .config (.globalConfig
          { admin := ctx.admin, usdcMint := ctx.usdcMint, paused := false, version := 1 }) := by
  simp only [initializeConfig, bind_eq_ok, load_eq_ok, require_eq_ok, pure_eq_ok, exists_const,
    mint?_eq_some]
  constructor
  · rintro ⟨m, hm, hsigned, hat, hnone, rfl⟩
    rw [hat] at hnone ⊢
    exact ⟨rfl, hsigned, ⟨m, hm⟩, hnone, rfl⟩
  · rintro ⟨hat, hsigned, ⟨m, hm⟩, hnone, rfl⟩
    rw [hat]
    exact ⟨m, hm, hsigned, rfl, hnone, rfl⟩

/-- What `register_venue` stores. -/
def RegisterVenue.registration (ctx : RegisterVenue) (venueIdHash : Bytes32)
    (venueAuthority : Pubkey) (now : Int) : Venue where
  venueIdHash := venueIdHash
  venueAuthority := venueAuthority
  vaultAuthority := .vaultAuthority ctx.venue
  active := true
  createdAt := now

theorem registerVenue_ok_iff {ctx : RegisterVenue} {venueIdHash : Bytes32}
    {venueAuthority : Pubkey} :
    s.registerVenue signers now ctx venueIdHash venueAuthority = .ok t ↔
      ctx.config = .config ∧ ctx.venue = .venue venueIdHash ∧ ctx.admin ∈ signers ∧
        (∃ c, s.get .config = some (.globalConfig c) ∧ ctx.admin = c.admin) ∧
        s.get ctx.venue = none ∧
        t = s.put ctx.venue (.venue (ctx.registration venueIdHash venueAuthority now)) := by
  simp only [registerVenue, bind_eq_ok, load_eq_ok, require_eq_ok, pure_eq_ok, exists_const,
    globalConfig?_eq_some, RegisterVenue.registration]
  constructor
  · rintro ⟨c, hc, hsigned, hat, hnone, hcfg, hadmin, rfl⟩
    exact ⟨hcfg, hat, hsigned, ⟨c, hcfg ▸ hc, hadmin⟩, hnone, rfl⟩
  · rintro ⟨hcfg, hat, hsigned, ⟨c, hc, hadmin⟩, hnone, rfl⟩
    exact ⟨c, hcfg ▸ hc, hsigned, hat, hnone, hcfg, hadmin, rfl⟩

theorem initializeVenueVault_ok_iff {ctx : InitializeVenueVault} :
    s.initializeVenueVault signers ctx = .ok t ↔
      ctx.config = .config ∧ ctx.vaultAuthority = .vaultAuthority ctx.venue ∧
        ctx.venueVault = .associatedToken ctx.usdcMint ctx.vaultAuthority ∧ ctx.payer ∈ signers ∧
        (∃ c, s.get .config = some (.globalConfig c) ∧ ctx.usdcMint = c.usdcMint) ∧
        (∃ v, s.get ctx.venue = some (.venue v) ∧ ctx.venue = .venue v.venueIdHash) ∧
        (∃ m, s.get ctx.usdcMint = some (.mint m)) ∧ s.get ctx.venueVault = none ∧
        t = s.opened ctx.usdcMint ctx.vaultAuthority := by
  simp only [initializeVenueVault, bind_eq_ok, load_eq_ok, require_eq_ok, pure_eq_ok, exists_const,
    globalConfig?_eq_some, venue?_eq_some, createAssociatedTokenAccount_ok]
  constructor
  · rintro ⟨c, hc, v, hv, hsigned, u, ⟨hm, hat, hnone, rfl⟩, hcfg, hven, hauth, husdc, rfl⟩
    exact ⟨hcfg, hauth, hat, hsigned, ⟨c, hcfg ▸ hc, husdc⟩, ⟨v, hv, hven⟩, hm, hnone, rfl⟩
  · rintro ⟨hcfg, hauth, hat, hsigned, ⟨c, hc, husdc⟩, ⟨v, hv, hven⟩, hm, hnone, rfl⟩
    exact ⟨c, hcfg ▸ hc, v, hv, hsigned, _, ⟨hm, hat, hnone, rfl⟩, hcfg, hven, hauth, husdc, rfl⟩

/-- A record as `mark_corrected` leaves it. -/
def SettlementRecord.marked (correctionHash : Bytes32) (disputed : Bool) (r : SettlementRecord) :
    SettlementRecord :=
  { r with
    status := if disputed then settlementStatusDisputed else settlementStatusCorrected
    correctionReference := correctionHash }

theorem markCorrected_ok_iff {ctx : MarkCorrected} {paymentIdHash correctionHash : Bytes32}
    {disputed : Bool} :
    s.markCorrected signers ctx paymentIdHash correctionHash disputed = .ok t ↔
      ctx.config = .config ∧ ctx.settlementRecord = .settlement paymentIdHash ∧
        ctx.authority ∈ signers ∧
        ∃ c v r, s.get .config = some (.globalConfig c) ∧
          (s.get ctx.venue = some (.venue v) ∧ ctx.venue = .venue v.venueIdHash) ∧
          (ctx.authority = v.venueAuthority ∨ ctx.authority = c.admin) ∧
          s.get (.settlement paymentIdHash) = some (.settlementRecord r) ∧ r.venue = ctx.venue ∧
          t = s.put (.settlement paymentIdHash)
            (.settlementRecord (r.marked correctionHash disputed)) := by
  simp only [markCorrected, bind_eq_ok, load_eq_ok, require_eq_ok, pure_eq_ok, exists_const,
    globalConfig?_eq_some, venue?_eq_some, settlementRecord?_eq_some, SettlementRecord.marked]
  constructor
  · rintro ⟨c, hc, v, hv, r, hr, hsigned, hcfg, hven, hat, hrv, hauth, rfl⟩
    rw [hat] at hr ⊢
    exact ⟨hcfg, rfl, hsigned, c, v, r, hcfg ▸ hc, ⟨hv, hven⟩, hauth, hr, hrv, rfl⟩
  · rintro ⟨hcfg, hat, hsigned, c, v, r, hc, ⟨hv, hven⟩, hauth, hr, hrv, rfl⟩
    rw [hat]
    exact ⟨c, hcfg ▸ hc, v, hv, r, hr, hsigned, hcfg, hven, rfl, hrv, hauth, rfl⟩

theorem setPaused_ok_iff {ctx : SetPaused} {paused : Bool} :
    s.setPaused signers paused ctx = .ok t ↔
      ctx.config = .config ∧ ctx.admin ∈ signers ∧
        ∃ c, s.get .config = some (.globalConfig c) ∧ ctx.admin = c.admin ∧
          t = s.put .config (.globalConfig { c with paused := paused }) := by
  simp only [setPaused, bind_eq_ok, load_eq_ok, require_eq_ok, pure_eq_ok, exists_const,
    globalConfig?_eq_some]
  constructor
  · rintro ⟨c, hc, hsigned, hcfg, hadmin, rfl⟩
    rw [hcfg] at hc ⊢
    exact ⟨rfl, hsigned, c, hc, hadmin, rfl⟩
  · rintro ⟨hcfg, hsigned, c, hc, hadmin, rfl⟩
    rw [hcfg]
    exact ⟨c, hc, hsigned, rfl, hadmin, rfl⟩

/-- A settlement transfers, then creates its record. -/
theorem settlePayout_writes (now : Int) {ctx : SettlePayout}
    {paymentIdHash allocationHash : Bytes32} {amount : Nat}
    (h : ctx.Accepts signers paymentIdHash allocationHash amount s) :
    s.Writes (ctx.paid amount s) ∧
      (ctx.paid amount s).Write ((ctx.paid amount s).put (.settlement paymentIdHash)
        (.settlementRecord (ctx.record paymentIdHash allocationHash amount now))) := by
  constructor
  · exact (opened_writes ..).trans (moved_writes ..)
  · exact .create (get_paid_settlement h) (by simp [Account.At, SettlePayout.record]) (by simp)

theorem Instruction.exec_writes {ix : Instruction} (hs : s.WellFormed)
    (h : ix.exec signers now s = .ok t) : s.Writes t := by
  cases ix with
  | initializeConfig ctx =>
      obtain ⟨-, -, -, hnone, rfl⟩ := initializeConfig_ok_iff.mp h
      exact .single (.create hnone (by simp [Account.At]) (by simp))
  | registerVenue ctx venueIdHash venueAuthority =>
      obtain ⟨-, hat, -, -, hnone, rfl⟩ := registerVenue_ok_iff.mp h
      refine .single (.create hnone ?_ (by simp))
      simp [hat, Account.At, RegisterVenue.registration]
  | initializeVenueVault ctx =>
      obtain ⟨-, -, -, -, -, -, -, -, rfl⟩ := initializeVenueVault_ok_iff.mp h
      exact opened_writes ..
  | settlePayout ctx paymentIdHash allocationHash amount =>
      obtain ⟨hacc, rfl⟩ := (settlePayout_ok_iff hs).mp h
      have hw := settlePayout_writes now hacc
      exact hw.1.tail hw.2
  | markCorrected ctx paymentIdHash correctionHash disputed =>
      obtain ⟨-, -, -, c, v, r, -, -, -, hr, -, rfl⟩ := markCorrected_ok_iff.mp h
      exact .single (.change hr (by simp [Account.fixed, SettlementRecord.marked]))
  | pause ctx =>
      obtain ⟨-, -, c, hc, -, rfl⟩ := setPaused_ok_iff.mp h
      exact .single (.change hc (by simp [Account.fixed]))
  | unpause ctx =>
      obtain ⟨-, -, c, hc, -, rfl⟩ := setPaused_ok_iff.mp h
      exact .single (.change hc (by simp [Account.fixed]))

theorem Move.exec_writes {m : Move} (hs : s.WellFormed) (h : m.exec s = .ok t) : s.Writes t := by
  cases m with
  | instruction signers now ix => exact Instruction.exec_writes hs h
  | createMint address decimals =>
      simp only [Move.exec, bind_eq_ok, require_eq_ok, pure_eq_ok, exists_const] at h
      obtain ⟨hnone, rfl⟩ := h
      exact .single (.create hnone (by simp [Account.At]) (by simp))
  | createTokenAccount address mint owner =>
      simp only [Move.exec, bind_eq_ok, require_eq_ok, pure_eq_ok, exists_const, load_eq_ok] at h
      obtain ⟨-, -, hnone, rfl⟩ := h
      exact .single (.create hnone (by simp [Account.At]) (by simp +contextual))
  | createAssociatedTokenAccount mint owner =>
      obtain ⟨-, -, -, rfl⟩ := createAssociatedTokenAccount_ok.mp h
      exact opened_writes ..
  | deposit account amount =>
      simp only [Move.exec, bind_eq_ok, pure_eq_ok, load_eq_ok, token?_eq_some] at h
      obtain ⟨a, ha, rfl⟩ := h
      exact .single (.change ha (by simp [Account.fixed]))
  | withdraw signers account amount =>
      simp only [Move.exec, bind_eq_ok, require_eq_ok, pure_eq_ok, exists_const, load_eq_ok,
        token?_eq_some] at h
      obtain ⟨a, ha, -, -, rfl⟩ := h
      exact .single (.change ha (by simp [Account.fixed]))

end Writes

/-! ## Runs -/

theorem Move.next_writes {s : Ledger} (m : Move) (hs : s.WellFormed) : s.Writes (m.next s) := by
  obtain h | h := m.next_cases s
  · exact Move.exec_writes hs h
  · rw [h]

namespace Ledger

theorem run_writes (ms : List Move) {s : Ledger} (hs : s.WellFormed) : s.Writes (run ms s) := by
  induction ms generalizing s with
  | nil => exact .refl
  | cons m ms ih =>
      have hm : s.Writes (m.next s) := m.next_writes hs
      exact hm.trans (ih (hm.wellFormed hs))

/-- Every run from the empty ledger keeps each account at an address of its kind. -/
theorem run_wellFormed (ms : List Move) : (run ms ∅).WellFormed :=
  (run_writes ms wellFormed_empty).wellFormed wellFormed_empty

theorem run_append_writes (ms ms' : List Move) : (run ms ∅).Writes (run (ms ++ ms') ∅) := by
  rw [run_append]
  exact run_writes ms' (run_wellFormed ms)

end Ledger

end ServeProof.Onchain
