import ServeProof.Onchain.Vault

/-!
# ServeProof.Onchain.Backing

Whether the records of a venue are backed by tokens that left its vault.

A settlement whose worker wallet is the vault authority of the venue itself
pays the vault out of the vault: no token moves, and a record says that
`amount` was paid.  `backed_iff` says that this is the only way to get such a
record: without it, vault and records together are what was deposited.
-/

namespace ServeProof.Onchain

open Ledger

/-! ## What the records of a venue add up to -/

/-- What the account, if it is a record of the venue, says was paid. -/
def Account.settled (venue : Pubkey) : Account → Nat
  | .settlementRecord r => if r.venue = venue then r.amount else 0
  | _ => 0

namespace Ledger

/-- The sum of the amounts of the venue's settlement records. -/
def recorded (venue : Pubkey) (s : Ledger) : Nat := s.sum fun row => row.2.settled venue

variable {s t : Ledger} {x venue : Pubkey}

theorem recorded_put_new {a : Account} (h : s.get x = none) (venue : Pubkey) :
    (s.put x a).recorded venue = s.recorded venue + a.settled venue := by
  have hnone : s.find x = none := by simpa [get] using h
  exact s.sum_set_of_not_mem (r := (x, a)) hnone _

theorem recorded_put {a b : Account} (h : s.get x = some a)
    (hab : b.settled venue = a.settled venue) :
    (s.put x b).recorded venue = s.recorded venue := by
  obtain ⟨row, hrow, hra⟩ := Option.map_eq_some_iff.mp h
  have hsum := s.sum_set_of_find (r := (x, b)) hrow fun row => row.2.settled venue
  simp only [hra, hab, Nat.add_right_cancel_iff] at hsum
  exact hsum

theorem recorded_setAmount (s : Ledger) (x : Pubkey) (n : Nat) (venue : Pubkey) :
    (s.setAmount x n).recorded venue = s.recorded venue := by
  rw [setAmount]
  split
  · next h => exact recorded_put h rfl
  · rfl

theorem recorded_opened (s : Ledger) (mint owner venue : Pubkey) :
    (s.opened mint owner).recorded venue = s.recorded venue := by
  rw [opened]
  split
  · next h => simp [recorded_put_new h, Account.settled]
  · rfl

theorem recorded_moved (s : Ledger) (source destination : Pubkey) (amount : Nat) (venue : Pubkey) :
    (s.moved source destination amount).recorded venue = s.recorded venue := by
  rw [moved]
  split
  · rfl
  · rw [recorded_setAmount, recorded_setAmount]

/-! ## The transfer of a settlement -/

/-- A transfer between two token accounts. -/
theorem balance_moved {source destination : Pubkey} {src dst : TokenAccount} (amount : Nat)
    (hsrc : s.get source = some (.token src)) (hdst : s.get destination = some (.token dst))
    (hne : source ≠ destination) (x : Pubkey) :
    (s.moved source destination amount).balance x =
      if x = destination then s.balance x + amount
      else if x = source then s.balance x - amount
      else s.balance x := by
  rw [moved, if_neg hne]
  have hdst' : (s.setAmount source (s.balance source - amount)).get destination =
      some (.token dst) := by
    rw [get_setAmount_of_ne _ _ hne, hdst]
  by_cases hxd : x = destination
  · subst hxd
    rw [balance_setAmount_self hdst', if_pos rfl]
  · rw [balance_setAmount_of_ne _ (Ne.symm hxd), if_neg hxd]
    by_cases hxs : x = source
    · subst hxs
      rw [balance_setAmount_self hsrc, if_pos rfl]
    · rw [balance_setAmount_of_ne _ (Ne.symm hxs), if_neg hxs]

end Ledger

section Settlement

variable {s : Ledger} {signers : List Pubkey} {ctx : SettlePayout}
  {paymentIdHash allocationHash : Bytes32} {amount : Nat}

/-- The destination is the vault exactly when the worker wallet is its authority. -/
theorem SettlePayout.Accepts.vault_eq_worker_iff
    (h : ctx.Accepts signers paymentIdHash allocationHash amount s) :
    ctx.venueVault = ctx.workerTokenAccount ↔ ctx.workerWallet = ctx.vaultAuthority := by
  rw [h.venueVault, h.workerTokenAccount]
  simp [eq_comm]

theorem balance_paid (hs : s.WellFormed)
    (h : ctx.Accepts signers paymentIdHash allocationHash amount s) (x : Pubkey) :
    (ctx.paid amount s).balance x =
      if ctx.workerWallet = ctx.vaultAuthority then s.balance x
      else if x = ctx.workerTokenAccount then s.balance x + amount
      else if x = ctx.venueVault then s.balance x - amount
      else s.balance x := by
  rw [SettlePayout.paid]
  by_cases hself : ctx.workerWallet = ctx.vaultAuthority
  · rw [if_pos hself, moved, if_pos (h.vault_eq_worker_iff.mpr hself), balance_opened]
  · have hne : ctx.venueVault ≠ ctx.workerTokenAccount := fun e =>
      hself (h.vault_eq_worker_iff.mp e)
    obtain ⟨n, hn⟩ : ∃ n, s.get ctx.venueVault =
        some (.token ⟨ctx.usdcMint, ctx.vaultAuthority, n⟩) := by
      have hsome := h.vault
      rw [h.venueVault] at hsome ⊢
      exact (hs.associatedToken _ _).resolve_left hsome
    obtain ⟨k, hk⟩ := get_opened_self hs ctx.usdcMint ctx.workerWallet
    rw [← h.workerTokenAccount] at hk
    rw [if_neg hself, balance_moved amount (get_opened_of_some hn ..) hk hne, balance_opened]

theorem recorded_paid (s : Ledger) (ctx : SettlePayout) (amount : Nat) (venue : Pubkey) :
    (ctx.paid amount s).recorded venue = s.recorded venue := by
  rw [SettlePayout.paid, recorded_moved, recorded_opened]

/-- The ledger after a settlement: balances. -/
theorem balance_settled (now : Int) (h : ctx.Accepts signers paymentIdHash allocationHash amount s)
    (x : Pubkey) :
    ((ctx.paid amount s).put (.settlement paymentIdHash)
        (.settlementRecord (ctx.record paymentIdHash allocationHash amount now))).balance x =
      (ctx.paid amount s).balance x := by
  by_cases hx : Pubkey.settlement paymentIdHash = x
  · subst hx
    have hfresh := get_paid_settlement h
    rw [balance_of_get_none hfresh]
    simp [balance]
  · exact balance_put_of_ne _ hx

/-- The ledger after a settlement: records. -/
theorem recorded_settled (now : Int) (h : ctx.Accepts signers paymentIdHash allocationHash amount s)
    (venue : Pubkey) :
    ((ctx.paid amount s).put (.settlement paymentIdHash)
        (.settlementRecord (ctx.record paymentIdHash allocationHash amount now))).recorded venue =
      s.recorded venue + if ctx.venue = venue then amount else 0 := by
  rw [recorded_put_new (get_paid_settlement h), recorded_paid, Account.settled,
    SettlePayout.record]

/-- A settlement moves its amount from the vault to the account of the worker
wallet. -/
def SettlePayout.Moves (ctx : SettlePayout) (amount : Nat) (s t : Ledger) : Prop :=
  s.balance ctx.venueVault = t.balance ctx.venueVault + amount ∧
    t.balance (.associatedToken ctx.usdcMint ctx.workerWallet) =
      s.balance (.associatedToken ctx.usdcMint ctx.workerWallet) + amount

/-- It does so exactly when the worker wallet is not the vault authority. -/
theorem settlePayout_moves_iff {t : Ledger} {now : Int} (hs : s.WellFormed)
    (h : s.settlePayout signers now ctx paymentIdHash allocationHash amount = .ok t) :
    ctx.Moves amount s t ↔ ctx.workerWallet ≠ ctx.vaultAuthority := by
  obtain ⟨hacc, rfl⟩ := (settlePayout_ok_iff hs).mp h
  have hpos := hacc.amount_pos
  have hcovered := hacc.covered
  rw [SettlePayout.Moves, ← hacc.workerTokenAccount, balance_settled now hacc,
    balance_settled now hacc, balance_paid hs hacc, balance_paid hs hacc]
  by_cases hself : ctx.workerWallet = ctx.vaultAuthority
  · simp only [hself, if_true, ne_eq, not_true_eq_false, iff_false]
    omega
  · have hne : ctx.venueVault ≠ ctx.workerTokenAccount := fun e =>
      hself (hacc.vault_eq_worker_iff.mp e)
    simp only [hself, hne, if_false, if_true, ne_eq, not_false_eq_true, iff_true, and_true]
    omega

end Settlement

/-! ## Deposits -/

namespace Move

/-- What the move brings into the account from elsewhere. -/
def credit (x : Pubkey) (m : Move) (s : Ledger) : Nat :=
  match m, m.exec s with
  | .deposit account amount, .ok _ => if account = x then amount else 0
  | .instruction _ _ (.settlePayout ctx _ _ amount), .ok _ =>
      if ctx.workerTokenAccount = x ∧ ctx.venueVault ≠ x then amount else 0
  | _, _ => 0

/-- What the move records as paid by the venue to its own vault authority. -/
def selfPayment (venue : Pubkey) (m : Move) (s : Ledger) : Nat :=
  match m, m.exec s with
  | .instruction _ _ (.settlePayout ctx _ _ amount), .ok _ =>
      if ctx.venue = venue ∧ ctx.workerWallet = ctx.vaultAuthority then amount else 0
  | _, _ => 0

/-- The move settles a payout to the vault authority of the venue itself. -/
def PaysItself (m : Move) (s : Ledger) : Prop :=
  ∃ signers now ctx paymentIdHash allocationHash amount,
    m = .instruction signers now (.settlePayout ctx paymentIdHash allocationHash amount) ∧
      ctx.workerWallet = ctx.vaultAuthority ∧ m.Succeeds s

end Move

/-! ## One move -/

section Step

variable {s t : Ledger} {mint venue : Pubkey}

/-- A settlement, for the balance of a vault and the records of its venue. -/
theorem settled_step (mint venue : Pubkey) (hs : s.WellFormed) {signers : List Nat} {now : Int}
    {ctx : SettlePayout} {paymentIdHash allocationHash : Bytes32} {amount : Nat}
    (h : s.settlePayout (signers.map .key) now ctx paymentIdHash allocationHash amount = .ok t)
    (hmint : ctx.usdcMint = mint) :
    t.balance (vault mint venue) + t.recorded venue =
      s.balance (vault mint venue) + s.recorded venue +
        (if ctx.workerTokenAccount = vault mint venue ∧ ctx.venueVault ≠ vault mint venue
          then amount else 0) +
        if ctx.venue = venue ∧ ctx.workerWallet = ctx.vaultAuthority then amount else 0 := by
  obtain ⟨hacc, rfl⟩ := (settlePayout_ok_iff hs).mp h
  have hcovered := hacc.covered
  have hvault : vault mint venue = ctx.venueVault ↔ ctx.venue = venue := by
    rw [vault, hacc.venueVault, hacc.vaultAuthority, hmint]
    simp [eq_comm]
  rw [balance_settled now hacc, recorded_settled now hacc, balance_paid hs hacc]
  by_cases hself : ctx.workerWallet = ctx.vaultAuthority
  · have hdst : ctx.venueVault = ctx.workerTokenAccount := hacc.vault_eq_worker_iff.mpr hself
    have hcredit : ¬ (ctx.workerTokenAccount = vault mint venue ∧
        ctx.venueVault ≠ vault mint venue) := fun hc => hc.2 (hdst.trans hc.1)
    rw [if_pos hself, if_neg hcredit]
    simp only [hself, and_true]
    omega
  · have hdst : ctx.venueVault ≠ ctx.workerTokenAccount := fun e =>
      hself (hacc.vault_eq_worker_iff.mp e)
    simp only [hself, and_false, if_false]
    by_cases hvenue : ctx.venue = venue
    · have hat : vault mint venue = ctx.venueVault := hvault.mpr hvenue
      rw [hat]
      simp only [hdst, hvenue, if_false, if_true, ne_eq, not_true_eq_false, and_false]
      omega
    · have hat : vault mint venue ≠ ctx.venueVault := fun e => hvenue (hvault.mp e)
      simp only [hat, hat.symm, hvenue, if_false, ne_eq, not_false_eq_true, and_true]
      by_cases hw : vault mint venue = ctx.workerTokenAccount
      · simp only [hw, if_true]
        omega
      · simp only [hw, Ne.symm hw, if_false]
        omega

/-- Vault and records together change by what the move brings in, and by what it
records without paying. -/
theorem Move.backing_step (m : Move) (mint venue : Pubkey) (hs : s.WellFormed)
    (hmint : ∀ c, s.get .config = some (.globalConfig c) → c.usdcMint = mint) :
    (m.next s).balance (vault mint venue) + (m.next s).recorded venue =
      s.balance (vault mint venue) + s.recorded venue + m.credit (vault mint venue) s +
        m.selfPayment venue s := by
  cases h : m.exec s with
  | error e => cases m <;> simp [Move.next, Move.credit, Move.selfPayment, h]
  | ok t =>
      rw [Move.next_of_ok h]
      -- a move that brings nothing in and settles nothing
      have hother (hb : t.balance (vault mint venue) = s.balance (vault mint venue))
          (hr : t.recorded venue = s.recorded venue) (hc : m.credit (vault mint venue) s = 0)
          (hp : m.selfPayment venue s = 0) :
          t.balance (vault mint venue) + t.recorded venue =
            s.balance (vault mint venue) + s.recorded venue + m.credit (vault mint venue) s +
              m.selfPayment venue s := by
        omega
      cases m with
      | instruction signers now ix =>
          cases ix with
          | initializeConfig ctx =>
              obtain ⟨-, -, -, hnone, rfl⟩ := initializeConfig_ok_iff.mp h
              exact hother (balance_put_of_ne s (by simp [vault])) (recorded_put_new hnone venue)
                rfl rfl
          | registerVenue ctx venueIdHash venueAuthority =>
              obtain ⟨-, hat, -, -, hnone, rfl⟩ := registerVenue_ok_iff.mp h
              exact hother (balance_put_of_ne s (by simp [hat, vault]))
                (recorded_put_new hnone venue) rfl rfl
          | initializeVenueVault ctx =>
              obtain ⟨-, -, -, -, -, -, -, -, rfl⟩ := initializeVenueVault_ok_iff.mp h
              exact hother (balance_opened ..) (recorded_opened ..) rfl rfl
          | settlePayout ctx paymentIdHash allocationHash amount =>
              obtain ⟨hacc, -⟩ := (settlePayout_ok_iff hs).mp h
              obtain ⟨c, hc, husdc, -⟩ := hacc.running
              have hstep := settled_step mint venue hs h (husdc.symm.trans (hmint c hc))
              simp only [hstep, Move.credit, Move.selfPayment, h]
          | markCorrected ctx paymentIdHash correctionHash disputed =>
              obtain ⟨-, -, -, c, v, r, -, -, -, hr, -, rfl⟩ := markCorrected_ok_iff.mp h
              exact hother (balance_put_of_ne s (by simp [vault])) (recorded_put hr rfl) rfl rfl
          | pause ctx =>
              obtain ⟨-, -, c, hc, -, rfl⟩ := setPaused_ok_iff.mp h
              exact hother (balance_put_of_ne s (by simp [vault])) (recorded_put hc rfl) rfl rfl
          | unpause ctx =>
              obtain ⟨-, -, c, hc, -, rfl⟩ := setPaused_ok_iff.mp h
              exact hother (balance_put_of_ne s (by simp [vault])) (recorded_put hc rfl) rfl rfl
      | createMint address decimals =>
          simp only [Move.exec, bind_eq_ok, require_eq_ok, pure_eq_ok, exists_const] at h
          obtain ⟨hnone, rfl⟩ := h
          exact hother (balance_put_of_ne s (by simp [vault])) (recorded_put_new hnone venue)
            rfl rfl
      | createTokenAccount address mint' owner =>
          simp only [Move.exec, bind_eq_ok, require_eq_ok, pure_eq_ok, exists_const,
            load_eq_ok] at h
          obtain ⟨-, -, hnone, rfl⟩ := h
          exact hother (balance_put_of_ne s (by simp [vault])) (recorded_put_new hnone venue)
            rfl rfl
      | createAssociatedTokenAccount mint' owner =>
          obtain ⟨-, -, -, rfl⟩ := createAssociatedTokenAccount_ok.mp h
          exact hother (balance_opened ..) (recorded_opened ..) rfl rfl
      | deposit account amount =>
          have hcredit : (Move.deposit account amount).credit (vault mint venue) s =
              if account = vault mint venue then amount else 0 := by
            simp only [Move.credit, h]
          simp only [Move.exec, bind_eq_ok, pure_eq_ok, load_eq_ok, token?_eq_some] at h
          obtain ⟨a, ha, rfl⟩ := h
          have hrecorded : (s.put account (.token { a with amount := a.amount + amount })).recorded
              venue = s.recorded venue := recorded_put ha rfl
          have hself : (Move.deposit account amount).selfPayment venue s = 0 := rfl
          rw [hrecorded, hcredit, hself]
          by_cases hat : account = vault mint venue
          · have hnew : (s.put account (.token { a with amount := a.amount + amount })).balance
                account = a.amount + amount := balance_of_get (get_put_self ..)
            have hold : s.balance account = a.amount := balance_of_get ha
            rw [← hat, hnew, hold, if_pos rfl]
            omega
          · rw [balance_put_of_ne s hat, if_neg hat]
            omega
      | withdraw signers account amount =>
          simp only [Move.exec, bind_eq_ok, require_eq_ok, pure_eq_ok, exists_const, load_eq_ok,
            token?_eq_some] at h
          obtain ⟨a, ha, -, howner, rfl⟩ := h
          have hat : account ≠ vault mint venue := by
            rintro rfl
            obtain ⟨b, hb, -, hauth⟩ := hs _ _ ha
            cases hb
            simp [hauth] at howner
          exact hother (balance_put_of_ne s hat) (recorded_put ha rfl) rfl rfl

end Step

/-! ## Runs -/

/-- Add `f` up over the moves of a run. -/
def Ledger.total (f : Move → Ledger → Nat) : List Move → Ledger → Nat
  | [], _ => 0
  | m :: ms, s => f m s + total f ms (m.next s)

/-- Everything ever deposited into the account. -/
def Ledger.deposited (x : Pubkey) (ms : List Move) (s : Ledger) : Nat := total (Move.credit x) ms s

theorem total_eq_zero_iff {f : Move → Ledger → Nat} {ms : List Move} {s : Ledger} :
    total f ms s = 0 ↔ Along (fun s m => f m s = 0) ms s := by
  induction ms generalizing s with
  | nil => simp [total, Along]
  | cons m ms ih => rw [total, Nat.add_eq_zero_iff, ih, Along]

/-- What a venue records as paid to its own vault authority, over a run. -/
def Ledger.selfPaid (venue : Pubkey) (ms : List Move) (s : Ledger) : Nat :=
  total (Move.selfPayment venue) ms s

/-- Over a run, vault and records together grow by the deposits, and by what was
recorded without being paid. -/
theorem backing_run (mint venue : Pubkey) (ms : List Move) {s : Ledger} (hs : s.WellFormed)
    (hmint : ∀ c, (run ms s).get .config = some (.globalConfig c) → c.usdcMint = mint) :
    (run ms s).balance (vault mint venue) + (run ms s).recorded venue =
      s.balance (vault mint venue) + s.recorded venue + deposited (vault mint venue) ms s +
        selfPaid venue ms s := by
  induction ms generalizing s with
  | nil => simp [deposited, selfPaid, total]
  | cons m ms ih =>
      have hw : s.Writes (m.next s) := m.next_writes hs
      have hs' : (m.next s).WellFormed := hw.wellFormed hs
      have hstep := m.backing_step mint venue hs (by
        intro c hc
        obtain ⟨c', hc', -, husdc⟩ := (run_writes (m :: ms) hs).globalConfig hc
        exact husdc.symm.trans (hmint c' hc'))
      have hrun := ih hs' hmint
      simp only [deposited, selfPaid, total, run_cons] at hrun ⊢
      omega

/-- A settlement to the vault authority records what it does not pay. -/
theorem Move.selfPayment_pos_iff {m : Move} {s : Ledger} (hs : s.WellFormed) :
    m.PaysItself s ↔ ∃ venue, m.selfPayment venue s ≠ 0 := by
  constructor
  · rintro ⟨signers, now, ctx, paymentIdHash, allocationHash, amount, rfl, hself, t, ht⟩
    obtain ⟨hacc, -⟩ := (settlePayout_ok_iff hs).mp ht
    refine ⟨ctx.venue, ?_⟩
    have hpos := hacc.amount_pos
    simp only [Move.selfPayment, ht, hself, and_self, if_true]
    omega
  · rintro ⟨venue, h⟩
    cases hm : m.exec s with
    | error e => cases m <;> simp [Move.selfPayment, hm] at h
    | ok t =>
        cases m with
        | instruction signers now ix =>
            cases ix with
            | settlePayout ctx paymentIdHash allocationHash amount =>
                simp only [Move.selfPayment, hm] at h
                have hc : ctx.venue = venue ∧ ctx.workerWallet = ctx.vaultAuthority := by
                  by_contra hno
                  simp [hno] at h
                exact ⟨signers, now, ctx, paymentIdHash, allocationHash, amount, rfl, hc.2, t, hm⟩
            | _ => simp [Move.selfPayment] at h
        | _ => simp [Move.selfPayment] at h

/-- No settlement of the run is paid to the vault authority of its own venue. -/
def NoSelfPayment (ms : List Move) : Prop := Along (fun s m => ¬ m.PaysItself s) ms ∅

theorem noSelfPayment_iff {ms : List Move} :
    NoSelfPayment ms ↔ ∀ venue, selfPaid venue ms ∅ = 0 := by
  simp only [selfPaid, total_eq_zero_iff]
  constructor
  · intro h venue
    refine along_of_forall fun ms₁ m ms₂ hms => ?_
    by_contra hne
    exact h.at hms ((Move.selfPayment_pos_iff (run_wellFormed ms₁)).mpr ⟨venue, hne⟩)
  · intro h
    refine along_of_forall fun ms₁ m ms₂ hms hpays => ?_
    obtain ⟨venue, hne⟩ := (Move.selfPayment_pos_iff (run_wellFormed ms₁)).mp hpays
    exact hne ((h venue).at hms)

/-- A settlement moves its amount out of the vault, to the account of the worker
wallet, exactly when that wallet is not the vault authority; and in exactly the
runs without a settlement to it, every vault and the records of its venue add up
to what was deposited. -/
theorem backed_iff (ms : List Move) :
    (∀ signers now ctx paymentIdHash allocationHash amount t,
      (run ms ∅).settlePayout signers now ctx paymentIdHash allocationHash amount = .ok t →
        (ctx.Moves amount (run ms ∅) t ↔ ctx.workerWallet ≠ ctx.vaultAuthority)) ∧
    ((∀ config venue, (run ms ∅).globalConfig? .config = some config →
        (run ms ∅).balance (vault config.usdcMint venue) + (run ms ∅).recorded venue =
          deposited (vault config.usdcMint venue) ms ∅) ↔
      NoSelfPayment ms) := by
  refine ⟨fun signers now ctx h a amount t ht => settlePayout_moves_iff (run_wellFormed ms) ht, ?_⟩
  rw [noSelfPayment_iff]
  have hsum {config : GlobalConfig} (hc : (run ms ∅).globalConfig? .config = some config)
      (venue : Pubkey) : (run ms ∅).balance (vault config.usdcMint venue) +
        (run ms ∅).recorded venue =
          deposited (vault config.usdcMint venue) ms ∅ + selfPaid venue ms ∅ := by
    have hrun := backing_run config.usdcMint venue ms wellFormed_empty (by
      intro c hc'
      rw [globalConfig?_eq_some.mp hc] at hc'
      cases hc'
      rfl)
    have hempty : (∅ : Ledger).balance (vault config.usdcMint venue) = 0 := rfl
    have hnone : (∅ : Ledger).recorded venue = 0 := rfl
    omega
  constructor
  · intro h
    rw [← noSelfPayment_iff]
    refine along_of_forall fun ms₁ m ms₂ heq hpays => ?_
    -- the settlement that paid itself saw the configuration, which is still there
    obtain ⟨signers, now, ctx, hash, a, amount, rfl, hself, t, ht⟩ := hpays
    obtain ⟨hacc, -⟩ := (settlePayout_ok_iff (run_wellFormed ms₁)).mp ht
    obtain ⟨c, hc, -⟩ := hacc.running
    obtain ⟨config, hconfig, -⟩ := (run_append_writes ms₁ _).globalConfig hc
    rw [← heq] at hconfig
    have hzero : selfPaid ctx.venue ms ∅ = 0 := by
      have hsum := hsum (globalConfig?_eq_some.mpr hconfig) ctx.venue
      have hback := h config ctx.venue (globalConfig?_eq_some.mpr hconfig)
      omega
    have hpos : selfPaid ctx.venue ms ∅ ≠ 0 := fun hz => by
      have hm := (total_eq_zero_iff.mp hz).at heq
      have hamount := hacc.amount_pos
      simp only [Move.selfPayment, ht, hself, and_self, if_true] at hm
      omega
    exact hpos hzero
  · intro h config venue hc
    have hrun := hsum hc venue
    rw [h venue] at hrun
    omega

/-- The venue 1 settles 400 to its own vault authority. -/
def Example.selfSettlement : List Move :=
  Example.twoVenues ++ [Example.settle 1 5 (.vaultAuthority (Example.venue 1)) 400]

open Example in
/-- The record of the 400 is there, and the vault still holds the 1,000 that were
deposited. -/
theorem unbacked_record :
    ((run selfSettlement ∅).record? (bytes 5)).map (fun r => (r.venue, r.workerWallet, r.amount)) =
        some (venue 1, .vaultAuthority (venue 1), 400) ∧
      (run twoVenues ∅).balance (vault mint (venue 1)) = 1000 ∧
      (run selfSettlement ∅).balance (vault mint (venue 1)) = 1000 ∧
      (run selfSettlement ∅).balance (vault mint (venue 1)) +
          (run selfSettlement ∅).recorded (venue 1) ≠
        deposited (vault mint (venue 1)) selfSettlement ∅ := by
  decide +kernel

end ServeProof.Onchain
