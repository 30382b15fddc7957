import ServeProof.Onchain.Runs

/-!
# ServeProof.Onchain.Vault

The safety of the vaults, over every run of the chain.

* `debit_cases` -- the two moves that take tokens out of an account;
* `vault_safe` -- only the venue's authority takes tokens out of its vault, and
  only while the program is not paused; a payment is settled once; its record
  stays.
-/

namespace ServeProof.Onchain

/-- The vault of a venue: the associated token account of its vault authority. -/
def vault (mint venue : Pubkey) : Pubkey := .associatedToken mint (.vaultAuthority venue)

namespace Ledger

variable {s t : Ledger} {x y : Pubkey}

/-! ## Balances -/

theorem balance_setAmount_of_ne (s : Ledger) {n : Nat} (h : x ≠ y) :
    (s.setAmount x n).balance y = s.balance y :=
  balance_congr (get_setAmount_of_ne s n h)

theorem balance_setAmount_self {a : TokenAccount} (h : s.get x = some (.token a)) (n : Nat) :
    (s.setAmount x n).balance x = n := by
  rw [setAmount_of_get h, balance_of_get (get_put_self ..)]

theorem le_balance_setAmount (s : Ledger) {n : Nat} (h : s.balance x ≤ n) (y : Pubkey) :
    s.balance y ≤ (s.setAmount x n).balance y := by
  by_cases hxy : x = y
  · subst hxy
    rw [setAmount]
    split
    · rw [balance_of_get (get_put_self ..)]
      exact h
    · exact le_refl _
  · rw [balance_setAmount_of_ne s hxy]

/-- A transfer takes nothing out of another account than its source. -/
theorem le_balance_moved (s : Ledger) {source : Pubkey} (destination : Pubkey) (amount : Nat)
    (h : source ≠ x) : s.balance x ≤ (s.moved source destination amount).balance x := by
  rw [moved]
  split
  · exact le_refl _
  · next hsd =>
    have hx : (s.setAmount source (s.balance source - amount)).balance x = s.balance x :=
      balance_setAmount_of_ne s h
    have hd : (s.setAmount source (s.balance source - amount)).balance destination =
        s.balance destination := balance_setAmount_of_ne s hsd
    rw [← hx]
    exact le_balance_setAmount _ (by omega) x

theorem balance_put_of_ne (s : Ledger) {a : Account} (h : x ≠ y) :
    (s.put x a).balance y = s.balance y :=
  balance_congr (get_put_of_ne s a h)

/-- A write to an account without tokens takes none out. -/
theorem le_balance_put (s : Ledger) {a : Account} (h : s.balance x = 0) (y : Pubkey) :
    s.balance y ≤ (s.put x a).balance y := by
  by_cases hxy : x = y
  · subst hxy
    omega
  · rw [balance_put_of_ne s hxy]

theorem balance_opened (s : Ledger) (mint owner x : Pubkey) :
    (s.opened mint owner).balance x = s.balance x := by
  by_cases h : x = .associatedToken mint owner ∧ s.get x = none
  · have hget := get_opened s mint owner x
    rw [if_pos h] at hget
    rw [balance_of_get hget, balance_of_get_none h.2]
  · have hget := get_opened s mint owner x
    rw [if_neg h] at hget
    exact balance_congr hget

end Ledger

open Ledger

/-! ## Who takes tokens out of an account -/

section Debit

variable {s t : Ledger} {x : Pubkey} {signers : List Pubkey} {now : Int}

theorem le_balance_paid (s : Ledger) (ctx : SettlePayout) (amount : Nat) (h : ctx.venueVault ≠ x) :
    s.balance x ≤ (ctx.paid amount s).balance x := by
  have hopen := balance_opened s ctx.usdcMint ctx.workerWallet x
  have hmove := le_balance_moved (s.opened ctx.usdcMint ctx.workerWallet)
    ctx.workerTokenAccount amount h
  rw [SettlePayout.paid]
  omega

/-- An instruction that takes tokens out of an account settles a payout from it. -/
theorem Instruction.debit {ix : Instruction} (hs : s.WellFormed)
    (h : ix.exec signers now s = .ok t) (hx : t.balance x < s.balance x) :
    ∃ ctx paymentIdHash allocationHash amount,
      ix = .settlePayout ctx paymentIdHash allocationHash amount ∧ ctx.venueVault = x ∧
        ctx.Accepts signers paymentIdHash allocationHash amount s := by
  cases ix with
  | initializeConfig ctx =>
      obtain ⟨-, -, -, hnone, rfl⟩ := initializeConfig_ok_iff.mp h
      exact absurd hx (not_lt.mpr (le_balance_put s (balance_of_get_none hnone) x))
  | registerVenue ctx venueIdHash venueAuthority =>
      obtain ⟨-, -, -, -, hnone, rfl⟩ := registerVenue_ok_iff.mp h
      exact absurd hx (not_lt.mpr (le_balance_put s (balance_of_get_none hnone) x))
  | initializeVenueVault ctx =>
      obtain ⟨-, -, -, -, -, -, -, -, rfl⟩ := initializeVenueVault_ok_iff.mp h
      rw [balance_opened] at hx
      omega
  | settlePayout ctx paymentIdHash allocationHash amount =>
      obtain ⟨hacc, rfl⟩ := (settlePayout_ok_iff hs).mp h
      refine ⟨ctx, paymentIdHash, allocationHash, amount, rfl, ?_, hacc⟩
      by_contra hne
      have hle := le_balance_paid s ctx amount hne
      have hfresh := get_paid_settlement hacc
      have hput := le_balance_put (ctx.paid amount s) (balance_of_get_none hfresh) x
        (a := .settlementRecord (ctx.record paymentIdHash allocationHash amount now))
      omega
  | markCorrected ctx paymentIdHash correctionHash disputed =>
      obtain ⟨-, -, -, c, v, r, -, -, -, hr, -, rfl⟩ := markCorrected_ok_iff.mp h
      have hzero : s.balance (.settlement paymentIdHash) = 0 := by simp [balance, hr]
      exact absurd hx (not_lt.mpr (le_balance_put s hzero x))
  | pause ctx =>
      obtain ⟨-, -, c, hc, -, rfl⟩ := setPaused_ok_iff.mp h
      have hzero : s.balance .config = 0 := by simp [balance, hc]
      exact absurd hx (not_lt.mpr (le_balance_put s hzero x))
  | unpause ctx =>
      obtain ⟨-, -, c, hc, -, rfl⟩ := setPaused_ok_iff.mp h
      have hzero : s.balance .config = 0 := by simp [balance, hc]
      exact absurd hx (not_lt.mpr (le_balance_put s hzero x))

/-- A move that takes tokens out of an account settles a payout from it, or is a
withdrawal its owner signed. -/
theorem Move.debit_cases {m : Move} (hs : s.WellFormed) (h : m.exec s = .ok t)
    (hx : t.balance x < s.balance x) :
    (∃ signers now ctx paymentIdHash allocationHash amount,
      m = .instruction signers now (.settlePayout ctx paymentIdHash allocationHash amount) ∧
        ctx.venueVault = x ∧
        ctx.Accepts (signers.map .key) paymentIdHash allocationHash amount s) ∨
    ∃ a signers amount, m = .withdraw signers x amount ∧ s.get x = some (.token a) ∧
      a.owner ∈ signers.map Pubkey.key := by
  cases m with
  | instruction signers now ix =>
      obtain ⟨ctx, paymentIdHash, allocationHash, amount, rfl, hat, hacc⟩ :=
        Instruction.debit hs h hx
      exact .inl ⟨signers, now, ctx, paymentIdHash, allocationHash, amount, rfl, hat, hacc⟩
  | createMint address decimals =>
      simp only [Move.exec, bind_eq_ok, require_eq_ok, pure_eq_ok, exists_const] at h
      obtain ⟨hnone, rfl⟩ := h
      exact absurd hx (not_lt.mpr (le_balance_put s (balance_of_get_none hnone) x))
  | createTokenAccount address mint owner =>
      simp only [Move.exec, bind_eq_ok, require_eq_ok, pure_eq_ok, exists_const, load_eq_ok] at h
      obtain ⟨-, -, hnone, rfl⟩ := h
      exact absurd hx (not_lt.mpr (le_balance_put s (balance_of_get_none hnone) x))
  | createAssociatedTokenAccount mint owner =>
      obtain ⟨-, -, -, rfl⟩ := createAssociatedTokenAccount_ok.mp h
      rw [balance_opened] at hx
      omega
  | deposit account amount =>
      simp only [Move.exec, bind_eq_ok, pure_eq_ok, load_eq_ok, token?_eq_some] at h
      obtain ⟨a, ha, rfl⟩ := h
      have hle := le_balance_setAmount s (n := a.amount + amount)
        (by rw [balance_of_get ha]; omega) x
      rw [setAmount_of_get ha] at hle
      omega
  | withdraw signers account amount =>
      simp only [Move.exec, bind_eq_ok, require_eq_ok, pure_eq_ok, exists_const, load_eq_ok,
        token?_eq_some] at h
      obtain ⟨a, ha, -, howner, rfl⟩ := h
      have hat : account = x := by
        by_contra hne
        rw [balance_put_of_ne s hne] at hx
        omega
      subst hat
      exact .inr ⟨a, signers, amount, rfl, ha, howner⟩

end Debit

/-! ## Payments and their records -/

/-- The move settles the payment. -/
def Move.Settles (paymentIdHash : Bytes32) (m : Move) (s : Ledger) : Prop :=
  (∃ signers now ctx allocationHash amount,
    m = .instruction signers now (.settlePayout ctx paymentIdHash allocationHash amount)) ∧
  m.Succeeds s

theorem settlePayout_creates {s t : Ledger} (hs : s.WellFormed) {signers : List Pubkey} {now : Int}
    {ctx : SettlePayout} {paymentIdHash allocationHash : Bytes32} {amount : Nat}
    (h : s.settlePayout signers now ctx paymentIdHash allocationHash amount = .ok t) :
    s.record? paymentIdHash = none ∧
      t.record? paymentIdHash = some (ctx.record paymentIdHash allocationHash amount now) := by
  obtain ⟨hacc, rfl⟩ := (settlePayout_ok_iff hs).mp h
  constructor
  · simp [record?, settlementRecord?, hacc.fresh]
  · simp [record?]

/-- A record stays to the end of the run, with its terms. -/
theorem record_kept (ms ms' : List Move) {paymentIdHash : Bytes32} {r : SettlementRecord}
    (h : (run ms ∅).record? paymentIdHash = some r) :
    ∃ r', (run (ms ++ ms') ∅).record? paymentIdHash = some r' ∧ r'.terms = r.terms := by
  obtain ⟨r', hr', hterms⟩ :=
    (run_append_writes ms ms').settlementRecord (settlementRecord?_eq_some.mp h)
  exact ⟨r', settlementRecord?_eq_some.mpr hr', hterms⟩

/-- A payment with a record is not settled again. -/
theorem not_settles_of_record {s : Ledger} (hs : s.WellFormed) {paymentIdHash : Bytes32}
    {r : SettlementRecord} (hr : s.record? paymentIdHash = some r) (m : Move) :
    ¬ m.Settles paymentIdHash s := by
  rintro ⟨⟨signers, now, ctx, allocationHash, amount, rfl⟩, t, ht⟩
  have hnone := (settlePayout_creates hs ht).1
  rw [hr] at hnone
  contradiction

theorem Ledger.get_opened_settlement (s : Ledger) (mint owner : Pubkey) (h : Bytes32) :
    (s.opened mint owner).get (.settlement h) = s.get (.settlement h) := by
  simp [get_opened]

/-- Only a settlement creates a record. -/
theorem Move.settles_of_record {m : Move} {s : Ledger} (hs : s.WellFormed) {paymentIdHash : Bytes32}
    (hnone : s.record? paymentIdHash = none) (hsome : (m.next s).record? paymentIdHash ≠ none) :
    m.Settles paymentIdHash s := by
  obtain hok | hsame := m.next_cases s
  · generalize m.next s = t at hok hsome
    -- a write elsewhere
    have hput {x : Pubkey} {a : Account} (hx : x ≠ .settlement paymentIdHash)
        (ht : t = s.put x a) : False := by
      refine hsome ?_
      rw [ht, record?, settlementRecord?, get_put_of_ne s a hx]
      exact hnone
    have hopened {mint owner : Pubkey} (ht : t = s.opened mint owner) : False := by
      refine hsome ?_
      rw [ht, record?, settlementRecord?, get_opened_settlement]
      exact hnone
    cases m with
    | createMint address decimals =>
        simp only [Move.exec, bind_eq_ok, require_eq_ok, pure_eq_ok, exists_const] at hok
        exact (hput (by simp) hok.2.symm).elim
    | createTokenAccount address mint owner =>
        simp only [Move.exec, bind_eq_ok, require_eq_ok, pure_eq_ok, exists_const, load_eq_ok]
          at hok
        obtain ⟨-, -, -, ht⟩ := hok
        exact (hput (by simp) ht.symm).elim
    | createAssociatedTokenAccount mint owner =>
        obtain ⟨-, -, -, ht⟩ := createAssociatedTokenAccount_ok.mp hok
        exact (hopened ht).elim
    | deposit account amount =>
        simp only [Move.exec, bind_eq_ok, pure_eq_ok, load_eq_ok, token?_eq_some] at hok
        obtain ⟨a, ha, ht⟩ := hok
        refine (hput ?_ ht.symm).elim
        rintro rfl
        obtain ⟨r, hr, -⟩ := hs _ _ ha
        cases hr
    | withdraw signers account amount =>
        simp only [Move.exec, bind_eq_ok, require_eq_ok, pure_eq_ok, exists_const, load_eq_ok,
          token?_eq_some] at hok
        obtain ⟨a, ha, -, -, ht⟩ := hok
        refine (hput ?_ ht.symm).elim
        rintro rfl
        obtain ⟨r, hr, -⟩ := hs _ _ ha
        cases hr
    | instruction signers now ix =>
        cases ix with
        | initializeConfig ctx =>
            obtain ⟨-, -, -, -, ht⟩ := initializeConfig_ok_iff.mp hok
            exact (hput (by simp) ht).elim
        | registerVenue ctx venueIdHash venueAuthority =>
            obtain ⟨-, hat, -, -, -, ht⟩ := registerVenue_ok_iff.mp hok
            exact (hput (by simp [hat]) ht).elim
        | initializeVenueVault ctx =>
            obtain ⟨-, -, -, -, -, -, -, -, ht⟩ := initializeVenueVault_ok_iff.mp hok
            exact (hopened ht).elim
        | settlePayout ctx hash allocationHash amount =>
            by_cases hhash : hash = paymentIdHash
            · subst hhash
              exact ⟨⟨signers, now, ctx, allocationHash, amount, rfl⟩, t, hok⟩
            · obtain ⟨hacc, rfl⟩ := (settlePayout_ok_iff hs).mp hok
              refine (hsome ?_).elim
              rw [record?, settlementRecord?, get_put_of_ne _ _ (by simpa using hhash),
                get_paid_of_ne hacc (by simp [hacc.venueVault]) (by simp [hacc.workerTokenAccount])]
              exact hnone
        | markCorrected ctx hash correctionHash disputed =>
            obtain ⟨-, -, -, c, v, r, -, -, -, hr, -, ht⟩ := markCorrected_ok_iff.mp hok
            refine (hput ?_ ht).elim
            rintro heq
            rw [heq] at hr
            rw [record?, settlementRecord?_eq_some.mpr hr] at hnone
            cases hnone
        | pause ctx =>
            obtain ⟨-, -, c, -, -, ht⟩ := setPaused_ok_iff.mp hok
            exact (hput (by simp) ht).elim
        | unpause ctx =>
            obtain ⟨-, -, c, -, -, ht⟩ := setPaused_ok_iff.mp hok
            exact (hput (by simp) ht).elim
  · rw [hsame] at hsome
    exact absurd hnone hsome

/-! ## Vault safety -/

/-- In every run: a vault loses tokens only by a settlement its venue's registered
authority signed while the program was not paused; a payment that was settled is
not settled again; a settlement leaves a record, and the record stays with its
terms. -/
theorem vault_safe (ms : List Move) :
    (∀ m mint venue, (run (ms ++ [m]) ∅).balance (vault mint venue) <
        (run ms ∅).balance (vault mint venue) →
      ∃ signers now ctx paymentIdHash allocationHash amount config v n,
        m = .instruction signers now (.settlePayout ctx paymentIdHash allocationHash amount) ∧
          (run ms ∅).globalConfig? .config = some config ∧ config.usdcMint = mint ∧
          config.paused = false ∧ ctx.venue = venue ∧ (run ms ∅).venue? venue = some v ∧
          v.venueAuthority = .key n ∧ n ∈ signers) ∧
    (∀ (m : Move) ms' (m' : Move) paymentIdHash, m.Settles paymentIdHash (run ms ∅) →
      ¬ m'.Settles paymentIdHash (run (ms ++ m :: ms') ∅)) ∧
    (∀ signers now ctx paymentIdHash allocationHash amount ms',
      (Move.instruction signers now
          (.settlePayout ctx paymentIdHash allocationHash amount)).Succeeds (run ms ∅) →
        ∃ r, (run (ms ++ .instruction signers now
              (.settlePayout ctx paymentIdHash allocationHash amount) :: ms') ∅).record?
            paymentIdHash = some r ∧
          r.terms = (paymentIdHash, allocationHash, ctx.venue, ctx.workerWallet, amount, now)) ∧
    ∀ ms' paymentIdHash r, (run ms ∅).record? paymentIdHash = some r →
      ∃ r', (run (ms ++ ms') ∅).record? paymentIdHash = some r' ∧ r'.terms = r.terms := by
  have hs := run_wellFormed ms
  have hnext (m : Move) : run (ms ++ [m]) ∅ = m.next (run ms ∅) := by rw [run_append]; rfl
  have hcreated {signers : List Nat} {now : Int} {ctx : SettlePayout} {h a : Bytes32}
      {amount : Nat} {t : Ledger}
      (hok : (Move.instruction signers now (.settlePayout ctx h a amount)).exec (run ms ∅) =
        .ok t) :
      (run (ms ++ [.instruction signers now (.settlePayout ctx h a amount)]) ∅).record? h =
        some (ctx.record h a amount now) := by
    rw [hnext, Move.next_of_ok hok]
    exact (settlePayout_creates hs hok).2
  refine ⟨?_, ?_, ?_, fun ms' h r hr => record_kept ms ms' hr⟩
  · intro m mint venue hlt
    rw [hnext] at hlt
    obtain hok | hsame := m.next_cases (run ms ∅)
    · obtain ⟨signers, now, ctx, h, a, amount, rfl, hat, hacc⟩ |
        ⟨a, signers, amount, -, ha, hsigned⟩ := Move.debit_cases hs hok hlt
      · obtain ⟨config, hconfig, husdc, hpaused⟩ := hacc.running
        obtain ⟨v, hv, -, hauth, -⟩ := hacc.registered
        obtain ⟨n, hn, hkey⟩ := List.mem_map.mp hacc.signed
        rw [hacc.venueVault, hacc.vaultAuthority, vault, Pubkey.associatedToken.injEq,
          Pubkey.vaultAuthority.injEq] at hat
        refine ⟨signers, now, ctx, h, a, amount, config, v, n, rfl,
          globalConfig?_eq_some.mpr hconfig, husdc.trans hat.1, hpaused, hat.2, ?_,
          hauth.trans hkey.symm, hn⟩
        rw [← hat.2]
        exact venue?_eq_some.mpr hv
      · -- the vault authority has no key, so nobody signs a withdrawal for it
        obtain ⟨b, hb, -, howner⟩ := hs _ _ ha
        cases hb
        rw [howner] at hsigned
        simp at hsigned
    · rw [hsame] at hlt
      omega
  · rintro m ms' m' h ⟨⟨signers, now, ctx, a, amount, rfl⟩, t, ht⟩
    obtain ⟨r, hr, -⟩ := record_kept _ ms' (hcreated ht)
    rw [List.append_assoc, List.singleton_append] at hr
    exact not_settles_of_record (run_wellFormed _) hr m'
  · rintro signers now ctx h a amount ms' ⟨t, ht⟩
    obtain ⟨r, hr, hterms⟩ := record_kept _ ms' (hcreated ht)
    rw [List.append_assoc, List.singleton_append] at hr
    exact ⟨r, hr, by rw [hterms, SettlePayout.record, SettlementRecord.terms]⟩

namespace Example

def bytes (n : UInt8) : Bytes32 := .replicate 32 n

def mint : Pubkey := .key 100

/-- The venue the key `n` is the authority of. -/
def venue (n : UInt8) : Pubkey := .venue (bytes n)

/-- Register a venue and fund its vault with 1,000. -/
def register (n : UInt8) : List Move :=
  [.instruction [0] 0 (.registerVenue ⟨.config, venue n, .key 0⟩ (bytes n) (.key n.toNat)),
    .instruction [0] 0 (.initializeVenueVault
      ⟨.config, venue n, .vaultAuthority (venue n), mint, vault mint (venue n), .key 0⟩),
    .deposit (vault mint (venue n)) 1000]

/-- The venues 1 and 2, ready to settle. -/
def twoVenues : List Move :=
  [.createMint 100 6, .instruction [0] 0 (.initializeConfig ⟨.config, mint, .key 0⟩)] ++
    register 1 ++ register 2

/-- The venue `n` settles the payment `p`. -/
def settle (n p : UInt8) (workerWallet : Pubkey) (amount : Nat) : Move :=
  .instruction [n.toNat] 7
    (.settlePayout
      { config := .config
        venue := venue n
        venueAuthority := .key n.toNat
        vaultAuthority := .vaultAuthority (venue n)
        venueVault := vault mint (venue n)
        workerWallet := workerWallet
        workerTokenAccount := .associatedToken mint workerWallet
        settlementRecord := .settlement (bytes p)
        usdcMint := mint }
      (bytes p) (bytes 9) amount)

end Example

open Example in
/-- The venue 1 settles the payment 5, and not again. -/
theorem vault_safe_twice :
    ¬ (settle 1 5 (.key 60) 200).Settles (bytes 5)
      (run (twoVenues ++ [settle 1 5 (.key 50) 100]) ∅) :=
  (vault_safe twoVenues).2.1 (settle 1 5 (.key 50) 100) [] _ _
    ⟨⟨_, _, _, _, _, rfl⟩, by decide +kernel⟩

end ServeProof.Onchain
