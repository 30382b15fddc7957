import Mathlib.Data.List.Induction
import ServeProof.Onchain.Backing

/-!
# ServeProof.Onchain.Isolation

How far the venues of the program are isolated from each other: the run with
the settlements and corrections of one authority is compared with the run
without them.

Two things are shared between venues.  A settlement record is found by its
`payment_id_hash` alone, so whoever settles a hash first takes it from everybody
else; and a settlement may pay the vault of another venue, whose balance decides
what that venue can settle.  An authority that does neither is not noticed:
both runs agree on all `Shared` addresses.
-/

namespace ServeProof.Onchain

open Ledger

/-- The move is a settlement or a correction signed by `k`. -/
def Move.SentBy (k : Pubkey) : Move → Prop
  | .instruction _ _ (.settlePayout ctx _ _ _) => ctx.venueAuthority = k
  | .instruction _ _ (.markCorrected ctx _ _ _) => ctx.authority = k
  | _ => False

instance (k : Pubkey) : DecidablePred (Move.SentBy k) := fun m => by
  unfold Move.SentBy
  split <;> infer_instance

/-- The run without the settlements and corrections of `k`. -/
def without (k : Pubkey) (ms : List Move) : List Move := ms.filter fun m => ¬ m.SentBy k

/-- The move is a settlement of the payment by another authority than `k`. -/
def Move.SettlesForOthers (k : Pubkey) (paymentIdHash : Bytes32) : Move → Prop
  | .instruction _ _ (.settlePayout ctx hash _ _) =>
      hash = paymentIdHash ∧ ctx.venueAuthority ≠ k
  | _ => False

instance (k : Pubkey) (h : Bytes32) : DecidablePred (Move.SettlesForOthers k h) := fun m => by
  unfold Move.SettlesForOthers
  split <;> infer_instance

/-- Another authority than `k` sends a settlement of the payment. -/
def TakenByOthers (k : Pubkey) (ms : List Move) (paymentIdHash : Bytes32) : Prop :=
  ∃ m ∈ ms, m.SettlesForOthers k paymentIdHash

instance (k : Pubkey) (ms : List Move) : DecidablePred (TakenByOthers k ms) := fun _ =>
  inferInstanceAs (Decidable (∃ m ∈ ms, _))

/-- The vault authority of a venue that another authority than `k` is registered
for. -/
def VaultOfOthers (k : Pubkey) (s : Ledger) : Pubkey → Prop
  | .vaultAuthority venue => ∃ v ∈ s.venue? venue, v.venueAuthority ≠ k
  | _ => False

instance (k : Pubkey) (s : Ledger) : DecidablePred (VaultOfOthers k s) := fun owner => by
  unfold VaultOfOthers
  split <;> infer_instance

/-- A settlement of `k` that succeeds takes no payment that others settle in the run
`ms`, and pays no vault of others. -/
def Move.KeepsApart (k : Pubkey) (ms : List Move) (s : Ledger) (m : Move) : Prop :=
  match m with
  | .instruction signers now (.settlePayout ctx paymentIdHash allocationHash amount) =>
      ctx.venueAuthority = k →
        (Move.instruction signers now
          (.settlePayout ctx paymentIdHash allocationHash amount)).Succeeds s →
        ¬ TakenByOthers k ms paymentIdHash ∧ ¬ VaultOfOthers k (run ms ∅) ctx.workerWallet
  | _ => True

instance (k : Pubkey) (ms : List Move) (s : Ledger) (m : Move) :
    Decidable (m.KeepsApart k ms s) := by
  unfold Move.KeepsApart
  split <;> infer_instance

/-- The settlements of `k` keep apart from the others'. -/
def KeepsApart (k : Pubkey) (ms : List Move) : Prop := Along (Move.KeepsApart k ms) ms ∅

instance (k : Pubkey) (ms : List Move) : Decidable (KeepsApart k ms) :=
  inferInstanceAs (Decidable (Along _ ms ∅))

/-! ## Ledgers that agree for everybody else -/

/-- The account without what `mark_corrected` writes. -/
def Account.unmarked : Account → Account
  | .settlementRecord r => .settlementRecord { r with status := 0, correctionReference := zeroHash }
  | a => a

/-- The addresses others depend on: all but the records and the token accounts that
are not theirs. -/
def Shared (taken : Bytes32 → Prop) (guarded : Pubkey → Prop) : Pubkey → Prop
  | .settlement paymentIdHash => taken paymentIdHash
  | .associatedToken _ owner => guarded owner
  | _ => True

/-- The ledgers hold the same at every shared address. -/
def Agree (taken : Bytes32 → Prop) (guarded : Pubkey → Prop) (s t : Ledger) : Prop :=
  ∀ x, Shared taken guarded x → (s.get x).map Account.unmarked = (t.get x).map Account.unmarked

section Agreement

variable {taken : Bytes32 → Prop} {guarded : Pubkey → Prop} {s t s' t' : Ledger} {x : Pubkey}

theorem Agree.symm (h : Agree taken guarded s t) : Agree taken guarded t s :=
  fun x hx => (h x hx).symm

/-- An account that is not a record is there in both. -/
theorem Agree.get (h : Agree taken guarded s t) (hx : Shared taken guarded x) {a : Account}
    (ha : s.get x = some a) (hr : ∀ r, a ≠ .settlementRecord r) : t.get x = some a := by
  have hxt := h x hx
  rw [ha] at hxt
  obtain ⟨b, hb, hba⟩ := Option.map_eq_some_iff.mp hxt.symm
  rw [hb]
  cases a <;> cases b <;> simp_all [Account.unmarked]

theorem Agree.get_none (h : Agree taken guarded s t) (hx : Shared taken guarded x)
    (hnone : s.get x = none) : t.get x = none := by
  have hxt := h x hx
  rw [hnone] at hxt
  exact Option.map_eq_none_iff.mp hxt.symm

/-- The record of a shared payment is there in both, up to its mark. -/
theorem Agree.record (h : Agree taken guarded s t) (hx : Shared taken guarded x)
    {r : SettlementRecord} (hr : s.get x = some (.settlementRecord r)) :
    ∃ r', t.get x = some (.settlementRecord r') ∧
      (Account.settlementRecord r').unmarked = (Account.settlementRecord r).unmarked := by
  have hxt := h x hx
  rw [hr] at hxt
  obtain ⟨b, hb, hba⟩ := Option.map_eq_some_iff.mp hxt.symm
  cases b with
  | settlementRecord r' => exact ⟨r', hb, hba⟩
  | _ => simp [Account.unmarked] at hba

/-- The record of a shared payment says the same in both. -/
theorem Agree.record? (h : Agree taken guarded s t) {paymentIdHash : Bytes32}
    (hx : taken paymentIdHash) :
    (s.record? paymentIdHash).map (fun r => (r.venue, r.amount)) =
      (t.record? paymentIdHash).map fun r => (r.venue, r.amount) := by
  have hshared : Shared taken guarded (.settlement paymentIdHash) := hx
  cases hs : s.record? paymentIdHash with
  | some r =>
      obtain ⟨r', hr', hmark⟩ := h.record hshared (settlementRecord?_eq_some.mp hs)
      simp only [Account.unmarked, Account.settlementRecord.injEq, SettlementRecord.mk.injEq]
        at hmark
      have ht : t.record? paymentIdHash = some r' := settlementRecord?_eq_some.mpr hr'
      simp [ht, hmark]
  | none =>
      cases ht : t.record? paymentIdHash with
      | none => rfl
      | some r =>
          obtain ⟨r', hr', -⟩ := h.symm.record hshared (settlementRecord?_eq_some.mp ht)
          rw [Ledger.record?, settlementRecord?_eq_some.mpr hr'] at hs
          contradiction

/-- One write at the same address on both sides. -/
theorem Agree.put (h : Agree taken guarded s t) {a b : Account} (hab : a.unmarked = b.unmarked) :
    Agree taken guarded (s.put x a) (t.put x b) := by
  intro y hy
  rw [get_put, get_put]
  split
  · simp [hab]
  · exact h y hy

/-- Writes that leave the shared addresses alone. -/
theorem Agree.frame (h : Agree taken guarded s t)
    (hs : ∀ y, Shared taken guarded y → s'.get y = s.get y)
    (ht : ∀ y, Shared taken guarded y → t'.get y = t.get y) : Agree taken guarded s' t' := by
  intro y hy
  rw [hs y hy, ht y hy]
  exact h y hy

/-! ## What is shared -/

theorem shared_of_mint (hs : s.WellFormed) {m : Mint} (h : s.get x = some (.mint m)) :
    Shared taken guarded x := by
  have hat := hs x _ h
  cases x <;> simp_all [Account.At, Shared]

theorem shared_of_venue (hs : s.WellFormed) {v : Venue} (h : s.get x = some (.venue v)) :
    Shared taken guarded x := by
  have hat := hs x _ h
  cases x <;> simp_all [Account.At, Shared]

end Agreement

/-! ## Moves that write one account -/

/-- The one account a move writes that is not a settlement. -/
def Move.target : Move → Option Pubkey
  | .instruction _ _ (.initializeConfig _) => some .config
  | .instruction _ _ (.registerVenue ctx _ _) => some ctx.venue
  | .instruction _ _ (.initializeVenueVault ctx) =>
      some (.associatedToken ctx.usdcMint ctx.vaultAuthority)
  | .instruction _ _ (.settlePayout _ _ _ _) => none
  | .instruction _ _ (.markCorrected _ paymentIdHash _ _) => some (.settlement paymentIdHash)
  | .instruction _ _ (.pause _) => some .config
  | .instruction _ _ (.unpause _) => some .config
  | .createMint address _ => some (.key address)
  | .createTokenAccount address _ _ => some (.key address)
  | .createAssociatedTokenAccount mint owner => some (.associatedToken mint owner)
  | .deposit account _ => some account
  | .withdraw _ account _ => some account

section Single

variable {taken : Bytes32 → Prop} {guarded : Pubkey → Prop} {s t s' : Ledger} {x y : Pubkey}
  {m : Move}

theorem get_opened_of_ne (s : Ledger) {mint owner : Pubkey} (h : .associatedToken mint owner ≠ y) :
    (s.opened mint owner).get y = s.get y := by
  simp [get_opened, Ne.symm h]

theorem Move.exec_get_of_ne (hm : m.target = some x) (h : m.exec s = .ok t) (hne : x ≠ y) :
    t.get y = s.get y := by
  cases m with
  | instruction signers now ix =>
      cases ix with
      | initializeConfig ctx =>
          cases hm
          obtain ⟨-, -, -, -, rfl⟩ := initializeConfig_ok_iff.mp h
          exact get_put_of_ne s _ hne
      | registerVenue ctx venueIdHash venueAuthority =>
          cases hm
          obtain ⟨-, -, -, -, -, rfl⟩ := registerVenue_ok_iff.mp h
          exact get_put_of_ne s _ hne
      | initializeVenueVault ctx =>
          cases hm
          obtain ⟨-, -, -, -, -, -, -, -, rfl⟩ := initializeVenueVault_ok_iff.mp h
          exact get_opened_of_ne s hne
      | settlePayout ctx paymentIdHash allocationHash amount => contradiction
      | markCorrected ctx paymentIdHash correctionHash disputed =>
          cases hm
          obtain ⟨-, -, -, c, v, r, -, -, -, -, -, rfl⟩ := markCorrected_ok_iff.mp h
          exact get_put_of_ne s _ hne
      | pause ctx =>
          cases hm
          obtain ⟨-, -, c, -, -, rfl⟩ := setPaused_ok_iff.mp h
          exact get_put_of_ne s _ hne
      | unpause ctx =>
          cases hm
          obtain ⟨-, -, c, -, -, rfl⟩ := setPaused_ok_iff.mp h
          exact get_put_of_ne s _ hne
  | createMint address decimals =>
      cases hm
      simp only [Move.exec, bind_eq_ok, require_eq_ok, pure_eq_ok, exists_const] at h
      obtain ⟨-, rfl⟩ := h
      exact get_put_of_ne s _ hne
  | createTokenAccount address mint owner =>
      cases hm
      simp only [Move.exec, bind_eq_ok, require_eq_ok, pure_eq_ok, exists_const, load_eq_ok] at h
      obtain ⟨-, -, -, rfl⟩ := h
      exact get_put_of_ne s _ hne
  | createAssociatedTokenAccount mint owner =>
      cases hm
      obtain ⟨-, -, -, rfl⟩ := createAssociatedTokenAccount_ok.mp h
      exact get_opened_of_ne s hne
  | deposit account amount =>
      cases hm
      simp only [Move.exec, bind_eq_ok, pure_eq_ok, load_eq_ok, token?_eq_some] at h
      obtain ⟨a, -, rfl⟩ := h
      exact get_put_of_ne s _ hne
  | withdraw signers account amount =>
      cases hm
      simp only [Move.exec, bind_eq_ok, require_eq_ok, pure_eq_ok, exists_const, load_eq_ok,
        token?_eq_some] at h
      obtain ⟨a, -, -, -, rfl⟩ := h
      exact get_put_of_ne s _ hne

theorem opened_of_get_none {mint owner : Pubkey}
    (h : s.get (.associatedToken mint owner) = none) :
    s.opened mint owner = s.put (.associatedToken mint owner) (.token ⟨mint, owner, 0⟩) := by
  simp [opened, h]

/-- A move that writes a shared account does the same on both sides. -/
theorem Move.exec_agree (h : Agree taken guarded s t) (hs : s.WellFormed)
    (hm : m.target = some x) (hx : Shared taken guarded x) (hok : m.exec s = .ok s') :
    ∃ t', m.exec t = .ok t' ∧ Agree taken guarded s' t' := by
  have hconfig {c : GlobalConfig} (hc : s.get .config = some (.globalConfig c)) :
      t.get .config = some (.globalConfig c) := h.get (x := .config) trivial hc (by simp)
  have hvenue {z : Pubkey} {v : Venue} (hv : s.get z = some (.venue v)) :
      t.get z = some (.venue v) := h.get (shared_of_venue hs hv) hv (by simp)
  have hmint {z : Pubkey} {a : Mint} (ha : s.get z = some (.mint a)) :
      t.get z = some (.mint a) := h.get (shared_of_mint hs ha) ha (by simp)
  cases m with
  | instruction signers now ix =>
      cases ix with
      | initializeConfig ctx =>
          obtain ⟨hat, hsigned, ⟨a, ha⟩, hnone, rfl⟩ := initializeConfig_ok_iff.mp hok
          exact ⟨_, initializeConfig_ok_iff.mpr
            ⟨hat, hsigned, ⟨a, hmint ha⟩, h.get_none trivial hnone, rfl⟩, h.put rfl⟩
      | registerVenue ctx venueIdHash venueAuthority =>
          cases hm
          obtain ⟨hcfg, hat, hsigned, ⟨c, hc, hadmin⟩, hnone, rfl⟩ := registerVenue_ok_iff.mp hok
          exact ⟨_, registerVenue_ok_iff.mpr
            ⟨hcfg, hat, hsigned, ⟨c, hconfig hc, hadmin⟩, h.get_none hx hnone, rfl⟩, h.put rfl⟩
      | initializeVenueVault ctx =>
          cases hm
          obtain ⟨hcfg, hauth, hat, hsigned, ⟨c, hc, husdc⟩, ⟨v, hv, hven⟩, ⟨a, ha⟩, hnone, rfl⟩ :=
            initializeVenueVault_ok_iff.mp hok
          rw [hat] at hnone
          have hnone' := h.get_none hx hnone
          refine ⟨_, initializeVenueVault_ok_iff.mpr
            ⟨hcfg, hauth, hat, hsigned, ⟨c, hconfig hc, husdc⟩, ⟨v, hvenue hv, hven⟩, ⟨a, hmint ha⟩,
              by rw [hat, hnone'], rfl⟩, ?_⟩
          rw [opened_of_get_none hnone, opened_of_get_none hnone']
          exact h.put rfl
      | settlePayout ctx paymentIdHash allocationHash amount => contradiction
      | markCorrected ctx paymentIdHash correctionHash disputed =>
          cases hm
          obtain ⟨hcfg, hat, hsigned, c, v, r, hc, ⟨hv, hven⟩, hauth, hr, hrv, rfl⟩ :=
            markCorrected_ok_iff.mp hok
          obtain ⟨r', hr', hmark⟩ := h.record hx hr
          simp only [Account.unmarked, Account.settlementRecord.injEq, SettlementRecord.mk.injEq]
            at hmark
          exact ⟨_, markCorrected_ok_iff.mpr
            ⟨hcfg, hat, hsigned, c, v, r', hconfig hc, ⟨hvenue hv, hven⟩, hauth, hr',
              hmark.2.2.1.trans hrv, rfl⟩,
            h.put (by simp [Account.unmarked, SettlementRecord.marked, hmark])⟩
      | pause ctx =>
          obtain ⟨hcfg, hsigned, c, hc, hadmin, rfl⟩ := setPaused_ok_iff.mp hok
          exact ⟨_, setPaused_ok_iff.mpr ⟨hcfg, hsigned, c, hconfig hc, hadmin, rfl⟩, h.put rfl⟩
      | unpause ctx =>
          obtain ⟨hcfg, hsigned, c, hc, hadmin, rfl⟩ := setPaused_ok_iff.mp hok
          exact ⟨_, setPaused_ok_iff.mpr ⟨hcfg, hsigned, c, hconfig hc, hadmin, rfl⟩, h.put rfl⟩
  | createMint address decimals =>
      cases hm
      simp only [Move.exec, bind_eq_ok, require_eq_ok, pure_eq_ok, exists_const] at hok ⊢
      obtain ⟨hnone, rfl⟩ := hok
      exact ⟨_, ⟨h.get_none hx hnone, rfl⟩, h.put rfl⟩
  | createTokenAccount address mint owner =>
      cases hm
      simp only [Move.exec, bind_eq_ok, require_eq_ok, pure_eq_ok, exists_const, load_eq_ok,
        mint?_eq_some] at hok ⊢
      obtain ⟨a, ha, hnone, rfl⟩ := hok
      exact ⟨_, ⟨a, hmint ha, h.get_none hx hnone, rfl⟩, h.put rfl⟩
  | createAssociatedTokenAccount mint owner =>
      cases hm
      obtain ⟨⟨a, ha⟩, -, hnone, rfl⟩ := createAssociatedTokenAccount_ok.mp hok
      have hnone' := h.get_none hx hnone
      refine ⟨_, createAssociatedTokenAccount_ok.mpr ⟨⟨a, hmint ha⟩, rfl, hnone', rfl⟩, ?_⟩
      rw [opened_of_get_none hnone, opened_of_get_none hnone']
      exact h.put rfl
  | deposit account amount =>
      cases hm
      simp only [Move.exec, bind_eq_ok, pure_eq_ok, load_eq_ok, token?_eq_some] at hok ⊢
      obtain ⟨a, ha, rfl⟩ := hok
      exact ⟨_, ⟨a, h.get hx ha (by simp), rfl⟩, h.put rfl⟩
  | withdraw signers account amount =>
      cases hm
      simp only [Move.exec, bind_eq_ok, require_eq_ok, pure_eq_ok, exists_const, load_eq_ok,
        token?_eq_some] at hok ⊢
      obtain ⟨a, ha, hle, howner, rfl⟩ := hok
      exact ⟨_, ⟨a, h.get hx ha (by simp), hle, howner, rfl⟩, h.put rfl⟩

/-- A move that does the same on both sides whenever it succeeds on one. -/
theorem Move.next_agree_of (h : Agree taken guarded s t)
    (hst : ∀ s', m.exec s = .ok s' → ∃ t', m.exec t = .ok t' ∧ Agree taken guarded s' t')
    (hts : ∀ t', m.exec t = .ok t' → ∃ s', m.exec s = .ok s') :
    Agree taken guarded (m.next s) (m.next t) ∧ (m.Succeeds s ↔ m.Succeeds t) := by
  refine ⟨?_, fun ⟨s', hs'⟩ => (hst s' hs').imp fun _ ht => ht.1, fun ⟨t', ht'⟩ => hts t' ht'⟩
  cases hs : m.exec s with
  | ok s' =>
      obtain ⟨t', ht', hagree⟩ := hst s' hs
      rw [Move.next_of_ok hs, Move.next_of_ok ht']
      exact hagree
  | error e =>
      cases ht : m.exec t with
      | ok t' =>
          obtain ⟨s', hs'⟩ := hts t' ht
          rw [hs] at hs'
          contradiction
      | error e' =>
          rw [Move.next, Move.next, hs, ht]
          exact h

theorem Move.next_get_of_ne (hm : m.target = some x) (hne : x ≠ y) :
    (m.next s).get y = s.get y := by
  obtain h | h := m.next_cases s
  · exact Move.exec_get_of_ne hm h hne
  · rw [h]

/-- A move that writes one account keeps the agreement. -/
theorem Move.next_agree (h : Agree taken guarded s t) (hs : s.WellFormed) (ht : t.WellFormed)
    (hm : m.target = some x) : Agree taken guarded (m.next s) (m.next t) := by
  by_cases hx : Shared taken guarded x
  · exact (Move.next_agree_of h (fun s' => Move.exec_agree h hs hm hx)
      fun t' ht' => (Move.exec_agree h.symm ht hm hx ht').imp fun _ h => h.1).1
  · exact h.frame (fun y hy => Move.next_get_of_ne hm fun e => hx (e ▸ hy))
      fun y hy => Move.next_get_of_ne hm fun e => hx (e ▸ hy)

end Single

/-! ## Settlements -/

section Settlement

variable {taken : Bytes32 → Prop} {guarded : Pubkey → Prop} {s t s' : Ledger} {x k : Pubkey}
  {signers : List Pubkey} {now : Int} {ctx : SettlePayout} {paymentIdHash allocationHash : Bytes32}
  {amount : Nat}

theorem Agree.balance (h : Agree taken guarded s t) (hx : Shared taken guarded x) :
    s.balance x = t.balance x := by
  cases hs : s.get x with
  | none => exact balance_congr (hs.trans (h.get_none hx hs).symm)
  | some a =>
      cases a with
      | settlementRecord r =>
          obtain ⟨r', ht, -⟩ := h.record hx hs
          simp [Ledger.balance, hs, ht]
      | _ => exact balance_congr (hs.trans (h.get hx hs (by simp)).symm)

/-- The source and the destination of a settlement after its transfer. -/
theorem get_paid_of_mem (hs : s.WellFormed)
    (h : ctx.Accepts signers paymentIdHash allocationHash amount s)
    (hx : x = ctx.venueVault ∨ x = ctx.workerTokenAccount) :
    ∃ owner, (ctx.paid amount s).get x =
      some (.token ⟨ctx.usdcMint, owner, (ctx.paid amount s).balance x⟩) ∧
        x = .associatedToken ctx.usdcMint owner := by
  have hpaid : (ctx.paid amount s).WellFormed :=
    (settlePayout_writes 0 h).1.wellFormed hs
  have hmoved : (s.opened ctx.usdcMint ctx.workerWallet).Writes (ctx.paid amount s) :=
    moved_writes ..
  have hsome {a : Account} (ha : (s.opened ctx.usdcMint ctx.workerWallet).get x = some a) :
      (ctx.paid amount s).get x ≠ none := by
    obtain ⟨b, hb, -⟩ := hmoved.get ha
    simp [hb]
  obtain ⟨owner, hat, hne⟩ : ∃ owner, x = .associatedToken ctx.usdcMint owner ∧
      (ctx.paid amount s).get x ≠ none := by
    obtain rfl | rfl := hx
    · obtain ⟨a, ha⟩ := Option.ne_none_iff_exists'.mp h.vault
      exact ⟨_, h.venueVault, hsome (get_opened_of_some ha ..)⟩
    · obtain ⟨n, hn⟩ := get_opened_self hs ctx.usdcMint ctx.workerWallet
      rw [← h.workerTokenAccount] at hn
      exact ⟨_, h.workerTokenAccount, hsome hn⟩
  subst hat
  obtain hnone | ⟨n, hn⟩ := hpaid.associatedToken ctx.usdcMint owner
  · exact absurd hnone hne
  · exact ⟨owner, by rw [balance_of_get hn, hn], rfl⟩

/-- Whether a settlement succeeds is read from shared accounts only. -/
theorem SettlePayout.Accepts.agree (h : Agree taken guarded s t) (hs : s.WellFormed)
    (hguarded : guarded (.vaultAuthority ctx.venue)) (htaken : taken paymentIdHash)
    (hacc : ctx.Accepts signers paymentIdHash allocationHash amount s) :
    ctx.Accepts signers paymentIdHash allocationHash amount t := by
  have hvault : Shared taken guarded ctx.venueVault := by
    rw [hacc.venueVault, hacc.vaultAuthority]
    exact hguarded
  obtain ⟨c, hc, husdc, hpaused⟩ := hacc.running
  obtain ⟨v, hv, hven, hauth, hactive⟩ := hacc.registered
  obtain ⟨m, hm⟩ := hacc.mint
  exact
    { hacc with
      running := ⟨c, h.get (x := .config) trivial hc (by simp), husdc, hpaused⟩
      registered := ⟨v, h.get (shared_of_venue hs hv) hv (by simp), hven, hauth, hactive⟩
      mint := ⟨m, h.get (shared_of_mint hs hm) hm (by simp)⟩
      vault := fun hnone => hacc.vault (h.symm.get_none hvault hnone)
      covered := by
        have hle := hacc.covered
        rw [h.balance hvault] at hle
        exact hle
      fresh := h.get_none (x := .settlement paymentIdHash) htaken hacc.fresh }

theorem Agree.paid (h : Agree taken guarded s t) (hs : s.WellFormed) (ht : t.WellFormed)
    (hacc : ctx.Accepts signers paymentIdHash allocationHash amount s)
    (hacc' : ctx.Accepts signers paymentIdHash allocationHash amount t) :
    Agree taken guarded (ctx.paid amount s) (ctx.paid amount t) := by
  intro x hx
  by_cases hmem : x = ctx.venueVault ∨ x = ctx.workerTokenAccount
  · obtain ⟨o, hget, hat⟩ := get_paid_of_mem hs hacc hmem
    obtain ⟨o', hget', hat'⟩ := get_paid_of_mem ht hacc' hmem
    have howner : o = o' := by simpa using hat.symm.trans hat'
    have hbalance : (ctx.paid amount s).balance x = (ctx.paid amount t).balance x := by
      rw [balance_paid hs hacc, balance_paid ht hacc', h.balance hx]
    rw [hget, hget', howner, hbalance]
  · rw [not_or] at hmem
    rw [get_paid_of_ne hacc hmem.1 hmem.2, get_paid_of_ne hacc' hmem.1 hmem.2]
    exact h x hx

/-- A settlement of another authority does the same on both sides. -/
theorem settlePayout_agree (h : Agree taken guarded s t) (hs : s.WellFormed) (ht : t.WellFormed)
    (hreg : ∀ venue v, s.get venue = some (.venue v) → v.venueAuthority ≠ k →
      guarded (.vaultAuthority venue))
    (hk : ctx.venueAuthority ≠ k) (htaken : taken paymentIdHash)
    (hok : s.settlePayout signers now ctx paymentIdHash allocationHash amount = .ok s') :
    ∃ t', t.settlePayout signers now ctx paymentIdHash allocationHash amount = .ok t' ∧
      Agree taken guarded s' t' := by
  obtain ⟨hacc, rfl⟩ := (settlePayout_ok_iff hs).mp hok
  obtain ⟨v, hv, -, hauth, -⟩ := hacc.registered
  have hguarded := hreg ctx.venue v hv (hauth ▸ hk)
  have hacc' := SettlePayout.Accepts.agree h hs hguarded htaken hacc
  exact ⟨_, (settlePayout_ok_iff ht).mpr ⟨hacc', rfl⟩, (h.paid hs ht hacc hacc').put rfl⟩

/-- A settlement leaves the shared accounts alone when its record, its vault and its
destination are not shared. -/
theorem settlePayout_get (hs : s.WellFormed)
    (hok : s.settlePayout signers now ctx paymentIdHash allocationHash amount = .ok s')
    (hrecord : ¬ taken paymentIdHash) (hvault : ¬ guarded (.vaultAuthority ctx.venue))
    (hwallet : ¬ guarded ctx.workerWallet) (hx : Shared taken guarded x) : s'.get x = s.get x := by
  obtain ⟨hacc, rfl⟩ := (settlePayout_ok_iff hs).mp hok
  have hne : Pubkey.settlement paymentIdHash ≠ x := fun e => hrecord (by rw [← e] at hx; exact hx)
  have hv : x ≠ ctx.venueVault := fun e =>
    hvault (by rw [e, hacc.venueVault, hacc.vaultAuthority] at hx; exact hx)
  have hw : x ≠ ctx.workerTokenAccount := fun e =>
    hwallet (by rw [e, hacc.workerTokenAccount] at hx; exact hx)
  rw [get_put_of_ne _ _ hne, get_paid_of_ne hacc hv hw]

end Settlement

/-! ## The two runs -/

theorem without_append (k : Pubkey) (ms ms' : List Move) :
    without k (ms ++ ms') = without k ms ++ without k ms' := List.filter_append ..

theorem without_of_sentBy {k : Pubkey} {m : Move} (h : m.SentBy k) : without k [m] = [] := by
  simp [without, h]

theorem without_of_not_sentBy {k : Pubkey} {m : Move} (h : ¬ m.SentBy k) :
    without k [m] = [m] := by
  simp [without, h]

section Runs

variable {k : Pubkey} {ms ms₁ ms₂ : List Move}

/-- The agreement of the two runs. -/
abbrev SameForOthers (k : Pubkey) (ms : List Move) : Ledger → Ledger → Prop :=
  Agree (TakenByOthers k ms) (VaultOfOthers k (run ms ∅))

/-- A venue registered on the way is still registered at the end. -/
theorem vaultOfOthers_of_registered (hms : ms = ms₁ ++ ms₂) {venue : Pubkey} {v : Venue}
    (hv : (run ms₁ ∅).get venue = some (.venue v)) (hk : v.venueAuthority ≠ k) :
    VaultOfOthers k (run ms ∅) (.vaultAuthority venue) := by
  have hend := (run_append_writes ms₁ ms₂).venue hv
  rw [← hms] at hend
  exact ⟨v, venue?_eq_some.mpr hend, hk⟩

/-- A settlement of another authority succeeds in both runs or in neither. -/
theorem settlement_agree {t : Ledger} (hms : ms = ms₁ ++ ms₂) (ht : t.WellFormed)
    (h : SameForOthers k ms (run ms₁ ∅) t) {signers : List Nat} {now : Int} {ctx : SettlePayout}
    {paymentIdHash allocationHash : Bytes32} {amount : Nat} (hk : ctx.venueAuthority ≠ k)
    (hmem :
      Move.instruction signers now (.settlePayout ctx paymentIdHash allocationHash amount) ∈ ms) :
    SameForOthers k ms
        ((Move.instruction signers now
          (.settlePayout ctx paymentIdHash allocationHash amount)).next (run ms₁ ∅))
        ((Move.instruction signers now
          (.settlePayout ctx paymentIdHash allocationHash amount)).next t) ∧
      ((Move.instruction signers now
          (.settlePayout ctx paymentIdHash allocationHash amount)).Succeeds (run ms₁ ∅) ↔
        (Move.instruction signers now
          (.settlePayout ctx paymentIdHash allocationHash amount)).Succeeds t) := by
  have hs := run_wellFormed ms₁
  have htaken : TakenByOthers k ms paymentIdHash := ⟨_, hmem, rfl, hk⟩
  refine Move.next_agree_of h (fun s' hs' => ?_) (fun t' ht' => ?_)
  · exact settlePayout_agree h hs ht (fun _ _ => vaultOfOthers_of_registered hms) hk htaken hs'
  · have hreg (venue : Pubkey) (v : Venue) (hv : t.get venue = some (.venue v))
        (hkv : v.venueAuthority ≠ k) : VaultOfOthers k (run ms ∅) (.vaultAuthority venue) :=
      vaultOfOthers_of_registered hms (h.symm.get (shared_of_venue ht hv) hv (by simp)) hkv
    obtain ⟨s', hs', -⟩ := settlePayout_agree h.symm ht hs hreg hk htaken ht'
    exact ⟨s', hs'⟩

/-- What `k` sends leaves alone what others depend on. -/
theorem sentBy_frame (hsep : KeepsApart k ms) {m : Move} (hms : ms = ms₁ ++ m :: ms₂)
    (hm : m.SentBy k) {t : Ledger} (h : SameForOthers k ms (run ms₁ ∅) t) :
    SameForOthers k ms (m.next (run ms₁ ∅)) t := by
  have hs := run_wellFormed ms₁
  obtain hok | hsame := m.next_cases (run ms₁ ∅)
  · cases m with
    | instruction signers now ix =>
        cases ix with
        | settlePayout ctx paymentIdHash allocationHash amount =>
            have hk : ctx.venueAuthority = k := hm
            obtain ⟨hrecord, hwallet⟩ := hsep.at hms hk ⟨_, hok⟩
            obtain ⟨v, hv, -, hauth, -⟩ := ((settlePayout_ok_iff hs).mp hok).1.registered
            have hvault : ¬ VaultOfOthers k (run ms ∅) (.vaultAuthority ctx.venue) := by
              rintro ⟨v', hv', hne⟩
              have hend := (run_append_writes ms₁
                (.instruction signers now (.settlePayout ctx paymentIdHash allocationHash amount)
                  :: ms₂)).venue hv
              rw [← hms, venue?_eq_some.mp hv'] at hend
              cases hend
              exact hne (hauth.trans hk)
            exact h.frame (fun y hy => settlePayout_get hs hok hrecord hvault hwallet hy)
              fun y _ => rfl
        | markCorrected ctx paymentIdHash correctionHash disputed =>
            obtain ⟨-, -, -, c, v, r, -, -, -, hr, -, hnext⟩ := markCorrected_ok_iff.mp hok
            rw [hnext]
            intro y hy
            rw [← h y hy, get_put]
            split
            · next hat => simp [← hat, hr, Account.unmarked, SettlementRecord.marked]
            · rfl
        | _ => exact absurd hm (by simp [Move.SentBy])
    | _ => exact absurd hm (by simp [Move.SentBy])
  · rw [hsame]
    exact h

/-- At every point of the run, the two runs agree for everybody else. -/
theorem same_for_others (hsep : KeepsApart k ms) :
    ∀ {ms₁ ms₂ : List Move}, ms = ms₁ ++ ms₂ →
      SameForOthers k ms (run ms₁ ∅) (run (without k ms₁) ∅) := by
  intro ms₁
  induction ms₁ using List.reverseRecOn with
  | nil => exact fun _ x _ => rfl
  | append_singleton ms₁ m ih =>
      intro ms₂ hms
      have hsplit : ms = ms₁ ++ m :: ms₂ := by rw [hms, List.append_assoc, List.singleton_append]
      have h := ih hsplit
      have ht := run_wellFormed (without k ms₁)
      rw [without_append, run_append, run_append]
      by_cases hm : m.SentBy k
      · rw [without_of_sentBy hm]
        exact sentBy_frame hsep hsplit hm h
      · rw [without_of_not_sentBy hm]
        cases htarget : m.target with
        | some x => exact Move.next_agree h (run_wellFormed ms₁) ht htarget
        | none =>
            cases m with
            | instruction signers now ix =>
                cases ix with
                | settlePayout ctx paymentIdHash allocationHash amount =>
                    exact (settlement_agree hsplit ht h hm (by simp [hsplit])).1
                | _ => contradiction
            | _ => contradiction

end Runs

/-- Both venues settle the payment 5. -/
def Example.frontRun : List Move :=
  twoVenues ++ [settle 1 5 (.key 50) 100, settle 2 5 (.key 60) 300]

end ServeProof.Onchain
