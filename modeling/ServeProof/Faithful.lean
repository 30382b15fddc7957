import ServeProof.Alone
import ServeProof.Approval
import ServeProof.Failure

/-!
# ServeProof.Faithful

A USDC payout that is finalized is an image of the chain: its settlement record
has the amount, the wallet, the venue and the allocation hash of the payout --
as long as the venue signs the instruction that was built for it.

`instructionFor` is what `buildTransaction` builds for a payout.  It does not
change while the payout holds a signature, so a signed transaction that agrees
with it when it is claimed agrees with it when it lands.
-/

namespace ServeProof

open Interleave System

/-- The instruction `buildTransaction` builds for a payout. -/
def World.instructionFor (w : World) (p : AllocationId) : Option SettlePayout := do
  let v ← w.findPayout p
  let wallet ← v.wallet
  let allocationHash ← v.batch.allocationHash
  let workerWallet ← parsePubkey wallet.address
  return settleInstruction v.payout allocationHash workerWallet

/-- The columns of a payout its instruction is made of. -/
def Payout.terms (r : Payout) : AllocationId × VenueId × Option WalletId × Int :=
  (r.paymentId, r.venueId, r.walletId, r.amountBaseUnits)

theorem instructionFor_eq_some {w : World} {p : AllocationId} {ix : SettlePayout} :
    w.instructionFor p = some ix ↔ ∃ row a b id wallet allocationHash key,
      w.db.payouts.find p = some row ∧ w.db.allocations.find p = some a ∧
      w.db.batches.find a.batchId = some b ∧ row.walletId = some id ∧
      w.db.wallets.find id = some wallet ∧ b.allocationHash = some allocationHash ∧
      wallet.address = .key key ∧ settleInstruction row allocationHash key = ix := by
  constructor
  · intro h
    obtain ⟨v, hv, h⟩ := Option.bind_eq_some_iff.mp h
    obtain ⟨wallet, hwallet, h⟩ := Option.bind_eq_some_iff.mp h
    obtain ⟨hash, hhash, h⟩ := Option.bind_eq_some_iff.mp h
    obtain ⟨key, hkey, h⟩ := Option.bind_eq_some_iff.mp h
    obtain ⟨hrow, hw, a, ha, hb⟩ := findPayout_eq_some hv
    rw [hw] at hwallet
    obtain ⟨id, hid, hfind⟩ := Option.bind_eq_some_iff.mp hwallet
    refine ⟨v.payout, a, v.batch, id, wallet, hash, key, hrow, ha, hb, hid, hfind, hhash, ?_,
      Option.some.inj h⟩
    cases haddress : wallet.address with
    | key k => rw [haddress] at hkey; rw [Option.some.inj hkey]
    | malformed text => rw [haddress] at hkey; contradiction
  · rintro ⟨row, a, b, id, wallet, hash, key, hrow, ha, hb, hid, hfind, hhash, haddress, rfl⟩
    simp [World.instructionFor, World.findPayout, hrow, ha, hb, hid, hfind, hhash, haddress,
      parsePubkey]

/-- What the instruction of a payout is made of stays. -/
theorem instructionFor_congr {s t : World} {p : AllocationId} {ix : SettlePayout}
    (h : s.instructionFor p = some ix)
    (hrow : ∀ row, s.db.payouts.find p = some row → ∃ row', t.db.payouts.find p = some row' ∧
      row'.terms = row.terms)
    (hbatch : ∀ a b, s.db.allocations.find p = some a → s.db.batches.find a.batchId = some b →
      ∃ a' b', t.db.allocations.find p = some a' ∧ t.db.batches.find a'.batchId = some b' ∧
        b'.allocationHash = b.allocationHash)
    (hwallet : ∀ id wallet, s.db.wallets.find id = some wallet →
      ∃ wallet', t.db.wallets.find id = some wallet' ∧ wallet'.address = wallet.address) :
    t.instructionFor p = some ix := by
  obtain ⟨row, a, b, id, wallet, hash, key, hr, ha, hb, hid, hw, hhash, haddress, rfl⟩ :=
    instructionFor_eq_some.mp h
  obtain ⟨row', hr', hterms⟩ := hrow row hr
  obtain ⟨a', b', ha', hb', hhash'⟩ := hbatch a b ha hb
  obtain ⟨wallet', hw', haddress'⟩ := hwallet id wallet hw
  obtain ⟨hpayment, hvenue, hwalletId, hamount⟩ :
      row'.paymentId = row.paymentId ∧ row'.venueId = row.venueId ∧
        row'.walletId = row.walletId ∧ row'.amountBaseUnits = row.amountBaseUnits := by
    simpa [Payout.terms] using hterms
  refine instructionFor_eq_some.mpr ⟨row', a', b', id, wallet', hash, key, hr', ha', hb',
    hwalletId.trans hid, hw', hhash'.trans hhash, haddress'.trans haddress, ?_⟩
  rw [settleInstruction, settleInstruction, hpayment, hvenue, hamount]

/-! ## The invariant -/

/-- The signed transaction settles the payout with the instruction that was
built for it. -/
def World.SignedAsBuilt (w : World) (p : AllocationId) (tx : SignedTransaction) : Prop :=
  tx.Settles p → tx.settlement = w.instructionFor p

instance (w : World) (p : AllocationId) (tx : SignedTransaction) :
    Decidable (w.SignedAsBuilt p tx) :=
  inferInstanceAs (Decidable (_ → _))

/-- Transactions that can settle are followed, each held one is as built; what
is paid is of an approved batch; a finalized USDC payout has its record. -/
structure Faithful (w : World) : Prop where
  followed : Followed w
  signed : ∀ p sig, (w.attempt p).txSignature = some sig → w.SignedAsBuilt p sig.message
  approved : ∀ p row a, w.db.payouts.find p = some row → w.db.allocations.find p = some a →
    w.Approved a.batchId
  nonneg : ∀ p row, w.db.payouts.find p = some row → 0 ≤ row.amountBaseUnits
  record : ∀ p row, w.db.payouts.find p = some row → row.rail = .usdc → row.status = .finalized →
    (w.chain.fetchSettlementRecord p .finalized).isSome

theorem World.NoPayouts.faithful {w : World} (h : w.NoPayouts) : Faithful w where
  nonneg p row hrow := absurd (hrow.symm.trans (h.find p)) (Option.some_ne_none _)
  followed := h.followed
  signed p sig hsig := by rw [h.attempt] at hsig; contradiction
  approved p row _ hrow := absurd (hrow.symm.trans (h.find p)) (Option.some_ne_none _)
  record p row hrow := absurd (hrow.symm.trans (h.find p)) (Option.some_ne_none _)

/-- The record of a payment that has reached finality stays. -/
theorem Chain.Later.record {c c' : Chain} (h : c.Later c') {p : AllocationId}
    (hr : (c.fetchSettlementRecord p .finalized).isSome) :
    (c'.fetchSettlementRecord p .finalized).isSome := by
  obtain ⟨r, hr⟩ := Option.isSome_iff_exists.mp hr
  obtain ⟨i, hi, hrecords, hheight, -⟩ := Chain.fetchSettlementRecord_some hr
  exact Chain.fetchSettlementRecord_isSome (h.included i hi) hrecords (hheight.trans h.finalized)

/-- What the record of a followed payment says. -/
theorem Faithful.record_eq {w : World} (hi : Faithful w) {p : AllocationId}
    {r : SettlementRecordView} (hr : w.chain.fetchSettlementRecord p .finalized = some r) :
    ∃ ix, w.instructionFor p = some ix ∧ r.amount = ix.amount ∧ r.workerWallet = ix.workerWallet ∧
      r.venue = ix.venue ∧ r.allocationHash = ix.allocationHash := by
  obtain ⟨i, hmem, hrecords, -, hrecord⟩ := Chain.fetchSettlementRecord_some hr
  obtain ⟨q, hq⟩ := w.chain.included_handed i hmem
  obtain rfl := hi.followed.own (q, i.tx) hq p hrecords.2
  have hcan : w.CanSettle p i.tx :=
    ⟨hrecords.2, (Chain.live_of_included hmem).mpr hrecords.1⟩
  have hsigned := hi.signed p _ (hi.followed.handed (p, i.tx) hq hcan).1.1 hrecords.2
  obtain ⟨ix, hix, rfl⟩ := Option.map_eq_some_iff.mp hrecord
  exact ⟨ix, hsigned.symm.trans hix, rfl, rfl, rfl, rfl⟩

/-! ## One command -/

section Commit

variable {w : World} {c : PayoutWrite} {p : AllocationId}

/-- A command that starts no new attempt keeps the terms of the row. -/
theorem terms_update (hc : ∀ seen data, c ≠ .reset seen data) (r : Payout) :
    (c.update r).terms = r.terms := by
  cases c with
  | reset seen data => exact absurd rfl (hc seen data)
  | _ => rfl

/-- The instruction of a payout that holds a signature after a command is the
one it had before. -/
theorem instructionFor_payout (h : c.Applies w.db) {sig : Signature}
    (hsig : (((Write.payout c).apply w).attempt p).txSignature = some sig) {ix : SettlePayout}
    (hix : w.instructionFor p = some ix) :
    ((Write.payout c).apply w).instructionFor p = some ix := by
  refine instructionFor_congr hix (fun row hrow => ?_) (fun a b ha hb => ?_) fun id wallet hw => ?_
  · rw [Write.apply_payout_db, PayoutWrite.find_payouts_apply h]
    by_cases hp : c.target = p
    · subst hp
      rw [if_pos rfl, hrow]
      refine ⟨c.update row, rfl, terms_update ?_ row⟩
      rintro seen data rfl
      rw [World.attempt_apply_target h] at hsig
      contradiction
    · rw [if_neg hp]
      exact ⟨row, hrow, rfl⟩
  · rw [Write.apply_payout_db, PayoutWrite.find_allocations_apply h, PayoutWrite.batches_apply]
    by_cases hp : c.target = p
    · subst hp
      rw [if_pos rfl, ha]
      exact ⟨c.pay a, b, rfl, by rw [c.pay_batchId]; exact hb, rfl⟩
    · rw [if_neg hp]
      exact ⟨a, b, ha, hb, rfl⟩
  · rw [show ((Write.payout c).apply w).db.wallets = w.db.wallets from
      congrArg Records.wallets (c.records_apply w.db)]
    exact ⟨wallet, hw, rfl⟩

/-- What a payout command must find besides: the claimed transaction as built,
the allocation of a new payout in an approved batch, the record of a payout
that is finalized. -/
def PayoutWrite.Truthful : PayoutWrite → World → Prop
  | claimSubmit seen tx _ _, w => w.SignedAsBuilt seen.paymentId tx
  | create data, w => 0 ≤ data.amountUsdCents ∧
      ∀ a, w.db.allocations.find data.paymentId = some a → w.Approved a.batchId
  | reset _ data, _ => 0 ≤ data.amountUsdCents
  | registerLegacy l, w => ∀ a, w.db.allocations.find l.paymentId = some a → w.Approved a.batchId
  | finalize seen .., w => (w.chain.fetchSettlementRecord seen.paymentId .finalized).isSome
  | setStatus _ status, _ => status ≠ .finalized
  | _, _ => True

/-- The command inserts a row only into an approved batch. -/
theorem approved_insert (htrue : c.Truthful w) {row : Payout} (hrow : c.insert = some row)
    {a : WorkerAllocation} (ha : w.db.allocations.find c.target = some a) :
    w.Approved a.batchId := by
  cases c with
  | create => exact htrue.2 a ha
  | registerLegacy => exact htrue a ha
  | _ => contradiction

/-- The amount of the row a command leaves. -/
theorem nonneg_payout (htrue : c.Truthful w) {old : Option Payout} {row : Payout}
    (hold : ∀ o, old = some o → 0 ≤ o.amountBaseUnits) (hrow : c.row old = some row) :
    0 ≤ row.amountBaseUnits := by
  have hcents : ∀ {n : Int}, 0 ≤ n → 0 ≤ centsToUsdcBaseUnits n := fun {n} hn => by
    unfold centsToUsdcBaseUnits
    omega
  cases old with
  | none =>
      cases c with
      | create data =>
          obtain rfl := Option.some.inj hrow
          exact hcents htrue.1
      | registerLegacy l =>
          obtain rfl := Option.some.inj hrow
          exact le_refl 0
      | _ => contradiction
  | some o =>
      obtain rfl := Option.some.inj hrow
      cases c with
      | reset seen data => exact hcents htrue
      | _ => exact hold o rfl

theorem approved_payout (hi : Faithful w) (htrue : c.Truthful w) (h : c.Applies w.db) {row : Payout}
    {a : WorkerAllocation} (hrow : (c.apply w.db).payouts.find p = some row)
    (ha : (c.apply w.db).allocations.find p = some a) :
    ((Write.payout c).apply w).Approved a.batchId := by
  rw [World.Approved, Write.apply_payout_db, PayoutWrite.batches_apply]
  rw [PayoutWrite.find_payouts_apply h] at hrow
  rw [PayoutWrite.find_allocations_apply h] at ha
  by_cases hp : c.target = p
  · subst hp
    rw [if_pos rfl] at hrow ha
    obtain ⟨a₀, ha₀, rfl⟩ := Option.map_eq_some_iff.mp ha
    rw [c.pay_batchId]
    cases hold : w.db.payouts.find c.target with
    | some old => exact hi.approved _ old a₀ hold ha₀
    | none =>
        rw [hold] at hrow
        exact approved_insert htrue hrow ha₀
  · rw [if_neg hp] at hrow ha
    exact hi.approved p row a hrow ha

/-- A USDC payout that a command leaves finalized was so before, or has its
record. -/
theorem record_payout (hi : Faithful w) (htrue : c.Truthful w) {row : Payout}
    (hrow : c.row (w.db.payouts.find c.target) = some row)
    (hmet : c.need.Met (w.db.payouts.find c.target))
    (hrail : row.rail = .usdc) (hs : row.status = .finalized) :
    (w.chain.fetchSettlementRecord c.target .finalized).isSome := by
  cases hold : w.db.payouts.find c.target with
  | none =>
      rw [hold] at hrow
      cases c with
      | create data =>
          obtain rfl := Option.some.inj hrow
          cases hs
      | registerLegacy l =>
          obtain rfl := Option.some.inj hrow
          exact absurd hrail l.rail.2
      | _ => contradiction
  | some old =>
      rw [hold] at hrow hmet
      obtain rfl := Option.some.inj hrow
      cases c with
      | create data => exact absurd hmet (Option.some_ne_none old)
      | reset | claimBuild | expire | claimSubmit | markFailed => cases hs
      | registerLegacy l => exact absurd hrail l.rail.2
      | setStatus seen status => exact absurd hs htrue
      | finalize => exact htrue
      | heal | expireAllocation | noteBroadcastError | countRebroadcast =>
          exact hi.record _ old hold hrail hs

theorem Faithful.apply_payout (hi : Faithful w) (hsafe : c.Applies w.db → c.Safe w)
    (htrue : c.Applies w.db → c.Truthful w) (hcoh : ((Write.payout c).apply w).Coherent) :
    Faithful ((Write.payout c).apply w) := by
  by_cases h : c.Applies w.db
  · refine ⟨hi.followed.apply_payout (hsafe h) h hcoh, fun p sig hsig hsettles => ?_,
      fun p row a => approved_payout hi (htrue h) h, fun p row hrow => ?_,
      fun p row hrow hrail hs => ?_⟩
    · have hbuilt : w.SignedAsBuilt p sig.message := by
        rcases signature_apply h hsig with hold | ⟨seen, now, u, rfl, rfl⟩
        · exact hi.signed p sig hold
        · exact htrue h
      obtain ⟨ix, hix, -⟩ := Option.map_eq_some_iff.mp hsettles
      rw [hix, instructionFor_payout h hsig ((hbuilt hsettles).symm.trans hix)]
    · rw [Write.apply_payout_db, PayoutWrite.find_payouts_apply h] at hrow
      split at hrow
      · exact nonneg_payout (htrue h) (fun o ho => hi.nonneg _ o ho) hrow
      · exact hi.nonneg p row hrow
    · rw [Write.apply_payout_db, PayoutWrite.find_payouts_apply h] at hrow
      by_cases hp : c.target = p
      · subst hp
        rw [if_pos rfl] at hrow
        exact record_payout (w := w) hi (htrue h) hrow h.2 hrail hs
      · rw [if_neg hp] at hrow
        exact hi.record p row hrow hrail hs
  · rwa [Write.apply, PayoutWrite.apply_of_not_applies h]

end Commit

/-- What writes no payout, and keeps approved batches and wallet addresses. -/
theorem Faithful.congr {s t : World} (hi : Faithful s) (hl : s.chain.Later t.chain)
    (hh : t.chain.handed = s.chain.handed) (hp : t.db.payouts = s.db.payouts)
    (hbatch : ∀ p a b, s.db.allocations.find p = some a → s.db.batches.find a.batchId = some b →
      (s.db.payouts.find p).isSome → b.status.Approved →
      ∃ a' b', t.db.allocations.find p = some a' ∧ t.db.batches.find a'.batchId = some b' ∧
        b'.allocationHash = b.allocationHash)
    (happroved : ∀ p row a, t.db.payouts.find p = some row → t.db.allocations.find p = some a →
      t.Approved a.batchId)
    (hwallet : ∀ id wallet, s.db.wallets.find id = some wallet →
      ∃ wallet', t.db.wallets.find id = some wallet' ∧ wallet'.address = wallet.address) :
    Faithful t where
  followed := hi.followed.congr hl hh hp
  signed p sig hsig hsettles := by
    rw [World.attempt_congr hp] at hsig
    have hsigned := hi.signed p sig hsig hsettles
    obtain ⟨ix, hix, -⟩ := Option.map_eq_some_iff.mp hsettles
    rw [hix, eq_comm]
    refine instructionFor_congr (hsigned.symm.trans hix) (fun row hrow => ⟨row, hp ▸ hrow, rfl⟩)
      (fun a b ha hb => ?_) hwallet
    obtain ⟨row, -, -, -, -, -, -, hrow, -⟩ :=
      instructionFor_eq_some.mp (hsigned.symm.trans hix)
    obtain ⟨b', hb', hs⟩ := World.approved_iff.mp (hi.approved p row a hrow ha)
    obtain rfl := Option.some.inj (hb.symm.trans hb')
    exact hbatch p a b ha hb (by rw [hrow]; rfl) hs
  approved := happroved
  nonneg p row hrow := hi.nonneg p row (hp ▸ hrow)
  record p row hrow hrail hs := hl.record (hi.record p row (hp ▸ hrow) hrail hs)

theorem World.Approved.apply_batch {w : World} {c : BatchWrite}
    (hspares : SparesApproved (.batch c) w)
    (hstatus : ∀ id status, c = .rollup id status → status.Approved) {b : BatchId}
    (h : w.Approved b) : ((Write.batch c).apply w).Approved b := by
  obtain ⟨r, hr, hs⟩ := World.approved_iff.mp h
  obtain ⟨r', hr', hs', -⟩ := approved_apply hspares hstatus hr hs
  exact World.approved_iff.mpr ⟨r', hr', hs'⟩

/-- A batch command that spares approved batches. -/
theorem Faithful.apply_batch {w : World} (hi : Faithful w) {c : BatchWrite}
    (hspares : SparesApproved (.batch c) w)
    (hstatus : ∀ id status, c = .rollup id status → status.Approved) :
    Faithful ((Write.batch c).apply w) := by
  refine hi.congr (Write.apply_later _ w) rfl (c.payouts_apply w.db) (fun p a b ha hb hrow hs => ?_)
    (fun p row a hrow ha => ?_) fun id wallet hw => ?_
  · obtain ⟨row, hrow⟩ := Option.isSome_iff_exists.mp hrow
    obtain ⟨a', ha', -, hid, -⟩ := BatchWrite.payoutStatus_apply ha hrow c
    obtain ⟨b', hb', -, himage⟩ := approved_apply hspares hstatus hb hs
    exact ⟨a', b', ha', hid ▸ hb', (Prod.mk.inj (Prod.mk.inj himage).2).2⟩
  · rw [Write.apply_batch_db, BatchWrite.payouts_apply] at hrow
    obtain ⟨a₀, ha₀⟩ := w.db.find_allocation_of_payout hrow
    have happroved := hi.approved p row a₀ hrow ha₀
    obtain ⟨a', ha', -, hid, -⟩ := BatchWrite.payoutStatus_apply ha₀ hrow c
    obtain rfl := Option.some.inj (ha.symm.trans ha')
    rw [hid]
    exact happroved.apply_batch hspares hstatus
  · rw [show ((Write.batch c).apply w).db.wallets = w.db.wallets from
      congrArg Records.wallets (c.records_apply w.db)]
    exact ⟨wallet, hw, rfl⟩

theorem Faithful.apply_record {w : World} (hi : Faithful w) (c : RecordWrite) :
    Faithful ((Write.record c).apply w) :=
  hi.congr (Write.apply_later _ w) rfl (c.payouts_apply w.db)
    (fun p a b ha hb _ _ => ⟨a, b, by simpa using ha, by simpa using hb, rfl⟩)
    (fun p row a hrow ha => by
      rw [World.Approved, Write.apply_record_db, RecordWrite.batches_apply]
      exact hi.approved p row a (by simpa using hrow) (by simpa using ha))
    fun _ _ => RecordWrite.find_wallet_apply

theorem Faithful.apply_env {w : World} (hi : Faithful w) (e : EnvMove) : Faithful (e.apply w) := by
  cases e with
  | chain step =>
      exact hi.congr (Chain.step_later w.chain step) (Chain.step_handed w.chain step) rfl
        (fun p a b ha hb _ _ => ⟨a, b, ha, hb, rfl⟩) hi.approved
        fun _ wallet hw => ⟨wallet, hw, rfl⟩
  | record c => exact hi.apply_record c

theorem Faithful.apply_broadcast {w : World} (hi : Faithful w) {p : AllocationId}
    {tx : SignedTransaction} (hown : tx.SettlesOnly p) (hf : w.CanSettle p tx → w.Follows p tx) :
    Faithful ((Write.broadcast p tx).apply w) where
  followed := hi.followed.apply_broadcast hown hf
  signed := hi.signed
  approved := hi.approved
  nonneg := hi.nonneg
  record p row hrow hrail hs := (Write.apply_later _ w).record (hi.record p row hrow hrail hs)

/-! ## What the venue signs -/

/-- A transaction is signed for its own payment only, with the instruction that
was built. -/
def SignsAsBuilt : Write → World → Prop
  | .payout (.claimSubmit seen tx now u), w =>
      (PayoutWrite.claimSubmit seen tx now u).Applies w.db →
        tx.SettlesOnly seen.paymentId ∧ w.SignedAsBuilt seen.paymentId tx
  | _, _ => True

instance (c : Write) (w : World) : Decidable (SignsAsBuilt c w) :=
  match c with
  | .payout (.claimSubmit ..) =>
      inferInstanceAs
        (Decidable (_ → SignedTransaction.SettlesOnly _ _ ∧ World.SignedAsBuilt _ _ _))
  | .payout (.heal ..) | .payout (.create ..) | .payout (.reset ..) | .payout (.claimBuild ..)
  | .payout (.expire ..) | .payout (.expireAllocation ..) | .payout (.noteBroadcastError ..)
  | .payout (.registerLegacy ..) | .payout (.setStatus ..) | .payout (.finalize ..)
  | .payout (.markFailed ..) | .payout (.countRebroadcast ..) | .batch _ | .record _
  | .broadcast .. => isTrue trivial

/-- The conditions of calls that overlap. -/
def SignsFaithfully (c : Write) (w : World) : Prop :=
  SignsAsBuilt c w ∧ FailsSafely c w ∧ SparesApproved c w

instance (c : Write) (w : World) : Decidable (SignsFaithfully c w) :=
  inferInstanceAs (Decidable (_ ∧ _ ∧ _))

/-- What a command knows makes it truthful, when what was seen is of an earlier
store that kept approved batches. -/
theorem truthful_of_known {D : Discipline World Write}
    {since : AllocationId → World → World → Prop} {w : World} {c : PayoutWrite}
    (hseen : ∀ {P : World → Prop}, Seen D P w → ∃ s, P s ∧ s.chain.Later w.chain ∧
      (∀ b, s.Approved b → w.Approved b) ∧ s.db.KeepsIds w.db)
    (hk : PayoutKnown D since c w) (hok : SignsAsBuilt (.payout c) w) (h : c.Applies w.db) :
    c.Truthful w := by
  have hpayable : ∀ {data : UsdcPayout}, Seen D (Payable data) w → 0 ≤ data.amountUsdCents ∧
      ∀ a, w.db.allocations.find data.paymentId = some a → w.Approved a.batchId := by
    intro data hdata
    obtain ⟨s, ⟨a, b, ha, hb, -, hs, -, hpos, hamount, -⟩, -, happroved, hids⟩ := hseen hdata
    refine ⟨hamount ▸ hpos.le, fun a' ha' => ?_⟩
    rw [hids.batchId ha ha']
    refine happroved _ (World.approved_iff.mpr ⟨b, hb, ?_⟩)
    rcases List.mem_pair.mp hs with hs | hs <;> rw [hs] <;> decide
  cases c with
  | create data => exact hpayable hk
  | reset seen data => exact (hpayable hk.1).1
  | registerLegacy l =>
      obtain ⟨s, ⟨a, b, ha, hb, -, hs, -, -⟩, -, happroved, hids⟩ := hseen hk
      intro a' ha'
      rw [hids.batchId ha ha']
      refine happroved _ (World.approved_iff.mpr ⟨b, hb, ?_⟩)
      rcases List.mem_pair.mp hs with hs | hs <;> rw [hs] <;> decide
  | claimSubmit seen tx now u => exact (hok h).2
  | setStatus seen status =>
      change status ≠ .finalized
      rcases hk.2 with ⟨rfl, -⟩ | ⟨rfl, -⟩ <;> decide
  | finalize seen record slot blockTime =>
      obtain ⟨s, hrecord, hl, -, -⟩ := hseen hk.2.2.1
      exact hl.record (by rw [hrecord]; rfl)
  | _ => trivial

/-! ## Calls that overlap -/

def faithfulness : Discipline World Write where
  apply := Write.apply
  rely s t := following.rely s t ∧ immutability.rely s t ∧ s.db.KeepsIds t.db
  inv := Faithful
  ok := SignsFaithfully

theorem faithfulness_lawful : faithfulness.Lawful where
  refl s := ⟨following_lawful.refl s, immutability_lawful.refl s, Db.KeepsIds.refl s.db⟩
  trans hst htu := ⟨following_lawful.trans hst.1 htu.1, immutability_lawful.trans hst.2.1 htu.2.1,
    hst.2.2.trans htu.2.2⟩

section Overlap

variable {w : World}

theorem faithfulness_earlier {p : AllocationId} {P : World → Prop}
    (h : Recall faithfulness (fun _ => faithfulness.rely) p P w) :
    ∃ s, Followed s ∧ s.chain.Later w.chain ∧ P s := by
  obtain ⟨s, hi, hr, hP⟩ := h
  exact ⟨s, Faithful.followed hi, hr.1.1, hP⟩

theorem faithfulness_seen {P : World → Prop} (h : Seen faithfulness P w) :
    ∃ s, P s ∧ s.chain.Later w.chain ∧ (∀ b, s.Approved b → w.Approved b) ∧
      s.db.KeepsIds w.db := by
  obtain ⟨s, -, hr, hP⟩ := h
  refine ⟨s, hP, hr.1.1, fun b hb => ?_, hr.2.2⟩
  obtain ⟨r, hr₀, hs⟩ := World.approved_iff.mp hb
  obtain ⟨r', hr', hs', -⟩ := hr.2.1.2 b r hr₀ hs
  exact World.approved_iff.mpr ⟨r', hr', hs'⟩

theorem faithfulness_commit [Collation] (c : Write) (s : World) (hi : Faithful s)
    (hok : SignsFaithfully c s) (hk : Known faithfulness (fun _ => faithfulness.rely) c s) :
    faithfulness.rely s (c.apply s) ∧ Faithful (c.apply s) := by
  have hrest : immutability.rely s (c.apply s) ∧ s.db.KeepsIds (c.apply s).db :=
    ⟨immutability_commit c s hok.2.2 hk, c.apply_keepsIds s⟩
  cases c with
  | payout c =>
      have hsafe : c.Applies s.db → c.Safe s :=
        safe_of_known faithfulness_earlier hk hok.2.1
      refine ⟨⟨?_, hrest⟩, hi.apply_payout hsafe (truthful_of_known faithfulness_seen hk hok.1)
        (hi.followed.coherent.apply (c := .payout c) hk)⟩
      by_cases h : c.Applies s.db
      · exact ⟨Chain.Later.refl _, fun p tx hf hc => follows_apply (hsafe h) h hc (hf hc)⟩
      · rw [Write.apply, PayoutWrite.apply_of_not_applies h]
        exact following_lawful.refl s
  | batch c =>
      refine ⟨⟨(following_congr (t := (Write.batch c).apply s) hi.followed (Write.apply_later _ s)
        rfl (c.payouts_apply s.db)).1,
        hrest⟩, hi.apply_batch hok.2.2 ?_⟩
      rintro id status rfl
      exact hk
  | record c =>
      exact ⟨⟨(following_congr (t := (Write.record c).apply s) hi.followed (Write.apply_later _ s)
        rfl (c.payouts_apply s.db)).1,
        hrest⟩, hi.apply_record c⟩
  | broadcast p tx =>
      obtain ⟨hown, hf⟩ := follows_broadcast (D := faithfulness) rfl (fun _ => Faithful.followed)
        (fun _ _ (hok : SignsFaithfully _ _) => hok.2.1) (fun _ _ hr => hr.1) hk
      exact ⟨⟨⟨Write.apply_later _ s, fun _ _ => id⟩, hrest⟩, hi.apply_broadcast hown hf⟩

end Overlap

theorem faithfulness_env (e : EnvMove) (s : World) (hi : Faithful s) :
    faithfulness.rely s (e.apply s) ∧ Faithful (e.apply s) := by
  refine ⟨⟨(following_congr hi.followed (e.apply_later s) (e.handed_apply s)
    (e.payouts_apply s)).1, immutability_congr (e.apply_later s) (e.batches_apply s), ?_⟩,
    hi.apply_env e⟩
  cases e with
  | chain step => exact Db.KeepsIds.refl s.db
  | record c => exact Write.apply_keepsIds (.record c) s

theorem faithfulness_sound [Collation] :
    service.Sound (fun _ _ => True) faithfulness (Known faithfulness fun _ => faithfulness.rely) :=
  service_sound faithfulness_lawful rfl (fun h => h.1.1) faithfulness_commit
    fun e s hi _ => faithfulness_env e s hi

/-! ## Calls that do not overlap -/

section Alone

variable {ok : Write → World → Prop} {w : World}

theorem alone_earlier {p : AllocationId} {P : World → Prop}
    (h : Recall (.alone Write.apply Faithful ok) Kept p P w) :
    ∃ s, Followed s ∧ s.chain.Later w.chain ∧ P s := by
  obtain ⟨s, hi, hkept, hP⟩ := h
  exact ⟨s, Faithful.followed hi, hkept.later, hP⟩

theorem alone_seen {inv : World → Prop} {P : World → Prop}
    (h : Seen (.alone Write.apply inv ok) P w) :
    ∃ s, P s ∧ s.chain.Later w.chain ∧ (∀ b, s.Approved b → w.Approved b) ∧
      s.db.KeepsIds w.db :=
  ⟨w, h.still, Chain.Later.refl _, fun _ => id, Db.KeepsIds.refl _⟩

/-- What the worker observed too early is still right when nothing happens in
between. -/
theorem stillSo_alone {inv : World → Prop} {seen : Payout} {cause : FailCause}
    (hk : CauseKnown (.alone Write.apply inv ok) Kept seen cause w) : cause.StillSo seen w := by
  cases cause with
  | dropped =>
      obtain ⟨sig, n, hsig, -, ⟨s, -, hkept, hnone⟩, -⟩ := hk
      intro sig' hsig' st hst
      obtain rfl := Option.some.inj (hsig.symm.trans hsig')
      rw [Chain.getSignatureStatus, hkept.included] at hst
      rw [Chain.getSignatureStatus, Option.map_eq_none_iff] at hnone
      rw [hnone] at hst
      contradiction
  | finalizedWithoutSettlement =>
      obtain ⟨sig, -, -, s, -, hkept, hnone⟩ := hk
      rw [FailCause.StillSo, ← hnone, Chain.fetchSettlementRecord, Chain.fetchSettlementRecord,
        Chain.level, Chain.level, hkept.included, hkept.finalized]
  | onchainError | staleDropped | forkDropped | legacyAttemptTimeout => trivial

theorem failsSafely_alone (hi : Faithful w) {c : PayoutWrite}
    (hk : PayoutKnown (.alone Write.apply Faithful ok) Kept c w)
    (hok : SignsAsBuilt (.payout c) w) : FailsSafely (.payout c) w := by
  cases c with
  | markFailed seen cause =>
      refine ⟨fun sig hsig => ?_, stillSo_alone hk.2.2⟩
      obtain ⟨row, hrow, hattempt, -⟩ := hk.1.row
      rw [World.attempt_of_find hrow, hattempt] at hsig
      exact hsig
  | reset seen data =>
      refine hi.followed.noneCanSettle hk.2.1.still ?_
      rw [hk.2.2.1]
      decide
  | claimSubmit seen tx now u =>
      refine fun h => ⟨(hok h).1, fun _ => ?_⟩
      have hrow : RowIs seen w := hk.1.still
      rw [World.attempt_of_find hrow]
      refine (hi.followed.coherent _ _ hrow).valid.trans ?_
      rw [hk.2.2, Option.map_some]
  | _ => trivial

theorem sparesApproved_alone [Collation] {inv : World → Prop} {c : BatchWrite}
    (hk : BatchKnown (.alone Write.apply inv ok) Kept c w) : SparesApproved (.batch c) w := by
  cases c with
  | saveCalculation seen c =>
      intro _ happroved
      obtain ⟨r, hr, hs⟩ := World.approved_iff.mp happroved
      have hseen : seen = some r := hk.1.still.symm.trans hr
      exact (hk.2.1 r hseen).not_approved hs
  | reject seen u reason =>
      intro happroved
      obtain ⟨r, hr, hs⟩ := World.approved_iff.mp happroved
      have hseen : w.db.batches.find seen.id = some seen := hk.1.still
      obtain rfl := Option.some.inj (hseen.symm.trans hr)
      rcases List.mem_pair.mp hk.2 with h | h <;> rw [h] at hs <;> revert hs <;> decide
  | _ => trivial

/-- A transaction that is broadcast is followed. -/
theorem follows_alone [Collation] (hi : Faithful w) {p : AllocationId} {tx : SignedTransaction}
    (hk : Known (.alone Write.apply Faithful SignsAsBuilt) Kept (.broadcast p tx) w) :
    tx.SettlesOnly p ∧ (w.CanSettle p tx → w.Follows p tx) := by
  rcases hk with ⟨seen, now, u, rfl, s, hs, hok, hk, h, rfl⟩ |
    ⟨seen, rfl, -, -, htx, s, hs, hkept, hrow⟩
  · have hsafe := (failsSafely_alone hs hk hok : FailsSafely _ s) h
    exact ⟨hsafe.1, fun hc => hs.followed.follows_claimSubmit hsafe h hc⟩
  · have hsig : (w.attempt seen.paymentId).txSignature = some tx.signature := by
      obtain ⟨row, hrow', hattempt, -⟩ := hkept.row seen hrow
      rw [World.attempt_of_find hrow', hattempt]
      exact (hs.followed.coherent _ _ hrow).signature htx
    exact ⟨hi.followed.ownHeld _ _ hsig, hi.followed.held _ _ hsig⟩

theorem faithful_alone [Collation] (c : Write) (s : World) (hi : Faithful s)
    (hok : SignsAsBuilt c s)
    (hk : Known (.alone Write.apply Faithful SignsAsBuilt) Kept c s) : Faithful (c.apply s) := by
  cases c with
  | payout c =>
      exact hi.apply_payout (safe_of_known alone_earlier hk (failsSafely_alone hi hk hok))
        (truthful_of_known alone_seen hk hok) (hi.followed.coherent.apply (c := .payout c) hk)
  | batch c =>
      refine hi.apply_batch (sparesApproved_alone hk) ?_
      rintro id status rfl
      exact hk
  | record c => exact hi.apply_record c
  | broadcast p tx =>
      obtain ⟨hown, hf⟩ := follows_alone hi hk
      exact hi.apply_broadcast hown hf

end Alone

/-! ## The result -/

/-- Every finalized USDC payout has a finalized settlement record, which agrees
with the payout, its wallet, its venue and its approved batch. -/
def World.Truthful (w : World) : Prop :=
  ∀ p row, w.db.payouts.find p = some row → row.rail = .usdc → row.status = .finalized →
    ∃ r a b id wallet, w.chain.fetchSettlementRecord p .finalized = some r ∧
      w.db.allocations.find p = some a ∧ w.db.batches.find a.batchId = some b ∧
      b.status.Approved ∧ row.walletId = some id ∧ w.db.wallets.find id = some wallet ∧
      (r.amount : Int) = row.amountBaseUnits ∧ wallet.address = .key r.workerWallet ∧
      r.venue = deriveVenuePda row.venueId ∧ b.allocationHash = some r.allocationHash

theorem Faithful.truthful {w : World} (hi : Faithful w) : w.Truthful := by
  intro p row hrow hrail hs
  obtain ⟨r, hr⟩ := Option.isSome_iff_exists.mp (hi.record p row hrow hrail hs)
  obtain ⟨ix, hix, hamount, hworker, hvenue, hhash⟩ := hi.record_eq hr
  obtain ⟨row', a, b, id, wallet, hash, key, hrow', ha, hb, hid, hw, hbhash, haddress, rfl⟩ :=
    instructionFor_eq_some.mp hix
  obtain rfl := Option.some.inj (hrow.symm.trans hrow')
  obtain ⟨b', hb', happroved⟩ := World.approved_iff.mp (hi.approved p row a hrow ha)
  obtain rfl := Option.some.inj (hb.symm.trans hb')
  refine ⟨r, a, b, id, wallet, hr, ha, hb, happroved, hid, hw, ?_, ?_, hvenue, ?_⟩
  · rw [hamount]
    exact Int.toNat_of_nonneg (hi.nonneg p row hrow)
  · rw [haddress, hworker]
    rfl
  · rw [hbhash, hhash]
    rfl

/-- **A finalized USDC payout is an image of the chain**, in every run of calls
that overlap and meet the conditions, and in every run of one call at a time in
which the venue signs what was built. -/
theorem finalized_truthful [Collation] {s : World} (hs : s.NoPayouts) :
    (∀ ms : List (Move Call EnvMove),
      service.Respects SignsFaithfully (fun _ _ => True) ms (Config.start s) →
        (service.exec ms (Config.start s)).store.Truthful) ∧
    ∀ as : List (Act Call EnvMove), service.Admits SignsAsBuilt (fun _ _ => True) as s →
      (service.performAll as s).Truthful := by
  constructor
  · intro ms hms
    have hend : Faithful (service.exec ms (Config.start s)).store :=
      faithfulness_sound.exec_inv hs.faithful hms
    exact hend.truthful
  · intro as has
    have hend : Faithful (service.performAll as s) :=
      alone_inv faithful_alone (fun e _ hi _ => hi.apply_env e) hs.faithful has
    exact hend.truthful

section Example

open Scenario

/-- The transaction is broadcast and lands; the worker finalizes the payout. -/
def settledAndConfirmed (tx : SignedTransaction) : List (Act Call EnvMove) :=
  approved ++ [.call create 20, .call build 20, .call (submit tx) 20] ++ settles.map .env ++
    [.call (confirmation tx) 20]

theorem finalized_truthful_confirmed :
    ((@service byCodePoint).exec (moves 0 (settledAndConfirmed firstTx))
      (Config.start World.empty)).store.Truthful ∧
    ((@service byCodePoint).performAll (settledAndConfirmed firstTx) World.empty).Truthful :=
  ⟨(@finalized_truthful byCodePoint World.empty ⟨rfl, rfl⟩).1
      (moves 0 (settledAndConfirmed firstTx)) (by decide +kernel),
    (@finalized_truthful byCodePoint World.empty ⟨rfl, rfl⟩).2 (settledAndConfirmed firstTx)
      (by decide +kernel)⟩

/-- The venue signs 1 base unit to a wallet of its own. -/
def otherTx : SignedTransaction :=
  { firstTx with settlement := some { settlement with amount := 1, workerWallet := venueKey } }

/-- The payout of 5,000,000 base units is finalized and the allocation paid; the
record says 1, to another wallet. -/
theorem finalized_untruthful :
    let t := (@service byCodePoint).performAll (settledAndConfirmed otherTx) World.empty
    (t.db.payouts.find 1).map (fun row => (row.status, row.rail, row.amountBaseUnits)) =
        some (.finalized, .usdc, 5000000) ∧
      (t.db.allocations.find 1).map WorkerAllocation.payoutStatus = some .paid ∧
      (t.chain.fetchSettlementRecord 1 .finalized).map (fun r => (r.amount, r.workerWallet)) =
        some (1, venueKey) := by
  decide +kernel

end Example

end ServeProof
