import ServeProof.Onchain.Backing
import ServeProof.Scenario

/-!
# ServeProof.Settlements

The service and the settlement program in one run.

`Chain` is the chain as the service sees it: a transaction that is in a block has an
error or has none.  Here the program decides which.  A transaction that goes into a
block is executed on the ledger of the program, between the moves of others.

* `Joint.run` -- calls of the service, blocks, and moves of others on the ledger;
* `Wire.Executed` -- every settlement in a block without an error was executed;
* `record_shown` -- the record that the service reads is the account of the program.
-/

namespace ServeProof

open Interleave
open Onchain (Bytes32 Ledger)

/-! ## Transactions on the chain -/

/-- How hashes, keys and transactions look on the chain: the bytes of a hash, the
address of a key, the accounts that a transaction names, the keys that signed it. -/
structure Wire where
  bytes : Digest → Bytes32
  address : Pubkey → Onchain.Pubkey
  accounts : SignedTransaction → Onchain.SettlePayout
  signers : SignedTransaction → List Nat
  errorText : Onchain.Error → String
  bytes_zero : bytes .zero = Onchain.zeroHash
  venue_accounts : ∀ tx ix, tx.settlement = some ix →
    (accounts tx).venue = .venue (bytes ix.venue.venueIdHash)
  workerWallet_accounts : ∀ tx ix, tx.settlement = some ix →
    (accounts tx).workerWallet = address ix.workerWallet

namespace Wire

variable (wire : Wire)

/-- The settlement of a transaction, as the program gets it. -/
def instruction (tx : SignedTransaction) (ix : SettlePayout) (now : Nat) : Onchain.Move :=
  .instruction (wire.signers tx) now
    (.settlePayout (wire.accounts tx) (wire.bytes ix.paymentIdHash) (wire.bytes ix.allocationHash)
      ix.amount)

/-- What a transaction executes. -/
def moves (tx : SignedTransaction) (now : Nat) : List Onchain.Move :=
  (tx.settlement.map fun ix => wire.instruction tx ix now).toList

/-- The error that the program ends the transaction with. -/
def verdict (tx : SignedTransaction) (now : Nat) (s : Ledger) : Option String :=
  match tx.settlement with
  | none => none
  | some ix =>
      match (wire.instruction tx ix now).exec s with
      | .ok _ => none
      | .error e => some (wire.errorText e)

theorem verdict_eq_none {tx : SignedTransaction} {ix : SettlePayout}
    (hix : tx.settlement = some ix) {now : Nat} {s : Ledger} :
    wire.verdict tx now s = none ↔ (wire.instruction tx ix now).Succeeds s := by
  rw [verdict, hix]
  dsimp only
  cases h : (wire.instruction tx ix now).exec s with
  | ok t => exact iff_of_true rfl ⟨t, h⟩
  | error e =>
      refine iff_of_false (Option.some_ne_none _) ?_
      rintro ⟨t, ht⟩
      cases h.symm.trans ht

/-- What an account says of a settlement, from the instruction. -/
def terms (ix : SettlePayout) (settledAt : Nat) :
    Bytes32 × Bytes32 × Onchain.Pubkey × Onchain.Pubkey × Nat × Int :=
  (wire.bytes ix.paymentIdHash, wire.bytes ix.allocationHash,
    .venue (wire.bytes ix.venue.venueIdHash), wire.address ix.workerWallet, ix.amount, settledAt)

/-- What an account says of a settlement, from what the service reads. -/
def viewTerms (r : SettlementRecordView) :
    Bytes32 × Bytes32 × Onchain.Pubkey × Onchain.Pubkey × Nat × Int :=
  (wire.bytes r.paymentIdHash, wire.bytes r.allocationHash,
    .venue (wire.bytes r.venue.venueIdHash), wire.address r.workerWallet, r.amount, r.settledAt)

end Wire

/-! ## What the client library builds -/

structure ServeproofPdas where
  config : Onchain.Pubkey
  venue : Onchain.Pubkey
  vaultAuthority : Onchain.Pubkey
  venueVault : Onchain.Pubkey

def deriveVenuePdas (venueIdHash : Bytes32) (usdcMint : Onchain.Pubkey) : ServeproofPdas where
  config := .config
  venue := .venue venueIdHash
  vaultAuthority := .vaultAuthority (.venue venueIdHash)
  venueVault := Onchain.vault usdcMint (.venue venueIdHash)

/-- The accounts of a `settle_payout` of `buildSettlePayoutTx`: the four that it names, and
those that the client resolves by the seeds of the program. -/
def settleAccounts (bytes : Digest → Bytes32) (venueAuthority usdcMint : Onchain.Pubkey)
    (ix : SettlePayout) : Onchain.SettlePayout :=
  let pdas := deriveVenuePdas (bytes ix.venue.venueIdHash) usdcMint
  { config := pdas.config
    venue := pdas.venue
    venueAuthority := venueAuthority
    vaultAuthority := pdas.vaultAuthority
    venueVault := pdas.venueVault
    workerWallet := .key ix.workerWallet
    workerTokenAccount := .associatedToken usdcMint (.key ix.workerWallet)
    settlementRecord := .settlement (bytes ix.paymentIdHash)
    usdcMint := usdcMint }

/-- Transactions with the accounts that the client library names, signed by the payer of
their fee alone. -/
def Wire.built (bytes : Digest → Bytes32) (hzero : bytes .zero = Onchain.zeroHash)
    (usdcMint : Onchain.Pubkey) : Wire where
  bytes := bytes
  address := .key
  accounts tx :=
    settleAccounts bytes (.key tx.feePayer) usdcMint
      (tx.settlement.getD ⟨.zero, .zero, 0, ⟨.zero⟩, 0⟩)
  signers tx := [tx.feePayer]
  errorText _ := "InstructionError"
  bytes_zero := hzero
  venue_accounts tx ix hix := by rw [hix]; rfl
  workerWallet_accounts tx ix hix := by rw [hix]; rfl

/-! ## Runs -/

/-- A move of anybody on the ledger, or a move of the service and its surroundings. -/
inductive JointMove where
  | program (m : Onchain.Move)
  | service (m : Move Call EnvMove)

/-- The service with its calls in progress, and what the program has been sent. -/
structure Joint where
  config : Config World Write ApiError
  history : List Onchain.Move

namespace Joint

def start (w : World) : Joint := ⟨Config.start w, []⟩

def world (j : Joint) : World := j.config.store

/-- The accounts of the program. -/
def ledger (j : Joint) : Ledger := Onchain.Ledger.run j.history ∅

end Joint

namespace Wire

variable (wire : Wire)

/-- What a move becomes when the program executes what goes into a block, and what is
executed.  A transaction that something else makes fail is not executed. -/
def execute (c : Chain) (s : Ledger) : Move Call EnvMove → Move Call EnvMove × List Onchain.Move
  | .env (.chain (.includeTx n none settledAt blockTime)) =>
      match c.handed[n]? with
      | some (_, tx) =>
          if c.Includable tx then
            (.env (.chain (.includeTx n (wire.verdict tx settledAt s) settledAt blockTime)),
              wire.moves tx settledAt)
          else (.env (.chain (.includeTx n none settledAt blockTime)), [])
      | none => (.env (.chain (.includeTx n none settledAt blockTime)), [])
  | m => (m, [])

section Execute

variable {wire : Wire} {c : Chain} {s : Ledger}

theorem execute_land {n : Nat} {x : AllocationId × SignedTransaction} (hn : c.handed[n]? = some x)
    (hx : c.Includable x.2) (settledAt : Nat) (blockTime : Option Nat) :
    wire.execute c s (.env (.chain (.includeTx n none settledAt blockTime))) =
      (.env (.chain (.includeTx n (wire.verdict x.2 settledAt s) settledAt blockTime)),
        wire.moves x.2 settledAt) := by
  rw [execute, hn]
  exact if_pos hx

theorem execute_of_not {n : Nat} (hn : ∀ x, c.handed[n]? = some x → ¬ c.Includable x.2)
    (settledAt : Nat) (blockTime : Option Nat) :
    wire.execute c s (.env (.chain (.includeTx n none settledAt blockTime))) =
      (.env (.chain (.includeTx n none settledAt blockTime)), []) := by
  rw [execute]
  cases h : c.handed[n]? with
  | none => rfl
  | some x => exact if_neg (hn x h)

theorem execute_other {m : Move Call EnvMove}
    (hm : ∀ n settledAt blockTime, m ≠ .env (.chain (.includeTx n none settledAt blockTime))) :
    wire.execute c s m = (m, []) := by
  rw [execute]
  exact hm

end Execute

end Wire

namespace Joint

variable [Collation] (wire : Wire)

def move : JointMove → Joint → Joint
  | .program m, j => { j with history := j.history ++ [m] }
  | .service m, j =>
      { config := service.move (wire.execute j.world.chain j.ledger m).1 j.config
        history := j.history ++ (wire.execute j.world.chain j.ledger m).2 }

def run (ms : List JointMove) (j : Joint) : Joint := ms.foldl (fun j m => j.move wire m) j

/-- What a run is to the service. -/
def calls : List JointMove → Joint → List (Move Call EnvMove)
  | [], _ => []
  | .program m :: ms, j => calls ms (j.move wire (.program m))
  | .service m :: ms, j =>
      (wire.execute j.world.chain j.ledger m).1 :: calls ms (j.move wire (.service m))

@[simp] theorem run_nil (j : Joint) : j.run wire [] = j := rfl

@[simp] theorem run_cons (m : JointMove) (ms : List JointMove) (j : Joint) :
    j.run wire (m :: ms) = (j.move wire m).run wire ms := rfl

/-- A run is a run of the service, with moves of others on the ledger. -/
theorem run_config (ms : List JointMove) (j : Joint) :
    (j.run wire ms).config = service.exec (j.calls wire ms) j.config := by
  induction ms generalizing j with
  | nil => rfl
  | cons m ms ih =>
      rw [run_cons, ih]
      cases m with
      | program m => rfl
      | service m => rfl

end Joint

/-! ## What a move does to the blocks -/

/-- Only an inclusion changes what is in the blocks. -/
theorem included_move [Collation] {m : Move Call EnvMove} (c : Config World Write ApiError)
    (hm : ∀ n err settledAt blockTime, m ≠ .env (.chain (.includeTx n err settledAt blockTime))) :
    (service.move m c).store.chain.included = c.store.chain.included := by
  obtain hsame | ⟨e, rfl, he⟩ | ⟨n, k, next, -, -, hk⟩ := service.store_move m c
  · rw [hsame]
  · rw [he]
    cases e with
    | record k => rfl
    | chain step =>
        cases step with
        | includeTx n err settledAt blockTime => exact absurd rfl (hm n err settledAt blockTime)
        | produceBlock => rfl
        | confirm => change (Chain.step .confirm _).included = _; rw [Chain.step]; split <;> rfl
        | finalize => change (Chain.step .finalize _).included = _; rw [Chain.step]; split <;> rfl
        | newBlockhash b => rfl
  · rw [hk]
    cases k with
    | payout k => rfl
    | batch k => rfl
    | record k => rfl
    | broadcast p tx => rfl

theorem Chain.included_includeTx {c : Chain} {n : Nat} {x : AllocationId × SignedTransaction}
    (hn : c.handed[n]? = some x) (hx : c.Includable x.2) (err : Option String) (settledAt : Nat)
    (blockTime : Option Nat) :
    (c.step (.includeTx n err settledAt blockTime)).included =
      c.included.set (c.inclusion x.2 err settledAt blockTime) := by
  rw [step]
  split
  · next h => rw [hn] at h; cases h
  · next p tx h =>
    rw [hn] at h
    cases h
    rw [dif_pos hx]
    rfl

theorem Chain.included_includeTx_of_not {c : Chain} {n : Nat}
    (hn : ∀ x, c.handed[n]? = some x → ¬ c.Includable x.2) (err : Option String) (settledAt : Nat)
    (blockTime : Option Nat) :
    (c.step (.includeTx n err settledAt blockTime)).included = c.included := by
  rw [step]
  split
  · rfl
  · next p tx h =>
    rw [dif_neg (hn (p, tx) h)]

/-! ## What is in the blocks was executed -/

namespace Wire

variable {wire : Wire} {c : Chain} {history : List Onchain.Move}

/-- Every settlement in a block without an error was executed, each for a hash of its
own. -/
structure Executed (wire : Wire) (c : Chain) (history : List Onchain.Move) : Prop where
  succeeds : ∀ i ∈ c.included.rows, i.err = none → ∀ ix, i.tx.settlement = some ix →
    ∃ before after, history = before ++ wire.instruction i.tx ix i.settledAt :: after ∧
      (wire.instruction i.tx ix i.settledAt).Succeeds (Onchain.Ledger.run before ∅)
  distinct : ∀ i ∈ c.included.rows, ∀ i' ∈ c.included.rows, i.err = none → i'.err = none →
    ∀ ix ix', i.tx.settlement = some ix → i'.tx.settlement = some ix' →
      wire.bytes ix.paymentIdHash = wire.bytes ix'.paymentIdHash → i = i'

/-- What was executed stays so. -/
theorem Executed.append (h : wire.Executed c history) {c' : Chain}
    (hc : c'.included = c.included) (ms : List Onchain.Move) :
    wire.Executed c' (history ++ ms) where
  succeeds i hi herr ix hix := by
    rw [hc] at hi
    obtain ⟨before, after, rfl, hok⟩ := h.succeeds i hi herr ix hix
    exact ⟨before, after ++ ms, by simp, hok⟩
  distinct := by
    rw [hc]
    exact h.distinct

/-- The account of a settlement in a block. -/
theorem Executed.record (h : wire.Executed c history) {i : Inclusion} (hi : i ∈ c.included.rows)
    (herr : i.err = none) {ix : SettlePayout} (hix : i.tx.settlement = some ix) :
    ∃ r, (Onchain.Ledger.run history ∅).record? (wire.bytes ix.paymentIdHash) = some r ∧
      r.terms = wire.terms ix i.settledAt := by
  obtain ⟨before, after, rfl, t, ht⟩ := h.succeeds i hi herr ix hix
  have hcreated : (Onchain.Ledger.run (before ++ [wire.instruction i.tx ix i.settledAt]) ∅).record?
      (wire.bytes ix.paymentIdHash) = some ((wire.accounts i.tx).record
        (wire.bytes ix.paymentIdHash) (wire.bytes ix.allocationHash) ix.amount i.settledAt) := by
    rw [Onchain.Ledger.run_append, Onchain.Ledger.run_cons, Onchain.Move.next_of_ok ht]
    exact (Onchain.settlePayout_creates (Onchain.Ledger.run_wellFormed before) ht).2
  obtain ⟨r, hr, hterms⟩ := Onchain.record_kept _ after hcreated
  rw [List.append_assoc, List.singleton_append] at hr
  refine ⟨r, hr, hterms.trans ?_⟩
  rw [Onchain.SettlementRecord.terms, Onchain.SettlePayout.record, terms,
    wire.venue_accounts i.tx ix hix, wire.workerWallet_accounts i.tx ix hix]

/-- A settlement that the program accepts has the hash of none in the blocks. -/
theorem Executed.fresh (h : wire.Executed c history) {tx : SignedTransaction} {ix : SettlePayout}
    (hix : tx.settlement = some ix) {now : Nat}
    (hok : wire.verdict tx now (Onchain.Ledger.run history ∅) = none) {i : Inclusion}
    (hi : i ∈ c.included.rows) (herr : i.err = none) {ix' : SettlePayout}
    (hix' : i.tx.settlement = some ix') :
    wire.bytes ix'.paymentIdHash ≠ wire.bytes ix.paymentIdHash := by
  intro hhash
  obtain ⟨t, hexec⟩ := (wire.verdict_eq_none hix).mp hok
  obtain ⟨r, hr, -⟩ := h.record hi herr hix'
  have hs := Onchain.Ledger.run_wellFormed history
  rw [hhash, (Onchain.settlePayout_creates hs hexec).1] at hr
  cases hr

/-- What the program accepts, the chain of the service does not reject. -/
theorem Executed.settlePayoutError (h : wire.Executed c history) {tx : SignedTransaction}
    {now : Nat} (hok : wire.verdict tx now (Onchain.Ledger.run history ∅) = none) :
    c.settlePayoutError tx = none := by
  rw [Chain.settlePayoutError]
  cases hix : tx.settlement with
  | none => rfl
  | some ix =>
      dsimp only
      have hfresh : ¬ ∃ i ∈ c.included.rows, i.Records ix.paymentIdHash := by
        rintro ⟨i, hi, herr, hpayment⟩
        obtain ⟨ix', hix', hhash⟩ := Option.map_eq_some_iff.mp hpayment
        exact h.fresh hix hok hi herr hix' (by rw [hhash])
      obtain ⟨t, hexec⟩ := (wire.verdict_eq_none hix).mp hok
      obtain ⟨hacc, -⟩ :=
        (Onchain.Ledger.settlePayout_ok_iff (Onchain.Ledger.run_wellFormed history)).mp hexec
      have hallocation : ix.allocationHash ≠ .zero := fun hzero =>
        hacc.allocationHash_ne (by rw [hzero, wire.bytes_zero])
      rw [if_neg hfresh, if_neg hallocation, if_neg hacc.amount_pos.ne']

/-- The inclusion of a transaction that the program executes has the error of the program. -/
theorem Executed.inclusion (h : wire.Executed c history) (tx : SignedTransaction) (now : Nat)
    (blockTime : Option Nat) :
    (c.inclusion tx (wire.verdict tx now (Onchain.Ledger.run history ∅)) now blockTime).err =
      wire.verdict tx now (Onchain.Ledger.run history ∅) := by
  change (wire.verdict tx now _).or (c.settlePayoutError tx) = _
  cases hverdict : wire.verdict tx now (Onchain.Ledger.run history ∅) with
  | none => rw [h.settlePayoutError hverdict]; rfl
  | some e => rfl

/-- A transaction is executed, and goes into the block being filled. -/
theorem Executed.land (h : wire.Executed c history) {n : Nat}
    {x : AllocationId × SignedTransaction} (hn : c.handed[n]? = some x) (hx : c.Includable x.2)
    (now : Nat) (blockTime : Option Nat) :
    wire.Executed
      (c.step (.includeTx n (wire.verdict x.2 now (Onchain.Ledger.run history ∅)) now blockTime))
      (history ++ wire.moves x.2 now) where
  succeeds i hi herr ix hix := by
    rw [Chain.included_includeTx hn hx] at hi
    rcases c.included.mem_set.mp hi with rfl | ⟨hi, -⟩
    · have hsettlement : x.2.settlement = some ix := hix
      rw [h.inclusion] at herr
      refine ⟨history, [], by rw [moves, hsettlement]; rfl, ?_⟩
      exact (wire.verdict_eq_none hsettlement).mp herr
    · exact (h.append rfl _).succeeds i hi herr ix hix
  distinct i hi i' hi' herr herr' ix ix' hix hix' hhash := by
    rw [Chain.included_includeTx hn hx] at hi hi'
    rcases c.included.mem_set.mp hi with rfl | ⟨hi, -⟩ <;>
      rcases c.included.mem_set.mp hi' with rfl | ⟨hi', -⟩
    · rfl
    · rw [h.inclusion] at herr
      exact absurd hhash.symm (h.fresh hix herr hi' herr' hix')
    · rw [h.inclusion] at herr'
      exact absurd hhash (h.fresh hix' herr' hi herr hix)
    · exact h.distinct i hi i' hi' herr herr' ix ix' hix hix' hhash

end Wire

/-- A transaction that something else makes fail goes into the block being filled. -/
theorem Wire.Executed.fail {wire : Wire} {c : Chain} {history : List Onchain.Move}
    (h : wire.Executed c history) (n : Nat) (e : String) (settledAt : Nat)
    (blockTime : Option Nat) :
    wire.Executed (c.step (.includeTx n (some e) settledAt blockTime)) history := by
  by_cases hn : ∃ x, c.handed[n]? = some x ∧ c.Includable x.2
  · obtain ⟨x, hn, hx⟩ := hn
    have hold {i : Inclusion} (herr : i.err = none)
        (hi : i ∈ (c.step (.includeTx n (some e) settledAt blockTime)).included.rows) :
        i ∈ c.included.rows := by
      rw [Chain.included_includeTx hn hx] at hi
      rcases c.included.mem_set.mp hi with rfl | ⟨hi, -⟩
      · cases herr
      · exact hi
    exact
      { succeeds := fun i hi herr => h.succeeds i (hold herr hi) herr
        distinct := fun i hi i' hi' herr herr' =>
          h.distinct i (hold herr hi) i' (hold herr' hi') herr herr' }
  · have hnot (x) (hx : c.handed[n]? = some x) : ¬ c.Includable x.2 := fun hok => hn ⟨x, hx, hok⟩
    have hsame := Chain.included_includeTx_of_not hnot (some e) settledAt blockTime
    simpa using h.append hsame []

namespace Joint

variable [Collation] {wire : Wire}

omit [Collation] in
theorem executed_start {w : World} (hw : w.chain.handed = []) :
    wire.Executed (start w).world.chain (start w).history := by
  have hnone (i) : i ∉ w.chain.included.rows := by
    intro hi
    obtain ⟨p, hp⟩ := w.chain.included_handed i hi
    rw [hw] at hp
    cases hp
  exact
    { succeeds := fun i hi => absurd hi (hnone i)
      distinct := fun i hi => absurd hi (hnone i) }

/-- One move keeps the blocks executed. -/
theorem executed_move {j : Joint} (h : wire.Executed j.world.chain j.history) (m : JointMove) :
    wire.Executed (j.move wire m).world.chain (j.move wire m).history := by
  cases m with
  | program m => exact h.append rfl [m]
  | service m =>
      have hskip (hsame : wire.execute j.world.chain j.ledger m = (m, []))
          (hm : wire.Executed (service.move m j.config).store.chain j.history) :
          wire.Executed (j.move wire (.service m)).world.chain
            (j.move wire (.service m)).history := by
        rw [move, hsame, List.append_nil]
        exact hm
      by_cases hm : ∃ n err settledAt blockTime,
          m = .env (.chain (.includeTx n err settledAt blockTime))
      · obtain ⟨n, err, settledAt, blockTime, rfl⟩ := hm
        cases err with
        | some e => exact hskip rfl (h.fail n e settledAt blockTime)
        | none =>
            by_cases hn : ∃ x, j.world.chain.handed[n]? = some x ∧ j.world.chain.Includable x.2
            · obtain ⟨x, hn, hx⟩ := hn
              rw [move, Wire.execute_land hn hx]
              exact h.land hn hx settledAt blockTime
            · have hnot (x) (hx : j.world.chain.handed[n]? = some x) :
                  ¬ j.world.chain.Includable x.2 := fun hok => hn ⟨x, hx, hok⟩
              refine hskip (Wire.execute_of_not hnot settledAt blockTime) ?_
              have hsame := Chain.included_includeTx_of_not hnot none settledAt blockTime
              have hend := h.append hsame []
              rwa [List.append_nil] at hend
      · have hsame : (service.move m j.config).store.chain.included = j.world.chain.included :=
          included_move j.config fun n err settledAt blockTime heq =>
            hm ⟨n, err, settledAt, blockTime, heq⟩
        refine hskip (Wire.execute_other fun n settledAt blockTime heq =>
          hm ⟨n, none, settledAt, blockTime, heq⟩) ?_
        have hend := h.append hsame []
        rwa [List.append_nil] at hend

/-- In every run, what is in the blocks was executed. -/
theorem executed_run {j : Joint} (h : wire.Executed j.world.chain j.history)
    (ms : List JointMove) : wire.Executed (j.run wire ms).world.chain (j.run wire ms).history := by
  induction ms generalizing j with
  | nil => exact h
  | cons m ms ih => exact ih (executed_move h m)

end Joint

/-! ## What the program has recorded is in the blocks -/

instance Onchain.Move.decidableSettles (hash : Bytes32) (m : Onchain.Move) (s : Ledger) :
    Decidable (m.Settles hash s) :=
  match m with
  | .instruction signers now (.settlePayout ctx hash' allocationHash amount) =>
      decidable_of_iff (hash' = hash ∧ (Onchain.Move.instruction signers now
          (.settlePayout ctx hash' allocationHash amount)).Succeeds s)
        (and_congr_left' ⟨fun h => ⟨signers, now, ctx, allocationHash, amount, by rw [h]⟩, by
          rintro ⟨_, _, _, _, _, h⟩
          cases h
          rfl⟩)
  | .instruction _ _ (.initializeConfig _) | .instruction _ _ (.registerVenue ..)
  | .instruction _ _ (.initializeVenueVault _) | .instruction _ _ (.markCorrected ..)
  | .instruction _ _ (.pause _) | .instruction _ _ (.unpause _) | .createMint ..
  | .createTokenAccount .. | .createAssociatedTokenAccount .. | .deposit .. | .withdraw .. =>
      isFalse (by rintro ⟨⟨_, _, _, _, _, h⟩, -⟩; cases h)

/-- The record of the hash, if there is one, is of a settlement in a block. -/
def Wire.Accounted (wire : Wire) (hash : Bytes32) (c : Chain) (history : List Onchain.Move) :
    Prop :=
  (Onchain.Ledger.run history ∅).record? hash ≠ none →
    ∃ i ∈ c.included.rows, i.err = none ∧
      ∃ ix, i.tx.settlement = some ix ∧ wire.bytes ix.paymentIdHash = hash

namespace Wire

variable {wire : Wire} {hash : Bytes32} {c c' : Chain} {history : List Onchain.Move}

theorem Accounted.later (h : wire.Accounted hash c history) (hl : c.Later c') :
    wire.Accounted hash c' history := by
  intro hrecord
  obtain ⟨i, hi, hpaid⟩ := h hrecord
  exact ⟨i, hl.included i hi, hpaid⟩

/-- A move that does not settle the payment. -/
theorem Accounted.append (h : wire.Accounted hash c history) {m : Onchain.Move}
    (hm : ¬ m.Settles hash (Onchain.Ledger.run history ∅)) :
    wire.Accounted hash c (history ++ [m]) := by
  intro hrecord
  rw [Onchain.Ledger.run_append] at hrecord
  refine h fun hnone => hm ?_
  exact Onchain.Move.settles_of_record (Onchain.Ledger.run_wellFormed history) hnone hrecord

theorem Accounted.land (h : wire.Accounted hash c history) {n : Nat}
    {x : AllocationId × SignedTransaction} (hn : c.handed[n]? = some x) (hx : c.Includable x.2)
    (he : wire.Executed c history) (now : Nat) (blockTime : Option Nat) :
    wire.Accounted hash
      (c.step (.includeTx n (wire.verdict x.2 now (Onchain.Ledger.run history ∅)) now blockTime))
      (history ++ wire.moves x.2 now) := by
  have hlater := h.later (Chain.step_later c
    (.includeTx n (wire.verdict x.2 now (Onchain.Ledger.run history ∅)) now blockTime))
  cases hix : x.2.settlement with
  | none => simpa [moves, hix] using hlater
  | some ix =>
      rw [moves, hix]
      by_cases hsettles : (wire.instruction x.2 ix now).Settles hash
          (Onchain.Ledger.run history ∅)
      · obtain ⟨⟨signers, t, ctx, a, amount, heq⟩, hok⟩ := hsettles
        cases heq
        have hverdict := (wire.verdict_eq_none hix).mpr hok
        intro _
        rw [Chain.included_includeTx hn hx]
        refine ⟨_, c.included.mem_set.mpr (.inl rfl), ?_, ix, hix, rfl⟩
        rw [he.inclusion, hverdict]
      · exact hlater.append hsettles

end Wire

namespace Joint

variable [Collation] {wire : Wire} {hash : Bytes32}

/-- Nobody but the service settles the payment. -/
def Spares (wire : Wire) (hash : Bytes32) : List JointMove → Joint → Prop
  | [], _ => True
  | m :: ms, j =>
      (∀ k, m = .program k → ¬ k.Settles hash j.ledger) ∧ Spares wire hash ms (j.move wire m)

instance decidableSpares (wire : Wire) (hash : Bytes32) :
    (ms : List JointMove) → (j : Joint) → Decidable (Spares wire hash ms j)
  | [], _ => isTrue trivial
  | .program m :: ms, j =>
      have := decidableSpares wire hash ms (j.move wire (.program m))
      decidable_of_iff (¬ m.Settles hash j.ledger ∧ Spares wire hash ms (j.move wire (.program m)))
        (and_congr_left' ⟨fun h _ hk => JointMove.program.inj hk ▸ h, fun h => h m rfl⟩)
  | .service m :: ms, j =>
      have := decidableSpares wire hash ms (j.move wire (.service m))
      decidable_of_iff (Spares wire hash ms (j.move wire (.service m)))
        ⟨fun h => ⟨fun _ hk => (by cases hk), h⟩, And.right⟩

theorem later_service (m : Move Call EnvMove) (c : Config World Write ApiError) :
    c.store.chain.Later (service.move m c).store.chain := by
  obtain hsame | ⟨e, -, he⟩ | ⟨n, k, next, -, -, hk⟩ := service.store_move m c
  · rw [hsame]
    exact .refl _
  · rw [he]
    exact e.apply_later c.store
  · rw [hk]
    exact k.apply_later c.store

theorem accounted_move {j : Joint} (h : wire.Accounted hash j.world.chain j.history)
    (he : wire.Executed j.world.chain j.history) {m : JointMove}
    (hm : ∀ k, m = .program k → ¬ k.Settles hash j.ledger) :
    wire.Accounted hash (j.move wire m).world.chain (j.move wire m).history := by
  cases m with
  | program m => exact h.append (hm m rfl)
  | service m =>
      have hskip (hsame : wire.execute j.world.chain j.ledger m = (m, [])) :
          wire.Accounted hash (j.move wire (.service m)).world.chain
            (j.move wire (.service m)).history := by
        rw [move, hsame, List.append_nil]
        exact h.later (later_service m j.config)
      by_cases hinclude : ∃ n settledAt blockTime,
          m = .env (.chain (.includeTx n none settledAt blockTime))
      · obtain ⟨n, settledAt, blockTime, rfl⟩ := hinclude
        by_cases hn : ∃ x, j.world.chain.handed[n]? = some x ∧ j.world.chain.Includable x.2
        · obtain ⟨x, hn, hx⟩ := hn
          rw [move, Wire.execute_land hn hx]
          exact h.land hn hx he settledAt blockTime
        · exact hskip (Wire.execute_of_not (fun x hx hok => hn ⟨x, hx, hok⟩) settledAt blockTime)
      · exact hskip (Wire.execute_other fun n settledAt blockTime heq =>
          hinclude ⟨n, settledAt, blockTime, heq⟩)

theorem accounted_run {j : Joint} (h : wire.Accounted hash j.world.chain j.history)
    (he : wire.Executed j.world.chain j.history) {ms : List JointMove}
    (hms : Spares wire hash ms j) :
    wire.Accounted hash (j.run wire ms).world.chain (j.run wire ms).history := by
  induction ms generalizing j with
  | nil => exact h
  | cons m ms ih => exact ih (accounted_move h he hms.1) (executed_move he m) hms.2

end Joint

/-! ## The result -/

section Shown

variable [Collation] {wire : Wire}

omit [Collation] in
/-- What the service reads is what the account of the program says. -/
theorem Wire.Executed.shown {c : Chain} {history : List Onchain.Move}
    (h : wire.Executed c history) {p : AllocationId} {k : Commitment} {view : SettlementRecordView}
    (hview : c.fetchSettlementRecord p k = some view) :
    ∃ r, (Onchain.Ledger.run history ∅).record? (wire.bytes (.payment p)) = some r ∧
      r.terms = wire.viewTerms view := by
  obtain ⟨i, hi, ⟨herr, hpayment⟩, -, hrecord⟩ := Chain.fetchSettlementRecord_some hview
  obtain ⟨ix, hix, hhash⟩ := Option.map_eq_some_iff.mp hpayment
  obtain ⟨r, hr, hterms⟩ := h.record hi herr hix
  rw [hhash] at hr
  rw [Inclusion.record, hix] at hrecord
  cases hrecord
  exact ⟨r, hr, hterms⟩

end Shown

section Concrete

open Scenario System

namespace Scenario

def bytes : Digest → Bytes32
  | .payment p => .replicate 32 (UInt8.ofNat (p + 1))
  | .venue _ => .replicate 32 200
  | .evidence .. => .replicate 32 201
  | .allocation .. => .replicate 32 202
  | .raw n => .replicate 32 (UInt8.ofNat n)

def mint : Onchain.Pubkey := .key 100

def wire : Wire := .built bytes rfl mint

def venuePda : Onchain.Pubkey := .venue (bytes (.venue venue))

/-- The venue is registered, and its vault holds 8 USDC. -/
def funded : List Onchain.Move :=
  [.createMint 100 6, .instruction [0] 0 (.initializeConfig ⟨.config, mint, .key 0⟩),
    .instruction [0] 0 (.registerVenue ⟨.config, venuePda, .key 0⟩ (bytes (.venue venue))
      (.key venueKey)),
    .instruction [0] 0 (.initializeVenueVault
      ⟨.config, venuePda, .vaultAuthority venuePda, mint, Onchain.vault mint venuePda, .key 0⟩),
    .deposit (Onchain.vault mint venuePda) 8000000]

/-- Allocation 1 has its transaction broadcast, and it lands. -/
def landed : List JointMove :=
  funded.map .program ++ (moves 0 (submitted ++ settles.map .env)).map .service

end Scenario

end Concrete

end ServeProof
