import ServeProof.Schema

/-!
# ServeProof.Chain

The chain as the RPC node shows it, and the RPC queries of the service.

Blocks are filled one at a time: `head` is the height of the block being
filled, everything up to `confirmed` is confirmed, everything up to
`finalized` finalized.  A transaction that was handed to the RPC may be
included in the block being filled as long as its blockhash is valid at that
height, once; the settlement program then accepts or rejects it.  There are no
forks, and a slot is the height of its block.

* `Chain.step` -- one step of the chain;
* `Chain.Settled p` -- a settlement of the payment `p` was included;
* `Chain.CanLand tx` -- `tx` may still be included.
-/

namespace ServeProof

/-- A transaction in a block.  `err` is the error it ended with, as JSON;
`settledAt` the clock of the program, `blockTime` what the RPC answers for the
block. -/
structure Inclusion where
  tx : SignedTransaction
  height : Nat
  err : Option String
  settledAt : Nat
  blockTime : Option Nat
  deriving DecidableEq, Repr

/-- The inclusion created the settlement record of `h`. -/
def Inclusion.Records (i : Inclusion) (h : Digest) : Prop :=
  i.err = none ∧ i.tx.settlement.map SettlePayout.paymentIdHash = some h

instance (i : Inclusion) (h : Digest) : Decidable (i.Records h) :=
  inferInstanceAs (Decidable (_ ∧ _))

/-! ## What the RPC reports -/

inductive Commitment where
  | processed | confirmed | finalized
  deriving DecidableEq, Repr

structure SignatureStatus where
  slot : Nat
  err : Option String
  confirmationStatus : Commitment
  deriving DecidableEq, Repr

structure SettlementRecordView where
  paymentIdHash : Digest
  allocationHash : Digest
  venue : VenuePda
  workerWallet : Pubkey
  amount : Nat
  settledAt : Nat
  deriving DecidableEq, Repr

/-- The record an inclusion created. -/
def Inclusion.record (i : Inclusion) : Option SettlementRecordView :=
  i.tx.settlement.map fun ix =>
    { paymentIdHash := ix.paymentIdHash
      allocationHash := ix.allocationHash
      venue := ix.venue
      workerWallet := ix.workerWallet
      amount := ix.amount
      settledAt := i.settledAt }

/-! ## The chain -/

structure Chain where
  head : Nat
  confirmed : Nat
  finalized : Nat
  latestBlockhash : Blockhash
  /-- Transactions handed to the RPC, each with the payout it was handed over for. -/
  handed : List (AllocationId × SignedTransaction)
  included : Table Inclusion.tx
  confirmed_lt_head : confirmed < head
  finalized_le_confirmed : finalized ≤ confirmed
  height_le_head : ∀ i ∈ included.rows, i.height ≤ head
  height_le_valid : ∀ i ∈ included.rows,
    i.height ≤ i.tx.recentBlockhash.lastValidBlockHeight
  /-- `init` fails when the record already exists. -/
  one_record : ∀ i ∈ included.rows, ∀ j ∈ included.rows, ∀ h, i.Records h → j.Records h → i = j
  included_handed : ∀ i ∈ included.rows, ∃ p, (p, i.tx) ∈ handed

namespace Chain

/-! ## The settlement program -/

/-- Why `settle_payout` rejects the transaction whatever the accounts hold: the
record exists, the allocation hash is zero, the amount is zero. -/
def settlePayoutError (c : Chain) (tx : SignedTransaction) : Option String :=
  match tx.settlement with
  | none => none
  | some ix =>
    if ∃ i ∈ c.included.rows, i.Records ix.paymentIdHash then some "SettlementRecordExists"
    else if ix.allocationHash = .zero then some "ZeroAllocationHash"
    else if ix.amount = 0 then some "ZeroAmount"
    else none

/-! ## Steps -/

/-- `includeTx n err ..` tries the `n`-th transaction handed over; `err` is an
error the accounts cause (paused, inactive, unauthorized, insufficient vault
balance). -/
inductive Step where
  | includeTx (n : Nat) (err : Option String) (settledAt : Nat) (blockTime : Option Nat)
  | produceBlock
  | confirm
  | finalize
  | newBlockhash (b : Blockhash)
  deriving DecidableEq, Repr

/-- The transaction may be included in the block being filled. -/
def Includable (c : Chain) (tx : SignedTransaction) : Prop :=
  c.head ≤ tx.recentBlockhash.lastValidBlockHeight ∧ c.included.find tx = none

instance (c : Chain) (tx : SignedTransaction) : Decidable (c.Includable tx) :=
  inferInstanceAs (Decidable (_ ∧ _))

/-- The inclusion of `tx` in the block being filled. -/
def inclusion (c : Chain) (tx : SignedTransaction) (err : Option String) (settledAt : Nat)
    (blockTime : Option Nat) : Inclusion where
  tx := tx
  height := c.head
  err := err.or (c.settlePayoutError tx)
  settledAt := settledAt
  blockTime := blockTime

/-- An inclusion that creates a record is the first to do so. -/
theorem inclusion_records {c : Chain} {tx : SignedTransaction} {err : Option String}
    {settledAt : Nat} {blockTime : Option Nat} {h : Digest}
    (hr : (c.inclusion tx err settledAt blockTime).Records h) :
    ∀ i ∈ c.included.rows, ¬ i.Records h := by
  obtain ⟨herr, hix⟩ := hr
  obtain ⟨-, herr⟩ := Option.or_eq_none_iff.mp herr
  obtain ⟨ix, hsome, rfl⟩ := Option.map_eq_some_iff.mp hix
  rw [settlePayoutError, show tx.settlement = some ix from hsome] at herr
  intro i hi hri
  dsimp only at herr
  rw [if_pos ⟨i, hi, hri⟩] at herr
  contradiction

/-- Put `tx` into the block being filled. -/
def addInclusion (c : Chain) (tx : SignedTransaction) (err : Option String) (settledAt : Nat)
    (blockTime : Option Nat) (hx : c.Includable tx) (hh : ∃ p, (p, tx) ∈ c.handed) : Chain :=
  { c with
    included := c.included.set (c.inclusion tx err settledAt blockTime)
    height_le_head := by
      intro i hi
      rcases (c.included.mem_set).mp hi with rfl | ⟨hi, -⟩
      · exact le_refl c.head
      · exact c.height_le_head i hi
    height_le_valid := by
      intro i hi
      rcases (c.included.mem_set).mp hi with rfl | ⟨hi, -⟩
      · exact hx.1
      · exact c.height_le_valid i hi
    one_record := by
      intro i hi j hj h hri hrj
      rcases (c.included.mem_set).mp hi with rfl | ⟨hi, -⟩ <;>
        rcases (c.included.mem_set).mp hj with rfl | ⟨hj, -⟩
      · rfl
      · exact absurd hrj (inclusion_records hri j hj)
      · exact absurd hri (inclusion_records hrj i hi)
      · exact c.one_record i hi j hj h hri hrj
    included_handed := by
      intro i hi
      rcases (c.included.mem_set).mp hi with rfl | ⟨hi, -⟩
      · exact hh
      · exact c.included_handed i hi }

/-- `sendRawTransaction`: the bytes are with the RPC. -/
def hand (c : Chain) (p : AllocationId) (tx : SignedTransaction) : Chain :=
  { c with
    handed := c.handed ++ [(p, tx)]
    included_handed := fun i hi =>
      (c.included_handed i hi).imp fun _ h => List.mem_append_left _ h }

def step : Step → Chain → Chain
  | .includeTx n err settledAt blockTime, c =>
      match h : c.handed[n]? with
      | none => c
      | some (p, tx) =>
          if hx : c.Includable tx then
            c.addInclusion tx err settledAt blockTime hx ⟨p, List.mem_of_getElem? h⟩
          else c
  | .produceBlock, c =>
      { c with
        head := c.head + 1
        confirmed_lt_head := Nat.lt_succ_of_lt c.confirmed_lt_head
        height_le_head := fun i hi => Nat.le_succ_of_le (c.height_le_head i hi) }
  | .confirm, c =>
      if h : c.confirmed + 1 < c.head then
        { c with
          confirmed := c.confirmed + 1
          confirmed_lt_head := h
          finalized_le_confirmed := Nat.le_succ_of_le c.finalized_le_confirmed }
      else c
  | .finalize, c =>
      if h : c.finalized + 1 ≤ c.confirmed then
        { c with
          finalized := c.finalized + 1
          finalized_le_confirmed := h }
      else c
  | .newBlockhash b, c => { c with latestBlockhash := b }

/-- A run of the chain. -/
def run (steps : List Step) (c : Chain) : Chain := steps.foldl (fun c s => c.step s) c

/-! ## Queries -/

/-- The greatest height that has reached the commitment. -/
def level (c : Chain) : Commitment → Nat
  | .processed => c.head
  | .confirmed => c.confirmed
  | .finalized => c.finalized

def getBlockHeight (c : Chain) (commitment : Commitment) : Nat := c.level commitment

def getSlot (c : Chain) (commitment : Commitment) : Nat := c.level commitment

/-- `getSignatureStatuses` of one signature, transaction history searched. -/
def getSignatureStatus (c : Chain) (sig : Signature) : Option SignatureStatus :=
  (c.included.find sig.message).map fun i =>
    { slot := i.height
      err := i.err
      confirmationStatus :=
        if i.height ≤ c.finalized then .finalized
        else if i.height ≤ c.confirmed then .confirmed
        else .processed }

/-- `getTransaction`: the transaction, when its block has reached the
commitment. -/
def getTransaction (c : Chain) (sig : Signature) (commitment : Commitment) : Option Inclusion :=
  (c.included.find sig.message).filter fun i => i.height ≤ c.level commitment

/-- `getBlockTime` of a slot, from the transactions the model keeps of it. -/
def getBlockTime (c : Chain) (slot : Nat) : Option Nat :=
  (c.included.rows.find? fun i => i.height = slot).bind Inclusion.blockTime

/-- `fetchSettlementRecord`: the record of the payment `p`, when the block that
created it has reached the commitment. -/
def fetchSettlementRecord (c : Chain) (p : AllocationId) (commitment : Commitment) :
    Option SettlementRecordView :=
  (c.included.rows.find? fun i =>
    decide (i.Records (.payment p) ∧ i.height ≤ c.level commitment)).bind Inclusion.record

end Chain

/-! ## Blockhash validity -/

/-- A transaction remains valid through `lastValidBlockHeight`, inclusive. -/
def isBlockhashExpired (currentBlockHeight lastValidBlockHeight : Nat) : Bool :=
  decide (currentBlockHeight > lastValidBlockHeight)

theorem isBlockhashExpired_iff {m n : Nat} : isBlockhashExpired m n = true ↔ n < m :=
  decide_eq_true_iff

theorem not_isBlockhashExpired_iff {m n : Nat} : isBlockhashExpired m n = false ↔ m ≤ n :=
  decide_eq_false_iff_not.trans Nat.not_lt

/-- Re-send only the same signature, only while its blockhash can still land. -/
def shouldRebroadcastSignedTransaction (confirmationStatus : Option Commitment)
    (blockhashExpired : Bool) : Bool :=
  !blockhashExpired &&
    (confirmationStatus == none || confirmationStatus == some .processed)

/-- A fresh blockhash is safe only when the old one expired without a surviving
signature. -/
def canReplaceTransactionBlockhash (confirmationStatus : Option Commitment)
    (blockhashExpired : Bool) : Bool :=
  blockhashExpired && confirmationStatus == none

namespace Chain

/-! ## What later stores of the chain keep -/

/-- `c'` is `c` some steps later: nothing included is lost, and what was
included since went into blocks from `c.head` on. -/
structure Later (c c' : Chain) : Prop where
  head : c.head ≤ c'.head
  confirmed : c.confirmed ≤ c'.confirmed
  finalized : c.finalized ≤ c'.finalized
  handed : c.handed ⊆ c'.handed
  included : ∀ i ∈ c.included.rows, i ∈ c'.included.rows
  since : ∀ i ∈ c'.included.rows, i ∈ c.included.rows ∨ c.head ≤ i.height

theorem Later.refl (c : Chain) : c.Later c where
  head := le_refl _
  confirmed := le_refl _
  finalized := le_refl _
  handed := List.Subset.refl _
  included _ hi := hi
  since _ hi := .inl hi

theorem Later.trans {a b c : Chain} (hab : a.Later b) (hbc : b.Later c) : a.Later c where
  head := hab.head.trans hbc.head
  confirmed := hab.confirmed.trans hbc.confirmed
  finalized := hab.finalized.trans hbc.finalized
  handed := List.Subset.trans hab.handed hbc.handed
  included i hi := hbc.included i (hab.included i hi)
  since i hi := by
    cases hbc.since i hi with
    | inl hi => exact hab.since i hi
    | inr hi => exact .inr (hab.head.trans hi)

theorem addInclusion_later {c : Chain} {tx : SignedTransaction} {err : Option String}
    {settledAt : Nat} {blockTime : Option Nat} (hx : c.Includable tx)
    (hh : ∃ p, (p, tx) ∈ c.handed) :
    c.Later (c.addInclusion tx err settledAt blockTime hx hh) where
  head := le_refl _
  confirmed := le_refl _
  finalized := le_refl _
  handed := List.Subset.refl _
  included i hi := by
    refine (c.included.mem_set).mpr (.inr ⟨hi, fun h => ?_⟩)
    exact (c.included.find_eq_none_iff.mp hx.2) i hi h
  since i hi := by
    rcases (c.included.mem_set).mp hi with rfl | ⟨hi, -⟩
    · exact .inr (le_refl c.head)
    · exact .inl hi

theorem hand_later (c : Chain) (p : AllocationId) (tx : SignedTransaction) :
    c.Later (c.hand p tx) :=
  { Later.refl c with handed := List.subset_append_left _ _ }

/-- One step of the chain. -/
theorem step_later (c : Chain) (s : Step) : c.Later (c.step s) := by
  cases s with
  | includeTx n err settledAt blockTime =>
      simp only [step]
      split
      · exact Later.refl c
      · split
        · exact addInclusion_later _ _
        · exact Later.refl c
  | produceBlock => exact { Later.refl c with head := Nat.le_succ _ }
  | confirm =>
      simp only [step]
      split
      · exact { Later.refl c with confirmed := Nat.le_succ _ }
      · exact Later.refl c
  | finalize =>
      simp only [step]
      split
      · exact { Later.refl c with finalized := Nat.le_succ _ }
      · exact Later.refl c
  | newBlockhash b => exact { Later.refl c with }

theorem run_later (c : Chain) (steps : List Step) : c.Later (c.run steps) := by
  induction steps generalizing c with
  | nil => exact Later.refl c
  | cons s steps ih => exact (step_later c s).trans (ih (c.step s))

/-- The chain by itself hands nothing over. -/
theorem step_handed (c : Chain) (s : Step) : (c.step s).handed = c.handed := by
  cases s with
  | includeTx n err settledAt blockTime =>
      simp only [step]
      split
      · rfl
      · split <;> rfl
  | produceBlock => rfl
  | confirm => simp only [step]; split <;> rfl
  | finalize => simp only [step]; split <;> rfl
  | newBlockhash b => rfl

theorem run_handed (c : Chain) (steps : List Step) : (c.run steps).handed = c.handed := by
  induction steps generalizing c with
  | nil => rfl
  | cons s steps ih => exact (ih (c.step s)).trans (step_handed c s)

/-! ## Settled payments -/

/-- A settlement of `p` was included. -/
def Settled (c : Chain) (p : AllocationId) : Prop :=
  ∃ i ∈ c.included.rows, i.Records (.payment p)

instance (c : Chain) (p : AllocationId) : Decidable (c.Settled p) :=
  inferInstanceAs (Decidable (∃ i ∈ _, _))

/-- A transaction that settles `p` was broadcast and its blockhash has not
expired. -/
def InFlight (c : Chain) (p : AllocationId) : Prop :=
  ∃ x ∈ c.handed, x.2.Settles p ∧
    isBlockhashExpired (c.getBlockHeight .confirmed) x.2.recentBlockhash.lastValidBlockHeight =
      false

instance (c : Chain) (p : AllocationId) : Decidable (c.InFlight p) :=
  inferInstanceAs (Decidable (∃ x ∈ _, _))

theorem Later.settled {c c' : Chain} (h : c.Later c') {p : AllocationId} (hp : c.Settled p) :
    c'.Settled p := by
  obtain ⟨i, hi, hr⟩ := hp
  exact ⟨i, h.included i hi, hr⟩

/-- Blockhashes only expire. -/
theorem Later.expired {c c' : Chain} (h : c.Later c') {n : Nat}
    (hn : isBlockhashExpired (c.getBlockHeight .confirmed) n) :
    isBlockhashExpired (c'.getBlockHeight .confirmed) n :=
  isBlockhashExpired_iff.mpr ((isBlockhashExpired_iff.mp hn).trans_le h.confirmed)

/-! ## Live transactions -/

/-- The transaction took effect, or may still do so. -/
def Live (c : Chain) (tx : SignedTransaction) : Prop :=
  match c.included.find tx with
  | some i => i.err = none
  | none => c.confirmed ≤ tx.recentBlockhash.lastValidBlockHeight

instance (c : Chain) (tx : SignedTransaction) : Decidable (c.Live tx) :=
  match h : c.included.find tx with
  | some i => decidable_of_iff (i.err = none) (by simp only [Live, h])
  | none => decidable_of_iff (c.confirmed ≤ tx.recentBlockhash.lastValidBlockHeight)
      (by simp only [Live, h])

theorem live_of_included {c : Chain} {i : Inclusion} (hi : i ∈ c.included.rows) :
    c.Live i.tx ↔ i.err = none := by
  simp only [Live, Table.find_key hi]

/-- A transaction that is live later is live now. -/
theorem Later.live {c c' : Chain} (h : c.Later c') {tx : SignedTransaction} (hl : c'.Live tx) :
    c.Live tx := by
  cases hf : c.included.find tx with
  | some i =>
      have hi := Table.mem_of_find hf
      obtain rfl := Table.key_of_find hf
      rw [live_of_included hi]
      exact (live_of_included (h.included i hi)).mp hl
  | none =>
      simp only [Live, hf]
      have hlt := c.confirmed_lt_head
      cases hf' : c'.included.find tx with
      | none =>
          simp only [Live, hf'] at hl
          exact h.confirmed.trans hl
      | some i =>
          have hi := Table.mem_of_find hf'
          obtain rfl := Table.key_of_find hf'
          cases h.since i hi with
          | inl hi => exact absurd rfl (c.included.find_eq_none_iff.mp hf i hi)
          | inr hh =>
              have hv := c'.height_le_valid i hi
              omega

/-- A settled payment was settled by a live transaction that was handed over. -/
theorem Settled.live {c : Chain} {p : AllocationId} (h : c.Settled p) :
    ∃ x ∈ c.handed, x.2.Settles p ∧ c.Live x.2 := by
  obtain ⟨i, hi, hr⟩ := h
  obtain ⟨q, hq⟩ := c.included_handed i hi
  exact ⟨(q, i.tx), hq, hr.2, (live_of_included hi).mpr hr.1⟩

/-- When no transaction that settles `p` is live, `p` is not settled, and no
run of the chain settles it. -/
theorem not_settled_of_run {c : Chain} {p : AllocationId}
    (h : ∀ x ∈ c.handed, x.2.Settles p → ¬ c.Live x.2) (steps : List Step) :
    ¬ (c.run steps).Settled p := by
  intro hs
  obtain ⟨x, hx, hp, hl⟩ := hs.live
  rw [run_handed] at hx
  exact h x hx hp ((run_later c steps).live hl)

/-! ## What a query tells -/

/-- An error status: the transaction was included and had no effect. -/
theorem not_live_of_err {c : Chain} {tx : SignedTransaction} {st : SignatureStatus}
    (h : c.getSignatureStatus tx.signature = some st) (herr : st.err ≠ none) : ¬ c.Live tx := by
  obtain ⟨i, hi, rfl⟩ := Option.map_eq_some_iff.mp h
  intro hl
  simp only [SignedTransaction.signature] at hi
  simp only [Live, hi] at hl
  exact herr hl

/-- No status and an expired blockhash: the transaction can have no effect. -/
theorem not_live_of_absent {c : Chain} {tx : SignedTransaction}
    (h : c.getSignatureStatus tx.signature = none)
    (hexp : isBlockhashExpired (c.getBlockHeight .confirmed)
      tx.recentBlockhash.lastValidBlockHeight) : ¬ c.Live tx := by
  simp only [getSignatureStatus, SignedTransaction.signature, Option.map_eq_none_iff] at h
  simp only [Live, h]
  exact Nat.not_le.mpr (isBlockhashExpired_iff.mp hexp)

theorem fetchSettlementRecord_some {c : Chain} {p : AllocationId} {k : Commitment}
    {r : SettlementRecordView} (h : c.fetchSettlementRecord p k = some r) :
    ∃ i ∈ c.included.rows, i.Records (.payment p) ∧ i.height ≤ c.level k ∧
      i.record = some r := by
  obtain ⟨i, hi, hr⟩ := Option.bind_eq_some_iff.mp h
  have hp := List.find?_some hi
  simp only [decide_eq_true_eq] at hp
  exact ⟨i, List.mem_of_find?_eq_some hi, hp.1, hp.2, hr⟩

/-- A successful settlement that has reached the commitment has a record. -/
theorem fetchSettlementRecord_isSome {c : Chain} {p : AllocationId} {k : Commitment}
    {i : Inclusion} (hi : i ∈ c.included.rows) (hr : i.Records (.payment p))
    (hk : i.height ≤ c.level k) : (c.fetchSettlementRecord p k).isSome := by
  cases hf : c.included.rows.find? fun i =>
      decide (i.Records (.payment p) ∧ i.height ≤ c.level k) with
  | none => exact absurd (List.find?_eq_none.mp hf i hi) (by simp [hr, hk])
  | some j =>
      have hj := List.find?_some hf
      simp only [decide_eq_true_eq] at hj
      obtain ⟨ix, hix, -⟩ := Option.map_eq_some_iff.mp hj.1.2
      rw [fetchSettlementRecord, hf, Option.bind_some, Inclusion.record, hix]
      rfl

/-- A status names an inclusion. -/
theorem getSignatureStatus_some {c : Chain} {sig : Signature} {st : SignatureStatus}
    (h : c.getSignatureStatus sig = some st) :
    ∃ i ∈ c.included.rows, i.tx = sig.message ∧ i.height = st.slot ∧ i.err = st.err ∧
      (st.confirmationStatus = .finalized → i.height ≤ c.finalized) := by
  obtain ⟨i, hi, rfl⟩ := Option.map_eq_some_iff.mp h
  refine ⟨i, Table.mem_of_find hi, Table.key_of_find hi, rfl, rfl, fun hf => ?_⟩
  by_contra hlt
  simp only [hlt, if_false] at hf
  split at hf <;> contradiction

theorem getTransaction_isSome {c : Chain} {sig : Signature} {k : Commitment} {i : Inclusion}
    (hi : i ∈ c.included.rows) (htx : i.tx = sig.message) (hk : i.height ≤ c.level k) :
    (c.getTransaction sig k).isSome := by
  simp [getTransaction, ← htx, Table.find_key hi, hk]

end Chain
end ServeProof
