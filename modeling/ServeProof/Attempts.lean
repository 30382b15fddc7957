import ServeProof.Calls

/-!
# ServeProof.Attempts

What a payout row says about the transaction of its current attempt: the
blockhash the transaction was built with, its signature, the signed bytes.
Four commands start or extend an attempt (`create`, `reset`, `claimBuild`,
`claimSubmit`); every other command leaves these columns alone.
-/

namespace ServeProof

open Interleave

/-! ## The columns of an attempt -/

structure Attempt where
  recentBlockhash : Option Blockhash
  lastValidBlockHeight : Option Nat
  signedTransaction : Option SignedTransaction
  txSignature : Option Signature
  deriving DecidableEq

def Payout.attempt (r : Payout) : Attempt where
  recentBlockhash := r.recentBlockhash
  lastValidBlockHeight := r.lastValidBlockHeight
  signedTransaction := r.signedTransaction
  txSignature := r.txSignature

/-- No transaction was built yet. -/
def Attempt.unbuilt : Attempt := ⟨none, none, none, none⟩

/-- The attempt a command leaves in the row of its target. -/
def PayoutWrite.attempt : PayoutWrite → Attempt → Attempt
  | create _, _ | reset .., _ => .unbuilt
  | claimBuild _ built .., _ =>
      { recentBlockhash := some built.blockhash
        lastValidBlockHeight := some built.blockhash.lastValidBlockHeight
        signedTransaction := none
        txSignature := none }
  | claimSubmit _ tx .., t =>
      { t with signedTransaction := some tx, txSignature := some tx.signature }
  | heal .., t | expire _, t | expireAllocation _, t | noteBroadcastError .., t
  | registerLegacy _, t | setStatus .., t | finalize .., t | markFailed .., t
  | countRebroadcast .., t => t

/-- The attempt of a payment; of one without a row, nothing was built. -/
def World.attempt (w : World) (p : AllocationId) : Attempt :=
  ((w.db.payouts.find p).map Payout.attempt).getD .unbuilt

theorem World.attempt_of_find {w : World} {p : AllocationId} {row : Payout}
    (h : w.db.payouts.find p = some row) : w.attempt p = row.attempt := by
  rw [World.attempt, h]
  rfl

theorem World.attempt_congr {s t : World} (h : t.db.payouts = s.db.payouts) (p : AllocationId) :
    t.attempt p = s.attempt p := by
  rw [World.attempt, World.attempt, h]

theorem PayoutWrite.attempt_row {c : PayoutWrite} {old : Option Payout}
    (hmet : c.need.Met old) :
    ((c.row old).map Payout.attempt).getD .unbuilt =
      c.attempt ((old.map Payout.attempt).getD .unbuilt) := by
  cases old with
  | some o =>
      cases c with
      | create data => exact absurd hmet (Option.some_ne_none o)
      | _ => rfl
  | none =>
      cases c with
      | setStatus | finalize | markFailed => exact absurd hmet Bool.false_ne_true
      | claimBuild | claimSubmit => exact hmet.elim
      | _ => rfl

/-- The attempts after a command. -/
theorem World.attempt_apply {w : World} {c : PayoutWrite} (h : c.Applies w.db)
    (p : AllocationId) :
    ((Write.payout c).apply w).attempt p =
      if c.target = p then c.attempt (w.attempt p) else w.attempt p := by
  rw [World.attempt, Write.apply_payout_db, PayoutWrite.find_payouts_apply h]
  split
  · next hp =>
    subst hp
    exact PayoutWrite.attempt_row h.2
  · rfl

theorem World.attempt_apply_target {w : World} {c : PayoutWrite} (h : c.Applies w.db) :
    ((Write.payout c).apply w).attempt c.target = c.attempt (w.attempt c.target) :=
  (World.attempt_apply h c.target).trans (if_pos rfl)

/-- The columns of an attempt fit together. -/
structure Payout.Coherent (r : Payout) : Prop where
  /-- The bytes are kept with their signature. -/
  saved : r.signedTransaction.map SignedTransaction.signature = r.txSignature
  /-- Before a transaction is submitted there is none. -/
  unsigned : r.status ∈ [.created, .initiated] → r.txSignature = none
  valid : r.lastValidBlockHeight = r.recentBlockhash.map Blockhash.lastValidBlockHeight

theorem Payout.Coherent.signature {r : Payout} (h : r.Coherent) {tx : SignedTransaction}
    (htx : r.signedTransaction = some tx) : r.txSignature = some tx.signature := by
  rw [← h.saved, htx]
  rfl

/-- Every command leaves a coherent row; a status set by id is never that of a
payout not yet submitted. -/
theorem PayoutWrite.coherent_row {c : PayoutWrite} {old : Option Payout} {r : Payout}
    (hstatus : ∀ seen status, c = setStatus seen status → status ∉ [.created, .initiated])
    (hold : ∀ o, old = some o → o.Coherent) (h : c.row old = some r) : r.Coherent := by
  cases old with
  | none =>
      cases c <;> cases h <;> exact ⟨rfl, fun _ => rfl, rfl⟩
  | some o =>
      have ho := hold o rfl
      obtain rfl := Option.some.inj h
      cases c with
      | heal | create | expireAllocation | noteBroadcastError | countRebroadcast =>
          exact ⟨ho.saved, ho.unsigned, ho.valid⟩
      | expire | markFailed | registerLegacy | finalize =>
          exact ⟨ho.saved, fun hs => absurd hs (by simp [update]), ho.valid⟩
      | setStatus seen status =>
          exact ⟨ho.saved, fun hs => absurd hs (hstatus seen status rfl), ho.valid⟩
      | reset | claimBuild => exact ⟨rfl, fun _ => rfl, rfl⟩
      | claimSubmit =>
          exact ⟨rfl, fun hs => absurd hs (by simp [update]), ho.valid⟩

/-! ## Over the store -/

/-- Every payout row is coherent. -/
def World.Coherent (w : World) : Prop := ∀ p row, w.db.payouts.find p = some row → row.Coherent

/-- Before a transaction is submitted, no signature is held. -/
theorem World.Coherent.unsigned {w : World} (h : w.Coherent) {p : AllocationId}
    (hstatus : ∀ row, w.db.payouts.find p = some row → row.status ∈ [.created, .initiated]) :
    (w.attempt p).txSignature = none := by
  cases hp : w.db.payouts.find p with
  | none => rw [World.attempt, hp]; rfl
  | some row =>
      rw [World.attempt_of_find hp]
      exact (h p row hp).unsigned (hstatus row hp)

theorem World.Coherent.unsigned_create {w : World} (h : w.Coherent) {data : UsdcPayout}
    (hc : (PayoutWrite.create data).Applies w.db) : (w.attempt data.paymentId).txSignature = none :=
  h.unsigned fun _ hrow => absurd (hrow.symm.trans hc.2) (Option.some_ne_none _)

/-- The row a signed transaction is claimed for holds no signature. -/
theorem World.Coherent.unsigned_claimSubmit {w : World} (h : w.Coherent) {seen : Payout}
    {tx : SignedTransaction} {now : Time} {u : Option UserId}
    (hc : (PayoutWrite.claimSubmit seen tx now u).Applies w.db) :
    (w.attempt seen.paymentId).txSignature = none := by
  refine h.unsigned fun row hrow => ?_
  have hmet := hc.2
  rw [PayoutWrite.target, hrow] at hmet
  exact List.mem_cons_of_mem _ hmet

/-- The payout row holds the signature of `tx`, and the height through which
`tx` is valid. -/
def World.Tracks (w : World) (p : AllocationId) (tx : SignedTransaction) : Prop :=
  (w.attempt p).txSignature = some tx.signature ∧
    (w.attempt p).lastValidBlockHeight = some tx.recentBlockhash.lastValidBlockHeight

instance (w : World) (p : AllocationId) (tx : SignedTransaction) : Decidable (w.Tracks p tx) :=
  inferInstanceAs (Decidable (_ ∧ _))

/-- The current block height has not passed the last height at which `tx` is
valid. -/
def World.Unexpired (w : World) (tx : SignedTransaction) : Prop :=
  isBlockhashExpired (w.chain.getBlockHeight .confirmed)
    tx.recentBlockhash.lastValidBlockHeight = false

instance (w : World) (tx : SignedTransaction) : Decidable (w.Unexpired tx) :=
  inferInstanceAs (Decidable (_ = _))

theorem World.Unexpired.earlier {s t : World} (h : s.chain.Later t.chain)
    {tx : SignedTransaction} (ht : t.Unexpired tx) : s.Unexpired tx := by
  by_contra hs
  have hexp := h.expired (by simpa only [World.Unexpired, Bool.not_eq_false] using hs)
  rw [World.Unexpired, hexp] at ht
  contradiction

/-- The row was built with the blockhash of `tx`, unless that has expired. -/
def World.BuiltFor (w : World) (p : AllocationId) (tx : SignedTransaction) : Prop :=
  w.Unexpired tx →
    (w.attempt p).lastValidBlockHeight = some tx.recentBlockhash.lastValidBlockHeight

instance (w : World) (p : AllocationId) (tx : SignedTransaction) : Decidable (w.BuiltFor p tx) :=
  inferInstanceAs (Decidable (_ → _))

/-- A row holds one transaction. -/
theorem World.Tracks.unique {w : World} {p : AllocationId} {tx tx' : SignedTransaction}
    (h : w.Tracks p tx) (h' : w.Tracks p tx') : tx = tx' :=
  Signature.mk.inj (Option.some.inj (h.1.symm.trans h'.1))

theorem World.Coherent.congr {s t : World} (hs : s.Coherent) (h : t.db.payouts = s.db.payouts) :
    t.Coherent := fun p row hrow => hs p row (h ▸ hrow)

/-- A command of a call keeps the rows coherent. -/
theorem World.Coherent.apply [Collation] {D : Discipline World Write}
    {since : AllocationId → World → World → Prop} {w : World} {c : Write} (h : w.Coherent)
    (hk : Known D since c w) : (c.apply w).Coherent := by
  cases c with
  | batch c => exact h.congr (c.payouts_apply w.db)
  | record c => exact h.congr (c.payouts_apply w.db)
  | broadcast q tx => exact h
  | payout c =>
      by_cases hc : c.Applies w.db
      · intro p row hrow
        rw [Write.apply_payout_db, PayoutWrite.find_payouts_apply hc] at hrow
        split at hrow
        · refine PayoutWrite.coherent_row ?_ (fun o ho => h _ o ho) hrow
          rintro seen status rfl
          rcases hk.2 with ⟨rfl, -⟩ | ⟨rfl, -⟩ <;> decide
        · exact h p row hrow
      · exact h.congr (by rw [Write.apply_payout_db, PayoutWrite.apply_of_not_applies hc])

/-- No payout was ever created, and nothing was handed to the RPC. -/
def World.NoPayouts (w : World) : Prop := w.db.payouts.rows = [] ∧ w.chain.handed = []

theorem World.NoPayouts.find {w : World} (h : w.NoPayouts) (p : AllocationId) :
    w.db.payouts.find p = none := by
  rw [Table.find_eq_none_iff, h.1]
  exact fun _ hr => absurd hr List.not_mem_nil

theorem World.NoPayouts.attempt {w : World} (h : w.NoPayouts) (p : AllocationId) :
    w.attempt p = .unbuilt := by
  rw [World.attempt, h.find]
  rfl

theorem World.NoPayouts.coherent {w : World} (h : w.NoPayouts) : w.Coherent :=
  fun p _ hrow => absurd (hrow.symm.trans (h.find p)) (Option.some_ne_none _)

end ServeProof
