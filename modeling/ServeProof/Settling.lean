import ServeProof.Attempts

/-!
# ServeProof.Settling

The row of a payment follows every transaction that has settled it or may
still settle it: the row holds the transaction's signature, and its status is
one of a submitted payout.

`Followed` is the invariant, `Safe` what a command must find for it to last.
What makes a command safe differs: calls that overlap need conditions, calls
that run one at a time see to it themselves.
-/

namespace ServeProof

open Interleave

/-- The transaction has settled `p`, or may still do so. -/
def World.CanSettle (w : World) (p : AllocationId) (tx : SignedTransaction) : Prop :=
  tx.Settles p ∧ w.chain.Live tx

instance (w : World) (p : AllocationId) (tx : SignedTransaction) : Decidable (w.CanSettle p tx) :=
  inferInstanceAs (Decidable (_ ∧ _))

theorem World.CanSettle.earlier {s t : World} (h : s.chain.Later t.chain) {p : AllocationId}
    {tx : SignedTransaction} (ht : t.CanSettle p tx) : s.CanSettle p tx :=
  ⟨ht.1, h.live ht.2⟩

/-- The row holds no signature of a transaction that can settle the payment. -/
def World.NoneCanSettle (w : World) (p : AllocationId) : Prop :=
  ∀ sig ∈ (w.attempt p).txSignature, ¬ w.CanSettle p sig.message

instance (w : World) (p : AllocationId) : Decidable (w.NoneCanSettle p) :=
  inferInstanceAs (Decidable (∀ sig ∈ _, _))

/-- The status of a payout whose transaction was submitted and did not fail. -/
def PayoutStatus.Pending (s : PayoutStatus) : Prop := s ∈ [.submitted, .confirmed, .finalized]

instance : DecidablePred PayoutStatus.Pending := fun s => inferInstanceAs (Decidable (s ∈ _))

/-- A pending payout is claimed by no new attempt. -/
theorem PayoutStatus.Pending.not_open {s : PayoutStatus} (h : s.Pending) :
    s ∉ [.created, .initiated, .failed] := by
  cases s <;> revert h <;> decide

theorem PayoutStatus.Pending.not_initiated {s : PayoutStatus} (h : s.Pending) :
    s ∉ [.initiated] := by
  cases s <;> revert h <;> decide

/-- The row follows `tx`. -/
def World.Follows (w : World) (p : AllocationId) (tx : SignedTransaction) : Prop :=
  w.Tracks p tx ∧ ∃ row, w.db.payouts.find p = some row ∧ row.status.Pending

/-- Every transaction that can settle a payment is followed: those handed over,
and those a row holds.  None can settle another payment than its own. -/
structure Followed (w : World) : Prop where
  coherent : w.Coherent
  own : ∀ x ∈ w.chain.handed, x.2.SettlesOnly x.1
  ownHeld : ∀ p sig, (w.attempt p).txSignature = some sig → sig.message.SettlesOnly p
  handed : ∀ x ∈ w.chain.handed, w.CanSettle x.1 x.2 → w.Follows x.1 x.2
  held : ∀ p sig, (w.attempt p).txSignature = some sig → w.CanSettle p sig.message →
    w.Follows p sig.message

theorem World.NoPayouts.followed {w : World} (h : w.NoPayouts) : Followed w where
  coherent := h.coherent
  own x hx := absurd (h.2 ▸ hx) List.not_mem_nil
  ownHeld p sig hsig := by rw [h.attempt] at hsig; contradiction
  handed x hx := absurd (h.2 ▸ hx) List.not_mem_nil
  held p sig hsig := by rw [h.attempt] at hsig; contradiction

section Row

variable {w : World} {p : AllocationId}

/-- A row that was not submitted, or has failed, holds no transaction that can
settle. -/
theorem Followed.noneCanSettle (h : Followed w) {row : Payout}
    (hrow : w.db.payouts.find p = some row) (hs : ¬ row.status.Pending) : w.NoneCanSettle p := by
  intro sig hsig hc
  obtain ⟨row', hrow', hs'⟩ := (h.held p sig hsig hc).2
  rw [hrow] at hrow'
  exact hs (Option.some.inj hrow' ▸ hs')

/-- When the row holds no transaction that can settle `p`, nothing settles `p`
any more. -/
theorem Followed.not_settled (h : Followed w) (hp : w.NoneCanSettle p) (steps : List Chain.Step) :
    ¬ (w.chain.run steps).Settled p := by
  refine Chain.not_settled_of_run (fun x hx hsettles hlive => ?_) steps
  obtain rfl := h.own x hx p hsettles
  exact hp _ (h.handed x hx ⟨hsettles, hlive⟩).1.1 ⟨hsettles, hlive⟩

end Row

/-! ## Safe commands -/

/-- What a command must find: a new attempt and a failure meet no transaction
that can settle, a transaction is claimed for its own payment and blockhash. -/
def PayoutWrite.Safe : PayoutWrite → World → Prop
  | reset seen _, w | markFailed seen _, w => w.NoneCanSettle seen.paymentId
  | claimSubmit seen tx _ _, w =>
      tx.SettlesOnly seen.paymentId ∧ w.BuiltFor seen.paymentId tx
  | setStatus _ status, _ => status.Pending
  | _, _ => True

section Commit

variable {w : World} {c : PayoutWrite} {p : AllocationId} {tx : SignedTransaction}

/-- A safe command that meets a followed transaction leaves the attempt alone,
and the payout pending. -/
theorem PayoutWrite.Safe.keeps (hsafe : c.Safe w) (h : c.Applies w.db)
    (hc : w.CanSettle c.target tx) (hf : w.Follows c.target tx) {row : Payout}
    (hrow : w.db.payouts.find c.target = some row) (hs : row.status.Pending) :
    (∀ t, c.attempt t = t) ∧ (c.status.getD row.status).Pending := by
  have hmet := h.2
  rw [hrow] at hmet
  cases c with
  | create data => exact absurd hmet (Option.some_ne_none row)
  | reset seen data | markFailed seen cause => exact absurd hc (hsafe _ hf.1.1)
  | claimBuild => exact absurd hmet hs.not_open
  | expire | claimSubmit => exact absurd hmet hs.not_initiated
  | registerLegacy | finalize => exact ⟨fun _ => rfl, show PayoutStatus.finalized.Pending by decide⟩
  | setStatus => exact ⟨fun _ => rfl, hsafe⟩
  | heal | expireAllocation | noteBroadcastError | countRebroadcast => exact ⟨fun _ => rfl, hs⟩

/-- A safe command keeps following. -/
theorem follows_apply (hsafe : c.Safe w) (h : c.Applies w.db) (hc : w.CanSettle p tx)
    (hf : w.Follows p tx) : ((Write.payout c).apply w).Follows p tx := by
  obtain ⟨row, hrow, hs⟩ := hf.2
  by_cases hp : c.target = p
  · subst hp
    obtain ⟨hattempt, hstatus⟩ := hsafe.keeps h hc hf hrow hs
    refine ⟨?_, ?_⟩
    · rw [World.Tracks, World.attempt_apply_target h, hattempt]
      exact hf.1
    · have hnew := PayoutWrite.status_row h.2
      rw [hrow, Option.map_some, Option.or_some] at hnew
      obtain ⟨r, hr, hrs⟩ := Option.map_eq_some_iff.mp hnew
      refine ⟨r, ?_, hrs ▸ hstatus⟩
      rw [Write.apply_payout_db, PayoutWrite.find_payouts_apply h, if_pos rfl, hrow, hr]
  · refine ⟨?_, row, ?_, hs⟩
    · rw [World.Tracks, World.attempt_apply h, if_neg hp]
      exact hf.1
    · rw [Write.apply_payout_db, PayoutWrite.find_payouts_apply h, if_neg hp, hrow]

/-- The signature a safe command leaves in a row is an old one, or the one that
is claimed. -/
theorem signature_apply (h : c.Applies w.db) {sig : Signature}
    (hsig : (((Write.payout c).apply w).attempt p).txSignature = some sig) :
    (w.attempt p).txSignature = some sig ∨
      ∃ seen now u, c = .claimSubmit seen sig.message now u ∧ seen.paymentId = p := by
  rw [World.attempt_apply h] at hsig
  split at hsig
  · next hp =>
    subst hp
    cases c with
    | create | reset | claimBuild => contradiction
    | claimSubmit seen tx now u =>
        obtain rfl := Option.some.inj hsig
        exact .inr ⟨seen, now, u, rfl, rfl⟩
    | _ => exact .inl hsig
  · exact .inl hsig

/-- A transaction that can settle and is claimed for an initiated payout was not
included yet, so its blockhash has not expired. -/
theorem Followed.unexpired_claimSubmit (hi : Followed w) {seen : Payout} {now : Time}
    {u : Option UserId} (h : (PayoutWrite.claimSubmit seen tx now u).Applies w.db)
    (hc : w.CanSettle seen.paymentId tx) : w.Unexpired tx := by
  obtain ⟨hsettles, hlive⟩ := hc
  cases hf : w.chain.included.find tx with
  | none =>
      simp only [Chain.Live, hf] at hlive
      exact not_isBlockhashExpired_iff.mpr hlive
  | some i =>
      obtain ⟨q, hq⟩ := w.chain.included_handed i (Table.mem_of_find hf)
      rw [Table.key_of_find hf] at hq
      obtain rfl := hi.own (q, tx) hq _ hsettles
      obtain ⟨row, hrow, hs⟩ := (hi.handed _ hq ⟨hsettles, hlive⟩).2
      have hmet := h.2
      rw [PayoutWrite.target, hrow] at hmet
      exact absurd hmet hs.not_initiated

/-- A transaction that is claimed safely is followed. -/
theorem Followed.follows_claimSubmit (hi : Followed w) {seen : Payout} {now : Time}
    {u : Option UserId} (hsafe : (PayoutWrite.claimSubmit seen tx now u).Safe w)
    (h : (PayoutWrite.claimSubmit seen tx now u).Applies w.db)
    (hc : w.CanSettle seen.paymentId tx) :
    ((Write.payout (.claimSubmit seen tx now u)).apply w).Follows seen.paymentId tx := by
  constructor
  · have hattempt :
        ((Write.payout (.claimSubmit seen tx now u)).apply w).attempt seen.paymentId = _ :=
      World.attempt_apply_target h
    rw [World.Tracks, hattempt]
    exact ⟨rfl, hsafe.2 (hi.unexpired_claimSubmit h hc)⟩
  · obtain ⟨r, hr, hrs⟩ := Option.map_eq_some_iff.mp (PayoutWrite.status_row h.2)
    refine ⟨r, ?_, hrs ▸ by decide⟩
    rw [Write.apply_payout_db, PayoutWrite.find_payouts_apply h]
    exact (if_pos rfl).trans hr

theorem Followed.apply_payout (hi : Followed w) (hsafe : c.Safe w) (h : c.Applies w.db)
    (hcoh : ((Write.payout c).apply w).Coherent) : Followed ((Write.payout c).apply w) where
  coherent := hcoh
  own := hi.own
  ownHeld p sig hsig := by
    rcases signature_apply h hsig with hold | ⟨seen, now, u, rfl, rfl⟩
    · exact hi.ownHeld p sig hold
    · exact hsafe.1
  handed x hx hc := follows_apply hsafe h hc (hi.handed x hx hc)
  held p sig hsig hc := by
    rcases signature_apply h hsig with hold | ⟨seen, now, u, rfl, rfl⟩
    · exact follows_apply hsafe h hc (hi.held p sig hold hc)
    · exact hi.follows_claimSubmit hsafe h hc

end Commit

/-! ## The other commands -/

theorem World.Follows.congr {s t : World} {p : AllocationId} {tx : SignedTransaction}
    (h : s.Follows p tx) (hp : t.db.payouts = s.db.payouts) : t.Follows p tx := by
  refine ⟨?_, hp ▸ h.2⟩
  rw [World.Tracks, World.attempt_congr hp]
  exact h.1

/-- What writes no payout and hands nothing over keeps following. -/
theorem Followed.congr {s t : World} (hi : Followed s) (hl : s.chain.Later t.chain)
    (hh : t.chain.handed = s.chain.handed) (hp : t.db.payouts = s.db.payouts) : Followed t where
  coherent := hi.coherent.congr hp
  own := hh ▸ hi.own
  ownHeld p sig hsig := hi.ownHeld p sig (World.attempt_congr hp p ▸ hsig)
  handed x hx hc := (hi.handed x (hh ▸ hx) (hc.earlier hl)).congr hp
  held p sig hsig hc :=
    (hi.held p sig (World.attempt_congr hp p ▸ hsig) (hc.earlier hl)).congr hp

/-- A broadcast keeps following when the row follows the transaction. -/
theorem Followed.apply_broadcast {w : World} (hi : Followed w) {p : AllocationId}
    {tx : SignedTransaction} (hown : tx.SettlesOnly p) (hf : w.CanSettle p tx → w.Follows p tx) :
    Followed ((Write.broadcast p tx).apply w) where
  coherent := hi.coherent
  own x hx := by
    rcases List.mem_append.mp hx with hx | hx
    · exact hi.own x hx
    · exact List.mem_singleton.mp hx ▸ hown
  ownHeld := hi.ownHeld
  handed x hx hc := by
    rcases List.mem_append.mp hx with hx | hx
    · exact (hi.handed x hx hc : w.Follows x.1 x.2)
    · obtain rfl := List.mem_singleton.mp hx
      exact (hf hc : w.Follows p tx)
  held := hi.held

end ServeProof
