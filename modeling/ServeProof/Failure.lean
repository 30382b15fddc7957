import ServeProof.Scenario
import ServeProof.Settling

/-!
# ServeProof.Failure

A payout the worker declares `FAILED` was not settled, and nothing that was
broadcast can settle it -- as long as what the worker observed first still
holds when it decides.

The worker combines observations made at different times.  Read in a safe
order they prove a transaction dead: an expired blockhash stays expired, so it
may be read first.  An absent status or an absent record may turn up later, so
these prove nothing unless they are read last.
-/

namespace ServeProof

open Interleave System

/-- The observation that the worker makes too early is still right. -/
def FailCause.StillSo (seen : Payout) : FailCause → World → Prop
  | .dropped, w =>
      ∀ sig ∈ seen.txSignature, ∀ st ∈ w.chain.getSignatureStatus sig, st.err ≠ none
  | .finalizedWithoutSettlement, w =>
      w.chain.fetchSettlementRecord seen.paymentId .finalized = none
  | _, _ => True

instance (seen : Payout) (cause : FailCause) (w : World) : Decidable (cause.StillSo seen w) :=
  match cause with
  | .dropped => inferInstanceAs (Decidable (∀ sig ∈ _, ∀ st ∈ _, _))
  | .finalizedWithoutSettlement => inferInstanceAs (Decidable (_ = none))
  | .onchainError _ | .staleDropped | .forkDropped | .legacyAttemptTimeout => isTrue trivial

/-- A failure finds the row without a signature, or with the one that was
observed, and the observation still right; a new attempt overwrites no
transaction that can settle; a transaction is claimed for its own payment and
blockhash. -/
def FailsSafely : Write → World → Prop
  | .payout (.markFailed seen cause), w =>
      (∀ sig ∈ (w.attempt seen.paymentId).txSignature, seen.txSignature = some sig) ∧
        cause.StillSo seen w
  | .payout (.reset seen _), w => w.NoneCanSettle seen.paymentId
  | .payout (.claimSubmit seen tx now u), w =>
      (PayoutWrite.claimSubmit seen tx now u).Applies w.db →
        tx.SettlesOnly seen.paymentId ∧ w.BuiltFor seen.paymentId tx
  | _, _ => True

instance (c : Write) (w : World) : Decidable (FailsSafely c w) :=
  match c with
  | .payout (.markFailed ..) => inferInstanceAs (Decidable ((∀ sig ∈ _, _) ∧ _))
  | .payout (.reset ..) => inferInstanceAs (Decidable (World.NoneCanSettle _ _))
  | .payout (.claimSubmit ..) => inferInstanceAs (Decidable (_ → _ ∧ _))
  | .payout (.heal ..) | .payout (.create ..) | .payout (.claimBuild ..) | .payout (.expire ..)
  | .payout (.expireAllocation ..) | .payout (.noteBroadcastError ..)
  | .payout (.registerLegacy ..) | .payout (.setStatus ..) | .payout (.finalize ..)
  | .payout (.countRebroadcast ..) | .batch _ | .record _ | .broadcast .. => isTrue trivial

def following : Discipline World Write where
  apply := Write.apply
  rely s t := s.chain.Later t.chain ∧
    ∀ p tx, (s.CanSettle p tx → s.Follows p tx) → t.CanSettle p tx → t.Follows p tx
  inv := Followed
  ok := FailsSafely

theorem following_lawful : following.Lawful where
  refl _ := ⟨Chain.Later.refl _, fun _ _ => id⟩
  trans hst htu := ⟨hst.1.trans htu.1, fun p tx h => htu.2 p tx (hst.2 p tx h)⟩

/-! ## The observations of the worker -/

section Cause

variable {w : World} {seen : Payout} {cause : FailCause}

/-- What was recalled under the rely condition was seen of an earlier chain. -/
theorem Recall.earlier {p : AllocationId} {P : World → Prop}
    (h : Recall following (fun _ => following.rely) p P w) :
    ∃ s, Followed s ∧ s.chain.Later w.chain ∧ P s := by
  obtain ⟨s, hi, hr, hP⟩ := h
  exact ⟨s, hi, hr.1, hP⟩

variable {D : Discipline World Write} {since : AllocationId → World → World → Prop}

/-- A row that holds a transaction that can settle now was valid as long as the
transaction when it was read. -/
theorem lastValid_of_canSettle {tx : SignedTransaction}
    (hrow : ∃ s, Followed s ∧ s.chain.Later w.chain ∧ RowIs seen s)
    (hsig : seen.txSignature = some tx.signature) (hc : w.CanSettle seen.paymentId tx) :
    seen.lastValidBlockHeight = some tx.recentBlockhash.lastValidBlockHeight := by
  obtain ⟨s, hi, hl, hs⟩ := hrow
  have hattempt := World.attempt_of_find hs
  have hheld := hi.held seen.paymentId tx.signature (by rw [hattempt]; exact hsig) (hc.earlier hl)
  have hvalid := hheld.1.2
  rw [hattempt] at hvalid
  exact hvalid

/-- The cause of a failure shows that the transaction cannot settle, when what
is recalled was seen of an earlier chain. -/
theorem CauseKnown.not_canSettle {tx : SignedTransaction}
    (hearlier : ∀ {P : World → Prop}, Recall D since seen.paymentId P w →
      ∃ s, Followed s ∧ s.chain.Later w.chain ∧ P s)
    (hk : CauseKnown D since seen cause w) (hrow : Recall D since seen.paymentId (RowIs seen) w)
    (hstill : cause.StillSo seen w) (hsig : seen.txSignature = some tx.signature) :
    ¬ w.CanSettle seen.paymentId tx := by
  intro hc
  have hvalid := lastValid_of_canSettle (hearlier hrow) hsig hc
  cases cause with
  | onchainError err =>
      obtain ⟨sig, hsig', hrec⟩ := hk
      obtain rfl := Option.some.inj (hsig'.symm.trans hsig)
      obtain ⟨s, -, hl, st, hst, herr⟩ := hearlier hrec
      exact Chain.not_live_of_err hst herr (hl.live hc.2)
  | dropped =>
      obtain ⟨sig, n, hsig', hn, -, hexp⟩ := hk
      obtain rfl := Option.some.inj (hn.symm.trans hvalid)
      obtain ⟨s, -, hl, hexp⟩ := hearlier hexp
      cases hst : w.chain.getSignatureStatus tx.signature with
      | none => exact Chain.not_live_of_absent hst (hl.expired hexp) hc.2
      | some st => exact Chain.not_live_of_err hst (hstill _ hsig st hst) hc.2
  | staleDropped =>
      obtain ⟨n, hn, hrec⟩ := hk
      obtain rfl := Option.some.inj (hn.symm.trans hvalid)
      obtain ⟨s, -, hl, habsent, hexp⟩ := hearlier hrec
      exact Chain.not_live_of_absent (habsent _ hsig) hexp (hl.live hc.2)
  | finalizedWithoutSettlement =>
      obtain ⟨sig, hsig', hrec, -⟩ := hk
      obtain rfl := Option.some.inj (hsig'.symm.trans hsig)
      obtain ⟨s, -, hl, st, hst, herr, hfin⟩ := hearlier hrec
      obtain ⟨i, hi, htx, -, hierr, hheight⟩ := Chain.getSignatureStatus_some hst
      have hrecords : i.Records (.payment seen.paymentId) :=
        ⟨hierr.trans herr, by rw [htx]; exact hc.1⟩
      have hsome := Chain.fetchSettlementRecord_isSome (hl.included i hi) hrecords
        (k := .finalized) ((hheight hfin).trans hl.finalized)
      rw [show w.chain.fetchSettlementRecord seen.paymentId .finalized = none from hstill] at hsome
      contradiction
  | forkDropped => exact hk
  | legacyAttemptTimeout =>
      rw [hk.1] at hvalid
      contradiction

/-- A failure that is admitted meets no transaction that can settle. -/
theorem noneCanSettle_of_markFailed
    (hearlier : ∀ {p : AllocationId} {P : World → Prop}, Recall D since p P w →
      ∃ s, Followed s ∧ s.chain.Later w.chain ∧ P s)
    (hk : PayoutKnown D since (.markFailed seen cause) w)
    (hok : FailsSafely (.payout (.markFailed seen cause)) w) :
    w.NoneCanSettle seen.paymentId := by
  intro sig hsig
  exact hk.2.2.not_canSettle hearlier hk.1 hok.2 (hok.1 sig hsig)

end Cause

section Commit

variable {D : Discipline World Write} {since : AllocationId → World → World → Prop} {w : World}
  {c : PayoutWrite}

theorem PayoutKnown.pending_of_setStatus {seen : Payout} {status : PayoutStatus}
    (h : PayoutKnown D since (.setStatus seen status) w) : status.Pending := by
  rcases h.2 with ⟨rfl, -⟩ | ⟨rfl, -⟩ <;> decide

theorem safe_of_known
    (hearlier : ∀ {p : AllocationId} {P : World → Prop}, Recall D since p P w →
      ∃ s, Followed s ∧ s.chain.Later w.chain ∧ P s)
    (hk : PayoutKnown D since c w) (hok : FailsSafely (.payout c) w) (h : c.Applies w.db) :
    c.Safe w := by
  cases c with
  | markFailed seen cause => exact noneCanSettle_of_markFailed hearlier hk hok
  | reset seen data => exact hok
  | claimSubmit seen tx now u => exact hok h
  | setStatus seen status => exact hk.pending_of_setStatus
  | _ => trivial

/-- A transaction that is broadcast is followed: since the call claimed it, or
since the worker read it from the row. -/
theorem follows_broadcast [Collation] (happly : D.apply = Write.apply)
    (hinv : ∀ s, D.inv s → Followed s) (hok : ∀ c s, D.ok c s → FailsSafely c s)
    (hrely : ∀ s t, D.rely s t → following.rely s t) {p : AllocationId} {tx : SignedTransaction}
    (hk : Known D (fun _ => D.rely) (.broadcast p tx) w) :
    tx.SettlesOnly p ∧ (w.CanSettle p tx → w.Follows p tx) := by
  rcases hk with ⟨seen, now, u, rfl, s, hi, hok₀, hk, h, hr⟩ |
    ⟨seen, rfl, -, -, htx, s, hi, hr, hrow⟩
  · have hsafe : (PayoutWrite.claimSubmit seen tx now u).Safe s := hok _ _ hok₀ h
    rw [happly] at hr
    exact ⟨hsafe.1, (hrely _ _ hr).2 _ tx fun hc => (hinv s hi).follows_claimSubmit hsafe h hc⟩
  · have hsig : (s.attempt seen.paymentId).txSignature = some tx.signature := by
      rw [World.attempt_of_find hrow]
      exact ((hinv s hi).coherent _ _ hrow).signature htx
    exact ⟨(hinv s hi).ownHeld _ _ hsig, (hrely _ _ hr).2 _ tx ((hinv s hi).held _ _ hsig)⟩

/-- What writes no payout and hands nothing over. -/
theorem following_congr {s t : World} (hi : Followed s) (hl : s.chain.Later t.chain)
    (hh : t.chain.handed = s.chain.handed) (hp : t.db.payouts = s.db.payouts) :
    following.rely s t ∧ Followed t := by
  refine ⟨⟨hl, fun p tx hf hc => ?_⟩, hi.congr hl hh hp⟩
  exact (hf (hc.earlier hl)).congr hp

theorem following_commit [Collation] (c : Write) (s : World) (hi : Followed s)
    (hok : FailsSafely c s) (hk : Known following (fun _ => following.rely) c s) :
    following.rely s (c.apply s) ∧ Followed (c.apply s) := by
  cases c with
  | payout c =>
      by_cases h : c.Applies s.db
      · have hsafe := safe_of_known Recall.earlier hk hok h
        exact ⟨⟨Chain.Later.refl _, fun p tx hf hc => follows_apply hsafe h hc (hf hc)⟩,
          hi.apply_payout hsafe h (hi.coherent.apply (c := .payout c) hk)⟩
      · have hsame : (Write.payout c).apply s = s := by
          rw [Write.apply, PayoutWrite.apply_of_not_applies h]
        rw [hsame]
        exact ⟨following_lawful.refl s, hi⟩
  | batch c => exact following_congr hi (Write.apply_later _ s) rfl (c.payouts_apply s.db)
  | record c => exact following_congr hi (Write.apply_later _ s) rfl (c.payouts_apply s.db)
  | broadcast p tx =>
      obtain ⟨hown, hf⟩ := follows_broadcast rfl (fun _ => id) (fun _ _ => id) (fun _ _ => id) hk
      exact ⟨⟨Write.apply_later _ s, fun _ _ => id⟩, hi.apply_broadcast hown hf⟩

end Commit

theorem following_sound [Collation] :
    service.Sound (fun _ _ => True) following (Known following fun _ => following.rely) :=
  service_sound following_lawful rfl (fun h => h.1) following_commit fun e s hi _ =>
    following_congr hi (e.apply_later s) (e.handed_apply s) (e.payouts_apply s)

/-! ## The result -/

/-- The payout that the next step of the call `n` marks `FAILED` for the worker. -/
def failing (c : Config World Write ApiError) (n : Nat) : Option AllocationId :=
  match c.threads[n]? with
  | some (.commit (.payout (.markFailed seen _)) _) => some seen.paymentId
  | _ => none

theorem failing_eq_some {c : Config World Write ApiError} {n : Nat} {p : AllocationId}
    (h : failing c n = some p) :
    ∃ seen cause next, seen.paymentId = p ∧
      c.threads[n]? = some (.commit (.payout (.markFailed seen cause)) next) := by
  unfold failing at h
  split at h
  · next seen cause next hn => exact ⟨seen, cause, next, Option.some.inj h, hn⟩
  · contradiction

section Example

open Scenario

/-- The blockhash expires, and the confirmation job is about to decide. -/
def expiredAbsent : List (Move Call EnvMove) :=
  moves 0 submitted ++ expires.map .env ++ [.call (confirmation firstTx)] ++
    List.replicate 4 (.step 5)

/-- The confirmation job reads that the signature has no status.  Then the
transaction is included and confirmed, and its blockhash expires; the job goes
on to read the height, finds no finalized record, and decides. -/
def includedAfterStatus : List (Move Call EnvMove) :=
  moves 0 submitted ++ [.call (confirmation firstTx), .step 5, .step 5,
    .env (.chain (.includeTx 0 none 9 none))] ++ expires.map .env ++ List.replicate 3 (.step 5)

end Example

end ServeProof
