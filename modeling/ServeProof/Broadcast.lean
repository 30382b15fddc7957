import ServeProof.Attempts
import ServeProof.Scenario

/-!
# ServeProof.Broadcast

A transaction handed to the RPC stays on record until its blockhash expires,
so that no two transactions of one payout can both still land -- as long as no
write meets a row that took up another transaction after the call had read it.
-/

namespace ServeProof

open Interleave System

/-- The row holds no signature of an unexpired transaction. -/
def World.NoneUnexpired (w : World) (p : AllocationId) : Prop :=
  ∀ sig ∈ (w.attempt p).txSignature, ¬ w.Unexpired sig.message

instance (w : World) (p : AllocationId) : Decidable (w.NoneUnexpired p) :=
  inferInstanceAs (Decidable (∀ sig ∈ _, _))

/-- A new attempt overwrites no unexpired transaction, and a transaction is
claimed for the blockhash the row has. -/
def KeepsTrack : Write → World → Prop
  | .payout (.reset seen _), w => w.NoneUnexpired seen.paymentId
  | .payout (.claimBuild seen built now u signer), w =>
      (PayoutWrite.claimBuild seen built now u signer).Applies w.db →
        w.NoneUnexpired seen.paymentId
  | .payout (.claimSubmit seen tx now u), w =>
      (PayoutWrite.claimSubmit seen tx now u).Applies w.db → w.BuiltFor seen.paymentId tx
  | _, _ => True

instance (c : Write) (w : World) : Decidable (KeepsTrack c w) :=
  match c with
  | .payout (.reset ..) => inferInstanceAs (Decidable (World.NoneUnexpired _ _))
  | .payout (.claimBuild ..) => inferInstanceAs (Decidable (_ → _))
  | .payout (.claimSubmit ..) => inferInstanceAs (Decidable (_ → World.BuiltFor _ _ _))
  | .payout (.heal ..) | .payout (.create ..) | .payout (.expire ..)
  | .payout (.expireAllocation ..) | .payout (.noteBroadcastError ..)
  | .payout (.registerLegacy ..) | .payout (.setStatus ..) | .payout (.finalize ..)
  | .payout (.markFailed ..) | .payout (.countRebroadcast ..) | .batch _ | .record _
  | .broadcast .. => isTrue trivial

/-- What is on record: every transaction handed over, and every signature a row
holds. -/
structure OnRecord (w : World) : Prop where
  coherent : w.Coherent
  handed : ∀ x ∈ w.chain.handed, w.Unexpired x.2 → w.Tracks x.1 x.2
  held : ∀ p sig, (w.attempt p).txSignature = some sig → w.Unexpired sig.message →
    w.Tracks p sig.message

def tracking : Discipline World Write where
  apply := Write.apply
  rely s t := s.chain.Later t.chain ∧
    ∀ p tx, (s.Unexpired tx → s.Tracks p tx) → t.Unexpired tx → t.Tracks p tx
  inv := OnRecord
  ok := KeepsTrack

theorem tracking_lawful : tracking.Lawful where
  refl _ := ⟨Chain.Later.refl _, fun _ _ => id⟩
  trans hst htu := ⟨hst.1.trans htu.1, fun p tx h => htu.2 p tx (hst.2 p tx h)⟩

section Commit

variable {since : AllocationId → World → World → Prop} {w : World} {c : PayoutWrite}

/-- An unexpired transaction on record stays so, whatever the command. -/
theorem tracks_apply (hcoh : w.Coherent) (hok : KeepsTrack (.payout c) w) (h : c.Applies w.db)
    {p : AllocationId} {tx : SignedTransaction} (hu : w.Unexpired tx) (ht : w.Tracks p tx) :
    ((Write.payout c).apply w).Tracks p tx := by
  rw [World.Tracks, World.attempt_apply h]
  split
  · next hp =>
    subst hp
    cases c with
    | create data =>
        exact absurd (ht.1.symm.trans (hcoh.unsigned_create h)) (Option.some_ne_none _)
    | reset seen data => exact absurd hu (hok _ ht.1)
    | claimBuild => exact absurd hu (hok h _ ht.1)
    | claimSubmit =>
        exact absurd (ht.1.symm.trans (hcoh.unsigned_claimSubmit h)) (Option.some_ne_none _)
    | _ => exact ht
  · exact ht

/-- The signature a command leaves in the row is on record. -/
theorem held_apply (hi : OnRecord w) (hok : KeepsTrack (.payout c) w) (h : c.Applies w.db)
    {p : AllocationId} {sig : Signature}
    (hsig : (((Write.payout c).apply w).attempt p).txSignature = some sig)
    (hu : w.Unexpired sig.message) : ((Write.payout c).apply w).Tracks p sig.message := by
  refine ⟨hsig, ?_⟩
  rw [World.attempt_apply h] at hsig ⊢
  split at hsig
  · next hp =>
    subst hp
    rw [if_pos rfl]
    cases c with
    | create | reset | claimBuild => contradiction
    | claimSubmit seen tx now u =>
        obtain rfl := Option.some.inj hsig
        exact hok h hu
    | _ => exact (hi.held _ _ hsig hu).2
  · next hp =>
    rw [if_neg hp]
    exact (hi.held p sig hsig hu).2

/-- A transaction that is broadcast is on record: by the call that claimed it,
or by the row the worker read it from. -/
theorem tracks_broadcast [Collation] {D : Discipline World Write} (happly : D.apply = Write.apply)
    (hinv : ∀ s, D.inv s → OnRecord s) (hok : ∀ c s, D.ok c s → KeepsTrack c s) {p : AllocationId}
    {tx : SignedTransaction}
    (hsince : ∀ s t, since p s t → (s.Unexpired tx → s.Tracks p tx) → t.Unexpired tx →
      t.Tracks p tx)
    (hrely : ∀ s t, D.rely s t → since p s t) (hk : Known D since (.broadcast p tx) w)
    (hu : w.Unexpired tx) : w.Tracks p tx := by
  rcases hk with ⟨seen, now, u, rfl, s₀, hi, hok₀, hk, h, hr⟩ |
    ⟨seen, rfl, -, -, htx, s₀, hi, hr, hrow⟩
  · refine hsince _ _ (hrely _ _ hr) (fun hu₀ => ?_) hu
    rw [happly] at hu₀ ⊢
    refine held_apply (c := .claimSubmit seen tx now u) (hinv _ hi) (hok _ _ hok₀) h ?_ hu₀
    exact congrArg Attempt.txSignature (World.attempt_apply_target h)
  · refine hsince _ _ hr (fun hu₀ => ?_) hu
    refine (hinv _ hi).held _ tx.signature ?_ hu₀
    rw [World.attempt_of_find hrow]
    exact ((hinv _ hi).coherent _ _ hrow).signature htx

/-- What writes no payout and hands nothing over leaves the record as it is. -/
theorem OnRecord.congr {s t : World} (hi : OnRecord s) (hl : s.chain.Later t.chain)
    (hh : t.chain.handed = s.chain.handed) (hp : t.db.payouts = s.db.payouts) :
    tracking.rely s t ∧ OnRecord t := by
  have htracks : ∀ p tx, t.Tracks p tx ↔ s.Tracks p tx := fun p tx => by
    rw [World.Tracks, World.Tracks, World.attempt_congr hp]
  refine ⟨⟨hl, fun p tx h hu => ?_⟩, hi.coherent.congr hp, fun x hx hu => ?_, fun p sig h hu => ?_⟩
  · exact (htracks p tx).mpr (h (hu.earlier hl))
  · exact (htracks x.1 x.2).mpr (hi.handed x (hh ▸ hx) (hu.earlier hl))
  · rw [World.attempt_congr hp] at h
    exact (htracks p sig.message).mpr (hi.held p sig h (hu.earlier hl))

theorem tracking_commit [Collation] (c : Write) (s : World) (hi : OnRecord s)
    (hok : KeepsTrack c s) (hk : Known tracking (fun _ => tracking.rely) c s) :
    tracking.rely s (c.apply s) ∧ OnRecord (c.apply s) := by
  have hcoh := hi.coherent.apply hk
  cases c with
  | payout c =>
      by_cases h : c.Applies s.db
      · have hstay : ∀ p tx, (s.Unexpired tx → s.Tracks p tx) → s.Unexpired tx →
            ((Write.payout c).apply s).Tracks p tx :=
          fun p tx ht hu => tracks_apply hi.coherent hok h hu (ht hu)
        exact ⟨⟨Chain.Later.refl _, hstay⟩,
          hcoh, fun x hx => hstay x.1 x.2 (hi.handed x hx), fun p sig => held_apply hi hok h⟩
      · have hsame : (Write.payout c).apply s = s := by
          rw [Write.apply, PayoutWrite.apply_of_not_applies h]
        rw [hsame]
        exact ⟨tracking_lawful.refl s, hi⟩
  | batch c => exact hi.congr (Write.apply_later _ s) rfl (c.payouts_apply s.db)
  | record c => exact hi.congr (Write.apply_later _ s) rfl (c.payouts_apply s.db)
  | broadcast p tx =>
      refine ⟨⟨Write.apply_later _ s, fun _ _ => id⟩, hcoh, fun x hx hu => ?_, hi.held⟩
      rcases List.mem_append.mp hx with hx | hx
      · exact hi.handed x hx hu
      · obtain rfl := List.mem_singleton.mp hx
        exact tracks_broadcast (w := s) rfl (fun _ => id) (fun _ _ => id)
          (fun _ _ (h : tracking.rely _ _) => h.2 _ _) (fun _ _ => id) hk hu

end Commit

theorem tracking_env (e : EnvMove) (s : World) (hi : OnRecord s) :
    tracking.rely s (e.apply s) ∧ OnRecord (e.apply s) :=
  hi.congr (e.apply_later s) (e.handed_apply s) (e.payouts_apply s)

theorem tracking_sound [Collation] :
    service.Sound (fun _ _ => True) tracking (Known tracking fun _ => tracking.rely) :=
  service_sound tracking_lawful rfl (fun h => h.1) tracking_commit
    fun e s hi _ => tracking_env e s hi

/-- **Broadcast transactions stay on record**: along every run whose writes
keep track, the row of a payout holds the signature and the last valid height
of every transaction that was handed over for it and has not expired.  So there
is at most one such transaction. -/
theorem broadcast_on_record [Collation] {s : World} (hs : s.NoPayouts)
    {ms : List (Move Call EnvMove)}
    (hms : service.Respects KeepsTrack (fun _ _ => True) ms (Config.start s)) :
    let t := (service.exec ms (Config.start s)).store
    (∀ p tx, (p, tx) ∈ t.chain.handed → t.Unexpired tx → t.Tracks p tx) ∧
      ∀ p tx tx', (p, tx) ∈ t.chain.handed → (p, tx') ∈ t.chain.handed →
        t.Unexpired tx → t.Unexpired tx' → tx = tx' := by
  intro t
  have hstart : OnRecord s :=
    { coherent := hs.coherent
      handed := fun x hx => absurd (hs.2 ▸ hx) List.not_mem_nil
      held := fun p sig h => by rw [hs.attempt] at h; contradiction }
  have ht : OnRecord t := tracking_sound.exec_inv hstart hms
  refine ⟨fun p tx hx => ht.handed (p, tx) hx, fun p tx tx' hx hx' hu hu' => ?_⟩
  exact (ht.handed (p, tx) hx hu).unique (ht.handed (p, tx') hx' hu')

/-! ## A late reset -/

section Example

open Scenario

/-- Two transactions of the second blockhash that settle allocation 1. -/
def secondTx : SignedTransaction := signed ⟨1, 9⟩

def thirdTx : SignedTransaction := { signed ⟨1, 9⟩ with memo := 1 }

theorem broadcast_on_record_submitted :
    let t := ((@service byCodePoint).exec (moves 0 submitted) (Config.start World.empty)).store
    (∀ p tx, (p, tx) ∈ t.chain.handed → t.Unexpired tx → t.Tracks p tx) ∧
      ∀ p tx tx', (p, tx) ∈ t.chain.handed → (p, tx') ∈ t.chain.handed →
        t.Unexpired tx → t.Unexpired tx' → tx = tx' :=
  @broadcast_on_record byCodePoint World.empty ⟨rfl, rfl⟩ (moves 0 submitted) (by decide +kernel)

/-- A first attempt expires unsubmitted.  Two calls start over: the first one
stops before its reset, the second one resets the payout. -/
def twoResets : List (Move Call EnvMove) :=
  moves 0 (approved ++ [.call create 20, .call build 20] ++ expires.map .env ++
      [.call (submit firstTx) 20]) ++
    [.call create, .step 5, .step 5, .step 5] ++ moves 6 [.call create 20]

/-- The second attempt is broadcast; then the first call resets the payout, and
a third attempt is broadcast. -/
def lateReset : List (Move Call EnvMove) :=
  twoResets ++ moves 7 [.call build 20, .call (submit secondTx) 20] ++ [.step 5] ++
    moves 9 [.call build 20, .call (submit thirdTx) 20]

theorem two_transactions_can_land :
    let t := ((@service byCodePoint).exec lateReset (Config.start World.empty)).store
    (1, secondTx) ∈ t.chain.handed ∧ (1, thirdTx) ∈ t.chain.handed ∧ t.Unexpired secondTx ∧
      t.Unexpired thirdTx ∧ secondTx ≠ thirdTx ∧ ¬ t.Tracks 1 secondTx := by
  decide +kernel

end Example

end ServeProof
