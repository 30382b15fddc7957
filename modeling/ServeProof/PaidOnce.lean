import ServeProof.Alone
import ServeProof.Broadcast
import ServeProof.Finality
import ServeProof.Settling

/-!
# ServeProof.PaidOnce

No allocation is paid on a legacy rail and on chain, as long as evidence of a
legacy payment is registered only when no settlement has landed and none is
outstanding.

A transaction that is outstanding is on record in the payout row
(`ServeProof.Broadcast`), so the row tells.  Calls that do not overlap meet
every condition but those on what the venue registers and signs.
-/

namespace ServeProof

open Interleave System

/-- The payout was registered on a legacy rail. -/
def World.Legacy (w : World) (p : AllocationId) : Prop :=
  ∃ row ∈ w.db.payouts.find p, row.rail ≠ .usdc

instance (w : World) (p : AllocationId) : Decidable (w.Legacy p) :=
  inferInstanceAs (Decidable (∃ row ∈ w.db.payouts.find p, _))

/-- What is paid on a legacy rail was not settled on chain, and no unexpired
transaction that settles it was broadcast. -/
def World.PaidOnce (w : World) : Prop :=
  ∀ p, w.Legacy p → ¬ w.chain.Settled p ∧ ¬ w.chain.InFlight p

/-! ## Conditions -/

/-- Legacy evidence is registered when no settlement has landed and the row
holds no unexpired transaction; a transaction is signed for one payment. -/
def RegistersUnsettled : Write → World → Prop
  | .payout (.registerLegacy l), w =>
      (PayoutWrite.registerLegacy l).Applies w.db →
        ¬ w.chain.Settled l.paymentId ∧ w.NoneUnexpired l.paymentId
  | .payout (.claimSubmit seen tx now u), w =>
      (PayoutWrite.claimSubmit seen tx now u).Applies w.db → tx.SettlesOnly seen.paymentId
  | _, _ => True

/-- A transaction is claimed for a payout that is not on a legacy rail. -/
def ClaimsUsdc : Write → World → Prop
  | .payout (.claimSubmit seen tx now u), w =>
      (PayoutWrite.claimSubmit seen tx now u).Applies w.db → ¬ w.Legacy seen.paymentId
  | _, _ => True

/-- The conditions of calls that overlap. -/
def PaysOnce (c : Write) (w : World) : Prop :=
  RegistersUnsettled c w ∧ KeepsTrack c w ∧ ClaimsUsdc c w

instance (c : Write) (w : World) : Decidable (RegistersUnsettled c w) :=
  match c with
  | .payout (.registerLegacy ..) => inferInstanceAs (Decidable (_ → ¬ _ ∧ _))
  | .payout (.claimSubmit ..) => inferInstanceAs (Decidable (_ → SignedTransaction.SettlesOnly _ _))
  | .payout (.heal ..) | .payout (.create ..) | .payout (.reset ..) | .payout (.claimBuild ..)
  | .payout (.expire ..) | .payout (.expireAllocation ..) | .payout (.noteBroadcastError ..)
  | .payout (.setStatus ..) | .payout (.finalize ..) | .payout (.markFailed ..)
  | .payout (.countRebroadcast ..) | .batch _ | .record _ | .broadcast .. => isTrue trivial

instance (c : Write) (w : World) : Decidable (ClaimsUsdc c w) :=
  match c with
  | .payout (.claimSubmit ..) => inferInstanceAs (Decidable (_ → ¬ _))
  | .payout (.heal ..) | .payout (.create ..) | .payout (.reset ..) | .payout (.claimBuild ..)
  | .payout (.expire ..) | .payout (.expireAllocation ..) | .payout (.noteBroadcastError ..)
  | .payout (.setStatus ..) | .payout (.finalize ..) | .payout (.markFailed ..)
  | .payout (.registerLegacy ..) | .payout (.countRebroadcast ..) | .batch _ | .record _
  | .broadcast .. => isTrue trivial

instance (c : Write) (w : World) : Decidable (PaysOnce c w) :=
  inferInstanceAs (Decidable (_ ∧ _ ∧ _))

/-! ## The invariant -/

/-- Outstanding transactions are on record, each for its own payment, and a
payout on a legacy rail has none. -/
structure Exclusive (w : World) : Prop where
  onRecord : OnRecord w
  own : ∀ x ∈ w.chain.handed, x.2.SettlesOnly x.1
  ownHeld : ∀ p sig, (w.attempt p).txSignature = some sig → sig.message.SettlesOnly p
  legacy : ∀ p, w.Legacy p → ¬ w.chain.Settled p ∧ w.NoneUnexpired p

theorem Exclusive.not_inFlight {w : World} (hi : Exclusive w) {p : AllocationId}
    (hp : w.NoneUnexpired p) : ¬ w.chain.InFlight p := by
  rintro ⟨x, hx, hsettles, hu⟩
  obtain rfl := hi.own x hx p hsettles
  exact hp _ (hi.onRecord.handed x hx hu).1 hu

theorem Exclusive.paidOnce {w : World} (hi : Exclusive w) : w.PaidOnce :=
  fun p hp => ⟨(hi.legacy p hp).1, hi.not_inFlight (hi.legacy p hp).2⟩

theorem World.NoPayouts.onRecord {w : World} (h : w.NoPayouts) : OnRecord w where
  coherent := h.coherent
  handed x hx := absurd (h.2 ▸ hx) List.not_mem_nil
  held p sig hsig := by rw [h.attempt] at hsig; contradiction

theorem World.NoPayouts.exclusive {w : World} (h : w.NoPayouts) : Exclusive w where
  onRecord := h.onRecord
  own x hx := absurd (h.2 ▸ hx) List.not_mem_nil
  ownHeld p sig hsig := by rw [h.attempt] at hsig; contradiction
  legacy p hp := by
    obtain ⟨row, hrow, -⟩ := hp
    rw [h.find] at hrow
    contradiction

/-- Only an outstanding transaction settles. -/
theorem Chain.settled_before {c c' : Chain} (hl : c.Later c') (hh : c'.handed = c.handed)
    {p : AllocationId} (h : c'.Settled p) : c.Settled p ∨ c.InFlight p := by
  obtain ⟨i, hi, hr⟩ := h
  rcases hl.since i hi with hold | hnew
  · exact .inl ⟨i, hold, hr⟩
  · obtain ⟨q, hq⟩ := c'.included_handed i hi
    have hvalid := c'.height_le_valid i hi
    have hlt := c.confirmed_lt_head
    refine .inr ⟨(q, i.tx), hh ▸ hq, hr.2, not_isBlockhashExpired_iff.mpr ?_⟩
    exact (hlt.le.trans hnew).trans hvalid

theorem World.NoneUnexpired.later {s t : World} {p : AllocationId} (h : s.NoneUnexpired p)
    (hl : s.chain.Later t.chain) (hp : t.attempt p = s.attempt p) : t.NoneUnexpired p := by
  intro sig hsig hu
  exact h sig (hp ▸ hsig) (hu.earlier hl)

/-- What writes no payout and hands nothing over. -/
theorem Exclusive.congr {s t : World} (hi : Exclusive s) (hl : s.chain.Later t.chain)
    (hh : t.chain.handed = s.chain.handed) (hp : t.db.payouts = s.db.payouts) : Exclusive t where
  onRecord := (hi.onRecord.congr hl hh hp).2
  own := hh ▸ hi.own
  ownHeld p sig hsig := hi.ownHeld p sig (World.attempt_congr hp p ▸ hsig)
  legacy p hlegacy := by
    rw [World.Legacy, hp] at hlegacy
    obtain ⟨hsettled, hnone⟩ := hi.legacy p hlegacy
    refine ⟨fun h => ?_, hnone.later hl (World.attempt_congr hp p)⟩
    exact (Chain.settled_before hl hh h).elim hsettled (hi.not_inFlight hnone)

section Commit

variable {w : World} {c : PayoutWrite}

/-- A row that is on a legacy rail after a command was before, or is registered
by it. -/
theorem legacy_before (h : c.Applies w.db) (hl : ((Write.payout c).apply w).Legacy c.target) :
    w.Legacy c.target ∧ (∀ seen data, c ≠ .reset seen data) ∨ ∃ l, c = .registerLegacy l := by
  obtain ⟨row, hrow, hrail⟩ := hl
  rw [Write.apply_payout_db, PayoutWrite.find_payouts_apply h, if_pos rfl] at hrow
  cases hold : w.db.payouts.find c.target with
  | none =>
      rw [hold] at hrow
      cases c with
      | registerLegacy l => exact .inr ⟨l, rfl⟩
      | create data =>
          obtain rfl := Option.some.inj hrow
          exact absurd rfl hrail
      | _ => contradiction
  | some old =>
      rw [hold] at hrow
      obtain rfl := Option.some.inj hrow
      cases c with
      | registerLegacy l => exact .inr ⟨l, rfl⟩
      | reset seen data => exact absurd rfl hrail
      | _ => exact .inl ⟨⟨old, hold, hrail⟩, fun _ _ => by simp⟩

/-- A command that does not claim a transaction leaves no signature, or the one
that was there. -/
theorem noneUnexpired_apply (h : c.Applies w.db)
    (hc : ∀ seen tx now u, c ≠ .claimSubmit seen tx now u)
    (hnone : w.NoneUnexpired c.target) : ((Write.payout c).apply w).NoneUnexpired c.target := by
  intro sig hsig hu
  rw [World.attempt_apply_target h] at hsig
  cases c with
  | create | reset | claimBuild => contradiction
  | claimSubmit seen tx now u => exact hc seen tx now u rfl
  | _ => exact hnone sig hsig hu

theorem legacy_apply (hi : Exclusive w) (hok : PaysOnce (.payout c) w) (h : c.Applies w.db)
    {p : AllocationId} (hp : ((Write.payout c).apply w).Legacy p) :
    ¬ w.chain.Settled p ∧ ((Write.payout c).apply w).NoneUnexpired p := by
  by_cases ht : c.target = p
  · subst ht
    have hclaim : ∀ seen tx now u, c ≠ .claimSubmit seen tx now u := by
      rintro seen tx now u rfl
      rcases legacy_before h hp with ⟨hlegacy, -⟩ | ⟨l, hl⟩
      · exact hok.2.2 h hlegacy
      · contradiction
    rcases legacy_before h hp with ⟨hlegacy, -⟩ | ⟨l, rfl⟩
    · obtain ⟨hsettled, hnone⟩ := hi.legacy _ hlegacy
      exact ⟨hsettled, noneUnexpired_apply h hclaim hnone⟩
    · obtain ⟨hsettled, hnone⟩ := hok.1 h
      exact ⟨hsettled, noneUnexpired_apply h hclaim hnone⟩
  · have hlegacy : w.Legacy p := by
      rwa [World.Legacy, Write.apply_payout_db, PayoutWrite.find_payouts_apply h, if_neg ht] at hp
    obtain ⟨hsettled, hnone⟩ := hi.legacy p hlegacy
    refine ⟨hsettled, hnone.later (Chain.Later.refl _) ?_⟩
    rw [World.attempt_apply h, if_neg ht]

/-- A payout command of an admitted kind. -/
theorem Exclusive.apply_payout (hi : Exclusive w) (hok : PaysOnce (.payout c) w)
    (hcoh : ((Write.payout c).apply w).Coherent) : Exclusive ((Write.payout c).apply w) := by
  by_cases h : c.Applies w.db
  · have hstay : ∀ p tx, w.Unexpired tx → w.Tracks p tx → ((Write.payout c).apply w).Tracks p tx :=
      fun p tx hu ht => tracks_apply hi.onRecord.coherent hok.2.1 h hu ht
    exact
      { onRecord :=
          { coherent := hcoh
            handed := fun x hx hu => hstay x.1 x.2 hu (hi.onRecord.handed x hx hu)
            held := fun p sig => held_apply hi.onRecord hok.2.1 h }
        own := hi.own
        ownHeld := fun p sig hsig => by
          rcases signature_apply h hsig with hold | ⟨seen, now, u, rfl, rfl⟩
          · exact hi.ownHeld p sig hold
          · exact hok.1 h
        legacy := fun p hp => legacy_apply hi hok h hp }
  · rwa [Write.apply, PayoutWrite.apply_of_not_applies h]

/-- A broadcast of a transaction that is on record. -/
theorem Exclusive.apply_broadcast (hi : Exclusive w) {p : AllocationId} {tx : SignedTransaction}
    (hown : tx.SettlesOnly p) (ht : w.Unexpired tx → w.Tracks p tx) :
    Exclusive ((Write.broadcast p tx).apply w) where
  onRecord :=
    { coherent := hi.onRecord.coherent
      handed := fun x hx hu => by
        rcases List.mem_append.mp hx with hx | hx
        · exact hi.onRecord.handed x hx hu
        · obtain rfl := List.mem_singleton.mp hx
          exact ht hu
      held := hi.onRecord.held }
  own x hx := by
    rcases List.mem_append.mp hx with hx | hx
    · exact hi.own x hx
    · exact List.mem_singleton.mp hx ▸ hown
  ownHeld := hi.ownHeld
  legacy := hi.legacy

/-- A transaction that is broadcast settles no other payment than its own. -/
theorem settlesOnly_broadcast [Collation] {D : Discipline World Write}
    {since : AllocationId → World → World → Prop} (hinv : ∀ s, D.inv s → Exclusive s)
    (hok : ∀ c s, D.ok c s → RegistersUnsettled c s) {p : AllocationId} {tx : SignedTransaction}
    (hk : Known D since (.broadcast p tx) w) : tx.SettlesOnly p := by
  rcases hk with ⟨seen, now, u, rfl, s₀, -, hok₀, -, h, -⟩ | ⟨seen, rfl, -, -, htx, s₀, hi, -, hrow⟩
  · exact hok _ _ hok₀ h
  · refine (hinv _ hi).ownHeld _ tx.signature ?_
    rw [World.attempt_of_find hrow]
    exact ((hinv _ hi).onRecord.coherent _ _ hrow).signature htx

end Commit

/-! ## Calls that overlap -/

def exclusion : Discipline World Write where
  apply := Write.apply
  rely := tracking.rely
  inv := Exclusive
  ok := PaysOnce

theorem exclusion_congr {s t : World} (hi : Exclusive s) (hl : s.chain.Later t.chain)
    (hh : t.chain.handed = s.chain.handed) (hp : t.db.payouts = s.db.payouts) :
    exclusion.rely s t ∧ Exclusive t :=
  ⟨(hi.onRecord.congr hl hh hp).1, hi.congr hl hh hp⟩

theorem exclusion_commit [Collation] (c : Write) (s : World) (hi : Exclusive s)
    (hok : PaysOnce c s) (hk : Known exclusion (fun _ => exclusion.rely) c s) :
    exclusion.rely s (c.apply s) ∧ Exclusive (c.apply s) := by
  cases c with
  | payout c =>
      refine ⟨?_, hi.apply_payout hok (hi.onRecord.coherent.apply (c := .payout c) hk)⟩
      by_cases h : c.Applies s.db
      · refine ⟨Chain.Later.refl _, fun p tx ht hu => ?_⟩
        exact tracks_apply hi.onRecord.coherent hok.2.1 h hu (ht hu)
      · rw [Write.apply, PayoutWrite.apply_of_not_applies h]
        exact tracking_lawful.refl s
  | batch c => exact exclusion_congr hi (Write.apply_later _ s) rfl (c.payouts_apply s.db)
  | record c => exact exclusion_congr hi (Write.apply_later _ s) rfl (c.payouts_apply s.db)
  | broadcast p tx =>
      have ht : s.Unexpired tx → s.Tracks p tx :=
        tracks_broadcast rfl (fun _ => Exclusive.onRecord) (fun _ _ (hok : PaysOnce _ _) => hok.2.1)
          (fun _ _ (h : tracking.rely _ _) => h.2 _ _) (fun _ _ => id) hk
      have hown := settlesOnly_broadcast (fun _ => id) (fun _ _ (hok : PaysOnce _ _) => hok.1) hk
      exact ⟨⟨Write.apply_later _ s, fun _ _ => id⟩, hi.apply_broadcast hown ht⟩

theorem exclusion_sound [Collation] :
    service.Sound (fun _ _ => True) exclusion (Known exclusion fun _ => exclusion.rely) :=
  service_sound ⟨tracking_lawful.refl, tracking_lawful.trans⟩ rfl (fun h => h.1) exclusion_commit
    fun e s hi _ => exclusion_congr hi (e.apply_later s) (e.handed_apply s) (e.payouts_apply s)

/-! ## Calls that do not overlap -/

/-- A payout on a legacy rail is finalized. -/
structure ExclusiveFinal (w : World) : Prop where
  exclusive : Exclusive w
  final : ∀ p, w.Legacy p → w.Finalized p

/-- What writes no payout and hands nothing over. -/
theorem ExclusiveFinal.congr {s t : World} (hi : ExclusiveFinal s) (hl : s.chain.Later t.chain)
    (hh : t.chain.handed = s.chain.handed) (hp : t.db.payouts = s.db.payouts) :
    ExclusiveFinal t where
  exclusive := hi.exclusive.congr hl hh hp
  final p hlegacy := by
    rw [World.Finalized, hp]
    exact hi.final p (by rwa [World.Legacy, hp] at hlegacy)

theorem World.NoPayouts.exclusiveFinal {w : World} (h : w.NoPayouts) : ExclusiveFinal w where
  exclusive := h.exclusive
  final p hlegacy := by
    obtain ⟨row, hrow, -⟩ := hlegacy
    rw [h.find] at hrow
    contradiction

section Alone

variable {ok : Write → World → Prop} {inv : World → Prop} {w : World}

/-- Calls that do not overlap find every payout as they read it. -/
theorem finalAsRead_alone {c : PayoutWrite}
    (hk : PayoutKnown (.alone Write.apply inv ok) Kept c w) : FinalAsRead (.payout c) w := by
  have hseen : ∀ {seen : Payout}, RowIs seen w → w.Finalized seen.paymentId →
      seen.status = .finalized := by
    intro seen hrow hf
    rw [World.Finalized, show w.db.payouts.find seen.paymentId = some seen from hrow] at hf
    exact Option.some.inj hf
  have hactive : ∀ {seen : Payout}, seen.Active →
      Recall (.alone Write.apply inv ok) Kept seen.paymentId (RowIs seen) w →
      ¬ w.Finalized seen.paymentId := by
    intro seen hactive hrecall hf
    obtain ⟨row, hrow, -, hstay⟩ := hrecall.row
    rw [World.Finalized, hrow] at hf
    exact (hstay hactive).1 (Option.some.inj hf)
  cases c with
  | heal seen status => exact hseen hk.1.still
  | reset seen data => exact hseen hk.2.1.still
  | setStatus seen status => exact fun hf => absurd hf (hactive hk.active_of_setStatus hk.1)
  | markFailed seen cause => exact fun hf => absurd hf (hactive hk.2.1 hk.1)
  | expireAllocation p =>
      obtain ⟨s, -, h, rfl⟩ := hk
      intro hf
      have hstatus := (finalized_apply h p).mp hf
      simp [PayoutWrite.target, PayoutWrite.status] at hstatus
  | _ => trivial

/-- They keep track of what is outstanding. -/
theorem keepsTrack_alone (hi : ExclusiveFinal w) {c : PayoutWrite}
    (hk : PayoutKnown (.alone Write.apply inv ok) Kept c w) :
    KeepsTrack (.payout c) w ∧ ClaimsUsdc (.payout c) w := by
  have hrecord := hi.exclusive.onRecord
  have hexpired : ∀ {seen : Payout}, RowIs seen w →
      (∀ n ∈ seen.lastValidBlockHeight, Seen (.alone Write.apply inv ok) (Expired n) w) →
      w.NoneUnexpired seen.paymentId := by
    intro seen hrow hexp sig hsig hu
    have hvalid := (hrecord.held _ sig hsig hu).2
    rw [World.attempt_of_find hrow] at hvalid
    have hexpired : Expired _ w := (hexp _ hvalid).still
    rw [World.Unexpired, hexpired] at hu
    contradiction
  cases c with
  | reset seen data => exact ⟨hexpired hk.2.1.still hk.2.2.2.2, trivial⟩
  | claimBuild seen built now u signer =>
      refine ⟨fun _ => ?_, trivial⟩
      have hrow : RowIs seen w := hk.1.still
      by_cases hcreated : seen.status = .created
      · intro sig hsig
        rw [World.attempt_of_find hrow] at hsig
        have hunsigned := (hrecord.coherent _ _ hrow).unsigned (by rw [hcreated]; decide)
        exact absurd (hsig.symm.trans hunsigned) (Option.some_ne_none sig)
      · exact hexpired hrow (hk.2.2 hcreated)
  | claimSubmit seen tx now u =>
      have hrow : RowIs seen w := hk.1.still
      refine ⟨fun _ _ => ?_, fun _ hlegacy => ?_⟩
      · rw [World.attempt_of_find hrow]
        refine (hrecord.coherent _ _ hrow).valid.trans ?_
        rw [hk.2.2, Option.map_some]
      · have hf := hi.final _ hlegacy
        rw [World.Finalized, show w.db.payouts.find seen.paymentId = some seen from hrow,
          Option.map_some, hk.2.1] at hf
        contradiction
  | _ => exact ⟨trivial, trivial⟩

/-- A payout on a legacy rail stays finalized. -/
theorem final_payout (hi : ExclusiveFinal w) {c : PayoutWrite}
    (hk : PayoutKnown (.alone Write.apply inv ok) Kept c w) (h : c.Applies w.db)
    {p : AllocationId} (hp : ((Write.payout c).apply w).Legacy p) :
    ((Write.payout c).apply w).Finalized p := by
  rw [finalized_apply h]
  by_cases ht : c.target = p
  · subst ht
    rw [if_pos rfl]
    rcases legacy_before h hp with ⟨hlegacy, -⟩ | ⟨l, rfl⟩
    · have hf := hi.final _ hlegacy
      exact (status_of_finalized hk (finalAsRead_alone hk) h hf).imp id fun hs => ⟨hs, hf⟩
    · exact .inl rfl
  · rw [if_neg ht]
    rw [World.Legacy, Write.apply_payout_db, PayoutWrite.find_payouts_apply h, if_neg ht] at hp
    exact hi.final p hp

/-- Tracking lasts while a call remembers the row. -/
theorem Kept.tracks {p : AllocationId} {s t : World} (h : Kept p s t) {tx : SignedTransaction}
    (hs : s.Unexpired tx → s.Tracks p tx) (hu : t.Unexpired tx) : t.Tracks p tx := by
  have ht := hs (hu.earlier h.later)
  cases hrow : s.db.payouts.find p with
  | none =>
      have hunbuilt : s.attempt p = .unbuilt := by rw [World.attempt, hrow]; rfl
      rw [World.Tracks, hunbuilt] at ht
      exact absurd ht.1.symm (Option.some_ne_none _)
  | some row =>
      obtain ⟨row', hrow', hattempt, -⟩ := h.row row hrow
      rw [World.Tracks, World.attempt_of_find hrow] at ht
      rw [World.Tracks, World.attempt_of_find hrow', hattempt]
      exact ht

end Alone

/-- A transaction is on record when it is broadcast. -/
theorem tracks_broadcast_alone [Collation] {s : World} {p : AllocationId} {tx : SignedTransaction}
    (hk : Known (.alone Write.apply ExclusiveFinal RegistersUnsettled) Kept (.broadcast p tx) s) :
    s.Unexpired tx → s.Tracks p tx := by
  rcases hk with ⟨seen, now, u, rfl, s₀, hi₀, hok₀, hk₀, h, rfl⟩ |
    ⟨seen, rfl, -, -, htx, s₀, hi₀, hkept, hrow⟩
  · intro hu
    have hkeeps := (keepsTrack_alone hi₀ hk₀).1
    refine held_apply (c := .claimSubmit seen tx now u) hi₀.exclusive.onRecord hkeeps h ?_ hu
    exact congrArg Attempt.txSignature (World.attempt_apply_target h)
  · refine hkept.tracks fun hu => hi₀.exclusive.onRecord.held _ tx.signature ?_ hu
    rw [World.attempt_of_find hrow]
    exact (hi₀.exclusive.onRecord.coherent _ _ hrow).signature htx

theorem exclusive_alone [Collation] (c : Write) (s : World) (hi : ExclusiveFinal s)
    (hok : RegistersUnsettled c s)
    (hk : Known (.alone Write.apply ExclusiveFinal RegistersUnsettled) Kept c s) :
    ExclusiveFinal (c.apply s) := by
  cases c with
  | payout c =>
      have hpays : PaysOnce (.payout c) s := ⟨hok, keepsTrack_alone hi hk⟩
      refine ⟨hi.exclusive.apply_payout hpays
        (hi.exclusive.onRecord.coherent.apply (c := .payout c) hk), fun p hp => ?_⟩
      by_cases h : c.Applies s.db
      · exact final_payout hi hk h hp
      · rw [Write.apply, PayoutWrite.apply_of_not_applies h] at hp ⊢
        exact hi.final p hp
  | batch c => exact hi.congr (Write.apply_later _ s) rfl (c.payouts_apply s.db)
  | record c => exact hi.congr (Write.apply_later _ s) rfl (c.payouts_apply s.db)
  | broadcast p tx =>
      have hown := settlesOnly_broadcast (fun _ hi => ExclusiveFinal.exclusive hi)
        (fun _ _ hok => hok) hk
      exact ⟨hi.exclusive.apply_broadcast hown (tracks_broadcast_alone hk), hi.final⟩

/-! ## The result -/

/-- **No allocation is paid twice**: in every run whose calls overlap and meet
the conditions, and in every run of one call at a time in which legacy evidence
is registered only for unsettled payments and each transaction is signed for
its own payment, no payout on a legacy rail is settled on chain, or can be. -/
theorem paid_once [Collation] {s : World} (hs : s.NoPayouts) :
    (∀ ms : List (Move Call EnvMove),
      service.Respects PaysOnce (fun _ _ => True) ms (Config.start s) →
        (service.exec ms (Config.start s)).store.PaidOnce) ∧
    ∀ as : List (Act Call EnvMove), service.Admits RegistersUnsettled (fun _ _ => True) as s →
      (service.performAll as s).PaidOnce := by
  constructor
  · intro ms hms
    have hend : Exclusive (service.exec ms (Config.start s)).store :=
      exclusion_sound.exec_inv hs.exclusive hms
    exact hend.paidOnce
  · intro as has
    have henv : ∀ (e : EnvMove) s, ExclusiveFinal s → True → ExclusiveFinal (e.apply s) :=
      fun e s hi _ => hi.congr (e.apply_later s) (e.handed_apply s) (e.payouts_apply s)
    have hend : ExclusiveFinal (service.performAll as s) :=
      alone_inv exclusive_alone henv hs.exclusiveFinal has
    exact hend.exclusive.paidOnce

section Example

open Scenario

/-- The broadcast transaction expires, the reconciliation fails the payout, and
the worker is paid in cash. -/
def paidAfterExpiry : List (Act Call EnvMove) :=
  submitted ++ expires.map .env ++ [.call (.worker (.reconcileStalePayouts 0)) 20,
    .call (register 1) 20]

theorem paid_once_after_expiry :
    ((@service byCodePoint).exec (moves 0 paidAfterExpiry)
        (Config.start World.empty)).store.PaidOnce ∧
      ((@service byCodePoint).performAll paidAfterExpiry World.empty).PaidOnce :=
  ⟨(@paid_once byCodePoint World.empty ⟨rfl, rfl⟩).1 (moves 0 paidAfterExpiry) (by decide +kernel),
    (@paid_once byCodePoint World.empty ⟨rfl, rfl⟩).2 paidAfterExpiry (by decide +kernel)⟩

/-- Cash is registered while the transaction is outstanding; then it lands. -/
theorem paid_twice :
    let t := (@service byCodePoint).performAll
      (submitted ++ [.call (register 1) 20] ++ settles.map .env) World.empty
    (t.db.payouts.find 1).map (fun row => (row.status, row.rail)) =
        some (.finalized, .cashDrawer) ∧ t.chain.Settled 1 := by
  decide +kernel

end Example

end ServeProof
