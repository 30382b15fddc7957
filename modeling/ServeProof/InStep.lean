import ServeProof.Attribution
import ServeProof.Interleave.Refresh
import ServeProof.Knowledge.Ledger
import ServeProof.Scenario

/-!
# ServeProof.InStep

No update of the projection is lost: whoever finalizes a payout refreshes the
income ledger of its venue afterwards, and once all of them have returned, the
ledger is in step with the payouts, however they were interleaved.

The income ledger is the view, the evidence of the venue its source, the row of
the venue the lock.
-/

namespace ServeProof

open Interleave
open Prog (put owes_get_bind only_get_bind only_putGet_bind only_orThrow_bind only_require_bind
  only_ite)

/-! ## What a finalization writes -/

/-- The writes of a finalization. -/
def Write.Finalizes : Write → Prop
  | .payout (.registerLegacy _) | .payout (.finalize ..) | .batch (.rollup ..) => True
  | _ => False

/-- The request finalizes a payout of the venue. -/
def Request.FinalizesIn (venueId : VenueId) (s : Platform) : Request → Prop
  | .income (.finalizeLegacy allocationId ..) => s.venueOf allocationId = some venueId
  | .income (.finalizeSettled payoutId _) =>
      (s.world.db.payouts.find payoutId).map Payout.venueId = some venueId
  | _ => False

/-- Only the chain and the clock move. -/
def PlatformMove.Quiet : PlatformMove → Prop
  | .world (.chain _) | .wait _ => True
  | _ => False

/-- The projection of the venue is the one of the evidence. -/
def Platform.InStep (s : Platform) (venueId : VenueId) : Prop :=
  ∀ shift ∈ s.shiftsOf venueId, ProjectedFrom (s.evidence venueId) venueId s.books shift

/-- The finalizations of a venue: its ledger is the view, its evidence the source. -/
def finalizations (venueId : VenueId) (requests : List Request) : Refresh Platform Command where
  stable s := (s.world.db.venues.find venueId).isSome ∧
    ∀ r ∈ requests, r.FinalizesIn venueId s
  changes c := ∃ w, c = .settle w ∧ w.Finalizes
  take n := .lockVenue n venueId
  writes := Command.Rewrites
  holds n s := s.lock venueId = some n
  same s t := t.evidence venueId = s.evidence venueId
  inStep s := s.InStep venueId

/-! ## What the commands do -/

section Commands

variable {s t : Platform} {venueId : VenueId} {requests : List Request}

/-- An allocation stays in its batch. -/
theorem venueOf_settle {w : Write} (hw : w.Finalizes) {p : AllocationId}
    (h : s.venueOf p = some venueId) : ((Command.settle w).apply s).venueOf p = some venueId := by
  obtain ⟨a, ha, hvenue⟩ := Option.map_eq_some_iff.mp h
  refine Option.map_eq_some_iff.mpr ?_
  cases w with
  | record c => exact hw.elim
  | broadcast => exact hw.elim
  | batch c =>
      cases c with
      | rollup id status =>
          refine ⟨a, ?_, hvenue⟩
          exact (congrArg (Table.find · p) (BatchWrite.allocations_rollup id status _)).trans ha
      | saveCalculation | approve | reject | attach => exact hw.elim
  | payout c =>
      by_cases hc : c.Applies s.world.db
      · have hfind := PayoutWrite.find_allocations_apply hc p
        by_cases hp : c.target = p
        · rw [if_pos hp, hp, ha, Option.map_some] at hfind
          exact ⟨c.pay a, hfind, by rw [PayoutWrite.pay_batchId, hvenue]⟩
        · rw [if_neg hp] at hfind
          exact ⟨a, hfind.trans ha, hvenue⟩
      · refine ⟨a, ?_, hvenue⟩
        exact (congrArg (fun d : Db => d.allocations.find p)
          (PayoutWrite.apply_of_not_applies hc)).trans ha

/-- A payout stays one of its venue. -/
theorem payoutVenue_settle {w : Write} (hw : w.Finalizes) {p : AllocationId}
    (h : (s.world.db.payouts.find p).map Payout.venueId = some venueId) :
    (((Command.settle w).apply s).world.db.payouts.find p).map Payout.venueId = some venueId := by
  obtain ⟨row, hrow, hvenue⟩ := Option.map_eq_some_iff.mp h
  refine Option.map_eq_some_iff.mpr ?_
  cases w with
  | record c => exact hw.elim
  | broadcast => exact hw.elim
  | batch c =>
      refine ⟨row, ?_, hvenue⟩
      exact (congrArg (Table.find · p) (BatchWrite.payouts_apply c _)).trans hrow
  | payout c =>
      by_cases hc : c.Applies s.world.db
      · have hfind := PayoutWrite.find_payouts_apply hc p
        by_cases hp : c.target = p
        · rw [if_pos hp, hp, hrow] at hfind
          refine ⟨c.update row, hfind, ?_⟩
          cases c with
          | registerLegacy | finalize => exact hvenue
          | _ => exact hw.elim
        · rw [if_neg hp] at hfind
          exact ⟨row, hfind.trans hrow, hvenue⟩
      · refine ⟨row, ?_, hvenue⟩
        exact (congrArg (fun d : Db => d.payouts.find p)
          (PayoutWrite.apply_of_not_applies hc)).trans hrow

theorem Request.FinalizesIn.settle {w : Write} (hw : w.Finalizes) {r : Request}
    (h : r.FinalizesIn venueId s) : r.FinalizesIn venueId ((Command.settle w).apply s) := by
  cases r with
  | service => exact h.elim
  | disclosure => exact h.elim
  | income r =>
      cases r with
      | rebuildVenue => exact h.elim
      | correctEntry => exact h.elim
      | finalizeLegacy => exact venueOf_settle hw h
      | finalizeSettled => exact payoutVenue_settle hw h

/-- Which payouts are of a venue is said by the world. -/
theorem Request.FinalizesIn.congr {r : Request} (h : r.FinalizesIn venueId s)
    (hworld : t.world.db = s.world.db) : r.FinalizesIn venueId t := by
  cases r with
  | service => exact h.elim
  | disclosure => exact h.elim
  | income r =>
      cases r with
      | rebuildVenue => exact h.elim
      | correctEntry => exact h.elim
      | finalizeLegacy =>
          simpa only [Request.FinalizesIn, Platform.venueOf, hworld] using h
      | finalizeSettled => simpa only [Request.FinalizesIn, hworld] using h

theorem Write.venues_finalizes {w : Write} (hw : w.Finalizes) (world : World) :
    (w.apply world).db.venues = world.db.venues := by
  cases w with
  | payout c => exact congrArg Records.venues (c.records_apply world.db)
  | batch c => exact congrArg Records.venues (c.records_apply world.db)
  | record c => exact hw.elim
  | broadcast => exact hw.elim

theorem stable_congr (hworld : t.world.db = s.world.db)
    (h : (finalizations venueId requests).stable s) :
    (finalizations venueId requests).stable t :=
  ⟨by rw [hworld]; exact h.1, fun r hr => (h.2 r hr).congr hworld⟩

/-- The evidence of a venue is in the world and the payroll records. -/
theorem evidence_congr (hworld : t.world.db = s.world.db)
    (hpayroll : t.books.payrollRecords = s.books.payrollRecords) :
    t.evidence venueId = s.evidence venueId := by
  simp only [Platform.evidence, Platform.shiftsOf, Platform.tipsOf, Platform.batchesOf,
    Platform.paidAllocations, Platform.payrollOf, hworld, hpayroll]

theorem evidence_books {c : BooksWrite} (hc : (Command.books c).Projects) :
    ((Command.books c).apply s).evidence venueId = s.evidence venueId := by
  refine evidence_congr rfl ?_
  cases c with
  | savePayroll | correct => exact hc.elim
  | updateEntry | createEntry | deleteAlerts | createAlerts | log => rfl

theorem evidence_unlock (session : Nat) (v : VenueId) :
    ((Command.unlockVenue session v).apply s).evidence venueId = s.evidence venueId := by
  simp only [Command.apply]
  split <;> rfl

theorem Platform.InStep.keptOn (h : s.InStep venueId)
    (hev : t.evidence venueId = s.evidence venueId)
    (hkept : s.books.KeptOn (ForVenue venueId) t.books) : t.InStep venueId := by
  intro shift hshift
  rw [hev]
  have hshift' : shift ∈ s.shiftsOf venueId := by
    rw [← show (s.evidence venueId).shifts = s.shiftsOf venueId from rfl, ← hev]
    exact hshift
  refine (h shift hshift').keptOn hkept fun workerId _ => ?_
  exact congrArg some (of_decide_eq_true (List.mem_filter.mp hshift').2)

theorem ReadUnder.eq {ev ev' : Evidence}
    (h : ReadUnder (fun s => s.evidence venueId = ev') venueId ev) : ev = ev' := by
  obtain ⟨s₁, s₂, s₃, s₄, h₁, h₂, h₃, h₄, rfl⟩ := h
  rw [show s₁.shiftsOf venueId = ev'.shifts from congrArg Evidence.shifts h₁,
    show s₂.tipsOf venueId = ev'.tips from congrArg Evidence.tips h₂,
    show s₃.batchesOf venueId = ev'.batches from congrArg Evidence.batches h₃,
    show s₄.payrollOf venueId = ev'.payrollRecords from congrArg Evidence.payrollRecords h₄]

end Commands

/-! ## The lock -/

section Lock

variable {s : Platform} {venueId v : VenueId} {session m : Nat}

/-- Letting go of a row leaves the others, and the locks of other sessions. -/
theorem lock_unlock (session : Nat) (v : VenueId) (s : Platform) :
    ((Command.unlockVenue session v).apply s).lock venueId =
      if v = venueId ∧ s.lock v = some session then none else s.lock venueId := by
  simp only [Command.apply]
  split
  · next hlock =>
    by_cases hv : v = venueId
    · subst hv
      rw [if_pos ⟨rfl, hlock⟩]
      exact Function.update_self ..
    · rw [if_neg fun h => hv h.1]
      exact Function.update_of_ne (Ne.symm hv) ..
  · next hlock => rw [if_neg fun h => hlock h.2]

theorem books_unlock (session : Nat) (v : VenueId) (s : Platform) :
    ((Command.unlockVenue session v).apply s).books = s.books := by
  simp only [Command.apply]
  split <;> rfl

theorem world_unlock (session : Nat) (v : VenueId) (s : Platform) :
    ((Command.unlockVenue session v).apply s).world = s.world := by
  simp only [Command.apply]
  split <;> rfl

theorem holds_unlock (hm : m ≠ session) :
    ((Command.unlockVenue session v).apply s).lock venueId = some m ↔
      s.lock venueId = some m := by
  rw [lock_unlock]
  split
  · next h =>
    obtain ⟨rfl, hlock⟩ := h
    rw [hlock]
    simp [hm.symm]
  · exact Iff.rfl

theorem holds_of_unlock (h : ((Command.unlockVenue session v).apply s).lock venueId = some m) :
    s.lock venueId = some m := by
  rw [lock_unlock] at h
  split at h
  · cases h
  · exact h

theorem free_of_unlock (h : s.lock venueId = some m)
    (hnot : ((Command.unlockVenue session v).apply s).lock venueId ≠ some m) :
    ((Command.unlockVenue session v).apply s).lock venueId = none := by
  rw [lock_unlock] at hnot ⊢
  split at hnot
  · next hv => rw [if_pos hv]
  · exact absurd h hnot

end Lock

/-! ## The finalizations of a venue -/

section Keeps

variable [Collation] {venueId : VenueId} {requests : List Request}

theorem keeps_finalizations : (finalizations venueId requests).Keeps ledger platform
    (fun _ _ => True) PlatformMove.Quiet Informed where
  sound := ledger_sound
  same_refl _ := rfl
  same_trans h h' := h'.trans h
  changes := by
    rintro c s ⟨w, rfl, hw⟩ ⟨hvenue, hrequests⟩
    refine ⟨?_, fun r hr => (hrequests r hr).settle hw⟩
    rw [← Write.venues_finalizes hw s.world] at hvenue
    exact hvenue
  take := by
    intro n s hs hlock
    have hvenue := hs.1
    have happly : (Command.lockVenue n venueId).apply s =
        { s with lock := Function.update s.lock venueId (some n) } := if_pos hvenue
    have hworld : ((Command.lockVenue n venueId).apply s).world.db = s.world.db := by rw [happly]
    refine ⟨stable_congr hworld hs, ?_⟩
    have hlock : ((Command.lockVenue n venueId).apply s).lock venueId = some n := by
      rw [happly]
      exact Function.update_self ..
    exact hlock
  writes := by
    intro n c s hc _ _ hk
    cases c with
    | books c =>
        refine ⟨stable_congr rfl, evidence_books hc, fun _ _ => Iff.rfl, id, fun h hnot => ?_⟩
        exact absurd h hnot
    | unlockVenue session v =>
        have hsession : session = n := hk.1
        subst hsession
        refine ⟨stable_congr (congrArg World.db (world_unlock session v s)),
          evidence_unlock session v, fun m hm => holds_unlock hm, holds_of_unlock,
          fun h hnot m hm => ?_⟩
        cases (free_of_unlock h hnot).symm.trans hm
    | settle | disclose | correct | redis | lockVenue | answer => exact hc.elim
  inStep := by
    intro n c s hc _ _ hk hfree h
    refine h.keptOn ?_ (keptOn_commit hk.1 (hfree n))
    cases c with
    | books c => exact evidence_books hc
    | unlockVenue session v => exact evidence_unlock session v
    | settle | disclose | correct | redis | lockVenue | answer => exact hc.elim
  env := by
    intro e s he
    cases e with
    | payroll => exact he.elim
    | wait ms => exact ⟨stable_congr rfl, rfl, fun _ => Iff.rfl, id⟩
    | world e =>
        cases e with
        | record => exact he.elim
        | chain step => exact ⟨stable_congr rfl, rfl, fun _ => Iff.rfl, id⟩

/-! ## The calls -/

/-- The rebuild of a session that holds the row, while nobody writes the evidence. -/
theorem rebuilding_finalizations (requests : List Request) (n : Nat) (ev : Evidence) :
    Rebuilding ((finalizations venueId requests).holder ledger n)
      ((finalizations venueId requests).LetsGo ledger n) n venueId
      fun s => s.evidence venueId = ev where
  lawful := keeps_finalizations.holder_lawful n
  apply := rfl
  others hlock hev hr := ⟨(hr.1.held _ hlock).1, hr.2.1.trans hev, (hr.1.held _ hlock).2⟩
  own hev hc := (evidence_books hc).trans hev
  known hlock _ _ _ := .inl hlock

/-- Once it has the row of the venue, a rebuild leaves the ledger in step. -/
theorem refreshes_rebuildVenueIncomeLocked {s : Platform}
    (hs : (finalizations venueId requests).stable s) (n : Nat) (actorUserId : Option UserId)
    (source : IncomeProjectionSource) :
    (finalizations venueId requests).Refreshes ledger n
      (rebuildVenueIncomeLocked venueId actorUserId source >>= fun _ =>
        put (.unlockVenue n venueId)) s := by
  refine ⟨(only_rebuildVenueIncomeLocked venueId actorUserId source).bind fun result =>
    ⟨trivial, fun _ => trivial⟩, fun _ hgranted => ?_⟩
  have hlock := (keeps_finalizations.take hs hgranted).2
  have hlocked := sat_rebuildVenueIncomeLocked (rebuilding_finalizations requests n _) hlock
    rfl actorUserId source
  refine Prog.Sat.bind (keeps_finalizations.holder_lawful n) (hlocked.mono fun result t ht => ?_)
  obtain ⟨hlock, hev, ev, hread, hproj⟩ := ht
  have hstep : t.InStep venueId := by
    intro shift hshift
    rw [hev, ← hread.eq]
    rw [← show (t.evidence venueId).shifts = t.shiftsOf venueId from rfl, hev, ← hread.eq] at hshift
    exact hproj shift hshift
  intro u hr _ _
  have hstep' := hstep.keptOn hr.2.1 (hr.1.held venueId hlock).2
  refine ⟨fun _ => .inr ?_, fun v hr' _ => hr'.2.2 ?_⟩
  · refine hstep'.keptOn (evidence_unlock n venueId) ?_
    rw [show (ledger.apply (.unlockVenue n venueId) u).books = u.books from
      books_unlock n venueId u]
    exact .refl u.books
  · have hfree : ((Command.unlockVenue n venueId).apply u).lock venueId ≠ some n := by
      rw [lock_unlock, if_pos ⟨rfl, (hr.1.held venueId hlock).1⟩]
      exact fun h => nomatch h
    exact hfree

/-- A rebuild pays what is owed. -/
theorem owes_rebuildVenueIncome (n : Nat) (actorUserId : Option UserId)
    (source : IncomeProjectionSource) :
    (rebuildVenueIncome n venueId actorUserId source >>= fun _ => (pure () : Action Unit)).Owes
      (finalizations venueId requests) n ((finalizations venueId requests).Refreshes ledger n) := by
  refine .inr ⟨rfl, fun s hs => ?_⟩
  have hgoes : ∀ found, found = true → (finalizations venueId requests).Refreshes ledger n
      ((if found = false then (pure none : Action _) else do
        let result ← rebuildVenueIncomeLocked venueId actorUserId source
        put (.unlockVenue n venueId)
        pure (some result)) >>= fun _ => pure ()) s := by
    rintro _ rfl
    rw [if_neg (by decide), Prog.bind_assoc]
    exact refreshes_rebuildVenueIncomeLocked hs n actorUserId source
  exact hgoes _ hs.1

end Keeps

/-! ## What the calls write -/

theorem finalizes_refreshBatchPaymentStatus (batchId : BatchId) :
    (refreshBatchPaymentStatus batchId).Only Write.Finalizes :=
  only_get_bind.mpr fun _ => ⟨trivial, fun _ => trivial⟩

theorem finalizes_writeRow {c : PayoutWrite} (hc : (Write.payout c).Finalizes) (e : ApiError) :
    (writeRow c e).Only Write.Finalizes := by
  refine only_putGet_bind.mpr ⟨hc, fun w => ?_⟩
  cases (if c.Applies w.db then c.row (w.db.payouts.find c.target) else none) <;> trivial

theorem finalizes_registerLegacyEvidence (p : AllocationId) (rail : LegacyRail)
    (reference : String) (submittedBy : Option UserId) (now : Time) :
    (registerLegacyEvidence p rail reference submittedBy now).Only Write.Finalizes := by
  refine only_get_bind.mpr fun w => only_orThrow_bind.mpr fun v _ =>
    only_orThrow_bind.mpr fun workerId _ => only_ite.mpr ⟨fun _ => ?_, fun _ => ?_⟩
  · refine only_get_bind.mpr fun w => ?_
    cases (w.db.payouts.find p).filter fun p => decide (p.status = .finalized) <;> trivial
  · refine only_require_bind.mpr fun _ => Prog.Only.bind ?_ fun payout => ?_
    · exact finalizes_writeRow (c := .registerLegacy _) trivial _
    · exact (finalizes_refreshBatchPaymentStatus _).bind fun _ => trivial

theorem finalizes_finalizeFromChain (p : AllocationId) (slot : Option Nat) :
    (finalizeFromChain p slot).Only Write.Finalizes := by
  refine only_get_bind.mpr fun w => ?_
  cases w.db.payouts.find p with
  | none => trivial
  | some payout =>
      refine only_ite.mpr ⟨fun _ => trivial, fun _ => ?_⟩
      refine only_get_bind.mpr fun w => only_orThrow_bind.mpr fun record _ =>
        only_get_bind.mpr fun w => (only_transact.mpr trivial).bind fun _ => ?_
      refine only_get_bind.mpr fun w => ?_
      cases w.db.allocations.find p with
      | none => trivial
      | some a => exact finalizes_refreshBatchPaymentStatus a.batchId

section Owes

variable {venueId : VenueId} {requests : List Request} {s : Platform}

theorem changes_settling {α : Type} {p : Service α} (hp : p.Only Write.Finalizes) :
    (settling p).Only (finalizations venueId requests).changes :=
  Prog.Only.lift (hp.imp fun w hw => ⟨w, rfl, hw⟩)

variable [Collation]

/-- Every finalization of the venue owes a refresh. -/
theorem owes_prog {r : Request} (hr : r ∈ requests) (hs : r.FinalizesIn venueId s) (n : Nat) :
    (Request.prog (n, r)).Owes (finalizations venueId requests) n
      ((finalizations venueId requests).Refreshes ledger n) := by
  cases r with
  | service => exact hs.elim
  | disclosure => exact hs.elim
  | income r =>
      cases r with
      | rebuildVenue => exact hs.elim
      | correctEntry => exact hs.elim
      | finalizeLegacy p rail reference by' now =>
          change (finalizeLegacy n p rail reference by' now >>= fun _ => pure ()).Owes _ n _
          simp only [finalizeLegacy, Prog.bind_assoc]
          refine owes_get_bind.mpr fun t ht => Prog.Owes.orThrow fun v hv => ?_
          have hvenue : t.venueOf p = some venueId := ht.2 _ hr
          cases hvenue.symm.trans hv
          have honly := finalizes_registerLegacyEvidence p rail reference by' now
          refine Prog.Owes.of_only (changes_settling honly) fun payout => ?_
          rw [rebuildIncomeProjection, Prog.bind_assoc]
          exact owes_rebuildVenueIncome n by' .system
      | finalizeSettled p slot =>
          change (finalizeSettled n p slot).Owes _ n _
          refine owes_get_bind.mpr fun t ht => ?_
          have hvenue : (t.world.db.payouts.find p).map Payout.venueId = some venueId :=
            ht.2 _ hr
          rw [hvenue]
          have honly := finalizes_finalizeFromChain p slot
          refine Prog.Owes.of_only (changes_settling honly) fun _ => ?_
          exact owes_rebuildVenueIncome n none .system

end Owes

/-! ## The ledger after the finalizations -/

/-- There is one base entry of a pair. -/
theorem Books.Lineage.data_of_base {b : Books} (hb : b.Lineage) {e : IncomeEntry}
    (he : e ∈ b.entries.rows) (hbase : e.Base) {id : EntryId} {data : EntryData}
    (h : b.baseData e.pair = some (id, data)) : e.data = data := by
  obtain ⟨e', he', hdata⟩ := Option.map_eq_some_iff.mp h
  obtain ⟨hmem, hpair, hbase'⟩ := mem_of_baseEntry he'
  cases hb.oneBase e he e' hmem hbase hbase' hpair.symm
  exact (Prod.ext_iff.mp hdata).2

section InStep

variable [Collation] {venueId : VenueId} {s : Platform} {ms ms' : List (Move Request PlatformMove)}

/-- In the run `ms ++ ms'` the calls of `ms` have ended when those of `ms'` start,
and these are finalizations of the venue and have all returned. -/
structure Finalizing (venueId : VenueId) (s : Platform)
    (ms ms' : List (Move Request PlatformMove)) : Prop where
  granted : Granted (ms ++ ms') s
  before : ∀ p ∈ (platform.runFrom s ms).threads, p.Ended
  venue : ((platform.runFrom s ms).store.world.db.venues.find venueId).isSome
  finalizes : ∀ r ∈ calls ms', r.FinalizesIn venueId (platform.runFrom s ms).store
  nonempty : calls ms' ≠ []
  quiet : ∀ e, .env e ∈ ms' → e.Quiet
  returned : ∀ p ∈ (platform.runFrom s (ms ++ ms')).threads.drop (calls ms).length,
    p.Returned

theorem Finalizing.inStep (h : Finalizing venueId s ms ms') (hs : s.books.Lineage) :
    (platform.runFrom s (ms ++ ms')).store.books.Lineage ∧
      (platform.runFrom s (ms ++ ms')).store.InStep venueId := by
  have hheld' := ledger_sound.held hs h.granted
  refine ⟨hheld'.inv, ?_⟩
  have hlen := platform.length_exec_number ms (Config.start s)
  have hzero : (Config.start s : Config Platform Command ApiError).threads.length = 0 := rfl
  rw [hzero, Nat.zero_add] at hlen
  have hgranted := h.granted
  rw [Granted, number_append, System.respects_append, Nat.zero_add, ← hlen] at hgranted
  have hheld := ledger_sound.held hs hgranted.1
  have htracked : (finalizations venueId (calls ms')).Tracked ledger (calls ms).length
      (platform.runFrom s ms) :=
    ⟨⟨h.venue, h.finalizes⟩, fun n p hn => .inl ((h.before p (List.mem_of_getElem? hn)).only _)⟩
  have hfresh := Refresh.fresh_exec keeps_finalizations hheld htracked hlen.ge
    (fun r hr n => owes_prog hr (h.finalizes r hr) n) hgranted.2 h.quiet (.inr h.nonempty)
  have hreturned := h.returned
  rw [System.runFrom_append] at hheld' hreturned ⊢
  exact hfresh.inStep keeps_finalizations hheld' hreturned

/-- However the finalizations of a venue and their rebuilds are interleaved, once
all have returned the entries that are not superseded are those of the payouts as
they ended up.  An entry of a worker the shift is no longer mapped to is none of
the projection. -/
theorem base_entries_inStep (venueId : VenueId) (world : World) (clock : Date)
    (signingKey : String) (ms ms' : List (Move Request PlatformMove))
    (h : Finalizing venueId (Platform.fresh world clock signingKey) ms ms') :
    let t := (platform.runFrom (Platform.fresh world clock signingKey) (ms ++ ms')).store
    ∀ shift ∈ t.shiftsOf venueId, ∀ e ∈ t.books.entries.rows, e.Base → shift.MappedTo e.pair →
      ¬ t.books.Superseded e.pair →
        e.data = (t.evidence venueId).entryData venueId shift e.data.workerId := by
  intro t shift hshift e he hbase ⟨hworker, hid⟩ hnot
  obtain ⟨hlineage, hstep⟩ := h.inStep Books.lineage_empty
  have hpair : (e.data.workerId, some shift.id) = e.pair := Prod.ext rfl hid
  obtain hsuper | ⟨id, hdata⟩ := hstep shift hshift e.data.workerId hworker
  · exact absurd (hpair ▸ hsuper) hnot
  · exact hlineage.data_of_base he hbase (hpair ▸ hdata)

end InStep

namespace Scenario

/-- The shift of a second worker. -/
def otherShift : ShiftEvidence :=
  { shift with
    id := ⟨venue, "square", "other-shift"⟩
    externalWorkerId := "other"
    mappedWorkerId := some "other" }

/-- Allocations 1 and 2, of two workers, are approved. -/
def approvedTwo : List (System.Act Call EnvMove) :=
  opening.map .env ++
    [.env (.record (.saveWorker ⟨"other", "other-user", "Other", none⟩)),
      .env (.record (.saveShift otherShift)), .call (.allocation calculateDay) 20,
      .call (.allocation approveDay) 20]

def shared : World := (@service byCodePoint).performAll approvedTwo World.empty

def finalize (p : AllocationId) : Request :=
  .income (.finalizeLegacy p cash "receipt" (some owner) 0)

/-- The first has read the batches when the second is finalized. -/
def finalizing : List (Move Request PlatformMove) :=
  [.call (finalize 1), .call (finalize 2)] ++ List.replicate 9 (.step 0) ++
    List.replicate 5 (.step 1) ++ List.replicate 11 (.step 0) ++ List.replicate 15 (.step 1)

end Scenario

open Scenario

theorem finalizing_shared :
    @Finalizing byCodePoint venue (Platform.fresh shared 0 "key") [] finalizing := by
  refine @Finalizing.mk byCodePoint _ _ _ _ (by decide +kernel) ?_ (by decide +kernel) ?_
    (by decide) ?_ (by decide +kernel)
  · exact fun _ h => absurd h List.not_mem_nil
  · have hvenue : ∀ p, p = 1 ∨ p = 2 →
        (Platform.fresh shared 0 "key").venueOf p = some venue := by
      rintro p (rfl | rfl) <;> decide +kernel
    intro r hr
    obtain rfl | rfl : r = finalize 1 ∨ r = finalize 2 := by simpa [finalizing, calls] using hr
    · exact hvenue 1 (.inl rfl)
    · exact hvenue 2 (.inr rfl)
  · exact fun e h => by simp [finalizing] at h

theorem base_entries_inStep_finalizing :
    let t := ((@platform byCodePoint).runFrom (Platform.fresh shared 0 "key") finalizing).store
    (∀ shift ∈ t.shiftsOf venue, ∀ e ∈ t.books.entries.rows, e.Base → shift.MappedTo e.pair →
      ¬ t.books.Superseded e.pair →
        e.data = (t.evidence venue).entryData venue shift e.data.workerId) ∧
      t.books.entries.rows.map (fun e => (e.data.workerId, e.data.paidUsdCents)) =
        [(worker, 250), ("other", 250)] :=
  ⟨@base_entries_inStep byCodePoint venue shared 0 "key" [] finalizing finalizing_shared,
    by decide +kernel⟩

end ServeProof
