import ServeProof.Income.Rebuild
import ServeProof.Interleave.Undoes
import ServeProof.Scenario
import ServeProof.Services.Backend

/-!
# ServeProof.Stale

How long an alert about stale provider data stands.

A successful sync resolves the alerts of its venue.  But a rebuild of the venue
deletes every unresolved alert before it writes its own, and it does not write
this kind: until a sync succeeds, the alert stands in each state of a run exactly
as long as no step of the run rebuilds the venue.
-/

namespace ServeProof

open Interleave
open Prog (Undoes undoes_pure undoes_throw undoes_get_bind only_get_bind only_put_bind
  only_putGet_bind only_orThrow_bind only_ite)

/-! ## Commands on alerts -/

/-- The command deletes the unresolved alerts of the venue. -/
def Command.Clears (venueId : VenueId) : Command → Prop
  | .books (.deleteAlerts venueId') => venueId' = venueId
  | _ => False

instance decidableClears (venueId : VenueId) : (c : Command) → Decidable (c.Clears venueId)
  | .books (.deleteAlerts venueId') => inferInstanceAs (Decidable (venueId' = venueId))
  | .books (.savePayroll _) | .books (.updateEntry ..) | .books (.createEntry _)
  | .books (.createAlerts _) | .books (.log _) | .books (.correct ..) | .settle _ | .disclose _
  | .correct .. | .redis _ | .lockVenue .. | .unlockVenue .. | .answer _ => isFalse id

/-- The command leaves the alerts. -/
def Command.SparesAlerts : Command → Prop
  | .books (.deleteAlerts _) | .books (.createAlerts _) => False
  | _ => True

namespace BackendCommand

def Clears (venueId : VenueId) : BackendCommand → Prop
  | platform c => c.Clears venueId
  | _ => False

/-- A sync of the venue has succeeded. -/
def Resolves (venueId : VenueId) : BackendCommand → Prop
  | syncSucceeded id _ => id.venueId = venueId
  | _ => False

instance decidableClears (venueId : VenueId) :
    (c : BackendCommand) → Decidable (c.Clears venueId)
  | platform c => inferInstanceAs (Decidable (c.Clears venueId))
  | startSync .. | storeTokens .. | syncSucceeded .. | syncFailed .. => isFalse id

instance decidableResolves (venueId : VenueId) :
    (c : BackendCommand) → Decidable (c.Resolves venueId)
  | syncSucceeded id _ => inferInstanceAs (Decidable (id.venueId = venueId))
  | platform _ | startSync .. | storeTokens .. | syncFailed .. => isFalse id

end BackendCommand

theorem Command.alerts_apply {c : Command} (h : c.SparesAlerts) (s : Platform) :
    (c.apply s).books.alerts = s.books.alerts := by
  cases c with
  | books c =>
      cases c with
      | deleteAlerts | createAlerts => exact h.elim
      | savePayroll | updateEntry | createEntry | log | correct => rfl
  | lockVenue session venueId =>
      simp only [Command.apply]
      split <;> rfl
  | unlockVenue session venueId =>
      simp only [Command.apply]
      split <;> rfl
  | settle | disclose | correct | redis | answer => rfl

section Stands

variable {venueId : VenueId} {a : DiscrepancyAlert}

/-- A stale alert outlives every command but a deletion and a successful sync. -/
theorem stands_apply (ha : a.IsStale venueId) {c : BackendCommand} (hclears : ¬ c.Clears venueId)
    (hresolves : ¬ c.Resolves venueId) {s : Backend} (hs : a ∈ s.alerts) :
    a ∈ (c.apply s).alerts := by
  cases c with
  | platform c =>
      by_cases hspares : c.SparesAlerts
      · rw [Backend.alerts, BackendCommand.apply, Command.alerts_apply hspares]
        exact hs
      · cases c with
        | books c =>
            cases c with
            | deleteAlerts venueId' =>
                refine List.mem_filter.mpr ⟨hs, ?_⟩
                rw [Bool.not_eq_true', decide_eq_false_iff_not]
                exact fun h => hclears (h.1.symm.trans ha.1)
            | createAlerts alerts => exact List.mem_append_left _ hs
            | savePayroll | updateEntry | createEntry | log | correct =>
                exact absurd trivial hspares
        | settle | disclose | correct | redis | lockVenue | unlockVenue | answer =>
            exact absurd trivial hspares
  | syncSucceeded id now =>
      refine List.mem_map.mpr ⟨a, hs, if_neg fun h => hresolves ?_⟩
      exact h.1.symm.trans ha.1
  | startSync | storeTokens | syncFailed => exact hs

theorem alerts_env (e : BackendMove) (s : Backend) : (e.apply s).alerts = s.alerts := by
  cases e with
  | platform e => cases e <;> rfl
  | connect row => rfl

end Stands

/-! ## Rebuilds -/

/-- No alert about stale data of the venue is unresolved. -/
def Platform.NoneStale (venueId : VenueId) (s : Platform) : Prop :=
  ∀ a ∈ s.books.alerts, ¬ a.IsStale venueId

/-- No rebuild writes an alert about stale data. -/
theorem not_isStale_of_mem_alertsOf {b : Books} {ev : Evidence} {venueId : VenueId}
    {a : DiscrepancyAlert} (ha : a ∈ b.alertsOf ev venueId) (venueId' : VenueId) :
    ¬ a.IsStale venueId' := by
  have hentry (d : EntryData) (h : a ∈ Evidence.entryAlerts d) : ¬ a.IsStale venueId' := by
    intro hstale
    simp only [Evidence.entryAlerts, List.mem_append] at h
    obtain ((h | h) | h) | h := h
    all_goals
      split at h
      · rw [List.mem_singleton] at h
        subst h
        exact Bool.false_ne_true hstale.2.2
      · exact absurd h List.not_mem_nil
  have houtcome (x : ShiftEvidence) (b : Books) (h : a ∈ (b.outcome ev venueId x).alerts) :
      ¬ a.IsStale venueId' := by
    unfold Books.outcome at h
    cases hw : x.mappedWorkerId with
    | none =>
        simp only [hw, List.mem_singleton] at h
        exact fun hstale => Bool.false_ne_true (h ▸ hstale).2.2
    | some workerId =>
        simp only [hw] at h
        split at h
        · exact absurd h List.not_mem_nil
        · exact hentry _ h
  have hall (shifts : List ShiftEvidence) (b : Books)
      (h : a ∈ (Books.outcomes ev venueId shifts b).flatMap ShiftOutcome.alerts) :
      ¬ a.IsStale venueId' := by
    induction shifts generalizing b with
    | nil => exact absurd h List.not_mem_nil
    | cons x shifts ih =>
        rw [Books.outcomes, List.flatMap_cons, List.mem_append] at h
        cases h with
        | inl h => exact houtcome x b h
        | inr h => exact ih _ h
  cases List.mem_append.mp ha with
  | inl h => exact hall _ _ h
  | inr h =>
      obtain ⟨tip, -, rfl⟩ := List.mem_map.mp h
      exact fun hstale => Bool.false_ne_true hstale.2.2

theorem alerts_projectAll (b : Books) (ev : Evidence) (venueId : VenueId)
    (shifts : List ShiftEvidence) : (b.projectAll ev venueId shifts).alerts = b.alerts := by
  refine Books.projectAll_induction (P := fun b' => b'.alerts = b.alerts) ?_ rfl
  intro b' x _ workerId hb' _ _
  unfold Books.projectionOn
  split <;> exact hb'

/-- A rebuild of the venue leaves no alert about stale data. -/
theorem noneStale_rebuilt {b : Books} {ev : Evidence} {venueId venueId' : VenueId}
    (h : venueId' = venueId ∨ ∀ a ∈ b.alerts, ¬ a.IsStale venueId) (actorUserId : Option UserId)
    (source : IncomeProjectionSource) :
    ∀ a ∈ (b.rebuilt ev venueId' actorUserId source).alerts, ¬ a.IsStale venueId := by
  intro a ha hstale
  have hmem : a ∈ (b.projectAll ev venueId' ev.shifts).alerts.filter
      (fun a => !decide (a.venueId = venueId' ∧ a.resolvedAt = none)) ++
        b.alertsOf ev venueId' := ha
  rw [List.mem_append, List.mem_filter, alerts_projectAll, Bool.not_eq_true',
    decide_eq_false_iff_not] at hmem
  cases hmem with
  | inr hnew => exact not_isStale_of_mem_alertsOf hnew venueId hstale
  | inl hold =>
      cases h with
      | inl h => exact hold.2 ⟨h ▸ hstale.1, hstale.2.1⟩
      | inr h => exact h a hold.1 hstale

section Programs

variable (venueId : VenueId) (session : Nat)

/-- A rebuild of another venue clears nothing of this one. -/
theorem only_rebuildVenueIncome_clears {venueId' : VenueId} (hne : venueId' ≠ venueId)
    (actorUserId : Option UserId) (source : IncomeProjectionSource) :
    (rebuildVenueIncome session venueId' actorUserId source).Only fun c => ¬ c.Clears venueId := by
  have hadmits : AdmitsRebuild (fun c => ¬ c.Clears venueId) venueId' :=
    ⟨fun _ _ => id, fun _ => id, hne, fun _ => id, fun _ => id⟩
  exact hadmits.only id id actorUserId source

/-- A program that no stale alert of the venue outlives, if it rebuilds the venue. -/
abbrev Sweeps {α : Type} (p : Action α) : Prop :=
  p.Undoes Command.apply (fun c _ => ¬ c.Clears venueId) (Platform.NoneStale venueId)

variable {venueId}

theorem sweeps_of_only {α : Type} {p : Action α}
    (hp : p.Only fun c => ¬ c.Clears venueId ∧ c.SparesAlerts) : Sweeps venueId p :=
  Undoes.of_only (fun _ _ h => h.1) (fun c s h hs => by
    rw [Platform.NoneStale, Command.alerts_apply h.2]
    exact hs) hp

theorem sweeps_settling {α : Type} (p : Service α) : Sweeps venueId (settling p) :=
  sweeps_of_only (Prog.Only.lift ((Prog.only_true p).imp fun _ _ => ⟨id, trivial⟩))

theorem sweeps_rebuildVenueIncome (venueId' : VenueId) (actorUserId : Option UserId)
    (source : IncomeProjectionSource) :
    Sweeps venueId (rebuildVenueIncome session venueId' actorUserId source) := by
  constructor
  · intro s hs
    rw [Platform.NoneStale, books_rebuildVenueIncome]
    split
    · exact noneStale_rebuilt (.inr hs) actorUserId source
    · exact hs
  · intro s hnot
    by_cases hvenue : venueId' = venueId ∧ (s.world.db.venues.find venueId').isSome
    · rw [Platform.NoneStale, books_rebuildVenueIncome, if_pos hvenue.2]
      exact noneStale_rebuilt (.inl hvenue.1) actorUserId source
    · refine absurd ?_ hnot
      by_cases heq : venueId' = venueId
      · have hnone : (s.world.db.venues.find venueId').isSome = false := by
          rw [← Bool.not_eq_true]
          exact fun h => hvenue ⟨heq, h⟩
        refine ⟨id, ?_⟩
        simp only [hnone]
        trivial
      · exact (only_rebuildVenueIncome_clears venueId session heq actorUserId source).admitted
          (fun _ _ h => h) s

theorem sweeps_rebuildIncomeProjection (venueId' : VenueId) (actorUserId : Option UserId) :
    Sweeps venueId (rebuildIncomeProjection session venueId' actorUserId) :=
  (sweeps_rebuildVenueIncome session venueId' actorUserId .system).bind fun _ => undoes_pure ()

theorem sweeps_rebuildVenue (venueId' : VenueId) (actorUserId : Option UserId)
    (source : IncomeProjectionSource) :
    Sweeps venueId (rebuildVenue session venueId' actorUserId source) :=
  (sweeps_rebuildVenueIncome session venueId' actorUserId source).bind fun _ => .orThrow

theorem sweeps_ignoreResult {α : Type} {p : Action α} (hp : Sweeps venueId p) :
    Sweeps venueId (Request.ignoreResult p) := hp.bind fun _ => undoes_pure ()

theorem sweeps_refreshVenueOf (allocationId : AllocationId) (actorUserId : Option UserId) :
    Sweeps venueId (refreshVenueOf session allocationId actorUserId) := by
  refine undoes_get_bind fun found => ?_
  cases found with
  | none => exact undoes_pure ()
  | some venueId' => exact sweeps_rebuildIncomeProjection session venueId' actorUserId

theorem sweeps_refreshFinalized (payoutId : AllocationId) :
    Sweeps venueId (refreshFinalized session payoutId) := by
  refine undoes_get_bind fun found => ?_
  cases found with
  | none => exact undoes_pure ()
  | some payout => exact sweeps_rebuildIncomeProjection session payout.venueId none

theorem sweeps_finalizeLegacy (allocationId : AllocationId) (rail : LegacyRail)
    (externalReference : String) (submittedByUserId : Option UserId) (now : Time) :
    Sweeps venueId
      (finalizeLegacy session allocationId rail externalReference submittedByUserId now) := by
  refine undoes_get_bind fun found => Undoes.orThrow.bind fun venueId' => ?_
  refine (sweeps_settling _).bind fun payout => ?_
  exact (sweeps_rebuildIncomeProjection session venueId' submittedByUserId).bind
    fun _ => undoes_pure payout

theorem sweeps_payoutOperation (c : PayoutCall) : Sweeps venueId (payoutOperation session c) := by
  cases c with
  | createUsdcPayout p by' =>
      exact (sweeps_settling _).bind fun payout => (sweeps_refreshVenueOf session p by').when
  | registerLegacyEvidence p rail reference by' now =>
      exact sweeps_ignoreResult (sweeps_finalizeLegacy session p rail reference by' now)
  | buildTransaction | submitSigned => exact sweeps_settling _

theorem sweeps_workerJob (c : WorkerCall) : Sweeps venueId (workerJob session c) := by
  cases c with
  | processConfirmation p signature now =>
      exact (sweeps_settling _).bind fun _ => sweeps_refreshFinalized session p
  | reconcileStalePayouts now =>
      refine undoes_get_bind fun stale => ?_
      split
      · exact undoes_pure ()
      · refine undoes_get_bind fun height => Undoes.forEach fun payout => ?_
        exact (sweeps_settling _).bind fun _ => sweeps_refreshFinalized session payout.paymentId
  | onPayoutSettled p => exact sweeps_settling _

theorem sweeps_backfill : Sweeps venueId (backfillFinalizedIncomeProjections session) :=
  undoes_get_bind fun _ => .forEach fun venueId' =>
    sweeps_rebuildIncomeProjection session venueId' none

theorem sweeps_importRecords (workerOfEmail : String → Option WorkerId) (venueId' : VenueId)
    (records : List PayrollImportRecord) :
    Sweeps venueId (importRecords workerOfEmail session venueId' records) := by
  have hrecord (record : PayrollImportRecord) : (importRecord workerOfEmail venueId' record).Only
      fun c => ¬ c.Clears venueId ∧ c.SparesAlerts := by
    unfold importRecord
    cases workerOfEmail record.workerEmail with
    | none => trivial
    | some workerId =>
        exact only_get_bind.mpr fun row => only_put_bind.mpr ⟨⟨id, trivial⟩, fun _ => trivial⟩
  refine undoes_get_bind fun found => Undoes.orThrow.bind fun _ => ?_
  refine (sweeps_of_only (Prog.only_mapEach fun record _ => hrecord record)).bind fun imported => ?_
  exact (sweeps_rebuildVenue session venueId' none .payrollImport).bind fun _ => undoes_pure _

/-! ## Calls of the backend -/

/-- To fetch the evidence says nothing about alerts. -/
def BackendCommand.Fetches : BackendCommand → Prop
  | storeTokens .. => True
  | _ => False

theorem only_client (square : SquareApi) (connection : ProviderConnection) (forceRefresh : Bool)
    (now : Time) : (square.client connection forceRefresh now).Only BackendCommand.Fetches := by
  unfold SquareApi.client
  split
  · trivial
  · next accessToken refreshed _ =>
    cases refreshed with
    | none => trivial
    | some tokens => exact only_put_bind.mpr ⟨trivial, fun _ => trivial⟩

theorem only_fetchEvidence (square : SquareApi) (connection : ProviderConnection)
    (locationId : String) (now : Time) :
    (square.fetchEvidence connection locationId now).Only BackendCommand.Fetches := by
  refine (only_client square connection false now).bind fun opened => ?_
  split
  · trivial
  · split
    · trivial
    · trivial
    · refine only_ite.mpr ⟨fun _ => ?_, fun _ => trivial⟩
      refine (only_client square connection true now).bind fun reopened => ?_
      split <;> trivial

theorem undoes_onPlatform {α : Type} {p : Action α} (hp : Sweeps venueId p) :
    (onPlatform p).Undoes BackendCommand.apply (fun c _ => ¬ c.Clears venueId)
      fun s => s.platform.NoneStale venueId := by
  have hview (c : Command) (s : Backend) :
      (BackendCommand.apply (.platform c) s).platform = c.apply s.platform := rfl
  exact Undoes.lift hview (fun _ _ h => h) hp

/-- A sync clears nothing. -/
theorem only_sync (square : SquareApi) (venueId' : VenueId) (now : Time) :
    (sync square venueId' now).Only fun c => ¬ c.Clears venueId := by
  have hfetch (connection : ProviderConnection) (locationId : String) :
      (square.fetchEvidence connection locationId now).Only fun c => ¬ c.Clears venueId :=
    (only_fetchEvidence square connection locationId now).imp fun c hc => by
      cases c <;> first | exact hc.elim | exact id
  refine only_get_bind.mpr fun found => only_orThrow_bind.mpr fun opened _ => ?_
  refine only_put_bind.mpr ⟨id, fun _ => (hfetch opened.1 opened.2).bind fun evidence => ?_⟩
  split
  · exact only_put_bind.mpr ⟨id, fun _ => trivial⟩
  · refine Prog.Only.bind ?_ fun _ => only_put_bind.mpr ⟨id, fun _ => trivial⟩
    exact Prog.Only.lift (Prog.Only.lift ((Prog.only_true _).imp fun _ _ => id))

/-- A sync that returns is one that has resolved the stale alerts of its venue. -/
theorem sync_succeeds_iff (square : SquareApi) (venueId : VenueId) (now : Time) (s : Backend) :
    (∃ n, ((sync square venueId now).eval BackendCommand.apply s).1 = .ok n) ↔
      ¬ (sync square venueId now).Admitted BackendCommand.apply
        (fun c _ => ¬ c.Resolves venueId) s := by
  have hsettle (p : Service Unit) (t : Backend) : (onPlatform (settling p)).Admitted
      BackendCommand.apply (fun c _ => ¬ c.Resolves venueId) t := by
    have honly : (onPlatform (settling p)).Only fun c => ¬ c.Resolves venueId :=
      Prog.Only.lift (Prog.Only.lift ((Prog.only_true p).imp fun _ _ => id))
    exact honly.admitted (fun _ _ h => h) t
  have hfetch (connection : ProviderConnection) (locationId : String) (t : Backend) :
      (square.fetchEvidence connection locationId now).Admitted BackendCommand.apply
        (fun c _ => ¬ c.Resolves venueId) t :=
    (only_fetchEvidence square connection locationId now).admitted (fun c _ hc => by
      cases c <;> first | exact hc.elim | exact id) t
  cases hfound : s.connected venueId with
  | none => simp [sync, Prog.eval_get_bind, Prog.eval_orThrow_bind, Prog.admitted_get_bind,
      Prog.admitted_orThrow_bind, hfound]
  | some opened =>
      have hid : opened.1.id.venueId = venueId := by
        obtain ⟨connection, hc, hlocation⟩ := Option.bind_eq_some_iff.mp hfound
        obtain ⟨locationId, -, hopened⟩ := Option.bind_eq_some_iff.mp hlocation
        split at hopened
        · cases hopened
        · cases hopened
          exact congrArg ProviderConnectionId.venueId (Table.key_of_find hc)
      simp only [sync, Prog.eval_get_bind, Prog.eval_orThrow_bind, Prog.admitted_get_bind,
        Prog.admitted_orThrow_bind, hfound, Option.some.injEq, forall_eq', Prog.eval_put_bind,
        Prog.admitted_put_bind, Prog.admitted_bind (p := square.fetchEvidence ..)]
      generalize (BackendCommand.startSync opened.1.id now).apply s = t
      rw [Prog.eval_bind]
      have hstart : ¬ (BackendCommand.startSync opened.1.id now).Resolves venueId := id
      simp only [hstart, hfetch, not_false_eq_true, true_and]
      rcases (square.fetchEvidence opened.1 opened.2 now).eval BackendCommand.apply t with
        ⟨e | (e | evidence), u⟩
      · simp
      · simp only [Prog.eval_put_bind, Prog.eval_throw, Except.ok.injEq, forall_eq',
          Prog.admitted_put_bind, reduceCtorEq, exists_false, false_iff, not_not]
        exact ⟨id, trivial⟩
      · simp only [Except.ok.injEq, forall_eq', Prog.admitted_bind (p := onPlatform _), hsettle,
          true_and, Prog.admitted_put_bind]
        rw [Prog.eval_bind]
        rcases (onPlatform (settling (persist venueId (evidence.cardTips ++ evidence.cashTips)
          evidence.shifts))).eval BackendCommand.apply u with ⟨e | a, v⟩
        · simp
        · have hresolves : (BackendCommand.syncSucceeded opened.1.id now).Resolves venueId := hid
          simp [Prog.eval_put_bind, Prog.eval_pure, hresolves]

/-- Nor does it clear anything to flag stale connections. -/
theorem only_flagStaleConnections (now : Time) :
    (flagStaleConnections now).Only fun c => ¬ c.Clears venueId := by
  refine only_get_bind.mpr fun stale => Prog.Only.bind ?_ fun _ => trivial
  refine Prog.Only.forEach fun connection _ => only_get_bind.mpr fun existing => ?_
  exact only_ite.mpr ⟨fun _ => trivial, fun _ => ⟨id, fun _ => trivial⟩⟩

/-- No stale alert of the venue outlives a call that rebuilds it. -/
theorem noneStale_of_not_admitted {i : BackendCall} {s : Backend}
    (h : ¬ i.prog.Admitted BackendCommand.apply (fun c _ => ¬ c.Clears venueId) s) :
    (i.prog.eval BackendCommand.apply s).2.platform.NoneStale venueId := by
  cases i with
  | flagStaleConnections now =>
      refine absurd (Prog.Only.admitted (fun _ _ h => h) ?_ s) h
      exact (only_flagStaleConnections now).bind fun _ => trivial
  | sync square venueId' now =>
      refine absurd (Prog.Only.admitted (fun _ _ h => h) ?_ s) h
      exact (only_sync square venueId' now).bind fun _ => trivial
  | rebuildVenue venueId' by' source =>
      exact (undoes_onPlatform (sweeps_ignoreResult
        (sweeps_rebuildVenue 0 venueId' by' source))).undone s h
  | importRecords workerOfEmail venueId' records =>
      exact (undoes_onPlatform (sweeps_ignoreResult
        (sweeps_importRecords 0 workerOfEmail venueId' records))).undone s h
  | payout c => exact (undoes_onPlatform (sweeps_payoutOperation 0 c)).undone s h
  | worker c => exact (undoes_onPlatform (sweeps_workerJob 0 c)).undone s h
  | backfillFinalizedIncomeProjections =>
      exact (undoes_onPlatform (sweeps_backfill 0)).undone s h

end Programs

/-- Every commit of the run is no deletion of the venue's unresolved alerts: no step
rebuilds the venue. -/
def NoRebuild (venueId : VenueId) (ops : List (Op BackendCall BackendMove)) (s : Backend) : Prop :=
  backend.AdmittedAll (fun c _ => ¬ c.Clears venueId) (fun _ _ => True) ops s

/-- No sync of the venue succeeds in the run. -/
def NoSync (venueId : VenueId) (ops : List (Op BackendCall BackendMove)) (s : Backend) : Prop :=
  backend.AdmittedAll (fun c _ => ¬ c.Resolves venueId) (fun _ _ => True) ops s

instance (venueId : VenueId) (ops : List (Op BackendCall BackendMove)) (s : Backend) :
    Decidable (NoRebuild venueId ops s) := inferInstanceAs (Decidable (backend.AdmittedAll ..))

instance (venueId : VenueId) (ops : List (Op BackendCall BackendMove)) (s : Backend) :
    Decidable (NoSync venueId ops s) := inferInstanceAs (Decidable (backend.AdmittedAll ..))

/-- As long as no sync of the venue succeeds, an unresolved alert about its stale data
stands in every state of a run exactly when no step of the run rebuilds the venue. -/
theorem stale_alert_stands_iff {s : Backend} {venueId : VenueId} {a : DiscrepancyAlert}
    (ha : a ∈ s.alerts) (hstale : a.IsStale venueId) {ops : List (Op BackendCall BackendMove)}
    (hsync : NoSync venueId ops s) :
    (∀ ops₁, ops₁ <+: ops → a ∈ (backend.evalAll ops₁ s).alerts) ↔ NoRebuild venueId ops s :=
  System.holds_along_iff (P := fun s => a ∈ s.alerts)
    (fun _ _ hs hclears hresolves => stands_apply hstale hclears hresolves hs)
    (fun e s hs => by rw [show (backend.env e s).alerts = s.alerts from alerts_env e s]; exact hs)
    (fun _ _ hnot hs => noneStale_of_not_admitted hnot a hs hstale) ha hsync

section Concrete

open Scenario

/-- The venue has connected to Square, and no sync has succeeded yet. -/
def Scenario.connection : ProviderConnection where
  id := ⟨venue, "square"⟩
  status := .connected
  locationId := some "location"
  encryptedAccessToken := some "token"
  encryptedRefreshToken := none
  tokenExpiresAt := none
  lastSyncStartedAt := none
  lastSyncSucceededAt := none
  lastSyncFailedAt := none
  lastError := none
  consecutiveFailures := 0

/-- The batch of the day is approved, and the connection is flagged. -/
def Scenario.flagged : Backend :=
  backend.evalOp (.call (.flagStaleConnections 0))
    { platform := Platform.fresh ((@service byCodePoint).performAll approved World.empty) 0 "key"
      connections := (∅ : Table ProviderConnection.id).set connection }

/-- Square does not answer. -/
def Scenario.unavailable : SquareApi where
  configured := true
  decrypt := .ok
  encrypt := id
  obtainToken := fun _ => .error (.squareApi "Service unavailable" 503)
  fetch := fun _ _ _ => .error (.squareApi "Service unavailable" 503)

/-- A sync fails, the connection is looked at again, a payout is created. -/
def Scenario.outage : List (Op BackendCall BackendMove) :=
  [.call (.sync unavailable venue 1), .call (.flagStaleConnections 2),
    .call (.payout (.createUsdcPayout 1 (some owner)))]

theorem stale_alert_stands_iff_outage :
    ((∀ ops₁, ops₁ <+: outage → connection.staleAlert ∈ (backend.evalAll ops₁ flagged).alerts) ↔
        NoRebuild venue outage flagged) ∧ NoRebuild venue outage flagged :=
  ⟨stale_alert_stands_iff (by decide +kernel) (by decide +kernel) (by decide +kernel),
    by decide +kernel⟩

/-- The payout of the day in cash ends in a rebuild, which deletes the alert. -/
theorem rebuild_deletes_stale_alert :
    let cash : List (Op BackendCall BackendMove) :=
      [.call (.payout
        (.registerLegacyEvidence 1 ⟨.cashDrawer, by decide⟩ "receipt" (some owner) 0))]
    connection.staleAlert ∈ flagged.alerts ∧ connection.staleAlert.IsStale venue ∧
      NoSync venue cash flagged ∧
      ¬ ∀ ops₁, ops₁ <+: cash → connection.staleAlert ∈ (backend.evalAll ops₁ flagged).alerts := by
  intro cash
  have hgone : connection.staleAlert ∉ (backend.evalAll cash flagged).alerts := by decide +kernel
  exact ⟨by decide +kernel, by decide +kernel, by decide +kernel,
    fun h => hgone (h cash (List.prefix_refl cash))⟩

end Concrete

end ServeProof
