import ServeProof.Requests

/-!
# ServeProof.Knowledge.Requests

Which commands a call makes (`Request.Makes`): what a command does to the
platform is the business of the few calls that make it.
-/

namespace ServeProof

open Interleave
open Prog (only_pure only_throw only_get_bind only_put_bind only_putGet_bind only_put
  only_require_bind only_orThrow_bind only_ite only_mapEach sat_get_bind sat_orThrow_bind)

/-- A command of a rebuild. -/
def Command.Projects : Command → Prop
  | .books (.updateEntry ..) | .books (.createEntry _) | .books (.deleteAlerts _)
  | .books (.createAlerts _) | .books (.log _) | .lockVenue .. | .unlockVenue .. => True
  | _ => False

/-- A command of a rebuild that holds the row of its venue. -/
def Command.Rewrites : Command → Prop
  | .books c => (Command.books c).Projects
  | .unlockVenue .. => True
  | _ => False

def Command.Settles : Command → Prop
  | .settle _ => True
  | _ => False

/-- The commands of a call. -/
def Request.Makes : Request → Command → Prop
  | .service _, c => c.Settles
  | .income (.rebuildVenue ..), c => c.Projects
  | .income (.finalizeLegacy ..), c | .income (.finalizeSettled ..), c => c.Settles ∨ c.Projects
  | .income (.correctEntry _ actor input), c => ∃ original, c = .correct original actor input
  | .disclosure (.createGrant ..), c => ∃ row, c = .disclose (.createGrant row)
  | .disclosure (.revokeGrant ..), c => ∃ grantId now, c = .disclose (.revoke grantId now)
  | .disclosure (.issueReport ..), c =>
      (∃ row, c = .disclose (.createReport row)) ∨ ∃ id, c = .disclose (.setReportUri id)
  | .disclosure (.getPdfPath ..), _ => False
  | .disclosure .expireOverdue, c => ∃ now, c = .disclose (.expireOverdue now)
  | .disclosure (.requestRecipientOtp ..), c =>
      ∃ k, c = .redis k ∧ ∀ grantId token, k.key ≠ some (.session grantId token)
  | .disclosure (.verifyRecipientOtp ..), c => ∃ k, c = .redis k
  | .disclosure (.verifyByToken ..), c =>
      (∃ row, c = .disclose (.logAccess row)) ∨ ∃ r, c = .answer r

theorem only_settling {α : Type} (p : Service α) : (settling p).Only Command.Settles :=
  Prog.Only.lift (Prog.Only.imp (fun _ _ => trivial) (Prog.only_true p))

/-- `ok` admits the writes of a rebuild of the venue. -/
structure AdmitsRebuild (ok : Command → Prop) (venueId : VenueId) : Prop where
  updateEntry : ∀ id data, ok (.books (.updateEntry id data))
  createEntry : ∀ data, ok (.books (.createEntry data))
  deleteAlerts : ok (.books (.deleteAlerts venueId))
  createAlerts : ∀ alerts, ok (.books (.createAlerts alerts))
  log : ∀ row, ok (.books (.log row))

section Rebuild

variable {ok : Command → Prop} {venueId : VenueId}

theorem AdmitsRebuild.only_projectShift (h : AdmitsRebuild ok venueId) (ev : Evidence)
    (shift : ShiftEvidence) : (projectShift ev venueId shift).Only ok := by
  unfold projectShift
  cases shift.mappedWorkerId with
  | none => trivial
  | some workerId =>
      refine only_get_bind.mpr fun s => only_ite.mpr ⟨fun _ => trivial, fun _ => ?_⟩
      refine only_get_bind.mpr fun s => ?_
      cases s.books.baseEntry (workerId, some shift.id) with
      | none => exact only_put_bind.mpr ⟨h.createEntry _, fun _ => trivial⟩
      | some entry => exact only_put_bind.mpr ⟨h.updateEntry _ _, fun _ => trivial⟩

theorem AdmitsRebuild.only_locked (h : AdmitsRebuild ok venueId) (actorUserId : Option UserId)
    (source : IncomeProjectionSource) :
    (rebuildVenueIncomeLocked venueId actorUserId source).Only ok := by
  simp only [rebuildVenueIncomeLocked, only_get_bind]
  intro s₁ s₂ s₃ s₄
  refine (only_mapEach fun shift _ => h.only_projectShift _ shift).bind fun outcomes => ?_
  exact only_put_bind.mpr ⟨h.deleteAlerts, fun _ => only_put_bind.mpr ⟨h.createAlerts _, fun _ =>
    only_put_bind.mpr ⟨h.log _, fun _ => trivial⟩⟩⟩

theorem AdmitsRebuild.only (h : AdmitsRebuild ok venueId) {session : Nat}
    (hlock : ok (.lockVenue session venueId)) (hunlock : ok (.unlockVenue session venueId))
    (actorUserId : Option UserId) (source : IncomeProjectionSource) :
    (rebuildVenueIncome session venueId actorUserId source).Only ok := by
  refine only_putGet_bind.mpr ⟨hlock, fun s => only_ite.mpr ⟨fun _ => trivial, fun _ => ?_⟩⟩
  refine (h.only_locked actorUserId source).bind fun result => ?_
  exact only_put_bind.mpr ⟨hunlock, fun _ => trivial⟩

end Rebuild

theorem only_rebuildVenueIncomeLocked (venueId : VenueId) (actorUserId : Option UserId)
    (source : IncomeProjectionSource) :
    (rebuildVenueIncomeLocked venueId actorUserId source).Only Command.Rewrites := by
  have hadmits : AdmitsRebuild Command.Rewrites venueId := by constructor <;> intros <;> trivial
  exact hadmits.only_locked actorUserId source

theorem only_rebuildVenueIncome (session : Nat) (venueId : VenueId) (actorUserId : Option UserId)
    (source : IncomeProjectionSource) :
    (rebuildVenueIncome session venueId actorUserId source).Only Command.Projects := by
  have hadmits : AdmitsRebuild Command.Projects venueId := by constructor <;> intros <;> trivial
  exact hadmits.only trivial trivial actorUserId source

theorem only_rebuildIncomeProjection (session : Nat) (venueId : VenueId)
    (actorUserId : Option UserId) :
    (rebuildIncomeProjection session venueId actorUserId).Only Command.Projects :=
  (only_rebuildVenueIncome session venueId actorUserId .system).bind fun _ => trivial

theorem only_ignoreResult {α : Type} {ok : Command → Prop} {p : Action α} (hp : p.Only ok) :
    (Request.ignoreResult p).Only ok := hp.bind fun _ => trivial

theorem only_workerOf {ok : Command → Prop} (userId : UserId) : (workerOf userId).Only ok := by
  refine only_get_bind.mpr fun s => ?_
  cases s.workerOfUser userId <;> trivial

theorem only_grantByToken {ok : Command → Prop} (rawToken : String) :
    (grantByToken rawToken).Only ok := by
  refine only_get_bind.mpr fun s => ?_
  cases s.findGrant rawToken <;> trivial

theorem only_assertRecipientAccessAvailable {ok : Command → Prop} (v : GrantView) :
    (assertRecipientAccessAvailable v).Only ok := by
  refine only_get_bind.mpr fun s => only_require_bind.mpr fun _ => ?_
  cases v.grant.recipientEmail.filter _ <;> trivial

theorem only_admitted {ok : Command → Prop} (v : GrantView) (accessSession : Option String) :
    (admitted v accessSession).Only ok := by
  unfold admitted sessionValid
  split
  · split
    · trivial
    · exact fun s => trivial
  · trivial

theorem only_insertRow {ok : Command → Prop} {c : DisclosureWrite} {nextId : Disclosures → Nat}
    {e : ApiError} (hc : ok (.disclose c)) : (insertRow c nextId e).Only ok := by
  refine only_putGet_bind.mpr ⟨hc, fun s => ?_⟩
  cases (if c.Applies s.disclosures then some (nextId s.disclosures) else none) <;> trivial

theorem only_verifyByToken (rawToken : String) (ip userAgent accessSession : Option String) :
    (verifyByToken rawToken ip userAgent accessSession).Only fun c =>
      ∃ row, c = .disclose (.logAccess row) := by
  refine (only_grantByToken rawToken).bind fun v => only_get_bind.mpr fun s =>
    only_ite.mpr ⟨fun _ => trivial, fun _ => ?_⟩
  refine (only_admitted v accessSession).bind fun allowed =>
    only_ite.mpr ⟨fun _ => trivial, fun _ => ?_⟩
  exact only_put_bind.mpr ⟨⟨_, rfl⟩, fun _ => trivial⟩

theorem only_incomeProg (session : Nat) (r : IncomeRequest) :
    (Request.incomeProg session r).Only (Request.income r).Makes := by
  have hrebuild (venueId : VenueId) (by' : Option UserId) :
      (rebuildIncomeProjection session venueId by').Only fun c => c.Settles ∨ c.Projects :=
    (only_rebuildIncomeProjection session venueId by').imp fun _ h => .inr h
  have hsettling {α : Type} (p : Service α) :
      (settling p).Only fun c => c.Settles ∨ c.Projects :=
    (only_settling p).imp fun _ h => .inl h
  cases r with
  | rebuildVenue venueId by' source =>
      refine only_ignoreResult ((only_rebuildVenueIncome session venueId by' source).bind
        fun result => ?_)
      cases result <;> trivial
  | finalizeLegacy p rail reference by' now =>
      refine only_ignoreResult (only_get_bind.mpr fun s =>
        only_orThrow_bind.mpr fun venueId _ => ?_)
      exact (hsettling _).bind fun payout => (hrebuild venueId by').bind fun _ => trivial
  | finalizeSettled p slot =>
      refine only_get_bind.mpr fun s => ?_
      cases (s.world.db.payouts.find p).map Payout.venueId with
      | none => trivial
      | some venueId => exact (hsettling _).bind fun _ => hrebuild venueId none
  | correctEntry id by' input =>
      refine only_ignoreResult (only_get_bind.mpr fun s => only_orThrow_bind.mpr fun original _ =>
        only_require_bind.mpr fun _ => ?_)
      exact ⟨⟨original, rfl⟩, fun _ => trivial⟩

theorem only_disclosureProg (r : DisclosureRequest) :
    (Request.disclosureProg r).Only (Request.disclosure r).Makes := by
  cases r with
  | createGrant user input token =>
      refine only_ignoreResult ((only_workerOf user).bind fun worker =>
        only_require_bind.mpr fun _ => only_require_bind.mpr fun _ => ?_)
      exact only_insertRow ⟨_, rfl⟩
  | revokeGrant user grant =>
      refine (only_workerOf user).bind fun worker => only_get_bind.mpr fun s =>
        only_orThrow_bind.mpr fun grant _ => only_get_bind.mpr fun s => ?_
      exact only_put.mpr ⟨_, _, rfl⟩
  | issueReport user grant renderError =>
      refine only_ignoreResult ((only_workerOf user).bind fun worker => ?_)
      simp only [only_get_bind, only_orThrow_bind, only_require_bind]
      intro _ grant _ _ _ _ s₁ s₂ s₃
      refine (only_insertRow (.inl ⟨_, rfl⟩)).bind fun id => ?_
      cases renderError with
      | none => exact only_put_bind.mpr ⟨.inr ⟨id, rfl⟩, fun _ => trivial⟩
      | some message => trivial
  | getPdfPath user report =>
      refine only_ignoreResult ((only_workerOf user).bind fun worker => only_get_bind.mpr fun s =>
        only_orThrow_bind.mpr fun report _ => only_require_bind.mpr fun _ => ?_)
      cases report.reportUri <;> trivial
  | expireOverdue => exact only_get_bind.mpr fun s => only_put.mpr ⟨_, rfl⟩
  | requestRecipientOtp token code mailError =>
      refine only_ignoreResult ((only_grantByToken token).bind fun v =>
        (only_assertRecipientAccessAvailable v).bind fun email => ?_)
      simp only [only_putGet_bind, only_require_bind]
      refine ⟨⟨_, rfl, by simp [RedisCommand.key]⟩, fun s _ =>
        ⟨⟨_, rfl, by simp [RedisCommand.key]⟩, fun s' => ?_⟩⟩
      refine (Prog.Only.when (only_put.mpr ⟨_, rfl, by simp [RedisCommand.key]⟩)).bind fun _ => ?_
      refine only_require_bind.mpr fun _ => only_put_bind.mpr ⟨⟨_, rfl, ?_⟩, fun _ =>
        only_put_bind.mpr ⟨⟨_, rfl, ?_⟩, fun _ => ?_⟩⟩
      · simp [RedisCommand.key]
      · simp [RedisCommand.key]
      · cases mailError with
        | none => trivial
        | some message =>
            refine only_put_bind.mpr ⟨⟨_, rfl, by simp [RedisCommand.key]⟩, fun _ => ?_⟩
            refine only_put_bind.mpr ⟨⟨_, rfl, by simp [RedisCommand.key]⟩, fun _ => ?_⟩
            exact only_throw.mpr trivial
  | verifyRecipientOtp token code accessToken =>
      refine only_ignoreResult ((only_grantByToken token).bind fun v =>
        (only_assertRecipientAccessAvailable v).bind fun _ => ?_)
      simp only [only_get_bind, only_orThrow_bind, only_putGet_bind, only_ite, only_put_bind,
        only_require_bind]
      intro s stored _
      refine ⟨⟨_, rfl⟩, fun s' => ⟨fun _ => ⟨⟨_, rfl⟩, fun _ => trivial⟩, fun _ _ => ?_⟩⟩
      exact ⟨⟨_, rfl⟩, fun _ s'' => ⟨⟨_, rfl⟩, fun _ => trivial⟩⟩
  | verifyByToken token ip agent accessSession =>
      exact ((only_verifyByToken token ip agent accessSession).imp fun _ h => .inl h).bind
        fun response => only_put.mpr (.inr ⟨response, rfl⟩)

/-- Every call makes only its own commands. -/
theorem only_prog [Collation] (session : Nat) (r : Request) :
    (Request.prog (session, r)).Only r.Makes := by
  cases r with
  | service c => exact only_settling c.prog
  | income r => exact only_incomeProg session r
  | disclosure r => exact only_disclosureProg r

/-! ## What it takes that every call knows -/

section Knows

variable {D : Discipline Platform Command} {known : Command → Platform → Prop} {session : Nat}
  {s : Platform}

theorem sat_settling_of {α : Type} (hsettle : ∀ c s, known (.settle c) s) (p : Service α) :
    (settling p).Sat D known s fun _ _ => True := by
  have honly : (settling p).Only fun c => ∀ s, known c s := by
    refine (only_settling p).imp fun c hc s => ?_
    cases c with
    | settle c => exact hsettle c s
    | books | disclose | correct | redis | lockVenue | unlockVenue | answer => exact hc.elim
  exact Prog.Sat.of_only honly fun _ _ => trivial

/-- The calls on the ledger know what rebuilds and corrections know. -/
theorem sat_incomeProg_of (hD : D.Lawful) (hsettle : ∀ c s, known (.settle c) s)
    (hrebuild : ∀ venueId by' source s,
      (rebuildVenueIncome session venueId by' source).Sat D known s fun _ _ => True)
    (hcorrect : ∀ id by' input s, (correctEntry id by' input).Sat D known s fun _ _ => True)
    (r : IncomeRequest) : (Request.incomeProg session r).Sat D known s fun _ _ => True := by
  have hignore {α : Type} {p : Action α} {s : Platform} (hp : p.Sat D known s fun _ _ => True) :
      (Request.ignoreResult p).Sat D known s fun _ _ => True :=
    hp.andThen hD fun _ _ _ _ _ => trivial
  have hprojection (venueId : VenueId) (by' : Option UserId) (s : Platform) :
      (rebuildIncomeProjection session venueId by').Sat D known s fun _ _ => True :=
    (hrebuild venueId by' .system s).andThen hD fun _ _ _ _ _ => trivial
  cases r with
  | rebuildVenue venueId by' source =>
      refine hignore ((hrebuild venueId by' source s).andThen hD ?_)
      intro result t
      cases result with
      | none => trivial
      | some result => exact fun _ _ _ => trivial
  | finalizeLegacy p rail reference by' now =>
      refine hignore ?_
      simp only [finalizeLegacy, sat_get_bind, sat_orThrow_bind]
      intro t _ _ venueId _
      refine (sat_settling_of hsettle _).andThen hD fun payout u => ?_
      exact (hprojection venueId by' u).andThen hD fun _ _ _ _ _ => trivial
  | finalizeSettled p slot =>
      simp only [Request.incomeProg, finalizeSettled, sat_get_bind]
      intro t _ _
      cases (t.world.db.payouts.find p).map Payout.venueId with
      | none => exact fun _ _ _ => trivial
      | some venueId =>
          exact (sat_settling_of hsettle _).andThen hD fun _ u => hprojection venueId none u
  | correctEntry id by' input => exact hignore (hcorrect id by' input s)

/-- A command of a call of the disclosure service. -/
def Command.Discloses : Command → Prop
  | .disclose _ | .redis _ | .answer _ => True
  | _ => False

theorem Request.Makes.discloses {r : DisclosureRequest} {c : Command}
    (h : (Request.disclosure r).Makes c) : c.Discloses := by
  cases c with
  | disclose | redis | answer => trivial
  | settle c => cases r <;> simp [Request.Makes] at h
  | books c => cases r <;> simp [Request.Makes] at h
  | correct original actor input => cases r <;> simp [Request.Makes] at h
  | lockVenue session v => cases r <;> simp [Request.Makes] at h
  | unlockVenue session v => cases r <;> simp [Request.Makes] at h

theorem Request.Makes.not_discloses {r : IncomeRequest} {c : Command}
    (h : (Request.income r).Makes c) : ¬ c.Discloses := by
  cases c with
  | settle | books | correct | lockVenue | unlockVenue => exact id
  | disclose c => cases r <;> simp [Request.Makes, Command.Settles, Command.Projects] at h
  | redis c => cases r <;> simp [Request.Makes, Command.Settles, Command.Projects] at h
  | answer a => cases r <;> simp [Request.Makes, Command.Settles, Command.Projects] at h

/-- The calls that write no ledger, and those that do. -/
theorem sat_prog_of [Collation] (hsettle : ∀ c s, known (.settle c) s)
    (hdisclose : ∀ c : Command, c.Discloses → ∀ s, known c s)
    (hincome : ∀ r s, (Request.incomeProg session r).Sat D known s fun _ _ => True)
    (r : Request) : (Request.prog (session, r)).Sat D known s fun _ _ => True := by
  cases r with
  | service call => exact sat_settling_of hsettle call.prog
  | income r => exact hincome r s
  | disclosure r =>
      have honly : (Request.disclosureProg r).Only fun c => ∀ s, known c s :=
        (only_disclosureProg r).imp fun c hc => hdisclose c hc.discloses
      exact Prog.Sat.of_only honly fun _ _ => trivial

end Knows

end ServeProof
