import ServeProof.Concerns.Services
import ServeProof.Scenario

/-!
# ServeProof.Authorized

Every write is of a venue its user manages.

* `Portal.Later` -- what every move keeps: an allocation stays in its batch, a venue in its
  organization;
* `World.PayoutsFiled` -- every payout names the venue of its allocation;
* `PortalRequest.Allowed` -- who may write by a request, in the store where that is looked up;
* `venue_written_by_allowed` -- the theorem, for calls that overlap in any way.
-/

namespace ServeProof

open Interleave
open Prog (Only Reaches reaches_get_bind reaches_orThrow_bind reaches_read_bind)

/-! ## What every move keeps -/

/-- `s'` is `s` some moves later: an allocation stays in its batch, a venue in its
organization. -/
structure Portal.Later (s s' : Portal) : Prop where
  ids : s.world.db.KeepsIds s'.world.db
  venue : ∀ v venue, s.directory.venues.find v = some venue →
    s'.directory.venues.find v = some venue

theorem Portal.Later.refl (s : Portal) : s.Later s := ⟨.refl _, fun _ _ h => h⟩

theorem Portal.Later.trans {s s' s'' : Portal} (h : s.Later s') (h' : s'.Later s'') :
    s.Later s'' where
  ids := h.ids.trans h'.ids
  venue v venue hv := h'.venue v venue (h.venue v venue hv)

/-- Tables other than those of the payments are not looked at. -/
theorem Db.KeepsIds.of_eq {d d' : Db} (hrows : d'.allocations = d.allocations)
    (hnext : d'.nextAllocationId = d.nextAllocationId) : d.KeepsIds d' where
  next := hnext.ge
  batch _ a' _ ha' := ⟨a', hrows ▸ ha', rfl⟩

theorem RailWrite.keepsIds_planOne (d : Db) (x : AllocationId × WorkerPayoutRail) :
    d.KeepsIds (planOne d x) where
  next := le_refl _
  batch p a' _ ha' := by
    replace ha' : (d.allocations.update x.1 (WorkerAllocation.plan x.2)).find p = some a' := ha'
    rw [Table.find_update (f := WorkerAllocation.plan x.2) _ (fun _ => rfl)] at ha'
    split at ha'
    · next hp =>
      obtain ⟨a, ha, rfl⟩ := Option.map_eq_some_iff.mp ha'
      exact ⟨a, hp ▸ ha, rfl⟩
    · exact ⟨a', ha', rfl⟩

theorem RailWrite.keepsIds_apply (c : RailWrite) (w : World) :
    w.db.KeepsIds (c.apply w).db := by
  have hfold (l : List (AllocationId × WorkerPayoutRail)) (d : Db) :
      d.KeepsIds (l.foldl planOne d) := by
    induction l generalizing d with
    | nil => exact .refl d
    | cons x l ih => exact (keepsIds_planOne d x).trans (ih _)
  unfold apply
  split
  · exact hfold c.assignments w.db
  · exact .refl w.db

theorem PortalCommand.later_apply (c : PortalCommand) (s : Portal) : s.Later (c.apply s) := by
  unfold apply
  split
  · next happlies =>
    cases c with
    | settle c => exact ⟨c.apply_keepsIds s.world, fun _ _ h => h⟩
    | plan c => exact ⟨c.keepsIds_apply s.world, fun _ _ h => h⟩
    | createOrganization | upsertMember => exact ⟨.refl _, fun _ _ h => h⟩
    | createVenue venue creatorUserId now =>
        refine ⟨.of_eq rfl rfl, fun v row hrow => ?_⟩
        refine (Table.find_set ..).trans ?_
        rw [if_neg]
        · exact hrow
        · rintro rfl
          exact Option.some_ne_none row (hrow.symm.trans happlies.2)
    | setVenueWallet => exact ⟨.of_eq rfl rfl, fun _ _ h => h⟩
  · exact .refl s

theorem PortalMove.later_apply (e : PortalMove) (s : Portal) : s.Later (e.apply s) := by
  cases e with
  | world e =>
      cases e with
      | chain step => exact ⟨.refl _, fun _ _ h => h⟩
      | record c => exact ⟨Write.apply_keepsIds (.record c) s.world, fun _ _ h => h⟩
  | users f => exact ⟨.refl _, fun _ _ h => h⟩

/-! ## AccessService -/

/-- The user manages the venue. -/
def Portal.Manages (s : Portal) (userId : UserId) (v : VenueId) : Prop :=
  s.directory.assertVenueRole userId v venueManageRoles = .ok ()

section Access

variable {userId : UserId} {l : List Portal}

theorem only_assertVenueRole (userId : UserId) (v : VenueId) (allowed : List OrgRole) :
    (Portal.assertVenueRole userId v allowed).Only fun _ => False := by
  simp only [Portal.assertVenueRole, Prog.only_get_bind, Prog.only_orThrow_bind]
  exact fun _ _ _ _ => Prog.only_require

/-- The venue and the membership are read one after the other. -/
theorem manages_of_reaches {v : VenueId}
    (h : (Portal.assertVenueRole userId v venueManageRoles).Reaches l (.returns ()))
    (hl : l.Pairwise Portal.Later) : ∃ t ∈ l, t.Manages userId v := by
  rw [Portal.assertVenueRole, reaches_get_bind] at h
  obtain ⟨t, l, rfl, h⟩ := h
  rw [reaches_orThrow_bind] at h
  obtain ⟨venue, hvenue, h⟩ := h
  rw [reaches_get_bind] at h
  obtain ⟨t', l, rfl, h⟩ := h
  have hlater : t.Later t' := (List.pairwise_cons.mp hl).1 t' List.mem_cons_self
  refine ⟨t', by simp, (Directory.assertVenueRole_eq_ok _).mpr ?_⟩
  exact ⟨venue, hlater.venue v venue hvenue, (Prog.reaches_require.mp h).1⟩

theorem only_assertOrgRole (userId : UserId) (organizationId : OrganizationId)
    (allowed : List OrgRole) :
    (Portal.assertOrgRole userId organizationId allowed).Only fun _ => False := by
  rw [Portal.assertOrgRole, Prog.only_get_bind]
  exact fun _ => Prog.only_require

theorem hasRole_of_reaches {organizationId : OrganizationId} {allowed : List OrgRole}
    (h : (Portal.assertOrgRole userId organizationId allowed).Reaches l (.returns ())) :
    ∃ t ∈ l, t.directory.HasRole userId organizationId allowed := by
  rw [Portal.assertOrgRole, reaches_get_bind] at h
  obtain ⟨t, l, rfl, h⟩ := h
  exact ⟨t, List.mem_cons_self, (Prog.reaches_require.mp h).1⟩

/-- A managed method has looked up its venue, and its user manages that. -/
theorem reaches_managed {venueOf : PortalAction VenueId} {act : PortalAction Unit}
    (honly : venueOf.Only fun _ => False) {o : Outcome PortalCommand Unit}
    (h : (Portal.managed userId venueOf act).Reaches l o) (hl : l.Pairwise Portal.Later) :
    ∃ u, (∃ t ∈ l, t.Manages userId u) ∧
      (∃ l₁, l₁ ⊆ l ∧ venueOf.Reaches l₁ (.returns u)) ∧ ∃ l₂, l₂ ⊆ l ∧ act.Reaches l₂ o := by
  obtain ⟨l₁, l₂, u, rfl, h₁, h₂⟩ := reaches_read_bind honly h
  obtain ⟨l₃, l₄, _, rfl, h₃, h₄⟩ :=
    reaches_read_bind (only_assertVenueRole userId u venueManageRoles) h₂
  obtain ⟨t, ht, hmanages⟩ := manages_of_reaches h₃
    (hl.sublist ((List.sublist_append_left l₃ l₄).trans (List.sublist_append_right l₁ _)))
  exact ⟨u, ⟨t, by simp [ht], hmanages⟩, ⟨l₁, by simp, h₁⟩, l₄, by simp, h₄⟩

/-- The venue of a row that is looked up. -/
theorem reaches_look {α : Type} {g : Portal → Option α} {e : ApiError} {f : α → VenueId}
    {u : VenueId}
    (h : (do
      let found ← Prog.get g
      let row ← Prog.orThrow found e
      return f row : PortalAction VenueId).Reaches l (.returns u)) :
    ∃ t ∈ l, ∃ row ∈ g t, f row = u := by
  rw [reaches_get_bind] at h
  obtain ⟨t, l, rfl, h⟩ := h
  rw [reaches_orThrow_bind] at h
  obtain ⟨row, hrow, h⟩ := h
  cases Prog.reaches_pure.mp h
  exact ⟨t, List.mem_cons_self, row, hrow, rfl⟩

theorem only_look {α : Type} {g : Portal → Option α} {e : ApiError} {f : α → VenueId} :
    (do
      let found ← Prog.get g
      let row ← Prog.orThrow found e
      return f row : PortalAction VenueId).Only fun _ => False := by
  simp only [Prog.only_get_bind, Prog.only_orThrow_bind]
  exact fun _ _ _ => trivial

end Access

/-! ## The services behind the controllers -/

section Serve

variable {l : List Portal} {k : PortalCommand}

/-- A program whose answer is left out. -/
theorem reaches_of_discard {σ κ ε α : Type} {p : Prog σ κ ε α} {l : List σ} {c : κ}
    (h : (do let _ ← p : Prog σ κ ε Unit).Reaches l (.commits c)) : p.Reaches l (.commits c) := by
  obtain ⟨c', hc', hp⟩ | ⟨_, _, _, -, -, hpure⟩ := Prog.reaches_bind h
  · cases hc'
    exact hp
  · cases hpure

theorem reaches_serve {α : Type} {p : Service α} (h : (Portal.serve p).Reaches l (.commits k)) :
    ∃ c, k = .settle c ∧ p.Reaches (l.map Portal.world) (.commits c) := by
  obtain ⟨c, hk, hlift⟩ := Prog.reaches_lift h
  exact ⟨c, hk, reaches_of_discard hlift⟩

theorem reaches_serveRails {α : Type} {p : RailService α}
    (h : (Portal.serveRails p).Reaches l (.commits k)) :
    ∃ c, k = .plan c ∧ p.Reaches (l.map Portal.world) (.commits c) := by
  obtain ⟨c, hk, hlift⟩ := Prog.reaches_lift h
  exact ⟨c, hk, reaches_of_discard hlift⟩

theorem only_execute (c : PortalCommand) : (Portal.execute c).Only (· = c) := by
  rw [Portal.execute, Prog.only_putGet_bind]
  exact ⟨rfl, fun _ => Prog.only_require⟩

end Serve

/-! ## Payouts are filed under their venue -/

/-- Every payout names the venue of its allocation. -/
def World.PayoutsFiled (w : World) : Prop :=
  ∀ row ∈ w.db.payouts.rows, ∀ a ∈ w.db.allocations.find row.paymentId,
    row.venueId = a.batchId.venueId

theorem World.PayoutsFiled.of_kept {w w' : World} (hw : w.PayoutsFiled)
    (hids : w.db.KeepsIds w'.db)
    (h : ∀ row ∈ w'.db.payouts.rows,
      (∃ row₀ ∈ w.db.payouts.rows, row₀.paymentId = row.paymentId ∧ row₀.venueId = row.venueId) ∨
        ∀ a ∈ w'.db.allocations.find row.paymentId, row.venueId = a.batchId.venueId) :
    w'.PayoutsFiled := by
  intro row hrow a' ha'
  obtain ⟨row₀, hrow₀, hid, hvenue⟩ | hnew := h row hrow
  · obtain ⟨a, ha⟩ := w.db.find_allocation_of_payout (Table.find_key hrow₀)
    have hbatch : a'.batchId = a.batchId := hids.batchId (hid ▸ ha) ha'
    rw [← hvenue, hw row₀ hrow₀ a ha, hbatch]
  · exact hnew a' ha'

/-- The venue of the row that a command leaves. -/
theorem PayoutWrite.venueId_row {c : PayoutWrite} {old : Option Payout} {row : Payout}
    (h : c.row old = some row) :
    (∃ r ∈ old, row.venueId = r.venueId) ∨ c.filed = some row.venueId := by
  cases old with
  | none =>
      cases c with
      | create | registerLegacy => exact .inr (by cases h; rfl)
      | _ => cases h
  | some r =>
      cases h
      cases c with
      | reset => exact .inr rfl
      | _ => exact .inl ⟨r, rfl, rfl⟩

/-- A command keeps the payouts filed when it files its own under the venue of the
allocation. -/
theorem World.PayoutsFiled.apply {w : World} (hw : w.PayoutsFiled) {c : Write}
    (hc : ∀ c', c = .payout c' → ∀ u ∈ c'.filed, ∀ a ∈ w.db.allocations.find c'.target,
      u = a.batchId.venueId) : (c.apply w).PayoutsFiled := by
  refine hw.of_kept (c.apply_keepsIds w) fun row hrow => ?_
  cases c with
  | batch c => exact .inl ⟨row, c.payouts_apply w.db ▸ hrow, rfl, rfl⟩
  | record c => exact .inl ⟨row, c.payouts_apply w.db ▸ hrow, rfl, rfl⟩
  | broadcast => exact .inl ⟨row, hrow, rfl, rfl⟩
  | payout c =>
      by_cases happlies : c.Applies w.db
      · have hfind : (c.apply w.db).payouts.find row.paymentId = some row := Table.find_key hrow
        rw [PayoutWrite.find_payouts_apply happlies] at hfind
        split at hfind
        · next htarget =>
          obtain ⟨r, hr, hvenue⟩ | hfiled := PayoutWrite.venueId_row hfind
          · exact .inl ⟨r, Table.mem_of_find hr, (Table.key_of_find hr).trans htarget, hvenue.symm⟩
          · refine .inr fun a' ha' => ?_
            obtain ⟨a, ha⟩ := Option.isSome_iff_exists.mp happlies.1
            have hbatch := ((Write.payout c).apply_keepsIds w).batchId (htarget ▸ ha) ha'
            rw [hc c rfl _ hfiled a ha, hbatch]
        · exact .inl ⟨row, Table.mem_of_find hfind, rfl, rfl⟩
      · rw [show (Write.payout c).apply w = w by
          simp [Write.apply, PayoutWrite.apply_of_not_applies happlies]] at hrow
        exact .inl ⟨row, hrow, rfl, rfl⟩

/-! ## Who may make a request -/

/-- Who may write in the venue by the request, in the store where it looks that up.  A payment
of an allocation that is not there, or of a venue without an id, is not asserted by the
controller. -/
def PortalRequest.Allowed (userId : UserId) (v : VenueId) (s : Portal) : PortalRequest → Prop
  | createPayout p | legacyEvidence p .. =>
      s.Manages userId v ∨ s.world.db.allocations.find p = none ∨ v = ""
  | respond id _ => v = id.venueId ∧ s.world.ProposedTo userId id
  | createVenue venue _ =>
      v = venue.id ∧ s.directory.HasRole userId venue.organizationId venueManageRoles
  | createOrganization _ | addMember .. => False
  | buildTransaction .. | submit .. | calculate .. | approve .. | reject .. | autoAssignRails _
  | setPlannedRail .. | importCsv .. | createPolicy .. | newVersion .. | createMapping ..
  | setWallet .. => s.Manages userId v

section Requests

variable {userId : UserId} {l : List Portal} {k : PortalCommand} {s : Portal}
  {v : VenueId}

/-- What the payment controller has asserted. -/
theorem reaches_assertAllocation {p : AllocationId}
    (h : (PayoutsController.assertAllocation userId p).Reaches l (.returns ()))
    (hl : l.Pairwise Portal.Later) :
    ∃ t ∈ l, t.world.db.allocations.find p = none ∨
      ∃ a ∈ t.world.db.allocations.find p, a.batchId.venueId = "" ∨
        ∃ t' ∈ l, t'.Manages userId a.batchId.venueId := by
  rw [PayoutsController.assertAllocation, PayoutsController.venueIdOfAllocation,
    reaches_get_bind] at h
  obtain ⟨t, l, rfl, h⟩ := h
  refine ⟨t, List.mem_cons_self, ?_⟩
  cases hfind : t.world.db.allocations.find p with
  | none => exact .inl rfl
  | some a =>
      refine .inr ⟨a, rfl, ?_⟩
      by_cases hempty : a.batchId.venueId = ""
      · exact .inl hempty
      · have hvenue : ((some a).map fun a => a.batchId.venueId).filter (· ≠ "") =
            some a.batchId.venueId := by simp [hempty]
        rw [hfind, hvenue] at h
        obtain ⟨t', ht', hmanages⟩ := manages_of_reaches h (List.pairwise_cons.mp hl).2
        exact .inr ⟨t', List.mem_cons_of_mem t ht', hmanages⟩

theorem only_assertAllocation (p : AllocationId) :
    (PayoutsController.assertAllocation userId p).Only fun _ => False := by
  rw [PayoutsController.assertAllocation, PayoutsController.venueIdOfAllocation,
    Prog.only_get_bind]
  intro s
  split
  · exact only_assertVenueRole userId _ venueManageRoles
  · trivial

/-- A payment that the controller lets pass. -/
theorem allowed_of_payment {α : Type} {p : AllocationId} {act : Service α}
    (hact : ∀ l c, act.Reaches l (.commits c) →
      ∃ w ∈ l, ∃ a ∈ w.db.allocations.find p, c.IsFor p a.batchId)
    (h : (do
      PayoutsController.assertAllocation userId p
      Portal.serve act : PortalAction Unit).Reaches l (.commits k))
    (hl : l.Pairwise Portal.Later) (hs : ∀ t ∈ l, t.Later s) (hk : k.Concerns s v) :
    ∃ t ∈ l, t.Manages userId v ∨ t.world.db.allocations.find p = none ∨ v = "" := by
  obtain ⟨l₁, l₂, _, rfl, hassert, hserve⟩ := reaches_read_bind (only_assertAllocation p) h
  obtain ⟨c, rfl, hc⟩ := reaches_serve hserve
  obtain ⟨w, hw, a, ha, hfor⟩ := hact _ c hc
  obtain ⟨u, hu, rfl⟩ := List.mem_map.mp hw
  have hv : a.batchId.venueId = v :=
    hfor.venue ha (hs u (List.mem_append_right l₁ hu)).ids hk
  obtain ⟨hl₁, -, hl₂⟩ := List.pairwise_append.mp hl
  obtain ⟨t, ht, hnone | ⟨a₀, ha₀, hfound⟩⟩ := reaches_assertAllocation hassert hl₁
  · exact ⟨t, List.mem_append_left l₂ ht, .inr (.inl hnone)⟩
  · have hbatch : a.batchId = a₀.batchId := (hl₂ t ht u hu).ids.batchId ha₀ ha
    rw [← hbatch, hv] at hfound
    obtain hempty | ⟨t', ht', hmanages⟩ := hfound
    · exact ⟨t, List.mem_append_left l₂ ht, .inr (.inr hempty)⟩
    · exact ⟨t', List.mem_append_left l₂ ht', .inl hmanages⟩

/-- A managed method whose service writes rows of the venue it is about. -/
theorem manages_of_in {α : Type} {venueOf : PortalAction VenueId} {u₀ : VenueId}
    {act : Service α} (honly : venueOf.Only fun _ => False)
    (hvenue : ∀ l u, venueOf.Reaches l (.returns u) → u = u₀) (hact : act.Only (Write.IsIn u₀))
    (h : (Portal.managed userId venueOf (Portal.serve act)).Reaches l (.commits k))
    (hl : l.Pairwise Portal.Later) (hk : k.Concerns s v) : ∃ t ∈ l, t.Manages userId v := by
  obtain ⟨u, hmanages, ⟨l₁, -, h₁⟩, l₂, -, h₂⟩ := reaches_managed honly h hl
  obtain ⟨c, rfl, hc⟩ := reaches_serve h₂
  obtain rfl := hvenue l₁ u h₁
  exact (hact.reaches hc).venue hk ▸ hmanages

theorem manages_of_pure {α : Type} {u₀ : VenueId} {act : Service α}
    (hact : act.Only (Write.IsIn u₀))
    (h : (Portal.managed userId (pure u₀) (Portal.serve act)).Reaches l (.commits k))
    (hl : l.Pairwise Portal.Later) (hk : k.Concerns s v) : ∃ t ∈ l, t.Manages userId v := by
  refine manages_of_in (Prog.only_pure.mpr trivial) (fun l u hu => ?_) hact h hl hk
  cases Prog.reaches_pure.mp hu
  rfl

theorem manages_of_look {α β : Type} {g : Portal → Option β} {e : ApiError} {f : β → VenueId}
    {u₀ : VenueId} {act : Service α} (hg : ∀ t, ∀ row ∈ g t, f row = u₀)
    (hact : act.Only (Write.IsIn u₀))
    (h : (Portal.managed userId (do
      let found ← Prog.get g
      let row ← Prog.orThrow found e
      return f row) (Portal.serve act)).Reaches l (.commits k))
    (hl : l.Pairwise Portal.Later) (hk : k.Concerns s v) : ∃ t ∈ l, t.Manages userId v := by
  refine manages_of_in only_look (fun l u hu => ?_) hact h hl hk
  obtain ⟨t, -, row, hrow, rfl⟩ := reaches_look hu
  exact hg t row hrow

/-- The payout of a transaction is filed under the venue of its allocation. -/
theorem manages_of_payout {α : Type} {p : AllocationId} {act : Service α}
    (hact : ∀ b, act.Only (Write.IsFor p b))
    (h : (Portal.managed userId (PayoutsController.venueIdOfPayout p)
      (Portal.serve act)).Reaches l (.commits k))
    (hl : l.Pairwise Portal.Later) (hs : ∀ t ∈ l, t.Later s)
    (hfiled : ∀ t ∈ l, t.world.PayoutsFiled) (hk : k.Concerns s v) :
    ∃ t ∈ l, t.Manages userId v := by
  obtain ⟨u, hmanages, ⟨l₁, hl₁, h₁⟩, l₂, -, h₂⟩ := reaches_managed only_look h hl
  obtain ⟨c, rfl, hc⟩ := reaches_serve h₂
  obtain ⟨t, ht, row, hrow, rfl⟩ := reaches_look h₁
  obtain ⟨a, ha⟩ := t.world.db.find_allocation_of_payout hrow
  have hkey : row.paymentId = p := Table.key_of_find hrow
  have hvenue : row.venueId = a.batchId.venueId :=
    hfiled t (hl₁ ht) row (Table.mem_of_find hrow) a (hkey ▸ ha)
  have hv := ((hact a.batchId).reaches hc).venue ha (hs t (hl₁ ht)).ids hk
  rwa [hvenue, hv] at hmanages

theorem only_addMember (organizationId : OrganizationId) (email : String) (role : OrgRole) :
    (OrganizationsController.addMember userId organizationId email role).Only
      fun c => ∃ member, c = .upsertMember member := by
  refine Only.bind ((only_assertOrgRole _ _ _).imp fun _ h => h.elim) fun _ => ?_
  rw [Prog.only_get_bind]
  intro s
  rw [Prog.only_orThrow_bind]
  exact fun memberId _ => (only_execute _).imp fun _ h => ⟨_, h⟩

/-- **The rule**: a command of a request that is about a venue is of a request that was
allowed there. -/
theorem allowed_of_reaches [Collation] {r : PortalRequest}
    (h : (r.prog userId).Reaches l (.commits k)) (hl : l.Pairwise Portal.Later)
    (hs : ∀ t ∈ l, t.Later s) (hfiled : ∀ t ∈ l, t.world.PayoutsFiled) (hk : k.Concerns s v) :
    ∃ t ∈ l, r.Allowed userId v t := by
  cases r with
  | createPayout p =>
      exact allowed_of_payment (fun _ _ => writes_createUsdcPayout) h hl hs hk
  | legacyEvidence p rail reference now =>
      exact allowed_of_payment (fun _ _ => writes_registerLegacyEvidence) h hl hs hk
  | buildTransaction id now =>
      exact manages_of_payout (fun b => isFor_buildTransaction id b _ _) h hl hs hfiled hk
  | submit id payload now sendError =>
      exact manages_of_payout (fun b => isFor_submitSigned id b _ _ _ _) h hl hs hfiled hk
  | calculate venueId date version now =>
      exact manages_of_pure (isIn_calculate venueId date version _ now) h hl hk
  | approve id now =>
      refine manages_of_look (fun _ _ hrow => ?_) (isIn_approve id userId now) h hl hk
      exact congrArg BatchId.venueId (Table.key_of_find hrow)
  | reject id reason =>
      refine manages_of_look (fun _ _ hrow => ?_) (isIn_reject id userId reason) h hl hk
      exact congrArg BatchId.venueId (Table.key_of_find hrow)
  | autoAssignRails id =>
      obtain ⟨u, hmanages, ⟨l₁, -, h₁⟩, l₂, hl₂, h₂⟩ := reaches_managed only_look h hl
      obtain ⟨t, -, row, hrow, rfl⟩ := reaches_look h₁
      obtain rfl : row.id = id := Table.key_of_find hrow
      obtain ⟨c, rfl, hc⟩ := reaches_serveRails h₂
      obtain ⟨w, hw, hassignments⟩ := writes_autoAssignRails hc
      obtain ⟨t', ht', rfl⟩ := List.mem_map.mp hw
      obtain ⟨x, hx, a', ha', hv⟩ := hk
      rw [hassignments] at hx
      obtain ⟨a, ha, rfl⟩ := List.mem_map.mp hx
      obtain ⟨hmem, hbatch⟩ := List.mem_filter.mp (List.mem_filter.mp ha).1
      have hkept : a'.batchId = a.batchId :=
        (hs t' (hl₂ ht')).ids.batchId (Table.find_key hmem) ha'
      rw [hkept, of_decide_eq_true hbatch] at hv
      exact hv ▸ hmanages
  | setPlannedRail p rail =>
      obtain ⟨u, hmanages, ⟨l₁, hl₁, h₁⟩, l₂, -, h₂⟩ := reaches_managed only_look h hl
      obtain ⟨t, ht, row, hrow, rfl⟩ := reaches_look h₁
      obtain ⟨c, rfl, hc⟩ := reaches_serveRails h₂
      obtain ⟨x, hx, a', ha', hv⟩ := hk
      rw [(only_setPlannedRail p rail).reaches hc] at hx
      obtain rfl := List.mem_singleton.mp hx
      have hkept : a'.batchId = row.batchId := (hs t (hl₁ ht)).ids.batchId hrow ha'
      rw [hkept] at hv
      exact hv ▸ hmanages
  | importCsv venueId csv now =>
      exact manages_of_pure (isIn_importCsv venueId csv _ now) h hl hk
  | createPolicy venueId input =>
      exact manages_of_pure (isIn_createVersion venueId input) h hl hk
  | newVersion id overrides =>
      refine manages_of_look (fun _ _ hrow => ?_) (isIn_newVersionFrom id overrides) h hl hk
      exact congrArg PolicyId.venueId (Table.key_of_find hrow)
  | createMapping id workerId =>
      exact manages_of_pure (isIn_createMapping id workerId) h hl hk
  | respond id decision =>
      obtain ⟨c, rfl, hc⟩ := reaches_serve h
      obtain ⟨⟨w, hw, hproposed⟩, hwrites⟩ := writes_respondToMapping hc
      obtain ⟨t, ht, rfl⟩ := List.mem_map.mp hw
      refine ⟨t, ht, ?_, hproposed⟩
      obtain hin | ⟨w', hw', a, ha, workerId, rfl⟩ := hwrites
      · exact (hin.venue hk).symm
      · obtain ⟨t', ht', rfl⟩ := List.mem_map.mp hw'
        have hattach : (Write.batch (.attach a workerId)).Concerns s.world v := hk
        exact (venue_of_attach ha (hs t' ht').ids hattach).symm
  | createOrganization id =>
      cases (only_execute _).reaches h
      exact hk.elim
  | addMember organizationId email role =>
      obtain ⟨member, rfl⟩ := (only_addMember organizationId email role).reaches h
      exact hk.elim
  | createVenue venue now =>
      obtain ⟨l₁, l₂, _, rfl, h₁, h₂⟩ := reaches_read_bind (only_assertOrgRole _ _ _) h
      cases (only_execute _).reaches h₂
      obtain ⟨t, ht, hrole⟩ := hasRole_of_reaches h₁
      exact ⟨t, List.mem_append_left l₂ ht, hk.symm, hrole⟩
  | setWallet venueId wallet =>
      obtain ⟨u, hmanages, ⟨l₁, -, h₁⟩, l₂, -, h₂⟩ :=
        reaches_managed (Prog.only_pure.mpr trivial) h hl
      cases Prog.reaches_pure.mp h₁
      cases (only_execute _).reaches h₂
      exact hk ▸ hmanages

end Requests

/-! ## Runs -/

section Runs

variable {userId : UserId} {l : List Portal} {k : PortalCommand}

def PortalCommand.FilesNone : PortalCommand → Prop
  | settle c => c.FilesNone
  | _ => True

theorem Write.IsIn.filesNone {v : VenueId} {c : Write} (h : c.IsIn v) : c.FilesNone := by
  cases c with
  | payout => exact h.elim
  | batch | record | broadcast => trivial

/-- Two batches of different venues: there is no new payout that is filed under both. -/
theorem Write.IsFor.filesNone {p : AllocationId} {c : Write} (h : ∀ b, c.IsFor p b) :
    c.FilesNone := by
  cases c with
  | payout c =>
      refine Option.eq_none_iff_forall_not_mem.mpr fun u hu => ?_
      have hempty : u = "" := (h ⟨"", "", 0⟩).2 u hu
      have hbar : u = "bar" := (h ⟨"bar", "", 0⟩).2 u hu
      exact absurd (hempty.symm.trans hbar) (by decide)
  | batch | record | broadcast => trivial

theorem only_managed {venueOf : PortalAction VenueId} {act : PortalAction Unit}
    (honly : venueOf.Only fun _ => False) (hact : act.Only PortalCommand.FilesNone) :
    (Portal.managed userId venueOf act).Only PortalCommand.FilesNone := by
  refine Only.bind (honly.imp fun _ h => h.elim) fun u => ?_
  exact Only.bind ((only_assertVenueRole userId u _).imp fun _ h => h.elim) fun _ => hact

theorem only_serve {α : Type} {act : Service α} (h : act.Only Write.FilesNone) :
    (Portal.serve act).Only PortalCommand.FilesNone := Only.lift (only_discardResult h)

theorem only_serve_in {α : Type} {v : VenueId} {act : Service α} (h : act.Only (Write.IsIn v)) :
    (Portal.serve act).Only PortalCommand.FilesNone :=
  only_serve (h.imp fun _ => Write.IsIn.filesNone)

theorem only_serve_for {α : Type} {p : AllocationId} {act : Service α}
    (h : ∀ b, act.Only (Write.IsFor p b)) : (Portal.serve act).Only PortalCommand.FilesNone := by
  refine only_serve (Only.imp (fun c hc => ?_) (Only.all fun b (_ : True) => h b))
  exact Write.IsFor.filesNone fun b => hc b trivial

theorem only_serveRails {α : Type} (act : RailService α) :
    (Portal.serveRails act).Only PortalCommand.FilesNone :=
  Only.lift ((Prog.only_true _).imp fun _ _ => trivial)

theorem reaches_payment {α : Type} {p : AllocationId} {act : Service α}
    (hact : ∀ l c, act.Reaches l (.commits c) →
      ∃ w ∈ l, ∃ a ∈ w.db.allocations.find p, c.IsFor p a.batchId)
    (h : (do
      PayoutsController.assertAllocation userId p
      Portal.serve act : PortalAction Unit).Reaches l (.commits k)) :
    ∃ c, k = .settle c ∧ ∃ t ∈ l, ∃ a ∈ t.world.db.allocations.find p, c.IsFor p a.batchId := by
  obtain ⟨l₁, l₂, _, rfl, -, hserve⟩ := reaches_read_bind (only_assertAllocation p) h
  obtain ⟨c, rfl, hc⟩ := reaches_serve hserve
  obtain ⟨w, hw, a, ha, hfor⟩ := hact _ c hc
  obtain ⟨t, ht, rfl⟩ := List.mem_map.mp hw
  exact ⟨c, rfl, t, List.mem_append_right l₁ ht, a, ha, hfor⟩

/-- Only the payment of an allocation files a payout. -/
theorem filed_of_reaches [Collation] {r : PortalRequest}
    (h : (r.prog userId).Reaches l (.commits k)) :
    k.FilesNone ∨ ∃ p c, k = .settle c ∧
      ∃ t ∈ l, ∃ a ∈ t.world.db.allocations.find p, c.IsFor p a.batchId := by
  have hpure (v : VenueId) : (pure v : PortalAction VenueId).Only fun _ => False :=
    Prog.only_pure.mpr trivial
  cases r with
  | createPayout p =>
      exact .inr ⟨p, reaches_payment (fun _ _ => writes_createUsdcPayout) h⟩
  | legacyEvidence p rail reference now =>
      exact .inr ⟨p, reaches_payment (fun _ _ => writes_registerLegacyEvidence) h⟩
  | buildTransaction id now =>
      have hact := only_serve_for fun b => isFor_buildTransaction id b (some userId) now
      exact .inl ((only_managed only_look hact).reaches h)
  | submit id payload now sendError =>
      have hact := only_serve_for fun b =>
        isFor_submitSigned id b payload (some userId) now sendError
      exact .inl ((only_managed only_look hact).reaches h)
  | calculate venueId date version now =>
      have hact := only_serve_in (isIn_calculate venueId date version (some userId) now)
      exact .inl ((only_managed (hpure venueId) hact).reaches h)
  | approve id now =>
      exact .inl ((only_managed only_look (only_serve_in (isIn_approve id userId now))).reaches h)
  | reject id reason =>
      exact .inl ((only_managed only_look (only_serve_in (isIn_reject id userId reason))).reaches h)
  | autoAssignRails id =>
      exact .inl ((only_managed only_look (only_serveRails (autoAssignRails id))).reaches h)
  | setPlannedRail p rail =>
      exact .inl ((only_managed only_look (only_serveRails (setPlannedRail p rail))).reaches h)
  | importCsv venueId csv now =>
      have hact := only_serve_in (isIn_importCsv venueId csv (some userId) now)
      exact .inl ((only_managed (hpure venueId) hact).reaches h)
  | createPolicy venueId input =>
      have hact := only_serve_in (isIn_createVersion venueId input)
      exact .inl ((only_managed (hpure venueId) hact).reaches h)
  | newVersion id overrides =>
      have hact := only_serve_in (isIn_newVersionFrom id overrides)
      exact .inl ((only_managed only_look hact).reaches h)
  | createMapping id workerId =>
      have hact := only_serve_in (isIn_createMapping id workerId)
      exact .inl ((only_managed (hpure id.venueId) hact).reaches h)
  | respond id decision =>
      obtain ⟨c, rfl, hc⟩ := reaches_serve h
      obtain hin | ⟨_, _, _, _, _, rfl⟩ := (writes_respondToMapping hc).2
      · exact .inl hin.filesNone
      · exact .inl trivial
  | createOrganization id =>
      cases (only_execute _).reaches h
      exact .inl trivial
  | addMember organizationId email role =>
      obtain ⟨member, rfl⟩ := (only_addMember organizationId email role).reaches h
      exact .inl trivial
  | createVenue venue now =>
      obtain ⟨_, _, _, -, -, h₂⟩ := reaches_read_bind (only_assertOrgRole _ _ _) h
      cases (only_execute _).reaches h₂
      exact .inl trivial
  | setWallet venueId wallet =>
      have hact : (Portal.execute (.setVenueWallet venueId wallet)).Only PortalCommand.FilesNone :=
        (only_execute _).imp fun _ h => h ▸ trivial
      exact .inl ((only_managed (hpure venueId) hact).reaches h)

theorem RailWrite.payouts_apply (c : RailWrite) (w : World) :
    (c.apply w).db.payouts = w.db.payouts := by
  have hfold (l : List (AllocationId × WorkerPayoutRail)) (d : Db) :
      (l.foldl planOne d).payouts = d.payouts := by
    induction l generalizing d with
    | nil => rfl
    | cons x l ih => exact ih _
  unfold apply
  split
  · exact hfold c.assignments w.db
  · rfl

/-- A command of a call keeps the payouts filed. -/
theorem PortalCommand.payoutsFiled_apply {s : Portal} (hw : s.world.PayoutsFiled)
    (hs : ∀ t ∈ l, t.Later s) (hk : k.FilesNone ∨ ∃ p c, k = .settle c ∧
      ∃ t ∈ l, ∃ a ∈ t.world.db.allocations.find p, c.IsFor p a.batchId) :
    (k.apply s).world.PayoutsFiled := by
  have hkept (h : (k.apply s).world.db.payouts = s.world.db.payouts) :
      (k.apply s).world.PayoutsFiled :=
    hw.of_kept (k.later_apply s).ids fun row hrow => .inl ⟨row, h ▸ hrow, rfl, rfl⟩
  cases k with
  | settle c =>
      rw [apply_settle]
      refine hw.apply fun c' hc' u hu a ha => ?_
      subst hc'
      obtain hnone | ⟨p, c, hsettle, t, ht, a₀, ha₀, hfor⟩ := hk
      · cases hnone.symm.trans hu
      · cases hsettle
        have hbatch : a.batchId = a₀.batchId := (hs t ht).ids.batchId ha₀ (hfor.1 ▸ ha)
        exact hbatch ▸ hfor.2 u hu
  | plan c => exact hkept (by rw [apply_plan, RailWrite.payouts_apply])
  | createOrganization | upsertMember | createVenue | setVenueWallet =>
      refine hkept ?_
      unfold apply
      split <;> rfl

variable [Collation] {s : Portal}

theorem later_runFrom (ms ms' : List (Move PortalCall PortalMove)) :
    (portal.runFrom s ms).store.Later (portal.runFrom s (ms ++ ms')).store := by
  rw [System.runFrom_append]
  refine System.exec_keeps (Q := (portal.runFrom s ms).store.Later) ?_ ?_ _ (.refl _)
  · exact fun k t ht => ht.trans (k.later_apply t)
  · exact fun e t ht => ht.trans (e.later_apply t)

theorem later_of_seen {ms : List (Move PortalCall PortalMove)} {n : Nat} :
    ∀ t ∈ portal.seenBy s ms n, t.Later (portal.runFrom s ms).store := by
  intro t ht
  obtain ⟨ms₁, ms₂, rfl, rfl⟩ := System.mem_seenBy ht
  exact later_runFrom ms₁ _

/-- Payouts stay filed under their venue, however the calls overlap. -/
theorem payoutsFiled_runFrom (hs : s.world.PayoutsFiled)
    (ms : List (Move PortalCall PortalMove)) :
    (portal.runFrom s ms).store.world.PayoutsFiled := by
  induction ms using List.reverseRecOn with
  | nil => exact hs
  | append_singleton ms m ih =>
      obtain hsame | ⟨e, -, he⟩ | ⟨n, k, next, -, hn, hk⟩ := portal.store_runFrom_snoc s ms m
      · rwa [hsame]
      · rw [he]
        cases e with
        | users f => exact ih
        | world e =>
            refine ih.of_kept (PortalMove.later_apply (.world e) _).ids fun row hrow => ?_
            exact .inl ⟨row, e.payouts_apply _ ▸ hrow, rfl, rfl⟩
      · rw [hk]
        obtain ⟨i, -, hreaches⟩ := System.reaches_of_thread hn
        refine PortalCommand.payoutsFiled_apply ih (later_of_seen (n := n)) ?_
        cases i with
        | request userId r => exact filed_of_reaches hreaches
        | job c => exact .inl ((only_serve (filesNone_workerProg c)).reaches hreaches)

/-- **Every write is of a venue its user manages.**  Whatever the calls and however they
overlap: a step of a request leaves a venue as it is, unless the request was allowed there
in a store that the call had looked at before. -/
theorem venue_written_by_allowed (hs : s.world.PayoutsFiled)
    {ms : List (Move PortalCall PortalMove)} {n : Nat} {r : PortalRequest}
    (hr : (calls ms)[n]? = some (.request userId r)) (v : VenueId) :
    (portal.runFrom s ms).store.SameFor v (portal.runFrom s (ms ++ [.step n])).store ∨
      ∃ t ∈ portal.seenBy s ms n, r.Allowed userId v t := by
  obtain hsame | ⟨e, he, -⟩ | ⟨n', k, next, hstep, hn, hk⟩ :=
    portal.store_runFrom_snoc s ms (.step n)
  · rw [hsame]
    exact .inl (.refl v _)
  · cases he
  · cases hstep
    rw [hk]
    by_cases hconcerns : k.Concerns (portal.runFrom s ms).store v
    · obtain ⟨i, hi, hreaches⟩ := System.reaches_of_thread hn
      cases hr.symm.trans hi
      have hpair : (portal.seenBy s ms n).Pairwise Portal.Later :=
        (System.seen_pairwise Portal.Later.refl (fun _ _ _ => Portal.Later.trans)
          PortalCommand.later_apply PortalMove.later_apply (number 0 ms) _).1
      refine .inr (allowed_of_reaches hreaches hpair later_of_seen (fun t ht => ?_) hconcerns)
      obtain ⟨ms₁, ms₂, rfl, rfl⟩ := System.mem_seenBy ht
      exact payoutsFiled_runFrom hs ms₁
    · exact .inl (PortalCommand.sameFor_apply hconcerns)

end Runs

section Concrete

/-- Two organizations with a venue each; the manager belongs to the first. -/
def Scenario.twoVenues : Portal where
  world :=
    { World.empty with
      db :=
        { Db.empty with
          venues := (Table.empty.set ⟨"bar", "Bar", none⟩).set ⟨"cafe", "Cafe", none⟩ } }
  directory :=
    { venues := (Table.empty.set ⟨"bar", "first", "Bar"⟩).set ⟨"cafe", "second", "Cafe"⟩
      members := Table.empty.set ⟨"first", "manager", .manager⟩ }
  organizations := ["first", "second"]
  users _ := none

/-- The manager names the wallet of the bar. -/
def Scenario.namesWallet : List (Move PortalCall PortalMove) :=
  [.call (.request "manager" (.setWallet "bar" (.key 1))), .step 0, .step 0]

open Scenario

theorem venue_written_by_allowed_wallet :
    ∃ t ∈ (@portal byCodePoint).seenBy twoVenues namesWallet 0,
      (PortalRequest.setWallet "bar" (.key 1)).Allowed "manager" "bar" t := by
  have hfiled : twoVenues.world.PayoutsFiled := fun _ h => absurd h List.not_mem_nil
  refine (@venue_written_by_allowed "manager" byCodePoint twoVenues hfiled namesWallet 0 _ rfl
    "bar").resolve_left fun hsame => ?_
  have hwallet := congrArg (Option.map Venue.payoutSignerWallet) hsame.db.venue
  revert hwallet
  decide +kernel

end Concrete

end ServeProof
