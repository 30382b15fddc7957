import ServeProof.Services.Controllers

/-!
# ServeProof.Concerns

What is on record of a venue, and which commands can change it.

* `Db.SameFor` -- two databases show the same of a venue;
* `Write.Concerns`, `PortalCommand.Concerns` -- the venues a command is about;
* `sameFor_apply` -- a command leaves the other venues as they are.
-/

namespace ServeProof

/-! ## What is on record of a venue -/

/-- The two databases show the same of the venue. -/
structure Db.SameFor (v : VenueId) (d d' : Db) : Prop where
  venue : d'.venues.find v = d.venues.find v
  accounts : ∀ id : AccountId, id.venueId = v → d'.accounts.find id = d.accounts.find id
  tips : ∀ id : TipId, id.venueId = v → d'.tips.find id = d.tips.find id
  shifts : ∀ id : ShiftId, id.venueId = v → d'.shifts.find id = d.shifts.find id
  policies : ∀ id : PolicyId, id.venueId = v → d'.policies.find id = d.policies.find id
  batches : ∀ id : BatchId, id.venueId = v → d'.batches.find id = d.batches.find id
  allocations : ∀ a : WorkerAllocation, a.batchId.venueId = v →
    (a ∈ d'.allocations.rows ↔ a ∈ d.allocations.rows)
  payouts : ∀ a ∈ d.allocations.rows, a.batchId.venueId = v →
    d'.payouts.find a.id = d.payouts.find a.id

theorem Db.SameFor.refl (v : VenueId) (d : Db) : d.SameFor v d where
  venue := rfl
  accounts _ _ := rfl
  tips _ _ := rfl
  shifts _ _ := rfl
  policies _ _ := rfl
  batches _ _ := rfl
  allocations _ _ := Iff.rfl
  payouts _ _ _ := rfl

/-- The same holds when the tables of the payments and the batches are told apart from the
others. -/
theorem Db.SameFor.of_records {v : VenueId} {d d' : Db} (h : d'.records = d.records)
    (hbatches : ∀ id : BatchId, id.venueId = v → d'.batches.find id = d.batches.find id)
    (hallocations : ∀ a : WorkerAllocation, a.batchId.venueId = v →
      (a ∈ d'.allocations.rows ↔ a ∈ d.allocations.rows))
    (hpayouts : ∀ a ∈ d.allocations.rows, a.batchId.venueId = v →
      d'.payouts.find a.id = d.payouts.find a.id) : d.SameFor v d' where
  venue := by rw [show d'.venues = d.venues from congrArg Records.venues h]
  accounts _ _ := by rw [show d'.accounts = d.accounts from congrArg Records.accounts h]
  tips _ _ := by rw [show d'.tips = d.tips from congrArg Records.tips h]
  shifts _ _ := by rw [show d'.shifts = d.shifts from congrArg Records.shifts h]
  policies _ _ := by rw [show d'.policies = d.policies from congrArg Records.policies h]
  batches := hbatches
  allocations := hallocations
  payouts := hpayouts

/-! ## Which venue a command is about -/

/-- The venue of the rows that the command writes. -/
def RecordWrite.venueId : RecordWrite → Option VenueId
  | csvTip venueId _ | csvShift venueId _ _ | createVersion venueId _ => some venueId
  | saveTip row => some row.id.venueId
  | saveShift row => some row.id.venueId
  | propose id _ => some id.venueId
  | verify seen _ | rejectAccount seen _ => some seen.id.venueId
  | saveVenue row => some row.id
  | saveWorker _ | addWallet _ | setWalletStatus _ _ => none

/-- The allocation is one of the venue. -/
def Db.IsOf (d : Db) (v : VenueId) (p : AllocationId) : Prop :=
  ∃ a ∈ d.allocations.find p, a.batchId.venueId = v

def BatchWrite.Concerns (d : Db) (v : VenueId) : BatchWrite → Prop
  | saveCalculation _ c => c.batchId.venueId = v
  | approve seen .. | reject seen .. => seen.id.venueId = v
  | rollup id _ => id.venueId = v
  | attach held _ => held.batchId.venueId = v ∨ d.IsOf v held.id

def Write.Concerns (w : World) (v : VenueId) : Write → Prop
  | .payout c => w.db.IsOf v c.target
  | .batch c => c.Concerns w.db v
  | .record c => c.venueId = some v
  | .broadcast .. => False

def RailWrite.Concerns (w : World) (v : VenueId) (c : RailWrite) : Prop :=
  ∃ x ∈ c.assignments, w.db.IsOf v x.1

def PortalCommand.Concerns (s : Portal) (v : VenueId) : PortalCommand → Prop
  | settle c => c.Concerns s.world v
  | plan c => c.Concerns s.world v
  | createOrganization .. | upsertMember _ => False
  | createVenue venue .. => venue.id = v
  | setVenueWallet venueId _ => venueId = v

/-! ## The others stay -/

section Others

variable {v : VenueId} {d : Db} {w : World}

theorem RecordWrite.sameFor_apply {c : RecordWrite} (h : c.venueId ≠ some v) :
    d.SameFor v (c.apply d) := by
  have hsame : d.SameFor v d := Db.SameFor.refl v d
  cases c with
  | csvTip venueId tip =>
      refine { hsame with tips := fun id hid => ?_ }
      rw [apply, Table.find_set, if_neg]
      rintro rfl
      exact h (congrArg some hid)
  | csvShift venueId shift mappedWorkerId =>
      refine { hsame with shifts := fun id hid => ?_ }
      rw [apply, Table.find_set, if_neg]
      rintro rfl
      exact h (congrArg some hid)
  | saveTip row =>
      refine { hsame with tips := fun id hid => ?_ }
      rw [apply, Table.find_set, if_neg]
      rintro rfl
      exact h (congrArg some hid)
  | saveShift row =>
      refine { hsame with shifts := fun id hid => ?_ }
      rw [apply, Table.find_set, if_neg]
      rintro rfl
      exact h (congrArg some hid)
  | propose id' workerId =>
      refine { hsame with accounts := fun id hid => ?_ }
      rw [apply, Table.find_set, if_neg]
      rintro rfl
      exact h (congrArg some hid)
  | verify seen verifiedBy =>
      have hne {u : VenueId} (hu : u = v) : u ≠ seen.id.venueId := fun hseen =>
        h (congrArg some (hseen.symm.trans hu))
      refine { hsame with accounts := fun id hid => ?_, shifts := fun id hid => ?_ }
      · let f (a : ExternalWorkerAccount) : ExternalWorkerAccount :=
          { a with mappingStatus := .confirmed, verifiedBy := some verifiedBy }
        refine (Table.find_update (f := f) _ (fun _ => rfl) id).trans (if_neg ?_)
        rintro rfl
        exact hne hid rfl
      · rw [apply, Table.find_mapRows]
        cases hfind : d.shifts.find id with
        | none => rfl
        | some shift =>
            have hid' : shift.id = id := Table.key_of_find hfind
            rw [Option.map_some, backfill, if_neg]
            rintro ⟨hvenue, -⟩
            exact hne hid (hid' ▸ hvenue)
  | rejectAccount seen verifiedBy =>
      let f (a : ExternalWorkerAccount) : ExternalWorkerAccount :=
        { a with mappingStatus := .rejected, verifiedBy := some verifiedBy }
      refine { hsame with accounts := fun id hid => ?_ }
      refine (Table.find_update (f := f) _ (fun _ => rfl) id).trans (if_neg ?_)
      rintro rfl
      exact h (congrArg some hid)
  | createVersion venueId input =>
      have hne {u : VenueId} (hu : u = v) : u ≠ venueId := fun hvenue =>
        h (congrArg some (hvenue.symm.trans hu))
      refine { hsame with policies := fun id hid => ?_ }
      rw [apply, Table.find_set, if_neg, Table.find_mapRows]
      · cases hfind : d.policies.find id with
        | none => rfl
        | some policy =>
            have hid' : policy.id = id := Table.key_of_find hfind
            rw [Option.map_some, archive, if_neg]
            rintro ⟨hvenue, -⟩
            exact hne hid (hid' ▸ hvenue)
      · rintro rfl
        exact hne hid rfl
  | saveVenue row =>
      refine { hsame with venue := ?_ }
      rw [apply, Table.find_set, if_neg]
      rintro rfl
      exact h rfl
  | saveWorker row => exact { hsame with }
  | addWallet row =>
      rw [apply]
      split
      · exact { hsame with }
      · exact hsame
  | setWalletStatus id status => exact { hsame with }

/-- A change of allocations of other venues leaves those of the venue. -/
theorem mem_update_of_other {t : Table WorkerAllocation.id} {p : AllocationId}
    {f : WorkerAllocation → WorkerAllocation} (hid : ∀ a, (f a).id = a.id)
    (hbatch : ∀ a, (f a).batchId = a.batchId)
    (hp : ∀ a ∈ t.find p, a.batchId.venueId ≠ v) {a : WorkerAllocation}
    (ha : a.batchId.venueId = v) : a ∈ (t.update p f).rows ↔ a ∈ t.rows := by
  rw [t.mem_update hid]
  constructor
  · rintro (⟨hmem, -⟩ | ⟨r, hr, rfl, rfl⟩)
    · exact hmem
    · exact absurd (hbatch r ▸ ha) (hp r (Table.find_key hr))
  · intro hmem
    refine .inl ⟨hmem, fun hkey => ?_⟩
    exact hp a (hkey ▸ Table.find_key hmem) ha

theorem PayoutWrite.sameFor_apply {c : PayoutWrite} (h : ¬ d.IsOf v c.target) :
    d.SameFor v (c.apply d) := by
  by_cases happlies : c.Applies d
  · refine .of_records (c.records_apply d) (fun id _ => by rw [batches_apply]) ?_ ?_
    · intro a ha
      rw [allocations_apply happlies]
      exact mem_update_of_other c.pay_id c.pay_batchId (fun a' ha' hv => h ⟨a', ha', hv⟩) ha
    · intro a hmem ha
      rw [find_payouts_apply happlies, if_neg]
      intro htarget
      exact h ⟨a, htarget ▸ Table.find_key hmem, ha⟩
  · rw [apply_of_not_applies happlies]
    exact .refl v d

theorem BatchWrite.sameFor_apply {c : BatchWrite} (h : ¬ c.Concerns d v) :
    d.SameFor v (c.apply d) := by
  by_cases happlies : c.Applies d
  · refine .of_records (c.records_apply d) ?_ ?_ fun _ _ _ => by rw [payouts_apply]
    · intro id hid
      cases c with
      | saveCalculation seen c =>
          rw [find_batches_saveCalculation happlies, if_neg]
          rintro rfl
          exact h hid
      | approve seen approvedBy approvedAt =>
          rw [find_batches_approve happlies, if_neg]
          rintro rfl
          exact h hid
      | reject seen rejectedBy reason =>
          rw [find_batches_reject happlies, if_neg]
          rintro rfl
          exact h hid
      | rollup id' status =>
          rw [find_batches_rollup happlies, if_neg]
          rintro rfl
          exact h hid
      | attach held workerId => rw [batches_attach]
    · intro a ha
      cases c with
      | saveCalculation seen c =>
          have hne : a.batchId ≠ c.batchId := fun hbatch =>
            h ((congrArg BatchId.venueId hbatch).symm.trans ha)
          have hkept : replaced seen c a = false := by simp [replaced, hne]
          rw [rows_saveCalculation happlies, List.mem_append, List.mem_filter, hkept]
          refine ⟨fun hmem => hmem.elim And.left fun hnew => ?_, fun hmem => .inl ⟨hmem, rfl⟩⟩
          exact absurd (batchId_of_newRows hnew) hne
      | approve | reject | rollup => simp
      | attach held workerId =>
          obtain ⟨hbatch, hheld⟩ := not_or.mp h
          have hrow : ∀ a' ∈ d.allocations.find held.id, a'.batchId.venueId ≠ v :=
            fun a' ha' hv => hheld ⟨a', ha', hv⟩
          cases hown : ownRow d held workerId with
          | none =>
              rw [allocations_setWorker happlies hown]
              exact mem_update_of_other (f := setWorker workerId) (fun _ => rfl) (fun _ => rfl)
                hrow ha
          | some own =>
              obtain ⟨hfind, hownBatch, -⟩ := find_ownRow hown
              have hother : ∀ a' ∈ d.allocations.find own.id, a'.batchId.venueId ≠ v := by
                intro a' ha'
                cases hfind.symm.trans ha'
                rwa [hownBatch]
              rw [allocations_merge happlies hown, Table.mem_erase,
                mem_update_of_other (f := addShare held) (fun _ => rfl) (fun _ => rfl) hother ha,
                and_iff_left_iff_imp]
              intro hmem
              exact decide_eq_false fun hid => hrow a (hid ▸ Table.find_key hmem) ha
  · rw [apply, if_neg happlies]
    exact .refl v d

theorem Write.sameFor_apply {c : Write} (h : ¬ c.Concerns w v) :
    w.db.SameFor v (c.apply w).db := by
  cases c with
  | payout c => exact PayoutWrite.sameFor_apply h
  | batch c => exact BatchWrite.sameFor_apply h
  | record c => exact RecordWrite.sameFor_apply h
  | broadcast p tx => exact .refl v w.db

theorem Db.SameFor.trans {d' d'' : Db} (h : d.SameFor v d') (h' : d'.SameFor v d'') :
    d.SameFor v d'' where
  venue := h'.venue.trans h.venue
  accounts id hid := (h'.accounts id hid).trans (h.accounts id hid)
  tips id hid := (h'.tips id hid).trans (h.tips id hid)
  shifts id hid := (h'.shifts id hid).trans (h.shifts id hid)
  policies id hid := (h'.policies id hid).trans (h.policies id hid)
  batches id hid := (h'.batches id hid).trans (h.batches id hid)
  allocations a ha := (h'.allocations a ha).trans (h.allocations a ha)
  payouts a hmem ha :=
    (h'.payouts a ((h.allocations a ha).mpr hmem) ha).trans (h.payouts a hmem ha)

/-- The allocations of the venue are the same. -/
theorem Db.SameFor.isOf {d' : Db} (h : d.SameFor v d') {p : AllocationId} (hp : d'.IsOf v p) :
    d.IsOf v p := by
  obtain ⟨a, ha, hv⟩ := hp
  obtain ⟨hmem, hkey⟩ := (Table.find_eq_some_iff _).mp ha
  exact ⟨a, hkey ▸ Table.find_key ((h.allocations a hv).mp hmem), hv⟩

theorem RailWrite.sameFor_planOne {x : AllocationId × WorkerPayoutRail} (h : ¬ d.IsOf v x.1) :
    d.SameFor v (planOne d x) := by
  refine .of_records (Db.updateAllocation_records ..) (fun _ _ => rfl) ?_ fun _ _ _ => rfl
  intro a ha
  exact mem_update_of_other (f := WorkerAllocation.plan x.2) (fun _ => rfl) (fun _ => rfl)
    (fun a' ha' hv => h ⟨a', ha', hv⟩) ha

theorem RailWrite.sameFor_apply {c : RailWrite} (h : ¬ c.Concerns w v) :
    w.db.SameFor v (c.apply w).db := by
  have hfold (l : List (AllocationId × WorkerPayoutRail)) (d : Db)
      (hl : ∀ x ∈ l, ¬ d.IsOf v x.1) : d.SameFor v (l.foldl planOne d) := by
    induction l generalizing d with
    | nil => exact .refl v d
    | cons x l ih =>
        have hone := sameFor_planOne (hl x List.mem_cons_self)
        exact hone.trans (ih _ fun y hy hof => hl y (List.mem_cons_of_mem x hy) (hone.isOf hof))
  unfold apply
  split
  · exact hfold c.assignments w.db fun x hx hof => h ⟨x, hx, hof⟩
  · exact .refl v w.db

end Others

/-- The two stores show the same of the venue. -/
structure Portal.SameFor (v : VenueId) (s s' : Portal) : Prop where
  db : s.world.db.SameFor v s'.world.db
  organization : s'.directory.venues.find v = s.directory.venues.find v

theorem Portal.SameFor.refl (v : VenueId) (s : Portal) : s.SameFor v s := ⟨.refl v _, rfl⟩

/-- A command leaves the venues it is not about as they are. -/
theorem PortalCommand.sameFor_apply {c : PortalCommand} {s : Portal} {v : VenueId}
    (h : ¬ c.Concerns s v) : s.SameFor v (c.apply s) := by
  have hsame : s.world.db.SameFor v s.world.db := Db.SameFor.refl v s.world.db
  unfold apply
  split
  · cases c with
    | settle c => exact ⟨Write.sameFor_apply h, rfl⟩
    | plan c => exact ⟨RailWrite.sameFor_apply h, rfl⟩
    | createOrganization id creatorUserId => exact ⟨hsame, rfl⟩
    | upsertMember member => exact ⟨hsame, rfl⟩
    | createVenue venue creatorUserId now =>
        refine ⟨{ hsame with venue := ?_, policies := fun id hid => ?_ }, ?_⟩
        · exact (Table.find_set ..).trans (if_neg h)
        · refine (Table.find_set ..).trans (if_neg ?_)
          rintro rfl
          exact h hid
        · exact (Table.find_set ..).trans (if_neg h)
    | setVenueWallet venueId wallet =>
        refine ⟨{ hsame with venue := ?_ }, rfl⟩
        exact (Table.find_update (f := setWallet wallet) _ (fun _ => rfl) v).trans (if_neg h)
  · exact ⟨hsame, rfl⟩

end ServeProof
