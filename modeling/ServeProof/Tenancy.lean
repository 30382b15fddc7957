import Mathlib.Data.Fintype.EquivFin
import ServeProof.Income.Ledger
import ServeProof.Services.Payroll

/-!
# ServeProof.Tenancy

Tenant isolation of payroll data.

Whoever has a role at the venue of one income entry of a worker is shown all
payroll records of the worker, those of other organizations too.
-/

namespace ServeProof

namespace PayrollStore

variable {s s' : PayrollStore} {userId : UserId} {workerId : WorkerId}

/-- The record is another organization's, about the worker. -/
def Foreign (s : PayrollStore) (userId : UserId) (workerId : WorkerId) (r : PayrollRow) : Prop :=
  r.workerId = workerId ∧ ¬ s.directory.Belongs userId r.venueId

instance (s : PayrollStore) (userId : UserId) (workerId : WorkerId) (r : PayrollRow) :
    Decidable (s.Foreign userId workerId r) :=
  inferInstanceAs (Decidable (_ ∧ _))

/-- The stores differ in other organizations' records of the worker at most. -/
structure AgreesFor (s s' : PayrollStore) (userId : UserId) (workerId : WorkerId) : Prop where
  directory : s'.directory = s.directory
  workers : s'.workers = s.workers
  entries : s'.entries = s.entries
  records : (s'.payrollRecords.rows.filter fun r => !decide (s.Foreign userId workerId r)) =
    s.payrollRecords.rows.filter fun r => !decide (s.Foreign userId workerId r)

/-- The user has a role at the venue of the entry that is found. -/
def Admitted (s : PayrollStore) (userId : UserId) (workerId : WorkerId) : Prop :=
  (s.workers.find workerId).isSome ∧ ∃ entry ∈ s.firstEntry workerId,
    ∃ v ∈ s.directory.venues.find entry.data.venueId,
      s.directory.HasRole userId v.organizationId venueReadRoles

instance (s : PayrollStore) (userId : UserId) (workerId : WorkerId) :
    Decidable (s.Admitted userId workerId) :=
  inferInstanceAs (Decidable (_ ∧ _))

/-- Every venue is one of the user's organizations. -/
def OnlyTenant (s : PayrollStore) (userId : UserId) : Prop :=
  ∀ v ∈ s.directory.venues.rows, (s.directory.members.find (v.organizationId, userId)).isSome

theorem status_of_admitted (h : s.Admitted userId workerId) :
    s.status userId workerId =
      .ok (((s.recordsOf workerId).insertionSort PeriodLe).map s.shown) := by
  obtain ⟨hworker, entry, hentry, hrole⟩ := h
  obtain ⟨worker, hworker⟩ := Option.isSome_iff_exists.mp hworker
  have hstatus : s.statusForWorker workerId =
      .ok (((s.recordsOf workerId).insertionSort PeriodLe).map s.shown) := by
    rw [statusForWorker, hworker]
  have hrole := s.directory.assertVenueRole_eq_ok.mpr hrole
  unfold status
  rw [Option.mem_def.mp hentry]
  split
  · simp only [hrole]
    exact hstatus
  · exact hstatus

theorem AgreesFor.refl (s : PayrollStore) (userId : UserId) (workerId : WorkerId) :
    s.AgreesFor s userId workerId :=
  ⟨rfl, rfl, rfl, rfl⟩

/-- A refusal does not depend on the records. -/
theorem status_of_not_admitted (hself : (s.workers.find workerId).map Worker.userId ≠ some userId)
    (h : ¬ s.Admitted userId workerId) : ∃ e, ∀ s', s.AgreesFor s' userId workerId →
      s'.status userId workerId = .error e := by
  have hfirst (s' : PayrollStore) (h' : s.AgreesFor s' userId workerId) :
      s'.firstEntry workerId = s.firstEntry workerId := by
    rw [firstEntry, firstEntry, h'.entries]
  cases hentry : s.firstEntry workerId with
  | none =>
      refine ⟨.forbidden "Not authorized for this worker", fun s' h' => ?_⟩
      rw [status, h'.workers, if_pos hself, hfirst s' h', hentry]
      rfl
  | some entry =>
      cases hrole : s.directory.assertVenueRole userId entry.data.venueId venueReadRoles with
      | error e =>
          refine ⟨e, fun s' h' => ?_⟩
          rw [status, h'.workers, if_pos hself, hfirst s' h', hentry, h'.directory]
          simp only [hrole]
          rfl
      | ok u =>
          have hnone : s.workers.find workerId = none := by
            by_contra hsome
            refine h ⟨Option.isSome_iff_ne_none.mpr hsome, entry, hentry, ?_⟩
            exact s.directory.assertVenueRole_eq_ok.mp hrole
          refine ⟨.notFound s!"Worker {workerId} not found", fun s' h' => ?_⟩
          rw [status, h'.workers, if_pos hself, hfirst s' h', hentry, h'.directory]
          simp only [hrole, statusForWorker, h'.workers, hnone]
          rfl

/-- The answer depends on the records only through those of the worker. -/
theorem status_congr (h : s.AgreesFor s' userId workerId)
    (hrecords : s'.recordsOf workerId = s.recordsOf workerId) :
    s'.status userId workerId = s.status userId workerId := by
  have hshown : s'.shown = s.shown := by
    funext r
    rw [shown, shown, h.directory]
  simp only [status, firstEntry, statusForWorker, h.directory, h.workers, h.entries, hrecords,
    hshown]

/-- Without another organization there are no foreign records. -/
theorem not_foreign (h : s.OnlyTenant userId) {r : PayrollRow} (hr : r ∈ s.payrollRecords.rows) :
    ¬ s.Foreign userId workerId r := by
  intro hforeign
  obtain ⟨v, hv⟩ := Option.isSome_iff_exists.mp (s.venue_of_record r hr)
  exact hforeign.2 ⟨v, hv, h v (Table.mem_of_find hv)⟩

/-- The store with one more record of the worker, at the venue `v`. -/
def withRecord (s : PayrollStore) (row : PayrollRow)
    (hv : (s.directory.venues.find row.venueId).isSome) : PayrollStore :=
  { s with
    payrollRecords := s.payrollRecords.set row
    venue_of_record := by
      intro r hr
      cases (s.payrollRecords.mem_set).mp hr with
      | inl h => rw [h]; exact hv
      | inr h => exact s.venue_of_record r h.1 }

/-- A record of the worker, at the venue `v`. -/
def newRecord (id : PayrollRecordId) (workerId : WorkerId) (v : VenueId) : PayrollRow where
  id := id
  workerId := workerId
  venueId := v
  periodStart := 0
  periodEnd := 0
  reportedTipUsdCents := 0
  federalWithholdingUsdCents := none
  status := .pending
  stateWithholdingUsdCents := none
  socialSecurityUsdCents := none
  medicareUsdCents := none
  providerReference := none
  createdAt := 0

theorem exists_fresh (s : PayrollStore) : ∃ id, s.payrollRecords.find id = none := by
  obtain ⟨id, hid⟩ :=
    Infinite.exists_notMem_finset (s.payrollRecords.rows.map PayrollRow.key).toFinset
  refine ⟨id, s.payrollRecords.find_eq_none_iff.mpr fun r hr hkey => hid ?_⟩
  exact List.mem_toFinset.mpr (hkey ▸ List.mem_map_of_mem hr)

/-- **Tenant isolation**: the answer to somebody else than the worker does not
depend on other organizations' records if and only if the request is refused, or
there is no other organization. -/
theorem payroll_isolated_iff
    (hself : (s.workers.find workerId).map Worker.userId ≠ some userId) :
    (∀ s', s.AgreesFor s' userId workerId →
        s'.status userId workerId = s.status userId workerId) ↔
      (¬ s.Admitted userId workerId ∨ s.OnlyTenant userId) := by
  constructor
  · intro hsame
    by_contra hnot
    obtain ⟨hadmitted, htenant⟩ := not_or.mp hnot
    have hadmitted := not_not.mp hadmitted
    simp only [OnlyTenant, not_forall] at htenant
    obtain ⟨v, hv, hmember⟩ := htenant
    have hfind : s.directory.venues.find v.id = some v := Table.find_key hv
    obtain ⟨id, hid⟩ := s.exists_fresh
    have hsome : (s.directory.venues.find (newRecord id workerId v.id).venueId).isSome :=
      Option.isSome_iff_exists.mpr ⟨v, hfind⟩
    have hforeign : s.Foreign userId workerId (newRecord id workerId v.id) := by
      refine ⟨rfl, fun hbelongs => hmember ?_⟩
      obtain ⟨v', hv', hmember'⟩ := hbelongs
      cases hfind.symm.trans hv'
      exact hmember'
    have hrows := s.payrollRecords.rows_set_of_not_mem (r := newRecord id workerId v.id) hid
    have hagrees :
        s.AgreesFor (s.withRecord (newRecord id workerId v.id) hsome) userId workerId := by
      refine ⟨rfl, rfl, rfl, ?_⟩
      rw [withRecord, hrows, List.filter_append]
      simp [hforeign]
    have hadmitted' : (s.withRecord (newRecord id workerId v.id) hsome).Admitted userId workerId :=
      hadmitted
    have hrecords : (s.withRecord (newRecord id workerId v.id) hsome).recordsOf workerId =
        s.recordsOf workerId ++ [newRecord id workerId v.id] := by
      rw [recordsOf, withRecord, hrows, List.filter_append, recordsOf]
      simp [newRecord]
    -- one record more is shown
    have hlength := congrArg (fun r => r.toOption.map List.length) (hsame _ hagrees)
    rw [status_of_admitted hadmitted', status_of_admitted hadmitted, hrecords] at hlength
    simp [Except.toOption] at hlength
  · intro h s' hs'
    cases h with
    | inl hrefused =>
        obtain ⟨e, he⟩ := status_of_not_admitted hself hrefused
        rw [he s' hs', he s (.refl s userId workerId)]
    | inr htenant =>
        have htenant' : s'.OnlyTenant userId := by rw [OnlyTenant, hs'.directory]; exact htenant
        refine status_congr hs' ?_
        have hrows := hs'.records
        rw [List.filter_eq_self.mpr, List.filter_eq_self.mpr] at hrows
        · rw [recordsOf, recordsOf, hrows]
        · intro r hr
          rw [Bool.not_eq_true', decide_eq_false_iff_not]
          exact not_foreign htenant hr
        · intro r hr
          rw [Bool.not_eq_true', decide_eq_false_iff_not]
          have hforeign : ¬ s'.Foreign userId workerId r := not_foreign htenant' hr
          rwa [Foreign, hs'.directory] at hforeign

end PayrollStore

open PayrollStore

section Concrete

/-- Two organizations with a venue each; the worker has income at the first, and
is paid by the second.  The manager belongs to the first. -/
def Scenario.twoTenants (reportedTipUsdCents : Int) : PayrollStore where
  directory :=
    { venues := ⟨[⟨"bar", "first", "Bar"⟩, ⟨"cafe", "second", "Cafe"⟩], by decide⟩
      members := ⟨[⟨"first", "manager", .manager⟩], by decide⟩ }
  workers := ⟨[⟨"worker", "worker-user", "Worker", none⟩], by decide⟩
  entries := ⟨[IncomeEntry.base ⟨"worker", "bar", none, none, 0, 0, 0, 0, .unknown, none, .e⟩ 1],
    by decide⟩
  payrollRecords := (∅ : Table PayrollRow.key).set
    { newRecord 1 "worker" "cafe" with reportedTipUsdCents := reportedTipUsdCents }
  venue_of_record := by
    intro r hr
    cases List.mem_singleton.mp hr
    rfl

open Scenario

/-- The answer to the manager of the bar shows what the cafe has reported. -/
theorem payroll_of_another_organization :
    (twoTenants 0).AgreesFor (twoTenants 500) "manager" "worker" ∧
      ((twoTenants 0).workers.find "worker").map Worker.userId ≠ some "manager" ∧
      (twoTenants 500).status "manager" "worker" ≠ (twoTenants 0).status "manager" "worker" := by
  refine ⟨⟨rfl, rfl, rfl, by decide +kernel⟩, by decide +kernel, ?_⟩
  intro h
  have hshown := congrArg (fun r => r.toOption.map (List.map fun x : PayrollStatus =>
    x.record.reportedTipUsdCents)) h
  revert hshown
  decide +kernel

theorem payroll_isolated_iff_of_stranger :
    (∀ s', (twoTenants 0).AgreesFor s' "stranger" "worker" →
        s'.status "stranger" "worker" = (twoTenants 0).status "stranger" "worker") ↔
      (¬ (twoTenants 0).Admitted "stranger" "worker" ∨ (twoTenants 0).OnlyTenant "stranger") :=
  payroll_isolated_iff (by decide +kernel)

end Concrete

end ServeProof
