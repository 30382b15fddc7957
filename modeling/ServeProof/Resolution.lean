import ServeProof.Imports
import ServeProof.Scenario

/-!
# ServeProof.Resolution

The worker an import maps a shift to, against the worker a mapping names.

A mapping that is verified looks for the shifts with its provider and its external
id.  An import looks for a shift's mapping by one text, the provider and the external
id joined by a colon, and two mappings can have the same text.  A provider without a
colon leaves no room for that.
-/

namespace ServeProof

/-! ## Joined texts -/

/-- The text an account is found by. -/
def externalKey (provider externalWorkerId : String) : String :=
  provider ++ ":" ++ externalWorkerId

def ExternalWorkerAccount.externalKey (account : ExternalWorkerAccount) : String :=
  ServeProof.externalKey account.id.provider account.id.externalWorkerId

/-- Before a first colon there is one text. -/
theorem append_colon_inj {p p' e e' : List Char} (hp : ':' ∉ p) (hp' : ':' ∉ p')
    (h : p ++ ':' :: e = p' ++ ':' :: e') : p = p' ∧ e = e' := by
  obtain ⟨c, rfl, hc⟩ | ⟨c, rfl, hc⟩ := List.append_eq_append_iff.mp h
  · cases c with
    | nil => exact ⟨(List.append_nil p).symm, (List.cons.inj hc).2⟩
    | cons x c =>
        obtain ⟨rfl, -⟩ := List.cons.inj hc
        exact absurd (List.mem_append_right p List.mem_cons_self) hp'
  · cases c with
    | nil => exact ⟨List.append_nil p', (List.cons.inj hc).2.symm⟩
    | cons x c =>
        obtain ⟨rfl, -⟩ := List.cons.inj hc
        exact absurd (List.mem_append_right p' List.mem_cons_self) hp

theorem externalKey_inj {provider provider' externalWorkerId externalWorkerId' : String}
    (hp : ':' ∉ provider.toList) (hp' : ':' ∉ provider'.toList)
    (h : externalKey provider externalWorkerId = externalKey provider' externalWorkerId') :
    provider = provider' ∧ externalWorkerId = externalWorkerId' := by
  have hchars := congrArg String.toList h
  simp only [externalKey, String.toList_append, List.append_assoc] at hchars
  obtain ⟨hprovider, hid⟩ := append_colon_inj hp hp' hchars
  exact ⟨String.toList_inj.mp hprovider, String.toList_inj.mp hid⟩

/-! ## Mappings -/

/-- A confirmed mapping with this provider and this external id names the worker. -/
def World.Names (w : World) (venueId : VenueId) (provider externalWorkerId : String)
    (workerId : WorkerId) : Prop :=
  ∃ account ∈ w.db.accounts.rows, account.id = ⟨venueId, provider, externalWorkerId⟩ ∧
    account.mappingStatus = .confirmed ∧ account.workerId = workerId

/-- The last of the accounts with a text. -/
def LastUnder (accounts : List ExternalWorkerAccount) (key : String)
    (account : ExternalWorkerAccount) : Prop :=
  account.externalKey = key ∧
    ∃ before after, accounts = before ++ account :: after ∧ ∀ b ∈ after, b.externalKey ≠ key

/-- If accounts have the joined text, the last of them names the worker that an account
with the provider and the external id names. -/
def NotShadowed (accounts : List ExternalWorkerAccount) (provider externalWorkerId : String) :
    Prop :=
  ∀ account, LastUnder accounts (externalKey provider externalWorkerId) account →
    ∃ named ∈ accounts, named.id.provider = provider ∧
      named.id.externalWorkerId = externalWorkerId ∧ named.workerId = account.workerId

section Lookup

variable {accounts : List ExternalWorkerAccount} {provider externalWorkerId : String}
  {w : World} {venueId : VenueId}

theorem lastUnder_iff {key : String} {account : ExternalWorkerAccount} :
    LastUnder accounts key account ↔
      accounts.reverse.find? (fun a => decide (a.externalKey = key)) = some account := by
  rw [List.find?_eq_some_iff_append, LastUnder, decide_eq_true_iff]
  refine and_congr_right fun _ => ⟨?_, ?_⟩
  · rintro ⟨before, after, rfl, hafter⟩
    refine ⟨after.reverse, before.reverse, by simp, fun b hb => ?_⟩
    simpa using hafter b (List.mem_reverse.mp hb)
  · rintro ⟨after, before, hsplit, hafter⟩
    refine ⟨before.reverse, after.reverse, ?_, fun b hb => ?_⟩
    · rw [← List.reverse_reverse accounts, hsplit]
      simp
    · simpa using hafter b (List.mem_reverse.mp hb)

theorem workerByExternalId_eq_some {workerId : WorkerId} :
    workerByExternalId accounts provider externalWorkerId = some workerId ↔
      ∃ account, LastUnder accounts (externalKey provider externalWorkerId) account ∧
        account.workerId = workerId := by
  simp only [lastUnder_iff]
  exact Option.map_eq_some_iff

/-- Among accounts with a text there is a last one. -/
theorem exists_lastUnder {account : ExternalWorkerAccount} (h : account ∈ accounts) :
    ∃ last, LastUnder accounts account.externalKey last := by
  simp only [lastUnder_iff]
  refine Option.ne_none_iff_exists'.mp fun hnone => ?_
  simpa using List.find?_eq_none.mp hnone account (List.mem_reverse.mpr h)

theorem names_iff {workerId : WorkerId} :
    w.Names venueId provider externalWorkerId workerId ↔
      ∃ account ∈ w.confirmedAccounts venueId, account.id.provider = provider ∧
        account.id.externalWorkerId = externalWorkerId ∧ account.workerId = workerId := by
  simp only [World.Names, World.confirmedAccounts, List.mem_filter, decide_eq_true_iff]
  constructor
  · rintro ⟨account, hmem, hid, hconfirmed, hworker⟩
    exact ⟨account, ⟨hmem, by rw [hid], hconfirmed⟩, by rw [hid], by rw [hid], hworker⟩
  · rintro ⟨account, ⟨hmem, rfl, hconfirmed⟩, rfl, rfl, hworker⟩
    exact ⟨account, hmem, rfl, hconfirmed, hworker⟩

/-- A mapping names one worker. -/
theorem World.Names.unique {workerId workerId' : WorkerId}
    (h : w.Names venueId provider externalWorkerId workerId)
    (h' : w.Names venueId provider externalWorkerId workerId') : workerId = workerId' := by
  obtain ⟨account, hmem, hid, -, rfl⟩ := h
  obtain ⟨account', hmem', hid', -, rfl⟩ := h'
  rw [w.db.accounts.eq_of_key_eq hmem hmem' (hid.trans hid'.symm)]

/-- A lookup by the joined text finds the worker that a mapping names exactly where
no other mapping shadows it. -/
theorem resolves_iff :
    (∀ workerId, workerByExternalId (w.confirmedAccounts venueId) provider externalWorkerId =
        some workerId ↔ w.Names venueId provider externalWorkerId workerId) ↔
      NotShadowed (w.confirmedAccounts venueId) provider externalWorkerId := by
  constructor
  · intro h account hlast
    have hfound := workerByExternalId_eq_some.mpr ⟨account, hlast, rfl⟩
    exact names_iff.mp ((h account.workerId).mp hfound)
  · intro h workerId
    constructor
    · intro hfound
      obtain ⟨account, hlast, rfl⟩ := workerByExternalId_eq_some.mp hfound
      exact names_iff.mpr (h account hlast)
    · intro hnames
      obtain ⟨named, hmem, rfl, rfl, -⟩ := names_iff.mp hnames
      obtain ⟨account, hlast⟩ := exists_lastUnder hmem
      have hsame := (names_iff.mpr (h account hlast)).unique hnames
      exact workerByExternalId_eq_some.mpr ⟨account, hlast, hsame⟩

/-- Providers without a colon shadow nothing. -/
theorem notShadowed_of_no_colon (hprovider : ':' ∉ provider.toList)
    (haccounts : ∀ account ∈ accounts, ':' ∉ account.id.provider.toList) :
    NotShadowed accounts provider externalWorkerId := by
  rintro account ⟨hkey, before, after, rfl, -⟩
  have hmem : account ∈ before ++ account :: after :=
    List.mem_append_right before List.mem_cons_self
  obtain ⟨hp, he⟩ := externalKey_inj (haccounts account hmem) hprovider hkey
  exact ⟨account, hmem, hp, he, rfl⟩

/-! ## Backfill -/

/-- What a mapping that is verified does to a shift of its venue without a worker. -/
theorem backfill_mappedWorkerId {account : ExternalWorkerAccount} {s : ShiftEvidence}
    (hvenue : s.id.venueId = account.id.venueId) (hnone : s.mappedWorkerId = none) :
    (RecordWrite.backfill account s).mappedWorkerId = some account.workerId ↔
      account.id.provider = s.id.provider ∧ account.id.externalWorkerId = s.externalWorkerId := by
  unfold RecordWrite.backfill
  split
  case isTrue h => exact ⟨fun _ => ⟨h.2.1.symm, h.2.2.1.symm⟩, fun _ => rfl⟩
  case isFalse h =>
      rw [hnone]
      refine ⟨fun hsome => absurd hsome (Option.some_ne_none _).symm, fun hsame => ?_⟩
      exact absurd ⟨hvenue, hsame.1.symm, hsame.2.symm, hnone⟩ h

end Lookup

/-! ## The import -/

/-- The shift that an import stores has the worker that a mapping names, and none where
no mapping names one, exactly where no other mapping shadows it.  A CSV can say a shift
more than once: what it stores is what the last row about it says. -/
theorem import_resolves_iff [Collation] {w : World} {venueId : VenueId}
    (hvenue : (w.db.venues.find venueId).isSome) {csv : CsvNormalizationResult}
    (actorUserId : Option UserId) (now : Time) {shift : NormalizedShift}
    (hlast : Table.lastOf (NormalizedShift.key venueId) csv.shifts (shift.key venueId) =
      some shift) :
    ∃ row, (w.imported venueId csv actorUserId now).db.shifts.find (shift.key venueId) =
        some row ∧
      ((∀ workerId, row.mappedWorkerId = some workerId ↔
          w.Names venueId shift.provider shift.externalWorkerId workerId) ↔
        NotShadowed (w.confirmedAccounts venueId) shift.provider shift.externalWorkerId) := by
  refine ⟨shift.row venueId (w.confirmedAccounts venueId)
    (w.db.shifts.find (shift.key venueId)), ?_, resolves_iff⟩
  rw [shifts_imported hvenue, Table.find_upsertAll (absorbs_shiftRow venueId _), hlast]

section Concrete

open Scenario

/-- A venue with one confirmed mapping. -/
def Scenario.mapped (provider externalWorkerId : String) : World :=
  ([.saveVenue ⟨venue, "Venue", none⟩,
      .saveWorker ⟨worker, "worker-user", "Worker", none⟩,
      .propose ⟨venue, provider, externalWorkerId⟩ worker,
      .verify ⟨⟨venue, provider, externalWorkerId⟩, worker, .pending, none⟩ owner] :
    List RecordWrite).foldl (fun w c => (Write.record c).apply w) World.empty

/-- One shift of an external worker. -/
def Scenario.shiftsOf (provider externalWorkerId : String) : CsvNormalizationResult where
  tips := []
  shifts := [⟨provider, "T1", externalWorkerId, "SERVER", 0, 3600000, 60, date, 1, none, "PENDING"⟩]

/-- The shift of the worker that a mapping names. -/
theorem import_resolves_named :
    ∃ row, (@World.imported byCodePoint venue (shiftsOf "square" "member") none 0
        (mapped "square" "member")).db.shifts.find ⟨venue, "square", "T1"⟩ = some row ∧
      ((∀ workerId, row.mappedWorkerId = some workerId ↔
          (mapped "square" "member").Names venue "square" "member" workerId) ↔
        NotShadowed ((mapped "square" "member").confirmedAccounts venue) "square" "member") :=
  @import_resolves_iff byCodePoint (mapped "square" "member") venue (by decide)
    (shiftsOf "square" "member") none 0
    ⟨"square", "T1", "member", "SERVER", 0, 3600000, 60, date, 1, none, "PENDING"⟩ (by decide)

/-- The shift of worker `b:c` of provider `a` goes to the worker of the mapping for
worker `c` of provider `a:b`. -/
theorem import_resolves_another_mapping :
    let w := mapped "a:b" "c"
    ∃ row, (@World.imported byCodePoint venue (shiftsOf "a" "b:c") none 0 w).db.shifts.find
        ⟨venue, "a", "T1"⟩ = some row ∧
      row.mappedWorkerId = some worker ∧ ¬ w.Names venue "a" "b:c" worker := by
  refine ⟨_, rfl, by decide +kernel, ?_⟩
  rintro ⟨account, hmem, hid, -⟩
  have hall : ∀ account ∈ (mapped "a:b" "c").db.accounts.rows,
      account.id ≠ ⟨venue, "a", "b:c"⟩ := by decide +kernel
  exact hall account hmem hid

end Concrete

end ServeProof
