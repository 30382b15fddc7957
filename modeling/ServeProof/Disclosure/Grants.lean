import ServeProof.Disclosure.Schema

/-!
# ServeProof.Disclosure.Grants

What is written to the disclosure tables.  An insert that would break a unique
constraint does nothing, as the failed statement does.
-/

namespace ServeProof

namespace Disclosures

def setReportRow (d : Disclosures) (row : VerificationReport)
    (h : row.id < d.nextReportId) : Disclosures :=
  { d with
    reports := d.reports.set row
    freshReport := by
      intro r hr
      cases (d.reports.mem_set).mp hr with
      | inl h' => rw [h']; exact h
      | inr h' => exact d.freshReport r h'.1 }

/-- Change every report; ids stay. -/
def mapReports (d : Disclosures) (f : VerificationReport → VerificationReport)
    (hf : ∀ r, (f r).id = r.id) : Disclosures :=
  { d with
    reports := d.reports.mapRows f hf
    freshReport := by
      intro r hr
      obtain ⟨old, hold, rfl⟩ := List.mem_map.mp hr
      rw [hf]
      exact d.freshReport old hold }

/-- Change a grant; its id and its token stay. -/
def updateGrant (d : Disclosures) (id : GrantId) (f : DisclosureGrant → DisclosureGrant)
    (hf : ∀ g, (f g).id = g.id ∧ (f g).accessTokenHash = g.accessTokenHash) : Disclosures :=
  have hid : ∀ g, (f g).id = g.id := fun g => (hf g).1
  { d with
    grants := d.grants.update id f
    freshGrant := by
      intro g hg
      cases (d.grants.mem_update hid).mp hg with
      | inl h => exact d.freshGrant g h.1
      | inr h =>
          obtain ⟨old, hold, -, rfl⟩ := h
          rw [hid]
          exact d.freshGrant old hold
    oneGrant := by
      -- a row of the new table comes from a row with its token
      have hfrom : ∀ g ∈ (d.grants.update id f).rows, ∃ old ∈ d.grants.rows,
          g.accessTokenHash = old.accessTokenHash ∧ (g = if old.id = id then f old else old) := by
        intro g hg
        cases (d.grants.mem_update hid).mp hg with
        | inl h => exact ⟨g, h.1, rfl, by rw [if_neg h.2]⟩
        | inr h =>
            obtain ⟨old, hold, hk, rfl⟩ := h
            exact ⟨old, hold, (hf old).2, by rw [if_pos hk]⟩
      intro g hg g' hg' htok
      obtain ⟨old, hold, ht, hgeq⟩ := hfrom g hg
      obtain ⟨old', hold', ht', hgeq'⟩ := hfrom g' hg'
      have hsame : old = old' := d.oneGrant old hold old' hold' (by rw [← ht, ← ht', htok])
      rw [hgeq, hgeq', hsame] }

def insertGrant (d : Disclosures) (row : GrantId → DisclosureGrant)
    (hrow : ∀ id, (row id).id = id) : Disclosures :=
  if h : ∀ g ∈ d.grants.rows, g.accessTokenHash ≠ (row d.nextGrantId).accessTokenHash then
    { d with
      grants := d.grants.set (row d.nextGrantId)
      nextGrantId := d.nextGrantId + 1
      freshGrant := by
        intro g hg
        cases (d.grants.mem_set).mp hg with
        | inl h' => rw [h', hrow]; exact Nat.lt_succ_self _
        | inr h' => exact Nat.lt_succ_of_lt (d.freshGrant g h'.1)
      oneGrant := by
        intro g hg g' hg' htok
        cases (d.grants.mem_set).mp hg with
        | inl hnew =>
            cases (d.grants.mem_set).mp hg' with
            | inl hnew' => rw [hnew, hnew']
            | inr hold' => exact absurd (htok.symm.trans (by rw [hnew])) (h g' hold'.1)
        | inr hold =>
            cases (d.grants.mem_set).mp hg' with
            | inl hnew' => exact absurd (htok.trans (by rw [hnew'])) (h g hold.1)
            | inr hold' => exact d.oneGrant g hold.1 g' hold'.1 htok }
  else d

end Disclosures

/-- A new report, before it has an id and a time of creation. -/
structure NewReport where
  workerId : WorkerId
  disclosureGrantId : GrantId
  reportHash : ReportHash
  snapshot : Snapshot
  issuedAt : Date
  expiresAt : Date
  previousReportId : Option ReportId
  basis : List EntryId
  deriving DecidableEq, Repr

def NewReport.row (x : NewReport) (createdAt : Date) (id : ReportId) : VerificationReport where
  id := id
  workerId := x.workerId
  disclosureGrantId := x.disclosureGrantId
  reportHash := x.reportHash
  reportUri := none
  snapshot := x.snapshot
  status := .issued
  issuedAt := x.issuedAt
  expiresAt := x.expiresAt
  revokedAt := none
  previousReportId := x.previousReportId
  createdAt := createdAt
  basis := x.basis

/-- A new grant, before it has an id. -/
structure NewGrant where
  workerId : WorkerId
  purpose : String
  level : DisclosureLevel
  thresholdUsdCents : Option Int
  dateRangeStart : Date
  dateRangeEnd : Date
  expiresAt : Date
  allowDownload : Bool
  recipientEmail : Option String
  accessMode : DisclosureAccessMode
  accessTokenHash : Sha256
  deriving DecidableEq, Repr

def NewGrant.row (x : NewGrant) (id : GrantId) : DisclosureGrant where
  id := id
  workerId := x.workerId
  recipientEmail := x.recipientEmail
  accessMode := x.accessMode
  purpose := x.purpose
  level := x.level
  thresholdUsdCents := x.thresholdUsdCents
  dateRangeStart := x.dateRangeStart
  dateRangeEnd := x.dateRangeEnd
  expiresAt := x.expiresAt
  allowDownload := x.allowDownload
  revokedAt := none
  accessTokenHash := x.accessTokenHash

namespace VerificationReport

/-- The reports of a grant that are issued or corrected go REVOKED. -/
def revokeUnder (grantId : GrantId) (now : Date) (r : VerificationReport) : VerificationReport :=
  if r.disclosureGrantId = grantId ∧ r.status ∈ [.issued, .corrected] then
    { r with status := .revoked, revokedAt := some now }
  else r

/-- The issued reports of a worker go CORRECTED. -/
def flip (workerId : WorkerId) (r : VerificationReport) : VerificationReport :=
  if r.workerId = workerId ∧ r.status = .issued then { r with status := .corrected } else r

/-- The issued reports whose time is over go EXPIRED. -/
def expireAt (now : Date) (r : VerificationReport) : VerificationReport :=
  if r.status = .issued ∧ r.expiresAt < now then { r with status := .expired } else r

def withUri (id : ReportId) (r : VerificationReport) : VerificationReport :=
  if r.id = id then { r with reportUri := some ⟨id⟩ } else r

/-! ### The states of a report -/

/-- How a report changes: an issued report expires, is corrected or revoked, a
corrected one is revoked; a path is added. -/
structure Became (r r' : VerificationReport) : Prop where
  id : r'.id = r.id
  workerId : r'.workerId = r.workerId
  disclosureGrantId : r'.disclosureGrantId = r.disclosureGrantId
  snapshot : r'.snapshot = r.snapshot
  basis : r'.basis = r.basis
  createdAt : r'.createdAt = r.createdAt
  status : r'.status = r.status ∨
    r.status = .issued ∧ r'.status ∈ [.expired, .corrected, .revoked] ∨
    r.status = .corrected ∧ r'.status = .revoked

theorem Became.refl (r : VerificationReport) : r.Became r :=
  ⟨rfl, rfl, rfl, rfl, rfl, rfl, .inl rfl⟩

theorem Became.issued {r r' : VerificationReport} (h : r.Became r') (hr : r'.status = .issued) :
    r.status = .issued := by
  have hstatus := h.status
  simp_all

theorem Became.not_draft {r r' : VerificationReport} (h : r.Became r') (hr : r.status ≠ .draft) :
    r'.status ≠ .draft := by
  have hstatus := h.status
  intro hdraft
  simp_all

theorem Became.trans {r r' r'' : VerificationReport} (h : r.Became r') (h' : r'.Became r'') :
    r.Became r'' where
  id := h'.id.trans h.id
  workerId := h'.workerId.trans h.workerId
  disclosureGrantId := h'.disclosureGrantId.trans h.disclosureGrantId
  snapshot := h'.snapshot.trans h.snapshot
  basis := h'.basis.trans h.basis
  createdAt := h'.createdAt.trans h.createdAt
  status := by
    obtain hsame' | ⟨hissued', hto'⟩ | ⟨hcorrected', hto'⟩ := h'.status
    · rw [hsame']
      exact h.status
    · exact .inr (.inl ⟨h.issued hissued', hto'⟩)
    · obtain hsame | ⟨hissued, -⟩ | ⟨-, hto⟩ := h.status
      · exact .inr (.inr ⟨hsame ▸ hcorrected', hto'⟩)
      · exact .inr (.inl ⟨hissued, by simp [hto']⟩)
      · cases hto.symm.trans hcorrected'

theorem became_revokeUnder (grantId : GrantId) (now : Date) (r : VerificationReport) :
    r.Became (r.revokeUnder grantId now) := by
  unfold revokeUnder
  split
  · next h =>
    refine ⟨rfl, rfl, rfl, rfl, rfl, rfl, ?_⟩
    cases List.mem_pair.mp h.2 with
    | inl h => exact .inr (.inl ⟨h, by simp⟩)
    | inr h => exact .inr (.inr ⟨h, rfl⟩)
  · exact .refl r

theorem became_flip (workerId : WorkerId) (r : VerificationReport) :
    r.Became (r.flip workerId) := by
  unfold flip
  split
  · next h => exact ⟨rfl, rfl, rfl, rfl, rfl, rfl, .inr (.inl ⟨h.2, by simp⟩)⟩
  · exact .refl r

theorem became_expireAt (now : Date) (r : VerificationReport) : r.Became (r.expireAt now) := by
  unfold expireAt
  split
  · next h => exact ⟨rfl, rfl, rfl, rfl, rfl, rfl, .inr (.inl ⟨h.1, by simp⟩)⟩
  · exact .refl r

theorem became_withUri (id : ReportId) (r : VerificationReport) : r.Became (r.withUri id) := by
  unfold withUri
  split
  · exact ⟨rfl, rfl, rfl, rfl, rfl, rfl, .inl rfl⟩
  · exact .refl r

end VerificationReport

/-- A grant changes only by being revoked. -/
def DisclosureGrant.Became (g g' : DisclosureGrant) : Prop :=
  ∃ revokedAt, g' = { g with revokedAt := revokedAt } ∧ (g.revokedAt ≠ none → revokedAt ≠ none)

theorem DisclosureGrant.Became.refl (g : DisclosureGrant) : g.Became g :=
  ⟨g.revokedAt, rfl, fun h => h⟩

inductive DisclosureWrite where
  | createGrant (row : NewGrant)
  /-- Revoke a grant and its reports. -/
  | revoke (grantId : GrantId) (now : Date)
  | createReport (row : NewReport)
  | setReportUri (id : ReportId)
  | flipReports (workerId : WorkerId)
  | expireOverdue (now : Date)
  | logAccess (row : DisclosureAccessLog)

namespace DisclosureWrite

/-- An insert violates no unique constraint. -/
def Applies : DisclosureWrite → Disclosures → Prop
  | createGrant row, d => ∀ g ∈ d.grants.rows, g.accessTokenHash ≠ row.accessTokenHash
  | createReport row, d => row.previousReportId = none ∨
      ∀ r ∈ d.reports.rows, r.previousReportId ≠ row.previousReportId
  | _, _ => True

instance decidableApplies (c : DisclosureWrite) (d : Disclosures) : Decidable (c.Applies d) :=
  match c with
  | createGrant _ => inferInstanceAs (Decidable (∀ g ∈ _, _))
  | createReport _ => inferInstanceAs (Decidable (_ ∨ ∀ r ∈ _, _))
  | revoke .. | setReportUri _ | flipReports _ | expireOverdue _ | logAccess _ => isTrue trivial

/-- What a command does at the time `clock`. -/
def apply (clock : Date) : DisclosureWrite → Disclosures → Disclosures
  | createGrant row, d => d.insertGrant row.row fun _ => rfl
  | revoke grantId now, d =>
      (d.updateGrant grantId (fun g => { g with revokedAt := some now })
        fun _ => ⟨rfl, rfl⟩).mapReports (VerificationReport.revokeUnder grantId now) fun r => by
          unfold VerificationReport.revokeUnder; split <;> rfl
  | createReport row, d =>
      if (createReport row).Applies d then
        Disclosures.setReportRow { d with
          nextReportId := d.nextReportId + 1
          freshReport := fun r hr => Nat.lt_succ_of_lt (d.freshReport r hr) }
          (row.row clock d.nextReportId) (Nat.lt_succ_self _)
      else d
  | setReportUri id, d => d.mapReports (VerificationReport.withUri id) fun r => by
      unfold VerificationReport.withUri; split <;> rfl
  | flipReports workerId, d => d.mapReports (VerificationReport.flip workerId) fun r => by
      unfold VerificationReport.flip; split <;> rfl
  | expireOverdue now, d => d.mapReports (VerificationReport.expireAt now) fun r => by
      unfold VerificationReport.expireAt; split <;> rfl
  | logAccess row, d => { d with accesses := d.accesses ++ [row] }

/-! ## What a write does -/

section Effects

variable {clock : Date} {d : Disclosures} {row : NewReport}

theorem createReport_of_not_applies (h : ¬ (createReport row).Applies d) :
    (createReport row).apply clock d = d := if_neg h

theorem grants_createReport : ((createReport row).apply clock d).grants = d.grants := by
  simp only [apply]
  split <;> rfl

theorem rows_createReport (h : (createReport row).Applies d) :
    ((createReport row).apply clock d).reports.rows =
      d.reports.rows ++ [row.row clock d.nextReportId] := by
  simp only [apply, if_pos h]
  exact d.reports.rows_set_of_not_mem (d.reports.find_eq_none_iff.mpr fun r hr =>
    Nat.ne_of_lt (d.freshReport r hr))

theorem nextReportId_createReport (h : (createReport row).Applies d) :
    ((createReport row).apply clock d).nextReportId = d.nextReportId + 1 := by
  simp only [apply, if_pos h]
  rfl

/-- A report of the next state is a report of this one, which became it, or
the one report that has been created. -/
theorem report_of_apply {c : DisclosureWrite} {r' : VerificationReport}
    (h : r' ∈ (c.apply clock d).reports.rows) :
    (∃ r ∈ d.reports.rows, r.Became r' ∧
        (r'.reportUri = r.reportUri ∨ c = .setReportUri r.id)) ∨
      ∃ row, c = .createReport row ∧ c.Applies d ∧ r' = row.row clock d.nextReportId := by
  have hmap {f : VerificationReport → VerificationReport}
      (hf : ∀ r : VerificationReport, r.Became (f r))
      (hmem : r' ∈ d.reports.rows.map f) : ∃ r ∈ d.reports.rows, r.Became r' ∧ r' = f r := by
    obtain ⟨r, hr, rfl⟩ := List.mem_map.mp hmem
    exact ⟨r, hr, hf r, rfl⟩
  cases c with
  | createGrant row =>
      refine .inl ⟨r', ?_, .refl r', .inl rfl⟩
      simp only [apply, Disclosures.insertGrant] at h
      split at h <;> exact h
  | logAccess row => exact .inl ⟨r', h, .refl r', .inl rfl⟩
  | revoke grantId now =>
      obtain ⟨r, hr, hb, heq⟩ := hmap (VerificationReport.became_revokeUnder grantId now) h
      refine .inl ⟨r, hr, hb, .inl ?_⟩
      rw [heq, VerificationReport.revokeUnder]
      split <;> rfl
  | flipReports workerId =>
      obtain ⟨r, hr, hb, heq⟩ := hmap (VerificationReport.became_flip workerId) h
      refine .inl ⟨r, hr, hb, .inl ?_⟩
      rw [heq, VerificationReport.flip]
      split <;> rfl
  | expireOverdue now =>
      obtain ⟨r, hr, hb, heq⟩ := hmap (VerificationReport.became_expireAt now) h
      refine .inl ⟨r, hr, hb, .inl ?_⟩
      rw [heq, VerificationReport.expireAt]
      split <;> rfl
  | setReportUri id =>
      obtain ⟨r, hr, hb, heq⟩ := hmap (VerificationReport.became_withUri id) h
      refine .inl ⟨r, hr, hb, ?_⟩
      rw [heq, VerificationReport.withUri]
      by_cases hid : r.id = id
      · exact .inr (by rw [hid])
      · exact .inl (by rw [if_neg hid])
  | createReport row =>
      by_cases hc : (createReport row).Applies d
      · rw [rows_createReport hc] at h
        cases List.mem_append.mp h with
        | inl h => exact .inl ⟨r', h, .refl r', .inl rfl⟩
        | inr h => exact .inr ⟨row, rfl, hc, List.mem_singleton.mp h⟩
      · rw [createReport_of_not_applies hc] at h
        exact .inl ⟨r', h, .refl r', .inl rfl⟩

/-- No report is a draft, if none was. -/
theorem not_draft_apply {c : DisclosureWrite} (h : ∀ r ∈ d.reports.rows, r.status ≠ .draft) :
    ∀ r ∈ (c.apply clock d).reports.rows, r.status ≠ .draft := by
  intro r' hr'
  cases report_of_apply hr' with
  | inl hold =>
      obtain ⟨r, hr, hb, -⟩ := hold
      exact hb.not_draft (h r hr)
  | inr hnew =>
      obtain ⟨row, -, -, rfl⟩ := hnew
      nofun

/-- A grant stays what it is, but for its revocation, which stays. -/
theorem grant_apply (c : DisclosureWrite) (clock : Date) {g : DisclosureGrant} {id : GrantId}
    (h : d.grants.find id = some g) : ∃ g', (c.apply clock d).grants.find id = some g' ∧
      g.Became g' := by
  cases c with
  | createGrant row =>
      simp only [apply, Disclosures.insertGrant]
      split
      · refine ⟨g, ?_, .refl g⟩
        have hne : (row.row d.nextGrantId).id ≠ id := by
          have hlt := d.freshGrant g (Table.mem_of_find h)
          rw [Table.key_of_find h] at hlt
          exact Nat.ne_of_gt hlt
        simp only [Table.find_set, if_neg hne, h]
      · exact ⟨g, h, .refl g⟩
  | revoke grantId now =>
      have hfind := d.grants.find_update (k := grantId)
        (f := fun g => { g with revokedAt := some now }) (fun _ => rfl) id
      by_cases hid : grantId = id
      · subst hid
        rw [if_pos rfl, h] at hfind
        exact ⟨_, hfind, ⟨some now, rfl, fun _ => nofun⟩⟩
      · rw [if_neg hid] at hfind
        exact ⟨g, hfind.trans h, .refl g⟩
  | createReport row => exact ⟨g, by rw [grants_createReport]; exact h, .refl g⟩
  | logAccess row => exact ⟨g, h, .refl g⟩
  | flipReports workerId => exact ⟨g, h, .refl g⟩
  | expireOverdue now => exact ⟨g, h, .refl g⟩
  | setReportUri id' => exact ⟨g, h, .refl g⟩

end Effects

end DisclosureWrite

end ServeProof
