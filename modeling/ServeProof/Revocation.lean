import ServeProof.Knowledge.Reports
import ServeProof.Scenario.Disclosed

/-!
# ServeProof.Revocation

What a revoked grant still shows, when calls come one after another.

The link of the grant shows nothing any more.  The PDF of a report is blocked by
the status of the report, and the revocation leaves a report that has expired as
it is: its PDF stays open to its worker.
-/

namespace ServeProof

open Interleave
open Prog (eval_get_bind eval_put_bind eval_require_bind eval_orThrow_bind)

/-- A call that runs alone. -/
abbrev solo (inv : Platform → Prop) : Discipline Platform Command :=
  .alone Command.apply inv fun _ _ => True

theorem solo_lawful (inv : Platform → Prop) : (solo inv).Lawful :=
  Discipline.alone_lawful Command.apply inv fun _ _ => True

theorem PlatformMove.disclosures_apply (e : PlatformMove) (s : Platform) :
    (e.apply s).disclosures = s.disclosures := by
  cases e <;> rfl

/-! ## What is filed -/

namespace Disclosures

/-- Reports are filed under a grant of their worker, and are no drafts. -/
structure Filed (d : Disclosures) : Prop where
  owner : ∀ r ∈ d.reports.rows,
    ∃ g, d.grants.find r.disclosureGrantId = some g ∧ g.workerId = r.workerId
  notDraft : ∀ r ∈ d.reports.rows, r.status ≠ .draft

theorem filed_empty : Disclosures.empty.Filed :=
  ⟨fun _ h => absurd h List.not_mem_nil, fun _ h => absurd h List.not_mem_nil⟩

/-- The report that is created is one of a grant of its worker. -/
def Owned (d : Disclosures) : DisclosureWrite → Prop
  | .createReport row =>
      ∃ g, d.grants.find row.disclosureGrantId = some g ∧ g.workerId = row.workerId
  | _ => True

theorem Filed.apply {d : Disclosures} (h : d.Filed) {c : DisclosureWrite} (hc : d.Owned c)
    (clock : Date) : (c.apply clock d).Filed := by
  constructor
  · intro r' hr'
    cases DisclosureWrite.report_of_apply hr' with
    | inl hold =>
        obtain ⟨r, hr, hb, -⟩ := hold
        obtain ⟨g, hg, hw⟩ := h.owner r hr
        obtain ⟨g', hg', revokedAt, rfl, -⟩ := c.grant_apply clock hg
        exact ⟨_, by rw [hb.disclosureGrantId]; exact hg', by rw [hb.workerId]; exact hw⟩
    | inr hnew =>
        obtain ⟨row, rfl, -, rfl⟩ := hnew
        obtain ⟨g, hg, hw⟩ := hc
        exact ⟨g, by rw [DisclosureWrite.grants_createReport]; exact hg, hw⟩
  · exact DisclosureWrite.not_draft_apply h.notDraft

/-! ## What is closed -/

/-- The grant `id`, with this token, is revoked, and none of its reports can be
read any more. -/
structure Closed (id : GrantId) (accessTokenHash : Sha256) (d : Disclosures) : Prop where
  revoked : ∃ g, d.grants.find id = some g ∧ g.accessTokenHash = accessTokenHash ∧
    g.revokedAt ≠ none
  blocked : ∀ r ∈ d.reports.rows, r.disclosureGrantId = id →
    r.status = .revoked ∨ r.status = .expired ∧ r.reportUri = none

/-- The write is about a report of a grant that is open. -/
def Open (d : Disclosures) : DisclosureWrite → Prop
  | .createReport row => ∃ g, d.grants.find row.disclosureGrantId = some g ∧ g.revokedAt = none
  | .setReportUri id => ∃ r ∈ d.reports.rows, r.id = id ∧
      ∃ g, d.grants.find r.disclosureGrantId = some g ∧ g.revokedAt = none
  | _ => True

theorem Closed.apply {d : Disclosures} {id : GrantId} {token : Sha256} (h : d.Closed id token)
    {c : DisclosureWrite} (hc : d.Open c) (clock : Date) : (c.apply clock d).Closed id token := by
  obtain ⟨g, hg, htoken, hrevoked⟩ := h.revoked
  have hopen {id' : GrantId} (hid : ∃ g, d.grants.find id' = some g ∧ g.revokedAt = none) :
      id' ≠ id := by
    rintro rfl
    obtain ⟨g', hg', hopen⟩ := hid
    rw [hg, Option.some.injEq] at hg'
    exact hrevoked (hg' ▸ hopen)
  constructor
  · obtain ⟨g', hg', revokedAt, rfl, hstays⟩ := c.grant_apply clock hg
    exact ⟨_, hg', htoken, hstays hrevoked⟩
  · intro r' hr' hid
    cases DisclosureWrite.report_of_apply hr' with
    | inl hold =>
        obtain ⟨r, hr, hb, huri⟩ := hold
        have hgrant : r.disclosureGrantId = id := hb.disclosureGrantId.symm.trans hid
        have hkept : r'.reportUri = r.reportUri := by
          cases huri with
          | inl huri => exact huri
          | inr huri =>
              subst huri
              obtain ⟨r₂, hr₂, hsame, hg₂⟩ := hc
              have heq := d.reports.eq_of_key_eq hr₂ hr hsame
              exact absurd hgrant (heq ▸ hopen hg₂)
        have hstatus := hb.status
        have hblocked := h.blocked r hr hgrant
        rw [hkept]
        cases hblocked with
        | inl hr => simp_all
        | inr hr => simp_all
    | inr hnew =>
        obtain ⟨row, rfl, -, rfl⟩ := hnew
        exact absurd hid (hopen hc)

end Disclosures

/-! ## One call after another -/

section Runs

variable {inv : Platform → Prop} {s : Platform}

theorem Issuing.owned {k : DisclosureWrite} (h : Issuing (solo inv) (.disclose k) s) :
    s.disclosures.Owned k := by
  unfold Disclosures.Owned
  split
  · next row =>
    obtain ⟨grant, u, hread⟩ := h
    obtain ⟨t, rfl, hfound⟩ := hread.found
    obtain ⟨key, now, previous, rfl⟩ := hread.row
    exact ⟨grant, hfound, rfl⟩
  · trivial

theorem ReportKnown.open {row : NewReport} (h : ReportKnown (solo inv) row s) :
    ∃ g, s.disclosures.grants.find row.disclosureGrantId = some g ∧ g.revokedAt = none := by
  obtain ⟨grant, u, hread⟩ := h
  obtain ⟨t, rfl, hfound⟩ := hread.found
  obtain ⟨key, now, previous, rfl⟩ := hread.row
  exact ⟨grant, hfound, hread.notRevoked⟩

theorem Issuing.open {k : DisclosureWrite} (h : Issuing (solo inv) (.disclose k) s) :
    s.disclosures.Open k := by
  unfold Disclosures.Open
  split
  · exact ReportKnown.open h
  · next id =>
    obtain ⟨row, t, hrow, happlies, rfl, rfl⟩ := h
    obtain ⟨g, hg, hopen⟩ := hrow.open
    refine ⟨row.row t.clock t.disclosures.nextReportId, ?_, rfl, g, ?_, hopen⟩
    · rw [show ((solo inv).apply (.disclose (.createReport row)) t).disclosures.reports.rows = _
        from DisclosureWrite.rows_createReport happlies]
      exact List.mem_append_right _ List.mem_cons_self
    · rw [show ((solo inv).apply (.disclose (.createReport row)) t).disclosures.grants = _
        from DisclosureWrite.grants_createReport]
      exact hg
  · trivial

/-- What every write of an issuer keeps of the disclosures, every sequence of
calls keeps. -/
theorem evalAll_keeps [Collation] {P : Disclosures → Prop}
    (happly : ∀ d c clock, P d → d.Owned c → d.Open c → P (c.apply clock d))
    (ops : List (Op (Nat × Request) PlatformMove)) (hs : P s.disclosures) :
    P (platform.evalAll ops s).disclosures := by
  have hcommit : ∀ c s, P s.disclosures → True →
      Issuing (solo fun s => P s.disclosures) c s → P (c.apply s).disclosures := by
    intro c s hs _ hknown
    cases c.disclosures_apply s with
    | inl h => rw [h]; exact hs
    | inr h =>
        obtain ⟨k, hk, hc⟩ := h
        rw [hk]
        cases hc with
        | inl hc =>
            subst hc
            exact happly _ k _ hs hknown.owned hknown.open
        | inr hc =>
            obtain ⟨workerId, rfl⟩ := hc
            exact happly _ _ _ hs trivial trivial
  have henv : ∀ e s, P s.disclosures → True → P (platform.env e s).disclosures := by
    intro e s hs _
    rw [show platform.env e s = e.apply s from rfl, e.disclosures_apply]
    exact hs
  exact @System.evalAll_inv Platform Command ApiError _ _ platform (fun _ _ => True)
    (fun _ _ => True) (fun s => P s.disclosures) (Issuing (solo fun s => P s.disclosures))
    (fun _ => True) hcommit henv (fun i _ s _ => sat_issuing (solo_lawful _) i.1 i.2) ops
    (fun _ _ => trivial) s hs (platform.admittedAll_true ops s)

end Runs

/-! ## The two read paths -/

theorem eval_workerOf (userId : UserId) (s : Platform) :
    (workerOf userId).eval Command.apply s =
      match s.workerOfUser userId with
      | some worker => (.ok worker, s)
      | none => (.error (.notFound "No worker profile for this user"), s) := by
  unfold workerOf
  rw [eval_get_bind]
  cases s.workerOfUser userId <;> rfl

/-- The link of a revoked grant answers REVOKED, without a snapshot. -/
theorem eval_verifyByToken_of_revoked {s : Platform} {g : DisclosureGrant}
    (hg : s.disclosures.grants.find g.id = some g) (hrevoked : g.revokedAt ≠ none)
    {rawToken : String} (htoken : g.accessTokenHash = ⟨rawToken⟩)
    (ip userAgent accessSession : Option String) :
    ∃ base, ((verifyByToken rawToken ip userAgent accessSession).eval Command.apply s).1 =
      .ok (.metadata base) ∧ base.status = .revoked := by
  have hfind : s.disclosures.grants.rows.find?
      (fun g => decide (g.accessTokenHash = ⟨rawToken⟩)) = some g := by
    cases hf : s.disclosures.grants.rows.find? fun g => decide (g.accessTokenHash = ⟨rawToken⟩) with
    | none =>
        have hnot := List.find?_eq_none.mp hf g (Table.mem_of_find hg)
        exact absurd (decide_eq_true htoken) hnot
    | some g' =>
        have htoken' : g'.accessTokenHash = ⟨rawToken⟩ := by simpa using List.find?_some hf
        exact congrArg some (s.disclosures.oneGrant g' (List.mem_of_find?_eq_some hf) g
          (Table.mem_of_find hg) (htoken'.trans htoken.symm))
  obtain ⟨v, hv, hvg⟩ : ∃ v, s.findGrant rawToken = some v ∧ v.grant = g :=
    ⟨_, by rw [Platform.findGrant, hfind, Option.map_some], rfl⟩
  have hstatus (now : Date) : reportStatus v now = .revoked := by
    rw [reportStatus, hvg, if_pos (.inl hrevoked)]
  refine ⟨verificationBase v .revoked, ?_, rfl⟩
  unfold verifyByToken grantByToken
  rw [Prog.eval_bind, eval_get_bind, hv]
  simp only [Prog.orThrow, Prog.eval, eval_get_bind, hstatus]
  rfl

/-- The PDF of a report opens for its worker, unless the report is revoked. -/
theorem eval_getPdfPath_iff {s : Platform} {userId : UserId} {r : VerificationReport}
    (hr : r ∈ s.disclosures.reports.rows) {path : PdfPath} :
    ((getPdfPath userId r.id).eval Command.apply s).1 = .ok path ↔
      (∃ worker, s.workerOfUser userId = some worker ∧ r.workerId = worker.id) ∧
        r.status ≠ .revoked ∧ r.reportUri = some path := by
  unfold getPdfPath
  rw [Prog.eval_bind, eval_workerOf]
  cases hw : s.workerOfUser userId with
  | none => simp
  | some worker =>
      simp only [eval_get_bind, Table.find_key hr, Option.some.injEq, exists_eq_left']
      by_cases hid : r.workerId = worker.id
      · rw [Option.filter_some_pos (by simp [hid])]
        simp only [eval_orThrow_bind, eval_require_bind, hid, true_and]
        by_cases hstatus : r.status = .revoked
        · simp [hstatus]
        · simp only [ne_eq, hstatus, not_false_eq_true, true_and]
          cases r.reportUri with
          | none => simp [Prog.orThrow, Prog.eval]
          | some p => simp [Prog.orThrow, Prog.eval]
      · rw [Option.filter_some_neg (by simp [hid])]
        simp [eval_orThrow_bind, hid]

/-! ## Revocation -/

/-- Both read paths are closed for the grant: its link answers REVOKED, and no
PDF of a report under it opens. -/
structure Platform.Sealed (s : Platform) (g : DisclosureGrant) : Prop where
  link : ∀ rawToken ip userAgent accessSession, g.accessTokenHash = ⟨rawToken⟩ →
    ∃ base, ((verifyByToken rawToken ip userAgent accessSession).eval Command.apply s).1 =
      .ok (.metadata base) ∧ base.status = .revoked
  pdf : ∀ r ∈ s.disclosures.reports.rows, r.disclosureGrantId = g.id → ∀ userId path,
    ((getPdfPath userId r.id).eval Command.apply s).1 ≠ .ok path

theorem Disclosures.Closed.sealed {s : Platform} {g : DisclosureGrant}
    (h : s.disclosures.Closed g.id g.accessTokenHash) : s.Sealed g := by
  obtain ⟨g', hg', htoken, hrevoked⟩ := h.revoked
  have hid : g'.id = g.id := Table.key_of_find hg'
  constructor
  · intro rawToken ip userAgent accessSession hraw
    exact eval_verifyByToken_of_revoked (by rw [hid]; exact hg') hrevoked (htoken.trans hraw) ip
      userAgent accessSession
  · intro r hr hgrant userId path hopen
    obtain ⟨-, hstatus, huri⟩ := (eval_getPdfPath_iff hr).mp hopen
    cases h.blocked r hr hgrant with
    | inl h => exact hstatus h
    | inr h => rw [h.2] at huri; cases huri

/-- What a revocation that returns has done. -/
theorem eval_revokeGrant {s : Platform} {userId : UserId} {g : DisclosureGrant}
    (hg : s.disclosures.grants.find g.id = some g)
    (h : ((revokeGrant userId g.id).eval Command.apply s).1 = .ok ()) :
    (∃ worker, s.workerOfUser userId = some worker ∧ g.workerId = worker.id) ∧
      ((revokeGrant userId g.id).eval Command.apply s).2 =
        (Command.disclose (.revoke g.id s.clock)).apply s := by
  unfold revokeGrant at h ⊢
  rw [Prog.eval_bind, eval_workerOf] at h ⊢
  cases hw : s.workerOfUser userId with
  | none => simp [hw] at h
  | some worker =>
      simp only [hw, eval_get_bind, hg, eval_orThrow_bind] at h ⊢
      by_cases hid : g.workerId = worker.id
      · rw [Option.filter_some_pos (by simp [hid])]
        exact ⟨⟨worker, rfl, hid⟩, rfl⟩
      · rw [Option.filter_some_neg (by simp [hid])] at h
        cases h

/-- After the revocation the grant is closed, when none of its reports that has
expired has a PDF. -/
theorem closed_revoke {d : Disclosures} (hd : d.Filed) {g : DisclosureGrant}
    (hg : d.grants.find g.id = some g) (now clock : Date)
    (hexpired : ∀ r ∈ d.reports.rows, r.disclosureGrantId = g.id → r.status = .expired →
      r.reportUri = none) :
    ((DisclosureWrite.revoke g.id now).apply clock d).Closed g.id g.accessTokenHash := by
  constructor
  · have hfind := d.grants.find_update (k := g.id)
      (f := fun g => { g with revokedAt := some now }) (fun _ => rfl) g.id
    rw [if_pos rfl, hg] at hfind
    exact ⟨_, hfind, rfl, nofun⟩
  · intro r' hr' hid
    obtain ⟨r, hr, rfl⟩ := List.mem_map.mp hr'
    have hgrant : r.disclosureGrantId = g.id :=
      (VerificationReport.became_revokeUnder g.id now r).disclosureGrantId.symm.trans hid
    have hdraft := hd.notDraft r hr
    unfold VerificationReport.revokeUnder
    cases hstatus : r.status with
    | draft => exact absurd hstatus hdraft
    | issued => simp [hgrant]
    | corrected => simp [hgrant]
    | revoked => simp [hstatus]
    | expired => simp [hstatus, hexpired r hr hgrant hstatus]

/-- **Revocation**: after a grant is revoked both read paths are closed for it,
whatever is called afterwards, if and only if no report under it is EXPIRED with
a PDF when the grant is revoked. -/
theorem revocation_complete_iff [Collation] {w : World} {clock : Date} {key : String}
    {before : List (Op (Nat × Request) PlatformMove)} {s : Platform}
    (hs : s = platform.evalAll before (Platform.fresh w clock key)) {userId : UserId}
    {g : DisclosureGrant} (hg : s.disclosures.grants.find g.id = some g)
    (hrevoke : ((revokeGrant userId g.id).eval Command.apply s).1 = .ok ()) :
    (∀ after, (platform.evalAll after
        ((revokeGrant userId g.id).eval Command.apply s).2).Sealed g) ↔
      ∀ r ∈ s.disclosures.reports.rows, r.disclosureGrantId = g.id → r.status = .expired →
        r.reportUri = none := by
  have hfiled : s.disclosures.Filed := by
    rw [hs]
    exact evalAll_keeps (fun d c clock hd hc _ => hd.apply hc clock) before Disclosures.filed_empty
  obtain ⟨⟨worker, hworker, howner⟩, hstore⟩ := eval_revokeGrant hg hrevoke
  rw [hstore]
  constructor
  · intro hsealed r hr hgrant hexpired
    have hrevoked := hsealed []
    have hsame : r.revokeUnder g.id s.clock = r := by
      rw [VerificationReport.revokeUnder, if_neg]
      simp [hexpired]
    have hmem :
        r ∈ (((Command.disclose (.revoke g.id s.clock)).apply s).disclosures).reports.rows :=
      List.mem_map.mpr ⟨r, hr, hsame⟩
    cases huri : r.reportUri with
    | none => rfl
    | some path =>
        obtain ⟨g', hg', hw⟩ := hfiled.owner r hr
        rw [hgrant, hg, Option.some.injEq] at hg'
        subst hg'
        have howned : ∃ worker, s.workerOfUser userId = some worker ∧ r.workerId = worker.id :=
          ⟨worker, hworker, hw.symm.trans howner⟩
        have hstatus : r.status ≠ .revoked := by simp [hexpired]
        exact absurd ((eval_getPdfPath_iff hmem).mpr ⟨howned, hstatus, huri⟩)
          (hrevoked.pdf r hmem hgrant userId path)
  · intro hexpired after
    have hclosed := closed_revoke hfiled hg s.clock s.clock hexpired
    have hlater := evalAll_keeps (s := (Command.disclose (.revoke g.id s.clock)).apply s)
      (P := fun d => d.Closed g.id g.accessTokenHash)
      (fun d c clock hd _ hc => hd.apply hc clock) after hclosed
    exact Disclosures.Closed.sealed hlater

section Concrete

open Scenario

theorem revocation_complete_of_issued :
    let s := (@platform byCodePoint).evalAll issued start
    let g := (newGrant .level2 .link).row 1
    (∀ after, ((@platform byCodePoint).evalAll after
        ((revokeGrant "worker-user" g.id).eval Command.apply s).2).Sealed g) ↔
      ∀ r ∈ s.disclosures.reports.rows, r.disclosureGrantId = g.id → r.status = .expired →
        r.reportUri = none :=
  @revocation_complete_iff byCodePoint evidence 0 "key" issued _ rfl "worker-user"
    ((newGrant .level2 .link).row 1) (by decide +kernel) (by decide +kernel)

/-- A report that has expired before the revocation: its PDF still opens. -/
theorem expired_report_outlives_revocation :
    let s := (@platform byCodePoint).evalAll
      (issued ++ [.env (.wait 1000001), .call (2, .disclosure .expireOverdue)]) start
    let revoked := (revokeGrant "worker-user" 1).eval Command.apply s
    revoked.1.toOption = some () ∧
      ((getPdfPath "worker-user" 1).eval Command.apply revoked.2).1.toOption = some ⟨1⟩ := by
  decide +kernel

end Concrete

end ServeProof
