import ServeProof.Interleave.Lockstep
import ServeProof.Scenario.Disclosed
import ServeProof.Services.Disclosure

/-!
# ServeProof.OneBit

What a LEVEL_1 disclosure reveals of the ledger of a worker.

Two platforms are `Alike` when they differ at most in the income ledger, the
shifts and venues behind it, and in what earlier reports rest on.  A report
issued in both, and every later look at it, comes out the same as soon as the
criterion of the grant has the same value in both.  The criterion is about the
average in whole cents: an average of half a cent below the threshold meets it.
-/

namespace ServeProof

open Interleave
open Prog (Lockstep lockstep_pure lockstep_get lockstep_get_bind lockstep_put_bind
  lockstep_putGet_bind lockstep_require_bind lockstep_orThrow lockstep_orThrow_self)

/-! ## What is seen of a report -/

/-- A report without what it rests on. -/
def VerificationReport.shown (r : VerificationReport) : VerificationReport := { r with basis := [] }

theorem newer_shown (best : Option VerificationReport) (r : VerificationReport) :
    newer (best.map .shown) r.shown = (newer best r).map .shown := by
  cases best with
  | none => rfl
  | some b =>
      simp only [Option.map_some, newer]
      have hb : b.shown.createdAt = b.createdAt := rfl
      have hr : r.shown.createdAt = r.createdAt := rfl
      rw [hb, hr]
      split <;> rfl

theorem newest_shown (l : List VerificationReport) :
    newest (l.map .shown) = (newest l).map .shown := by
  suffices hgen : ∀ best : Option VerificationReport,
      (l.map .shown).foldl newer (best.map .shown) = (l.foldl newer best).map .shown from
    hgen none
  induction l with
  | nil => exact fun _ => rfl
  | cons r l ih =>
      intro best
      rw [List.map_cons, List.foldl_cons, newer_shown, ih, List.foldl_cons]

namespace Disclosures

/-- Two sets of disclosures that show the same. -/
structure Alike (d d' : Disclosures) : Prop where
  grants : d.grants = d'.grants
  reports : d.reports.rows.map VerificationReport.shown =
    d'.reports.rows.map VerificationReport.shown
  nextReportId : d.nextReportId = d'.nextReportId

variable {d d' : Disclosures}

/-- A choice of reports by what is seen of them. -/
theorem Alike.filter (h : d.Alike d') {p : VerificationReport → Bool}
    (hp : ∀ r, p r.shown = p r) : (d.reports.rows.filter p).map VerificationReport.shown =
      (d'.reports.rows.filter p).map VerificationReport.shown := by
  have hcomp : p ∘ VerificationReport.shown = p := funext hp
  have hfilter (l : List VerificationReport) :
      (l.filter p).map VerificationReport.shown = (l.map .shown).filter p := by
    rw [List.filter_map, hcomp]
  rw [hfilter, hfilter, h.reports]

theorem Alike.newest_reportsOf (h : d.Alike d') (grantId : GrantId) :
    (newest (d.reportsOf grantId)).map VerificationReport.shown =
      (newest (d'.reportsOf grantId)).map VerificationReport.shown := by
  rw [← newest_shown, ← newest_shown]
  exact congrArg newest (h.filter fun _ => rfl)

theorem Alike.previousReport (h : d.Alike d') (grantId : GrantId) :
    (d.previousReport grantId).map VerificationReport.id =
      (d'.previousReport grantId).map VerificationReport.id := by
  have hid : VerificationReport.id = VerificationReport.id ∘ VerificationReport.shown := rfl
  have hsame : (d.previousReport grantId).map VerificationReport.shown =
      (d'.previousReport grantId).map VerificationReport.shown := by
    simp only [Disclosures.previousReport, reportsOf, List.filter_filter]
    rw [← newest_shown, ← newest_shown]
    exact congrArg newest (h.filter fun _ => rfl)
  rw [hid, ← Option.map_map, hsame, Option.map_map]

theorem Alike.mapReports (h : d.Alike d') {f : VerificationReport → VerificationReport}
    (hf : ∀ r, (f r).id = r.id) (hshown : ∀ r, (f r).shown = f r.shown) :
    (d.mapReports f hf).Alike (d'.mapReports f hf) where
  grants := h.grants
  nextReportId := h.nextReportId
  reports := by
    have hcomp : VerificationReport.shown ∘ f = f ∘ VerificationReport.shown := funext hshown
    simp only [Disclosures.mapReports, Table.mapRows, List.map_map, hcomp]
    rw [← List.map_map, h.reports, List.map_map]

theorem Alike.setReportUri (h : d.Alike d') (id : ReportId) (clock clock' : Date) :
    ((DisclosureWrite.setReportUri id).apply clock d).Alike
      ((DisclosureWrite.setReportUri id).apply clock' d') := by
  refine h.mapReports _ fun r => ?_
  unfold VerificationReport.withUri
  have hid : r.shown.id = r.id := rfl
  rw [hid]
  split <;> rfl

/-- A report is created the same, whatever it rests on. -/
theorem Alike.createReport (h : d.Alike d') {row row' : NewReport} (clock : Date)
    (hrow : ∀ id, (row.row clock id).shown = (row'.row clock id).shown) :
    ((DisclosureWrite.createReport row).Applies d ↔
        (DisclosureWrite.createReport row').Applies d') ∧
      ((DisclosureWrite.createReport row).apply clock d).Alike
        ((DisclosureWrite.createReport row').apply clock d') := by
  have hprev : row.previousReportId = row'.previousReportId :=
    congrArg VerificationReport.previousReportId (hrow 0)
  have hall : (∀ r ∈ d.reports.rows, r.previousReportId ≠ row.previousReportId) ↔
      ∀ r ∈ d'.reports.rows, r.previousReportId ≠ row.previousReportId := by
    have hmap (rows : List VerificationReport) :
        (∀ r ∈ rows, r.previousReportId ≠ row.previousReportId) ↔
          ∀ r ∈ rows.map VerificationReport.shown, r.previousReportId ≠ row.previousReportId := by
      simp [VerificationReport.shown]
    rw [hmap, h.reports, ← hmap]
  have happlies : (DisclosureWrite.createReport row).Applies d ↔
      (DisclosureWrite.createReport row').Applies d' := by
    rw [DisclosureWrite.Applies, DisclosureWrite.Applies, hall, hprev]
  refine ⟨happlies, ?_⟩
  by_cases hc : (DisclosureWrite.createReport row).Applies d
  · have hc' := happlies.mp hc
    constructor
    · rw [DisclosureWrite.grants_createReport, DisclosureWrite.grants_createReport, h.grants]
    · rw [DisclosureWrite.rows_createReport hc, DisclosureWrite.rows_createReport hc',
        List.map_append, List.map_append, h.reports, List.map_singleton, List.map_singleton, hrow,
        h.nextReportId]
    · rw [DisclosureWrite.nextReportId_createReport hc,
        DisclosureWrite.nextReportId_createReport hc', h.nextReportId]
  · rw [DisclosureWrite.createReport_of_not_applies hc,
      DisclosureWrite.createReport_of_not_applies fun h => hc (happlies.mpr h)]
    exact h

end Disclosures

/-! ## What is seen of a platform -/

/-- Two platforms that differ at most in what a snapshot is computed from. -/
structure Platform.Alike (s s' : Platform) : Prop where
  workers : s.world.db.workers = s'.world.db.workers
  disclosures : s.disclosures.Alike s'.disclosures
  access : s.access = s'.access
  clock : s.clock = s'.clock
  signingKey : s.signingKey = s'.signingKey

structure GrantView.Alike (v v' : GrantView) : Prop where
  grant : v.grant = v'.grant
  workerDisplayName : v.workerDisplayName = v'.workerDisplayName
  report : v.report.map VerificationReport.shown = v'.report.map VerificationReport.shown

namespace GrantView

variable {v v' : GrantView}

/-- What a part of a report that is seen comes to. -/
theorem Alike.map_report (h : v.Alike v') {α : Type} {f : VerificationReport → α}
    (hf : ∀ r, f r.shown = f r) : v.report.map f = v'.report.map f := by
  have hcomp : f = f ∘ VerificationReport.shown := funext fun r => (hf r).symm
  rw [hcomp, ← Option.map_map, h.report, Option.map_map]

theorem Alike.reportStatus (h : v.Alike v') (now : Date) :
    reportStatus v now = reportStatus v' now := by
  have hstatus := h.map_report (f := VerificationReport.status) fun _ => rfl
  simp only [ServeProof.reportStatus, h.grant, hstatus]
  cases hr : v.report with
  | none =>
      cases hr' : v'.report with
      | none => rfl
      | some r' => simp [hr, hr'] at hstatus
  | some r =>
      cases hr' : v'.report with
      | none => simp [hr, hr'] at hstatus
      | some r' =>
          simp only [hr, hr', Option.map_some, Option.some.injEq] at hstatus
          simp only [hstatus]

theorem Alike.verificationBase (h : v.Alike v') (status : VerificationStatus) :
    verificationBase v status = verificationBase v' status := by
  simp only [ServeProof.verificationBase, h.grant, h.workerDisplayName,
    h.map_report (f := VerificationReport.issuedAt) fun _ => rfl,
    h.map_report (f := VerificationReport.id) fun _ => rfl,
    h.map_report (f := VerificationReport.reportHash) fun _ => rfl]

end GrantView

theorem Platform.Alike.workerOfUser {s s' : Platform} (h : s.Alike s') (userId : UserId) :
    s.workerOfUser userId = s'.workerOfUser userId := by
  simp only [Platform.workerOfUser, h.workers]

theorem Platform.Alike.findGrant {s s' : Platform} (h : s.Alike s') (rawToken : String) :
    Option.Rel GrantView.Alike (s.findGrant rawToken) (s'.findGrant rawToken) := by
  simp only [Platform.findGrant, h.disclosures.grants, h.workers]
  cases s'.disclosures.grants.rows.find? fun g => decide (g.accessTokenHash = ⟨rawToken⟩) with
  | none => exact .none
  | some g => exact .some ⟨rfl, rfl, h.disclosures.newest_reportsOf g.id⟩

/-! ## Looking at a link -/

theorem grantByToken_lockstep (rawToken : String) :
    Lockstep Command.apply Platform.Alike GrantView.Alike (grantByToken rawToken)
      (grantByToken rawToken) := by
  unfold grantByToken
  exact lockstep_get_bind fun s s' hs => lockstep_orThrow (hs.findGrant rawToken)

theorem sessionValid_lockstep (grantId : GrantId) (accessSession : Option String) :
    Lockstep Command.apply Platform.Alike Eq (sessionValid grantId accessSession)
      (sessionValid grantId accessSession) := by
  unfold sessionValid
  split
  · exact lockstep_pure.mpr rfl
  · exact lockstep_get fun s s' hs => by rw [hs.access, hs.clock]

theorem admitted_lockstep {v v' : GrantView} (hv : v.Alike v') (accessSession : Option String) :
    Lockstep Command.apply Platform.Alike Eq (admitted v accessSession)
      (admitted v' accessSession) := by
  unfold admitted
  rw [hv.grant]
  split
  · exact sessionValid_lockstep v'.grant.id accessSession
  · exact lockstep_pure.mpr rfl

/-- A verification link answers the same on alike platforms. -/
theorem verifyByToken_lockstep (rawToken : String) (ip userAgent accessSession : Option String) :
    Lockstep Command.apply Platform.Alike Eq (verifyByToken rawToken ip userAgent accessSession)
      (verifyByToken rawToken ip userAgent accessSession) := by
  unfold verifyByToken
  refine (grantByToken_lockstep rawToken).bind fun v v' hv => ?_
  refine lockstep_get_bind fun s s' hs => ?_
  have hsnapshot := hv.map_report (f := VerificationReport.snapshot) fun _ => rfl
  simp only [hs.clock, hv.reportStatus, hv.verificationBase, hv.grant, hsnapshot]
  split
  · exact lockstep_pure.mpr rfl
  · refine (admitted_lockstep hv accessSession).bind fun allowed allowed' hsame => ?_
    subst hsame
    split
    · exact lockstep_pure.mpr rfl
    · refine lockstep_put_bind (fun s s' hs => ?_) (lockstep_pure.mpr rfl)
      exact ⟨hs.workers, ⟨hs.disclosures.grants, hs.disclosures.reports,
        hs.disclosures.nextReportId⟩, hs.access, hs.clock, hs.signingKey⟩

/-! ## Issuing a report -/

/-- The LEVEL_1 criterion of a grant, as the ledger has it. -/
def Platform.Meets (s : Platform) (g : DisclosureGrant) : Prop :=
  g.threshold ≤ avgMonthly (inRange g (s.activeEntries g.workerId))

instance (s : Platform) (g : DisclosureGrant) : Decidable (s.Meets g) :=
  inferInstanceAs (Decidable (_ ≤ _))

/-- Alike platforms that agree on a LEVEL_1 grant and on its criterion. -/
structure AlikeFor (g : DisclosureGrant) (s s' : Platform) : Prop where
  alike : s.Alike s'
  found : s'.disclosures.grants.find g.id = some g
  meets : s.Meets g ↔ s'.Meets g

variable {g : DisclosureGrant} {s s' : Platform}

theorem AlikeFor.buildSnapshot (h : AlikeFor g s s') (hlevel : g.level = .level1) :
    buildSnapshot g (s.activeEntries g.workerId) =
      buildSnapshot g (s'.activeEntries g.workerId) := by
  have hmeets := h.meets
  unfold Platform.Meets at hmeets
  simp only [ServeProof.buildSnapshot, hlevel, hmeets]

theorem insertReport_lockstep {row row' : NewReport} {e : ApiError}
    (hrow : ∀ clock id, (row.row clock id).shown = (row'.row clock id).shown) :
    Lockstep Command.apply (AlikeFor g) Eq
      (insertRow (.createReport row) Disclosures.nextReportId e)
      (insertRow (.createReport row') Disclosures.nextReportId e) := by
  have hcreate {s s' : Platform} (hs : AlikeFor g s s') :=
    hs.alike.disclosures.createReport s.clock (hrow s.clock)
  refine lockstep_putGet_bind (fun s s' hs => ?_) fun s s' hs => ?_
  · have hgrants : ((DisclosureWrite.createReport row').apply s'.clock s'.disclosures).grants =
        s'.disclosures.grants := DisclosureWrite.grants_createReport
    refine ⟨⟨hs.alike.workers, ?_, hs.alike.access, hs.alike.clock, hs.alike.signingKey⟩, ?_,
      hs.meets⟩
    · simp only [Command.apply, ← hs.alike.clock]
      exact (hcreate hs).2
    · simp only [Command.apply, hgrants]
      exact hs.found
  · simp only [(hcreate hs).1, hs.alike.disclosures.nextReportId]
    exact lockstep_orThrow_self

/-- A report is issued the same on alike platforms. -/
theorem issueReport_lockstep (hlevel : g.level = .level1) (userId : UserId)
    (renderError : Option String) :
    Lockstep Command.apply (AlikeFor g) Eq (issueReport userId g.id renderError)
      (issueReport userId g.id renderError) := by
  unfold issueReport workerOf
  refine Prog.Lockstep.bind (Q := Eq) ?_ fun worker worker' hw => ?_
  · exact lockstep_get_bind fun s s' hs => by
      rw [hs.alike.workerOfUser]
      exact lockstep_orThrow_self
  subst hw
  refine lockstep_get_bind fun s s' hs => ?_
  rw [hs.alike.disclosures.grants, hs.found]
  have hgrant (p : DisclosureGrant → Bool) : Option.Rel (fun a a' => a = g ∧ a' = g)
      ((some g).filter p) ((some g).filter p) := by
    cases hp : p g with
    | false => rw [Option.filter_some_neg (by simp [hp])]; exact .none
    | true => rw [Option.filter_some_pos hp]; exact .some ⟨rfl, rfl⟩
  refine (lockstep_orThrow (hgrant _)).bind fun grant₀ grant hsame => ?_
  obtain ⟨rfl, rfl⟩ := hsame
  refine lockstep_require_bind Iff.rfl fun _ => ?_
  refine lockstep_get_bind fun s s' hs => ?_
  rw [hs.alike.clock]
  refine lockstep_require_bind Iff.rfl fun _ => ?_
  -- the entries differ, the snapshots of them do not
  refine lockstep_get_bind fun s s' hs => ?_
  have hsnapshot := hs.buildSnapshot hlevel
  generalize s.activeEntries grant.workerId = entries at hsnapshot
  generalize s'.activeEntries grant.workerId = entries' at hsnapshot
  refine lockstep_get_bind fun s s' hs => ?_
  rw [hs.alike.clock, hs.alike.signingKey]
  generalize s'.clock = issuedAt
  generalize s'.signingKey = key
  refine lockstep_get_bind fun s s' hs => ?_
  have hprevious := hs.alike.disclosures.previousReport grant.id
  generalize s.disclosures.previousReport grant.id = previous at hprevious
  generalize s'.disclosures.previousReport grant.id = previous' at hprevious
  refine Prog.Lockstep.bind (Q := Eq) ?_ fun id id' hid => ?_
  · refine insertReport_lockstep fun now id => ?_
    simp only [VerificationReport.shown, NewReport.row, newReport, hsnapshot, hprevious]
  subst hid
  cases renderError with
  | some message => exact rfl
  | none =>
      refine lockstep_put_bind (fun s s' hs => ?_) (lockstep_pure.mpr rfl)
      exact ⟨⟨hs.alike.workers, hs.alike.disclosures.setReportUri id s.clock s'.clock,
        hs.alike.access, hs.alike.clock, hs.alike.signingKey⟩, hs.found, hs.meets⟩

/-! ## The disclosure -/

/-- A look at a link, some time after the one before it. -/
structure Look where
  wait : Nat
  rawToken : String
  ip : Option String
  userAgent : Option String
  accessSession : Option String

/-- What a sequence of looks is answered. -/
def responses : List Look → Platform → List (Except ApiError VerifyResponse)
  | [], _ => []
  | x :: looks, s =>
      let answered := (verifyByToken x.rawToken x.ip x.userAgent x.accessSession).eval Command.apply
        { s with clock := s.clock + x.wait }
      answered.1 :: responses looks answered.2

theorem responses_alike (looks : List Look) {s s' : Platform} (hs : s.Alike s') :
    responses looks s = responses looks s' := by
  induction looks generalizing s s' with
  | nil => rfl
  | cons x looks ih =>
      have hwait : Platform.Alike { s with clock := s.clock + x.wait }
          { s' with clock := s'.clock + x.wait } :=
        ⟨hs.workers, hs.disclosures, hs.access, congrArg (· + (x.wait : Int)) hs.clock,
          hs.signingKey⟩
      obtain ⟨hanswer, hnext⟩ :=
        (verifyByToken_lockstep x.rawToken x.ip x.userAgent x.accessSession).eval hwait
      rw [responses, responses, hanswer.eq, ih hnext]

/-- The snapshots that are stored, each with its hash. -/
def Platform.snapshots (s : Platform) : List (ReportId × Snapshot × ReportHash) :=
  s.disclosures.reports.rows.map fun r => (r.id, r.snapshot, r.reportHash)

theorem Platform.Alike.snapshots (h : s.Alike s') : s.snapshots = s'.snapshots := by
  have hshown (rows : List VerificationReport) :
      rows.map (fun r => (r.id, r.snapshot, r.reportHash)) =
        (rows.map VerificationReport.shown).map fun r => (r.id, r.snapshot, r.reportHash) := by
    rw [List.map_map]
    rfl
  rw [Platform.snapshots, hshown, h.disclosures.reports, ← hshown, Platform.snapshots]

/-- **One bit**: of the ledger of a worker a LEVEL_1 report, and every look at
it, shows only whether the criterion is met. -/
theorem level1_reveals_the_criterion {s s' : Platform} (hs : s.Alike s') {userId : UserId}
    {g : DisclosureGrant} (hg : s.disclosures.grants.find g.id = some g)
    (hlevel : g.level = .level1) (hmeets : s.Meets g ↔ s'.Meets g) (renderError : Option String)
    (looks : List Look) :
    let issued := (issueReport userId g.id renderError).eval Command.apply s
    let issued' := (issueReport userId g.id renderError).eval Command.apply s'
    issued.1 = issued'.1 ∧ issued.2.snapshots = issued'.2.snapshots ∧
      responses looks issued.2 = responses looks issued'.2 := by
  intro issued issued'
  have hfor : AlikeFor g s s' := ⟨hs, by rw [← hs.disclosures.grants, hg], hmeets⟩
  obtain ⟨hid, halike⟩ := (issueReport_lockstep hlevel userId renderError).eval hfor
  exact ⟨hid.eq, halike.alike.snapshots, responses_alike looks halike.alike⟩

section Concrete

open Scenario

abbrev Scenario.level1Grant : DisclosureGrant := (newGrant .level1 .link).row 1

/-- A ledger of two months, of these amounts, with a LEVEL_1 grant of 100 cents. -/
abbrev Scenario.twoMonths (first second : Int) : Platform := granted first second .level1 .link

theorem alike_twoMonths (a b a' b' : Int) : (twoMonths a b).Alike (twoMonths a' b') :=
  ⟨rfl, ⟨rfl, rfl, rfl⟩, rfl, rfl, rfl⟩

theorem found_level1Grant (a b : Int) :
    (twoMonths a b).disclosures.grants.find level1Grant.id = some level1Grant := rfl

theorem level1_reveals_the_criterion_of_two :
    let issued := (issueReport "worker-user" 1 none).eval Command.apply (twoMonths 150 150)
    let issued' := (issueReport "worker-user" 1 none).eval Command.apply (twoMonths 400 0)
    issued.1 = issued'.1 ∧ issued.2.snapshots = issued'.2.snapshots ∧
      responses [⟨5, "token", none, none, none⟩] issued.2 =
        responses [⟨5, "token", none, none, none⟩] issued'.2 :=
  level1_reveals_the_criterion (alike_twoMonths 150 150 400 0) (found_level1Grant 150 150) rfl
    (by decide +kernel) none [⟨5, "token", none, none, none⟩]

/-- The criterion over the average itself, before it is rounded. -/
def Platform.MeetsExactly (s : Platform) (g : DisclosureGrant) : Prop :=
  g.threshold ≤ averageMonthly (inRange g (s.activeEntries g.workerId))

instance (s : Platform) (g : DisclosureGrant) : Decidable (s.MeetsExactly g) :=
  inferInstanceAs (Decidable (_ ≤ _))

/-- 199 cents in two months and 100 cents in two months are both below 100
cents a month, but 99.5 is rounded to 100. -/
theorem level1_reveals_more_than_the_average :
    ¬ ∀ (s s' : Platform) (userId : UserId) (g : DisclosureGrant), s.Alike s' →
      s.disclosures.grants.find g.id = some g → g.level = .level1 →
      (s.MeetsExactly g ↔ s'.MeetsExactly g) →
      ((issueReport userId g.id none).eval Command.apply s).2.snapshots =
        ((issueReport userId g.id none).eval Command.apply s').2.snapshots := by
  intro h
  have hsame := h (twoMonths 100 99) (twoMonths 50 50) "worker-user" level1Grant
    (alike_twoMonths 100 99 50 50) (by decide +kernel) rfl
    (by decide +kernel)
  exact absurd hsame (by decide +kernel)

end Concrete

end ServeProof
