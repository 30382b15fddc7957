import ServeProof.Platform

/-!
# ServeProof.Services.Disclosure

The disclosure service: a worker grants access and issues reports under the
grant, a recipient verifies them by the token of the grant, after a one-time
code when the grant asks for it.

`new Date()` is a read of the clock.  The random token, code and session key of
a call are its parameters, and so is how rendering and mailing turn out.
-/

namespace ServeProof

open Interleave
open Prog (get put putGet require orThrow)

/-- Insert a row, which must violate no constraint; the result is its id. -/
def insertRow (c : DisclosureWrite) (nextId : Disclosures → Nat) (e : ApiError) : Action Nat := do
  let id ← putGet (.disclose c) fun s =>
    if c.Applies s.disclosures then some (nextId s.disclosures) else none
  orThrow id e

/-! ## Grants -/

namespace Platform

def workerOfUser (s : Platform) (userId : UserId) : Option Worker :=
  s.world.db.workers.rows.find? fun w => decide (w.userId = userId)

end Platform

def workerOf (userId : UserId) : Action Worker := do
  let worker ← get fun s => s.workerOfUser userId
  orThrow worker (.notFound "No worker profile for this user")

structure GrantInput where
  purpose : String
  level : DisclosureLevel
  dateRangeStart : Date
  dateRangeEnd : Date
  expiresAt : Date
  recipientEmail : Option String
  accessMode : Option DisclosureAccessMode
  allowDownload : Option Bool
  thresholdUsdCents : Option Int

/-- The row of a new grant.  A threshold of 0 is falsy. -/
def GrantInput.row (input : GrantInput) (workerId : WorkerId) (rawToken : String) : NewGrant where
  workerId := workerId
  purpose := input.purpose
  level := input.level
  thresholdUsdCents := input.thresholdUsdCents.filter (· ≠ 0)
  dateRangeStart := input.dateRangeStart
  dateRangeEnd := input.dateRangeEnd
  expiresAt := input.expiresAt
  allowDownload := input.allowDownload.getD false
  recipientEmail := input.recipientEmail.map String.toLower
  accessMode := input.accessMode.getD .link
  accessTokenHash := ⟨rawToken⟩

/-- The raw token is returned exactly once; only its hash is stored. -/
def createGrant (userId : UserId) (input : GrantInput) (rawToken : String) : Action GrantId := do
  let worker ← workerOf userId
  require (¬ (input.level = .level1 ∧ input.thresholdUsdCents.filter (· ≠ 0) = none))
    (.badRequest "LEVEL_1 requires thresholdUsdCents")
  require (¬ (input.accessMode.getD .link = .recipientOtp ∧
      input.recipientEmail.filter (· ≠ "") = none))
    (.badRequest "Recipient email is required for recipient-only access")
  insertRow (.createGrant (input.row worker.id rawToken)) Disclosures.nextGrantId
    (.internal "Unique constraint failed on accessTokenHash")

/-- The worker can revoke at any time; issued reports go REVOKED. -/
def revokeGrant (userId : UserId) (grantId : GrantId) : Action Unit := do
  let worker ← workerOf userId
  let found ← get fun s => s.disclosures.grants.find grantId
  let grant ← orThrow (found.filter fun g => decide (g.workerId = worker.id))
    (.notFound "Disclosure grant not found")
  let now ← get Platform.clock
  put (.disclose (.revoke grant.id now))

/-! ## Reports -/

namespace Platform

/-- The ACTIVE entries of a worker, with their shifts and venues. -/
def activeEntries (s : Platform) (workerId : WorkerId) : List EntryView :=
  (s.books.entries.rows.filter fun e =>
    decide (e.data.workerId = workerId ∧ e.effectiveStatus = .active)).map fun e =>
      { entry := e
        shift := e.data.shiftId.bind s.world.db.shifts.find
        venueName := ((s.world.db.venues.find e.data.venueId).map Venue.name).getD "" }

end Platform

/-- The later of two reports; of two created at one time, the one that was
inserted later. -/
def newer : Option VerificationReport → VerificationReport → Option VerificationReport
  | none, r => some r
  | some best, r => if best.createdAt ≤ r.createdAt then some r else some best

/-- The report that was created last. -/
def newest (reports : List VerificationReport) : Option VerificationReport :=
  reports.foldl newer none

namespace Disclosures

def reportsOf (d : Disclosures) (grantId : GrantId) : List VerificationReport :=
  d.reports.rows.filter fun r => decide (r.disclosureGrantId = grantId)

/-- The report a new one supersedes in the report chain. -/
def previousReport (d : Disclosures) (grantId : GrantId) : Option VerificationReport :=
  newest ((d.reportsOf grantId).filter fun r => decide (r.status ∈ [.issued, .corrected]))

end Disclosures

/-- The report of a grant over the entries that were read. -/
def newReport (grant : DisclosureGrant) (entries : List EntryView) (signingKey : String)
    (issuedAt : Date) (previous : Option VerificationReport) : NewReport :=
  let snapshot := buildSnapshot grant entries
  { workerId := grant.workerId
    disclosureGrantId := grant.id
    reportHash := ⟨signingKey, snapshot, grant.id, issuedAt⟩
    snapshot := snapshot
    issuedAt := issuedAt
    expiresAt := grant.expiresAt
    previousReportId := previous.map VerificationReport.id
    basis := (inRange grant entries).map fun e => e.entry.id }

/-- Issue a report.  `renderError` is how rendering the PDF fails, if it does. -/
def issueReport (userId : UserId) (grantId : GrantId) (renderError : Option String) :
    Action ReportId := do
  let worker ← workerOf userId
  let found ← get fun s => s.disclosures.grants.find grantId
  let grant ← orThrow (found.filter fun g => decide (g.workerId = worker.id))
    (.notFound "Disclosure grant not found")
  require (grant.revokedAt = none) (.badRequest "Grant is revoked")
  let now ← get Platform.clock
  require (now ≤ grant.expiresAt) (.badRequest "Grant is expired")
  let entries ← get fun s => s.activeEntries grant.workerId
  let issued ← get fun s => (s.clock, s.signingKey)
  let previous ← get fun s => s.disclosures.previousReport grantId
  let id ← insertRow (.createReport (newReport grant entries issued.2 issued.1 previous))
    Disclosures.nextReportId (.internal "Unique constraint failed on previousReportId")
  match renderError with
  | some message => Prog.throw (.internal message)
  | none => do
      put (.disclose (.setReportUri id))
      return id

/-- The PDF of a report, for its worker only. -/
def getPdfPath (userId : UserId) (reportId : ReportId) : Action PdfPath := do
  let worker ← workerOf userId
  let found ← get fun s => s.disclosures.reports.find reportId
  let report ← orThrow (found.filter fun r => decide (r.workerId = worker.id))
    (.notFound "Report not found")
  require (report.status ≠ .revoked) (.forbidden "Report is revoked; PDF access is blocked")
  orThrow report.reportUri (.notFound "PDF not generated")

/-- The disclosure-expire sweep. -/
def expireOverdue : Action Unit := do
  let now ← get Platform.clock
  put (.disclose (.expireOverdue now))

/-! ## Public verification -/

/-- A grant with its worker's name and its newest report. -/
structure GrantView where
  grant : DisclosureGrant
  workerDisplayName : String
  report : Option VerificationReport

def Platform.findGrant (s : Platform) (rawToken : String) : Option GrantView :=
  (s.disclosures.grants.rows.find? fun g => decide (g.accessTokenHash = ⟨rawToken⟩)).map fun g =>
    { grant := g
      workerDisplayName := ((s.world.db.workers.find g.workerId).map Worker.displayName).getD ""
      report := newest (s.disclosures.reportsOf g.id) }

def reportStatus (v : GrantView) (now : Date) : VerificationStatus :=
  if v.grant.revokedAt ≠ none ∨ v.report.map VerificationReport.status = some .revoked then .revoked
  else
    match v.report with
    | none => .notIssued
    | some report =>
        if v.grant.expiresAt < now ∨ report.status = .expired then .expired
        else if report.status = .corrected then .corrected
        else .valid

def grantByToken (rawToken : String) : Action GrantView := do
  let found ← get fun s => s.findGrant rawToken
  orThrow found (.notFound "Unknown verification token")

/-- `local@domain` with all but the first letters of `local` masked. -/
def maskEmail (email : String) : String :=
  let name := email.toList.takeWhile (· ≠ '@')
  let domain := (email.toList.dropWhile (· ≠ '@')).tail.takeWhile (· ≠ '@')
  String.ofList (name.take 2 ++ List.replicate (max 3 (name.length - 2)) '*' ++ '@' :: domain)

example : maskEmail "recipient@example.test" = "re*******@example.test" := by decide +kernel

def assertRecipientAccessAvailable (v : GrantView) : Action String := do
  let now ← get Platform.clock
  require (reportStatus v now = .valid)
    (.forbidden "This report is not available for recipient access")
  orThrow (v.grant.recipientEmail.filter fun email =>
      decide (v.grant.accessMode = .recipientOtp ∧ email ≠ ""))
    (.badRequest "This report does not require recipient authentication")

def otpTtlSeconds : Int := 300
def otpMaxAttempts : Int := 5
def sessionTtlSeconds : Int := 15 * 60
def otpCooldownSeconds : Int := 60
def otpMaxRequestsPerHour : Int := 5

/-- Send a one-time code to the recipient.  `mailError` is how the mail fails,
if it is sent and does. -/
def requestRecipientOtp (rawToken code : String) (mailError : Option String) : Action String := do
  let v ← grantByToken rawToken
  let email ← assertRecipientAccessAvailable v
  let id := v.grant.id
  let allowed ← putGet (.redis (.setNx (.cooldown id) .flag otpCooldownSeconds)) fun s =>
    decide (s.access.live s.clock (.cooldown id) = none)
  require (allowed = true) (.tooManyRequests "Please wait before requesting another code")
  let count ← putGet (.redis (.add (.hourlyRequests id) 1)) fun s =>
    s.access.count s.clock (.hourlyRequests id) + 1
  Prog.when (count = 1) (put (.redis (.expire (.hourlyRequests id) (60 * 60))))
  require (count ≤ otpMaxRequestsPerHour) (.tooManyRequests "Too many access-code requests")
  put (.redis (.set (.otp id) (.hash ⟨code⟩) otpTtlSeconds))
  put (.redis (.set (.attempts id) (.count 0) otpTtlSeconds))
  match mailError with
  | none => return maskEmail email
  | some message => do
      put (.redis (.del [.otp id, .attempts id, .cooldown id]))
      put (.redis (.add (.hourlyRequests id) (-1)))
      Prog.throw (.internal message)

/-- How long a session lives: a quarter of an hour, no longer than the grant,
one second at least. -/
def sessionSeconds (expiresAt now : Date) : Int :=
  max 1 (min sessionTtlSeconds ((expiresAt - now) / 1000))

/-- Exchange a one-time code for a session. -/
def verifyRecipientOtp (rawToken code accessToken : String) : Action Int := do
  let v ← grantByToken rawToken
  let _ ← assertRecipientAccessAvailable v
  let id := v.grant.id
  let stored ← get fun s => s.access.get s.clock (.otp id)
  let storedHash ← orThrow stored (.unauthorized "Invalid or expired code")
  let attempts ← putGet (.redis (.add (.attempts id) 1)) fun s =>
    s.access.count s.clock (.attempts id) + 1
  if otpMaxAttempts < attempts then do
    put (.redis (.del [.otp id, .attempts id]))
    Prog.throw (.unauthorized "Too many attempts; request a new code")
  else do
    require (storedHash = .hash ⟨code⟩) (.unauthorized "Invalid or expired code")
    put (.redis (.del [.otp id, .attempts id]))
    let now ← get Platform.clock
    let expiresInSeconds := sessionSeconds v.grant.expiresAt now
    put (.redis (.set (.session id ⟨accessToken⟩) .flag expiresInSeconds))
    return expiresInSeconds

def verificationBase (v : GrantView) (status : VerificationStatus) : VerificationBase where
  status := status
  issuer := "ServeProof POC"
  purpose := v.grant.purpose
  level := v.grant.level
  workerDisplayName := v.workerDisplayName
  issuedAt := v.report.map VerificationReport.issuedAt
  expiresAt := v.grant.expiresAt
  reportId := v.report.map VerificationReport.id
  reportHash := v.report.map VerificationReport.reportHash
  accessMode := v.grant.accessMode

/-- The session the caller presents is good for the grant. -/
def sessionValid (grantId : GrantId) (accessSession : Option String) : Action Bool :=
  match accessSession.filter (· ≠ "") with
  | none => pure false
  | some token => get fun s => (s.access.get s.clock (.session grantId ⟨token⟩)).isSome

/-- Whoever holds a link is admitted; a recipient needs a session. -/
def admitted (v : GrantView) (accessSession : Option String) : Action Bool :=
  if v.grant.accessMode = .recipientOtp then sessionValid v.grant.id accessSession else pure true

/-- Only a currently valid report can ever return its snapshot.  Expired,
revoked, corrected, and unissued links expose metadata only. -/
def verifyByToken (rawToken : String) (ip userAgent : Option String)
    (accessSession : Option String) : Action VerifyResponse := do
  let v ← grantByToken rawToken
  let now ← get Platform.clock
  let status := reportStatus v now
  let base := verificationBase v status
  if status ≠ .valid then return .metadata base
  else do
    let allowed ← admitted v accessSession
    if allowed = false then
      return .authRequired v.grant.accessMode v.grant.expiresAt
        (maskEmail (v.grant.recipientEmail.getD ""))
    else do
      put (.disclose (.logAccess ⟨v.grant.id, ip, userAgent⟩))
      return .disclosed base (v.report.map VerificationReport.snapshot)

end ServeProof
