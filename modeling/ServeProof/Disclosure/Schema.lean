import ServeProof.Income.Schema

/-!
# ServeProof.Disclosure.Schema

Selective disclosure: the grants a worker makes, the reports that are issued
under them, and the log of who looked.

Hashes are symbolic here too: a `Sha256` is the text that was hashed, a
`ReportHash` the key and the message of the HMAC.
-/

namespace ServeProof

abbrev GrantId := Nat
abbrev ReportId := Nat

/-- A sha-256 digest of a text. -/
structure Sha256 where
  preimage : String
  deriving DecidableEq, Repr

/-! ## Enumerations -/

inductive DisclosureLevel where
  | level1 | level2 | level3
  deriving DecidableEq, Repr

inductive DisclosureAccessMode where
  | link | recipientOtp
  deriving DecidableEq, Repr

inductive ReportStatus where
  | draft | issued | expired | corrected | revoked
  deriving DecidableEq, Repr

/-! ## Snapshots -/

/-- What a LEVEL_2 snapshot says, and a LEVEL_3 snapshot before its entries.
The two records are kept in the order their keys were first met. -/
structure DisclosedSummary where
  level : DisclosureLevel
  avgMonthlyIncomeUsdCents : Int
  monthsCovered : Nat
  payerCount : Nat
  verificationGrades : List (EvidenceGrade × Int)
  bestGrade : EvidenceGrade
  hasCorrections : Bool
  totalVerifiedIncomeUsdCents : Int
  totalPaidUsdCents : Int
  posVerifiedSharePct : Int
  monthlyBreakdown : List (String × Int)
  observedShiftDays : Nat
  deriving DecidableEq, Repr

structure DisclosedEntry where
  businessDate : String
  venue : String
  role : String
  allocatedUsdCents : Int
  paidUsdCents : Int
  payrollReportedUsdCents : Int
  withholdingStatus : WithholdingStatus
  payoutRail : Option WorkerPayoutRail
  evidenceGrade : EvidenceGrade
  ingestSource : EvidenceIngestSource
  corrected : Bool
  deriving DecidableEq, Repr

inductive Snapshot where
  | level1 (criterion : String) (result : Bool)
  | level2 (summary : DisclosedSummary)
  | level3 (summary : DisclosedSummary) (entries : List DisclosedEntry)
  deriving DecidableEq, Repr

/-- The HMAC of a snapshot with its grant and its time of issue. -/
structure ReportHash where
  signingKey : String
  snapshot : Snapshot
  grantId : GrantId
  issuedAt : Date
  deriving DecidableEq, Repr

/-- The file of a report, outside any public path. -/
structure PdfPath where
  reportId : ReportId
  deriving DecidableEq, Repr

/-! ## Rows -/

structure DisclosureGrant where
  id : GrantId
  workerId : WorkerId
  recipientEmail : Option String
  accessMode : DisclosureAccessMode
  purpose : String
  level : DisclosureLevel
  /-- `fieldScope.thresholdUsdCents`, the LEVEL_1 criterion. -/
  thresholdUsdCents : Option Int
  dateRangeStart : Date
  dateRangeEnd : Date
  expiresAt : Date
  allowDownload : Bool
  revokedAt : Option Date
  accessTokenHash : Sha256
  deriving DecidableEq, Repr

structure VerificationReport where
  id : ReportId
  workerId : WorkerId
  disclosureGrantId : GrantId
  reportHash : ReportHash
  reportUri : Option PdfPath
  snapshot : Snapshot
  status : ReportStatus
  issuedAt : Date
  expiresAt : Date
  revokedAt : Option Date
  previousReportId : Option ReportId
  createdAt : Date
  /-- Not a column: the entries the snapshot was computed from, to say what a
  report rests on. -/
  basis : List EntryId
  deriving DecidableEq, Repr

structure DisclosureAccessLog where
  grantId : GrantId
  ip : Option String
  userAgent : Option String
  deriving DecidableEq, Repr

/-! ## The tables -/

/-- Access tokens are unique, and so are the links of a report chain. -/
structure Disclosures where
  grants : Table DisclosureGrant.id
  reports : Table VerificationReport.id
  accesses : List DisclosureAccessLog
  nextGrantId : GrantId
  nextReportId : ReportId
  freshGrant : ∀ g ∈ grants.rows, g.id < nextGrantId
  freshReport : ∀ r ∈ reports.rows, r.id < nextReportId
  oneGrant : ∀ g ∈ grants.rows, ∀ g' ∈ grants.rows,
    g.accessTokenHash = g'.accessTokenHash → g = g'

def Disclosures.empty : Disclosures where
  grants := ∅
  reports := ∅
  accesses := []
  nextGrantId := 1
  nextReportId := 1
  freshGrant := fun _ h => absurd h List.not_mem_nil
  freshReport := fun _ h => absurd h List.not_mem_nil
  oneGrant := fun _ h => absurd h List.not_mem_nil

end ServeProof
