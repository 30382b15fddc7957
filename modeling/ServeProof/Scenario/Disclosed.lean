import ServeProof.Requests
import ServeProof.Scenario

/-!
# ServeProof.Scenario.Disclosed

A worker with an income ledger over two months, who grants access to it: the
setting of the concrete runs about the ledger and what is disclosed of it.
-/

namespace ServeProof

open Interleave

namespace Scenario

/-- A shift of the next month. -/
def laterShift : ShiftEvidence :=
  { shift with
    id := ⟨venue, "square", "later-shift"⟩
    businessDate := "2026-08-01" }

/-- The world of the scenario before any tips are shared. -/
def evidence : World :=
  (opening ++ [EnvMove.record (.saveShift laterShift)]).foldl (fun w e => e.apply w) World.empty

/-- An entry over one shift of which only the share of the worker is known. -/
def entryOf (shiftId : ShiftId) (allocatedUsdCents : Int) : EntryData where
  workerId := worker
  venueId := venue
  shiftId := some shiftId
  payoutId := none
  earnedUsdCents := allocatedUsdCents
  allocatedUsdCents := allocatedUsdCents
  paidUsdCents := 0
  payrollReportedUsdCents := 0
  withholdingStatus := .unknown
  payoutRail := none
  evidenceGrade := .d

/-- A grant over the year 2026. -/
def newGrant (level : DisclosureLevel) (accessMode : DisclosureAccessMode) : NewGrant where
  workerId := worker
  purpose := "loan"
  level := level
  thresholdUsdCents := some 100
  dateRangeStart := 1767225600000
  dateRangeEnd := 1798761600000
  expiresAt := 1000000
  allowDownload := false
  recipientEmail := some "recipient@example.test"
  accessMode := accessMode
  accessTokenHash := ⟨"token"⟩

/-- Two entries, of these amounts, and a grant. -/
def granted (first second : Int) (level : DisclosureLevel) (accessMode : DisclosureAccessMode) :
    Platform :=
  let s := Platform.fresh evidence 0 "key"
  { s with
    books := [entryOf shift.id first, entryOf laterShift.id second].foldl
      (fun b data => (BooksWrite.createEntry data).apply b) s.books
    disclosures := (DisclosureWrite.createGrant (newGrant level accessMode)).apply 0 s.disclosures }

/-! ## A run of calls -/

/-- The request for the grant of the scenario. -/
def grantInput (level : DisclosureLevel) (accessMode : DisclosureAccessMode) : GrantInput where
  purpose := "loan"
  level := level
  dateRangeStart := 1767225600000
  dateRangeEnd := 1798761600000
  expiresAt := 1000000
  recipientEmail := some "recipient@example.test"
  accessMode := some accessMode
  allowDownload := none
  thresholdUsdCents := some 100

def createGrantCall (level : DisclosureLevel) (accessMode : DisclosureAccessMode) : Request :=
  .disclosure (.createGrant "worker-user" (grantInput level accessMode) "token")

def issueCall : Request := .disclosure (.issueReport "worker-user" 1 none)

def revokeCall : Request := .disclosure (.revokeGrant "worker-user" 1)

/-- A report is issued under a new grant. -/
def issued : List (Op (Nat × Request) PlatformMove) :=
  [.call (0, createGrantCall .level2 .link), .call (1, issueCall)]

def start : Platform := Platform.fresh evidence 0 "key"

/-! ## Calls that overlap -/

/-- The ledger of the venue is rebuilt. -/
def rebuilt : List (Move Request PlatformMove) :=
  .call (.income (.rebuildVenue venue none .manual)) :: List.replicate 16 (.step 0)

/-- The worker has been paid nothing after all. -/
def correctCall (entryId : EntryId) (reason : String) : Request :=
  .income (.correctEntry entryId owner ⟨reason, none, some 0, none, none⟩)

end Scenario
end ServeProof
