import ServeProof.Calls
import ServeProof.Services.Disclosure
import ServeProof.Services.Income

/-!
# ServeProof.Requests

The platform as a whole: the calls of the settlement core, the income service
and the disclosure service, and the moves of the world around them.

Every call runs as a session of its own, under the number of its place in the
run.
-/

namespace ServeProof

open Interleave
open Prog (put)

inductive IncomeRequest where
  | rebuildVenue (venueId : VenueId) (actorUserId : Option UserId)
      (source : IncomeProjectionSource)
  | finalizeLegacy (allocationId : AllocationId) (rail : LegacyRail) (externalReference : String)
      (submittedByUserId : Option UserId) (now : Time)
  | finalizeSettled (payoutId : AllocationId) (slot : Option Nat)
  | correctEntry (entryId : EntryId) (actorUserId : UserId) (input : Correction)

inductive DisclosureRequest where
  | createGrant (userId : UserId) (input : GrantInput) (rawToken : String)
  | revokeGrant (userId : UserId) (grantId : GrantId)
  | issueReport (userId : UserId) (grantId : GrantId) (renderError : Option String)
  | getPdfPath (userId : UserId) (reportId : ReportId)
  | expireOverdue
  | requestRecipientOtp (rawToken code : String) (mailError : Option String)
  | verifyRecipientOtp (rawToken code accessToken : String)
  | verifyByToken (rawToken : String) (ip userAgent accessSession : Option String)

inductive Request where
  /-- A call of the settlement core, without the refresh some of them end in. -/
  | service (c : Call)
  | income (r : IncomeRequest)
  | disclosure (r : DisclosureRequest)

namespace Request

/-- Forget the result of a call. -/
def ignoreResult {α : Type} (p : Action α) : Action Unit := do let _ ← p

def incomeProg (session : Nat) : IncomeRequest → Action Unit
  | .rebuildVenue venueId by' source => ignoreResult (rebuildVenue session venueId by' source)
  | .finalizeLegacy p rail reference by' now =>
      ignoreResult (finalizeLegacy session p rail reference by' now)
  | .finalizeSettled p slot => finalizeSettled session p slot
  | .correctEntry id by' input => ignoreResult (correctEntry id by' input)

/-- The answer of `verifyByToken` goes out; of the other calls nothing is said
about what they answer. -/
def disclosureProg : DisclosureRequest → Action Unit
  | .createGrant user input token => ignoreResult (createGrant user input token)
  | .revokeGrant user grant => revokeGrant user grant
  | .issueReport user grant renderError => ignoreResult (issueReport user grant renderError)
  | .getPdfPath user report => ignoreResult (getPdfPath user report)
  | .expireOverdue => expireOverdue
  | .requestRecipientOtp token code mailError =>
      ignoreResult (requestRecipientOtp token code mailError)
  | .verifyRecipientOtp token code accessToken =>
      ignoreResult (verifyRecipientOtp token code accessToken)
  | .verifyByToken token ip agent accessSession => do
      let response ← verifyByToken token ip agent accessSession
      put (.answer response)

def prog [Collation] : Nat × Request → Action Unit
  | (_, service c) => settling c.prog
  | (session, income r) => incomeProg session r
  | (_, disclosure r) => disclosureProg r

end Request

inductive PlatformMove where
  | world (e : EnvMove)
  /-- A payroll record is imported. -/
  | payroll (row : PayrollRecord)
  /-- Time passes. -/
  | wait (milliseconds : Nat)

def PlatformMove.apply : PlatformMove → Platform → Platform
  | world e, s => { s with world := e.apply s.world }
  | payroll row, s => { s with books := (BooksWrite.savePayroll row).apply s.books }
  | wait ms, s => { s with clock := s.clock + ms }

/-- All calls. -/
def platform [Collation] : System Platform Command ApiError (Nat × Request) PlatformMove where
  apply := Command.apply
  prog := Request.prog
  env := PlatformMove.apply

/-- The moves of a run that the database grants. -/
abbrev Granted [Collation] (ms : List (Move Request PlatformMove)) (s : Platform) : Prop :=
  platform.Respects Command.Granted (fun _ _ => True) (number 0 ms) (Config.start s)

end ServeProof
