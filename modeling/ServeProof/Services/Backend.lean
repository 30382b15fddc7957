import ServeProof.Services.Operations
import ServeProof.Services.SquareSync

/-!
# ServeProof.Services.Backend

The platform and the connections of its venues to Square: the sync of a
connection, and the alert that a connection has not been synced for a day.

What Square answers, how tokens are encrypted, and whether the service is
configured at all, are parameters of a sync (`SquareApi`).
-/

namespace ServeProof

open Interleave
open Prog (get put orThrow forEach)

/-! ## Connections -/

inductive ProviderConnectionStatus where
  | pending | connected | error | revoked
  deriving DecidableEq, Repr

structure ProviderConnectionId where
  venueId : VenueId
  provider : String
  deriving DecidableEq, Repr

structure ProviderConnection where
  id : ProviderConnectionId
  status : ProviderConnectionStatus
  locationId : Option String
  encryptedAccessToken : Option String
  encryptedRefreshToken : Option String
  tokenExpiresAt : Option Time
  lastSyncStartedAt : Option Time
  lastSyncSucceededAt : Option Time
  lastSyncFailedAt : Option Time
  lastError : Option String
  consecutiveFailures : Nat
  deriving DecidableEq, Repr

/-- What is stored of new tokens. -/
structure StoredTokens where
  encryptedAccessToken : String
  encryptedRefreshToken : Option String
  tokenExpiresAt : Option Time
  deriving DecidableEq, Repr

/-- How a sync fails. -/
inductive SyncError where
  | squareApi (message : String) (status : Nat)
  | other (message : String)
  deriving DecidableEq, Repr

namespace SyncError

def message : SyncError → String
  | squareApi message _ => message
  | other message => message

/-- What is stored of an error. -/
def safeMessage : SyncError → String
  | squareApi _ status => s!"Square API {status}"
  | other message => (message.take 300).toString

end SyncError

/-! ## Alerts -/

/-- The alert is of type `STALE_PROVIDER_DATA`. -/
def Discrepancy.isStaleProviderData : Discrepancy → Bool
  | staleProviderData .. => true
  | _ => false

namespace DiscrepancyAlert

/-- An unresolved alert that the data of the venue is stale. -/
def IsStale (venueId : VenueId) (a : DiscrepancyAlert) : Prop :=
  a.venueId = venueId ∧ a.resolvedAt = none ∧ a.discrepancy.isStaleProviderData = true

instance (venueId : VenueId) (a : DiscrepancyAlert) : Decidable (a.IsStale venueId) :=
  inferInstanceAs (Decidable (_ ∧ _))

/-- A stale alert of the venue is resolved. -/
def resolve (venueId : VenueId) (now : Time) (a : DiscrepancyAlert) : DiscrepancyAlert :=
  if a.IsStale venueId then { a with resolvedAt := some now } else a

end DiscrepancyAlert

/-! ## The store -/

structure Backend where
  platform : Platform
  connections : Table ProviderConnection.id

inductive BackendCommand where
  | platform (c : Command)
  | startSync (id : ProviderConnectionId) (now : Time)
  | storeTokens (id : ProviderConnectionId) (tokens : StoredTokens)
  /-- A sync has succeeded; the stale alerts of its venue are resolved. -/
  | syncSucceeded (id : ProviderConnectionId) (now : Time)
  | syncFailed (id : ProviderConnectionId) (now : Time) (error : SyncError)

namespace Backend

def updateConnection (s : Backend) (id : ProviderConnectionId)
    (f : ProviderConnection → ProviderConnection) : Backend :=
  { s with connections := s.connections.update id f }

def mapAlerts (s : Backend) (f : DiscrepancyAlert → DiscrepancyAlert) : Backend :=
  { s with
    platform :=
      { s.platform with
        books := { s.platform.books with alerts := s.platform.books.alerts.map f } } }

def alerts (s : Backend) : List DiscrepancyAlert := s.platform.books.alerts

/-- The connections that have not been synced for a day. -/
def staleConnections (s : Backend) (now : Time) : List ProviderConnection :=
  s.connections.rows.filter fun c => decide (c.id.provider = SquareClient.provider ∧
    c.status ∈ [.connected, .error] ∧
    ∀ t ∈ c.lastSyncSucceededAt, t + 24 * 60 * 60 * 1000 < now)

end Backend

def BackendCommand.apply : BackendCommand → Backend → Backend
  | platform c, s => { s with platform := c.apply s.platform }
  | startSync id now, s => s.updateConnection id fun c => { c with lastSyncStartedAt := some now }
  | storeTokens id tokens, s =>
      s.updateConnection id fun c =>
        { c with
          encryptedAccessToken := some tokens.encryptedAccessToken
          encryptedRefreshToken := tokens.encryptedRefreshToken
          tokenExpiresAt := tokens.tokenExpiresAt
          status := .connected }
  | syncSucceeded id now, s =>
      (s.updateConnection id fun c =>
        { c with
          status := .connected
          lastSyncSucceededAt := some now
          lastError := none
          consecutiveFailures := 0 }).mapAlerts (DiscrepancyAlert.resolve id.venueId now)
  | syncFailed id now error, s =>
      s.updateConnection id fun c =>
        { c with
          status := .error
          lastSyncFailedAt := some now
          lastError := some error.safeMessage
          consecutiveFailures := c.consecutiveFailures + 1 }

/-- The program of a call of the backend. -/
abbrev BackendAction (α : Type) := Prog Backend BackendCommand ApiError α

/-- A program of the platform. -/
def onPlatform {α : Type} (p : Action α) : BackendAction α := p.lift Backend.platform .platform

/-! ## sync -/

structure SquareTokens where
  accessToken : String
  refreshToken : Option String
  expiresAt : Option Time
  deriving DecidableEq, Repr

structure SquareEvidence where
  cardTips : List ProviderTipEvidence
  cashTips : List ProviderTipEvidence
  shifts : List ProviderShiftEvidence
  deriving DecidableEq, Repr

/-- What lies outside: the configuration, the cipher of the tokens, and what Square
answers, to the first request and to the one after a refresh of the tokens. -/
structure SquareApi where
  configured : Bool
  decrypt : String → Except SyncError String
  encrypt : String → String
  obtainToken : String → Except SyncError SquareTokens
  fetch : (retry : Bool) → (accessToken locationId : String) → Except SyncError SquareEvidence

namespace SquareApi

variable (square : SquareApi) (connection : ProviderConnection)

def missingToken : SyncError := .other "Square access token is missing"

/-- The access token of a connection, and new tokens where they are asked for or
the old ones expire within a day. -/
def tokensOf (forceRefresh : Bool) (now : Time) :
    Except SyncError (Option String × Option SquareTokens) := do
  if square.configured = false then throw (.other "Square provider configuration is incomplete")
  let accessToken ← (present connection.encryptedAccessToken).mapM square.decrypt
  let shouldRefresh := forceRefresh = true ∨
    ∃ t ∈ connection.tokenExpiresAt, t < now + 24 * 60 * 60 * 1000
  match (present connection.encryptedRefreshToken).filter fun _ => shouldRefresh with
  | none => return (accessToken, none)
  | some token => do
      let refreshToken ← square.decrypt token
      let tokens ← square.obtainToken refreshToken
      return (some tokens.accessToken, some tokens)

/-- What is stored of new tokens; an old refresh token stays where there is no new
one. -/
def stored (tokens : SquareTokens) : StoredTokens where
  encryptedAccessToken := square.encrypt tokens.accessToken
  encryptedRefreshToken :=
    ((present tokens.refreshToken).map square.encrypt).or connection.encryptedRefreshToken
  tokenExpiresAt := tokens.expiresAt

/-- An access token to fetch with. -/
def client (forceRefresh : Bool) (now : Time) : BackendAction (Except SyncError String) :=
  match square.tokensOf connection forceRefresh now with
  | .error e => return .error e
  | .ok (accessToken, refreshed) => do
      match refreshed with
      | none => pure ()
      | some tokens => put (.storeTokens connection.id (square.stored connection tokens))
      return match present accessToken with
        | some accessToken => .ok accessToken
        | none => .error missingToken

/-- A rejected token is refreshed once. -/
def fetchEvidence (locationId : String) (now : Time) :
    BackendAction (Except SyncError SquareEvidence) := do
  let opened ← square.client connection false now
  match opened with
  | .error e => return .error e
  | .ok accessToken =>
      match square.fetch false accessToken locationId with
      | .ok evidence => return .ok evidence
      | .error (.other message) => return .error (.other message)
      | .error (.squareApi message status) =>
          if status = 401 ∧ (present connection.encryptedRefreshToken).isSome then do
            let reopened ← square.client connection true now
            match reopened with
            | .error e => return .error e
            | .ok accessToken => return square.fetch true accessToken locationId
          else return .error (.squareApi message status)

end SquareApi

/-- The connection of a venue to Square, with its location. -/
def Backend.connected (s : Backend) (venueId : VenueId) :
    Option (ProviderConnection × String) := do
  let connection ← s.connections.find ⟨venueId, SquareClient.provider⟩
  let locationId ← present connection.locationId
  if connection.status = .revoked then none else some (connection, locationId)

/-- A sync stores what it has fetched and resolves the stale alerts of the venue; a
failure is recorded and thrown.  The result is the number of tips and shifts. -/
def sync (square : SquareApi) (venueId : VenueId) (now : Time) : BackendAction (Nat × Nat) := do
  let found ← get fun s => s.connected venueId
  let (connection, locationId) ← orThrow found
    (.internal "Connected Square provider not found for venue")
  put (.startSync connection.id now)
  let evidence ← square.fetchEvidence connection locationId now
  match evidence with
  | .error e => do
      put (.syncFailed connection.id now e)
      Prog.throw (.internal e.message)
  | .ok evidence => do
      let tips := evidence.cardTips ++ evidence.cashTips
      onPlatform (settling (persist venueId tips evidence.shifts))
      put (.syncSucceeded connection.id now)
      return (tips.length, evidence.shifts.length)

/-! ## flagStaleConnections -/

def ProviderConnection.staleAlert (c : ProviderConnection) : DiscrepancyAlert where
  workerId := none
  venueId := c.id.venueId
  shiftId := none
  discrepancy := .staleProviderData SquareClient.provider c.lastSyncSucceededAt
  resolvedAt := none

def flagStaleConnections (now : Time) : BackendAction Nat := do
  let stale ← get fun s => s.staleConnections now
  forEach stale fun connection => do
    let existing ← get fun s => s.alerts.any fun a => decide (a.IsStale connection.id.venueId)
    if existing = true then pure ()
    else put (.platform (.books (.createAlerts [connection.staleAlert])))
  return stale.length

/-! ## The backend as a whole -/

inductive BackendCall where
  | flagStaleConnections (now : Time)
  | sync (square : SquareApi) (venueId : VenueId) (now : Time)
  | rebuildVenue (venueId : VenueId) (actorUserId : Option UserId)
      (source : IncomeProjectionSource)
  | importRecords (workerOfEmail : String → Option WorkerId) (venueId : VenueId)
      (records : List PayrollImportRecord)
  | payout (c : PayoutCall)
  | worker (c : WorkerCall)
  | backfillFinalizedIncomeProjections

def BackendCall.prog : BackendCall → BackendAction Unit
  | .flagStaleConnections now => do let _ ← ServeProof.flagStaleConnections now
  | .sync square venueId now => do let _ ← ServeProof.sync square venueId now
  | .rebuildVenue venueId by' source =>
      onPlatform (Request.ignoreResult (ServeProof.rebuildVenue 0 venueId by' source))
  | .importRecords workerOfEmail venueId records =>
      onPlatform (Request.ignoreResult (ServeProof.importRecords workerOfEmail 0 venueId records))
  | .payout c => onPlatform (payoutOperation 0 c)
  | .worker c => onPlatform (workerJob 0 c)
  | .backfillFinalizedIncomeProjections =>
      onPlatform (ServeProof.backfillFinalizedIncomeProjections 0)

/-- What happens around the calls. -/
inductive BackendMove where
  | platform (e : PlatformMove)
  /-- A venue connects to Square, chooses its location or revokes. -/
  | connect (row : ProviderConnection)

def BackendMove.apply : BackendMove → Backend → Backend
  | platform e, s => { s with platform := e.apply s.platform }
  | connect row, s => { s with connections := s.connections.set row }

/-- The calls, one after another. -/
def backend : System Backend BackendCommand ApiError BackendCall BackendMove where
  apply := BackendCommand.apply
  prog := BackendCall.prog
  env := BackendMove.apply

end ServeProof
