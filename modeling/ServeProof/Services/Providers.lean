import ServeProof.Accounts.TokenCrypto
import ServeProof.Interleave.Within
import ServeProof.Services.Backend

/-!
# ServeProof.Services.Providers

How a venue connects to Square.  A manager is sent to Square with a random state, whose hash the
connection of the venue keeps for ten minutes; whoever comes back with the state and a code from
Square connects the venue: the code is exchanged for tokens, and the connection keeps these
encrypted.

What Square answers, the random bytes and the configuration are arguments of the calls.
-/

namespace ServeProof

open Interleave
open Prog (get put putGet require orThrow)

/-! ## The store -/

inductive SquareEnvironment where
  | sandbox | production
  deriving DecidableEq, Repr

/-- The other columns of a connection. -/
structure SquareAuthorization where
  environment : SquareEnvironment
  merchantId : Option String
  oauthStateHash : Option String
  oauthStateExpiresAt : Option Time
  deriving DecidableEq, Repr

/-- The connections with their other columns, and the `externalIds` of the venues. -/
structure Providers where
  backend : Backend
  authorizations : ProviderConnectionId → SquareAuthorization
  externalIds : VenueId → List (String × String)

namespace Providers

def updateConnection (s : Providers) (id : ProviderConnectionId)
    (f : ProviderConnection → ProviderConnection) : Providers :=
  { s with backend := s.backend.updateConnection id f }

def updateAuthorization (s : Providers) (id : ProviderConnectionId)
    (f : SquareAuthorization → SquareAuthorization) : Providers :=
  { s with authorizations := Function.update s.authorizations id (f (s.authorizations id)) }

/-- The connection waits for this state. -/
def Awaits (s : Providers) (id : ProviderConnectionId) (stateHash : String) : Prop :=
  (s.backend.connections.find id).isSome ∧
    (s.authorizations id).oauthStateHash = some stateHash

instance (s : Providers) (id : ProviderConnectionId) (stateHash : String) :
    Decidable (s.Awaits id stateHash) :=
  inferInstanceAs (Decidable (_ ∧ _))

/-- The Square connection that waits for the state, which has not expired, and the `externalIds`
of its venue. -/
def awaiting (s : Providers) (stateHash : String) (now : Time) :
    Option (ProviderConnection × List (String × String)) :=
  (s.backend.connections.rows.find? fun c : ProviderConnection =>
    decide (c.id.provider = SquareClient.provider ∧
      (s.authorizations c.id).oauthStateHash = some stateHash ∧
      ∃ t ∈ (s.authorizations c.id).oauthStateExpiresAt, now < t)).map
      fun c => (c, s.externalIds c.id.venueId)

end Providers

/-- What is written when a venue has connected. -/
structure SquareConnected where
  merchantId : String
  locationId : String
  tokens : StoredTokens
  externalIds : List (String × String)
  deriving DecidableEq, Repr

inductive ProvidersCommand where
  | backend (c : BackendCommand)
  /-- A manager is sent to Square. -/
  | authorize (id : ProviderConnectionId) (environment : SquareEnvironment)
      (locationId : Option String) (stateHash : String) (expiresAt : Time)
  /-- A state is used, if the connection still waits for it. -/
  | consumeState (id : ProviderConnectionId) (stateHash : String)
  | refused (id : ProviderConnectionId) (error : String)
  | connected (id : ProviderConnectionId) (c : SquareConnected)

/-- The row of a connection that is authorized, where `found` is the row before.  The tokens stay,
and so does the location where none is asked for. -/
def ProviderConnection.authorized (id : ProviderConnectionId) (locationId : Option String) :
    Option ProviderConnection → ProviderConnection
  | some c =>
      { c with status := .pending, locationId := locationId.or c.locationId, lastError := none }
  | none =>
      { id := id
        status := .pending
        locationId := locationId
        encryptedAccessToken := none
        encryptedRefreshToken := none
        tokenExpiresAt := none
        lastSyncStartedAt := none
        lastSyncSucceededAt := none
        lastSyncFailedAt := none
        lastError := none
        consecutiveFailures := 0 }

theorem ProviderConnection.id_authorized (s : Table ProviderConnection.id)
    (id : ProviderConnectionId) (locationId : Option String) :
    (authorized id locationId (s.find id)).id = id := by
  cases h : s.find id with
  | none => rfl
  | some c =>
      have hid : c.id = id := Table.key_of_find h
      exact hid

def ProvidersCommand.apply : ProvidersCommand → Providers → Providers
  | backend c, s => { s with backend := c.apply s.backend }
  | authorize id environment locationId stateHash expiresAt, s =>
      let found := s.backend.connections.find id
      { s with
        backend :=
          { s.backend with
            connections := s.backend.connections.set (.authorized id locationId found) }
        authorizations := Function.update s.authorizations id
          { environment := environment
            merchantId := found.bind fun _ => (s.authorizations id).merchantId
            oauthStateHash := some stateHash
            oauthStateExpiresAt := some expiresAt } }
  | consumeState id stateHash, s =>
      if s.Awaits id stateHash then
        s.updateAuthorization id fun a =>
          { a with oauthStateHash := none, oauthStateExpiresAt := none }
      else s
  | refused id error, s =>
      s.updateConnection id fun c => { c with status := .error, lastError := some error }
  | connected id done, s =>
      { (s.updateConnection id fun c =>
          { c with
            status := .connected
            locationId := some done.locationId
            encryptedAccessToken := some done.tokens.encryptedAccessToken
            encryptedRefreshToken := done.tokens.encryptedRefreshToken
            tokenExpiresAt := done.tokens.tokenExpiresAt
            lastError := none
            consecutiveFailures := 0 }).updateAuthorization id fun a =>
              { a with merchantId := some done.merchantId } with
        externalIds := Function.update s.externalIds id.venueId done.externalIds }

/-- The program of a call that connects, or of one that syncs. -/
abbrev ProvidersAction (α : Type) := Prog Providers ProvidersCommand ApiError α

/-- A program of the backend. -/
def onBackend {α : Type} (p : BackendAction α) : ProvidersAction α :=
  p.lift Providers.backend .backend

/-! ## createSquareAuthorization -/

structure ProviderConfig where
  environment : SquareEnvironment
  appId : String
  redirectUri : String
  encryptionSecret : String
  deriving DecidableEq, Repr

def providerNotConfigured : ApiError :=
  .internal "Square OAuth or provider encryption is not configured"

def apiBase : SquareEnvironment → String
  | .sandbox => "https://connect.squareupsandbox.com"
  | .production => "https://connect.squareup.com"

/-- An address, with the parameters of its query. -/
structure QueryUrl where
  address : String
  searchParams : List (String × String)
  deriving DecidableEq, Repr

def squareAuthorizationUrl (config : ProviderConfig) (state : String) : QueryUrl where
  address := apiBase config.environment ++ "/oauth2/authorize"
  searchParams :=
    [("client_id", config.appId),
      ("scope", "MERCHANT_PROFILE_READ PAYMENTS_READ ORDERS_READ TIMECARDS_READ"),
      ("session", "false"), ("state", state), ("redirect_uri", config.redirectUri)]

/-- A state is good for ten minutes. -/
def stateLifetime : Time := 10 * 60000

def createSquareAuthorization (config : Option ProviderConfig) (stateHash : String → String)
    (state : String) (venueId : VenueId) (locationId : Option String) (now : Time) :
    ProvidersAction QueryUrl := do
  let config ← orThrow config providerNotConfigured
  put (.authorize ⟨venueId, SquareClient.provider⟩ config.environment locationId (stateHash state)
    (now + stateLifetime))
  return squareAuthorizationUrl config state

/-! ## completeSquareAuthorization -/

structure SquareTokenResponse extends SquareTokens where
  merchantId : String
  deriving DecidableEq, Repr

structure SquareLocation where
  id : String
  name : Option String
  status : Option String
  timezone : Option String
  deriving DecidableEq, Repr

/-- What lies outside a call that connects: the configuration, what Square answers, and the
random bytes of the two envelopes. -/
structure SquareOAuth where
  config : Option ProviderConfig
  obtainToken : (code : String) → Except SyncError SquareTokenResponse
  listLocations : (accessToken : String) → Except SyncError (List SquareLocation)
  accessIv : List UInt8
  refreshIv : List UInt8

structure SquareCallback where
  state : Option String
  code : Option String
  error : Option String
  errorDescription : Option String
  deriving DecidableEq, Repr

/-- The location that was asked for, or else an active one, or else the first. -/
def selectLocation (asked : Option String) (locations : List SquareLocation) :
    Option SquareLocation :=
  match present asked with
  | some id => locations.find? fun l => decide (l.id = id)
  | none => (locations.find? fun l => decide (l.status = some "ACTIVE")).or locations.head?

/-- What is stored of the tokens; an old refresh token stays where there is no new one. -/
def SquareOAuth.stored (square : SquareOAuth) (gcm : Gcm) (config : ProviderConfig)
    (connection : ProviderConnection) (tokens : SquareTokens) : Except String StoredTokens := do
  let access ← encryptProviderToken gcm square.accessIv tokens.accessToken config.encryptionSecret
  let refresh ← (present tokens.refreshToken).mapM fun token =>
    encryptProviderToken gcm square.refreshIv token config.encryptionSecret
  return {
    encryptedAccessToken := access
    encryptedRefreshToken := refresh.or connection.encryptedRefreshToken
    tokenExpiresAt := tokens.expiresAt }

/-- The tokens a code is exchanged for, and the location the venue connects to with them. -/
def SquareOAuth.exchange (square : SquareOAuth) (connection : ProviderConnection)
    (code : String) : Except ApiError (SquareTokenResponse × SquareLocation) := do
  let tokens ← (square.obtainToken code).mapError fun e => .internal e.message
  let locations ← (square.listLocations tokens.accessToken).mapError fun e => .internal e.message
  match selectLocation connection.locationId locations with
  | some location => return (tokens, location)
  | none => throw (.badRequest "Square seller has no accessible location")

structure SquareConnection where
  venueId : VenueId
  merchantId : String
  location : SquareLocation
  deriving DecidableEq, Repr

/-- The code is exchanged and the venue is connected. -/
def SquareOAuth.connect (square : SquareOAuth) (gcm : Gcm) (connection : ProviderConnection)
    (externalIds : List (String × String)) (code : String) :
    ProvidersAction SquareConnection := do
  let config ← orThrow square.config providerNotConfigured
  let (tokens, location) ← Prog.ofExcept (square.exchange connection code)
  let stored ← Prog.ofExcept
    ((square.stored gcm config connection tokens.toSquareTokens).mapError .internal)
  put (.connected connection.id {
    merchantId := tokens.merchantId
    locationId := location.id
    tokens := stored
    externalIds := (externalIds.filter fun p => decide (p.1 ≠ SquareClient.provider)) ++
      [(SquareClient.provider, location.id)] })
  return { venueId := connection.id.venueId, merchantId := tokens.merchantId, location := location }

/-- Who comes back from Square presents a state, which is used up, and then a code, or the
error for which there is none. -/
def completeSquareAuthorization (gcm : Gcm) (stateHash : String → String) (square : SquareOAuth)
    (input : SquareCallback) (now : Time) : ProvidersAction SquareConnection := do
  let state ← orThrow (present input.state) (.badRequest "Missing OAuth state")
  let found ← get fun s => s.awaiting (stateHash state) now
  let (connection, externalIds) ← orThrow found (.badRequest "OAuth state is invalid or expired")
  let consumed ← putGet (.consumeState connection.id (stateHash state)) fun s =>
    decide (s.Awaits connection.id (stateHash state))
  require (consumed = true) (.badRequest "OAuth state was already used")
  match present input.error with
  | some error => do
      put (.refused connection.id error)
      Prog.throw (.badRequest (input.errorDescription.getD error))
  | none => do
      let code ← orThrow (present input.code) (.badRequest "Missing OAuth authorization code")
      square.connect gcm connection externalIds code

/-! ## The calls, one after another -/

inductive ProvidersCall where
  | createSquareAuthorization (config : Option ProviderConfig) (state : String)
      (venueId : VenueId) (locationId : Option String) (now : Time)
  | completeSquareAuthorization (square : SquareOAuth) (input : SquareCallback) (now : Time)
  | sync (square : SquareApi) (venueId : VenueId) (now : Time)

def ProvidersCall.prog (gcm : Gcm) (stateHash : String → String) :
    ProvidersCall → ProvidersAction Unit
  | .createSquareAuthorization config state venueId locationId now => do
      let _ ← ServeProof.createSquareAuthorization config stateHash state venueId locationId now
  | .completeSquareAuthorization square input now => do
      let _ ← ServeProof.completeSquareAuthorization gcm stateHash square input now
  | .sync square venueId now => do let _ ← onBackend (ServeProof.sync square venueId now)

/-- Calls of `calls`; around them the platform changes in whatever way. -/
def providers (gcm : Gcm) (stateHash : String → String) (calls : Set ProvidersCall) :
    System Providers ProvidersCommand ApiError (Nat × calls) (Platform → Platform) where
  apply := ProvidersCommand.apply
  prog call := call.2.val.prog gcm stateHash
  env change s := { s with backend := { s.backend with platform := change s.backend.platform } }

end ServeProof
