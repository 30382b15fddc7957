import ServeProof.Interleave.Sessions
import ServeProof.Web.Storage

/-!
# ServeProof.Web.Client

The web client in the tabs of one browser, with the auth service it talks to.

A synchronous piece of client code is one commit.  What stands between two of
them -- a request on its way, a lock that is waited for -- is open to the other
tabs and to whoever else talks to the server.  `navigator.locks` is there: a
lock is granted when no call holds it.

How a request fares (`Delivery`) is an argument of the calls.
-/

namespace ServeProof

open Interleave
open Prog (get put putGet require orThrow)

/-- The browser and the server. -/
structure Web where
  server : AuthStore
  storage : WebStorage
  /-- The call that holds `serveproof-refresh-<id>`. -/
  lock : UserId → Option Nat
  /-- The refresh token that is on its way to the server. -/
  sent : UserId → Option String
  /-- The refresh of a session that is under way in a tab, by its call. -/
  refreshPromises : TabId → UserId → Option Nat
  settled : Nat → Option Bool

namespace Web

def clock (s : Web) : Date := s.server.clock

/-- A browser where no refresh is under way. -/
def idle (server : AuthStore) (storage : WebStorage) : Web where
  server := server
  storage := storage
  lock := fun _ => none
  sent := fun _ => none
  refreshPromises := fun _ _ => none
  settled := fun _ => none

end Web

namespace WebStorage

variable (w : WebStorage)

/-- The session that a refresh is for. -/
def refreshedSession (tab : TabId) (page : Option AppMode) (stale : Option Jwt) :
    Option StoredSession × WebStorage :=
  match stale.bind w.sessionOfToken with
  | some session => (some session, w)
  | none => w.currentSession tab page

/-- What a refresh finds when it has the lock. -/
inductive Found where
  /-- Another refresh has come first. -/
  | current
  | missing
  | attempt (refreshToken : String)
  deriving DecidableEq, Repr

def found (id : UserId) (stale : Option Jwt) : Found :=
  if stale.isSome ∧ (w.accessToken id).isSome ∧ w.accessToken id ≠ stale then .current
  else
    match w.refreshToken id with
    | none => .missing
    | some refreshToken => .attempt refreshToken

/-- The session has other tokens than the one that was attempted. -/
def Replaced (id : UserId) (attempted : String) : Prop :=
  (w.refreshToken id).isSome ∧ w.refreshToken id ≠ some attempted ∧ (w.accessToken id).isSome

instance (id : UserId) (attempted : String) : Decidable (w.Replaced id attempted) :=
  inferInstanceAs (Decidable (_ ∧ _ ∧ _))

/-- The mode that a session is shown in. -/
def modeFor (tab : TabId) (wanted : Option AppMode) (session : StoredSession) : AppMode :=
  ((wanted.filter fun m => decide (m ∈ session.modes)).or
    ((w.activeMode tab).filter fun m => decide (m ∈ session.modes))).getD session.defaultMode

def activateSession (tab : TabId) (id : UserId) (requested : Option AppMode) : WebStorage :=
  match w.findSession id with
  | none => w
  | some session =>
      { w with
        activeSession := Function.update w.activeSession tab (some id)
        activeMode := Function.update w.activeMode tab (some (w.modeFor tab requested session))
        lastSession := some id
        lastFor := Function.update w.lastFor (w.modeFor tab requested session) (some id) }

def switchAppMode (tab : TabId) (page : Option AppMode) (mode : AppMode) : WebStorage :=
  let current := w.currentSession tab page
  match current.1.filter fun session => decide (mode ∈ session.modes) with
  | none => current.2
  | some session =>
      { current.2 with
        activeMode := Function.update current.2.activeMode tab (some mode)
        lastFor := Function.update current.2.lastFor mode (some session.id) }

end WebStorage

/-! ## The commands -/

inductive WebCommand where
  /-- A command of the server for a request of this browser. -/
  | server (c : AuthCommand)
  /-- The same for anyone else. -/
  | elsewhere (c : AuthCommand)
  /-- A tab looks up its session. -/
  | choose (tab : TabId) (page : Option AppMode)
  | startRefresh (call : Nat) (tab : TabId) (page : Option AppMode) (stale : Option Jwt)
  | lock (call : Nat) (id : UserId)
  /-- With the lock: send the refresh token, or give the session up that has none. -/
  | present (tab : TabId) (id : UserId) (stale : Option Jwt)
  | persist (tab : TabId) (tokens : TokenPair) (iat : Date)
  /-- The server has refused the token. -/
  | refused (tab : TabId) (id : UserId) (attempted : String)
  /-- The server has answered, and the answer is lost. -/
  | lose (id : UserId)
  | unlock (call : Nat) (id : UserId)
  | settle (call : Nat) (tab : TabId) (id : UserId) (result : Bool)
  /-- Wait for the refresh of another call. -/
  | await (call : Nat)
  | syncModes (session : StoredSession) (email : String) (modes : List AppMode)
  | enterMode (tab : TabId) (mode : AppMode)
  | activate (tab : TabId) (id : UserId) (requested : Option AppMode)
  | switchMode (tab : TabId) (page : Option AppMode) (mode : AppMode)
  /-- The user signs out. -/
  | signOut (tab : TabId) (id : UserId)

namespace WebCommand

/-- With the lock, a token that is found goes out. -/
def applyPresent (tab : TabId) (id : UserId) (stale : Option Jwt) (s : Web) : Web :=
  match s.storage.found id stale with
  | .current => s
  | .missing => { s with storage := s.storage.removeSession tab id }
  | .attempt refreshToken => { s with sent := Function.update s.sent id (some refreshToken) }

/-- Register the refresh, unless the tab has one of the session already. -/
def applyStartRefresh (call : Nat) (tab : TabId) (page : Option AppMode)
    (stale : Option Jwt) (s : Web) : Web :=
  let chosen := s.storage.refreshedSession tab page stale
  match chosen.1.filter fun session => decide (s.refreshPromises tab session.id = none) with
  | none => { s with storage := chosen.2 }
  | some session =>
      { s with
        storage := chosen.2
        refreshPromises := Function.update s.refreshPromises tab
          (Function.update (s.refreshPromises tab) session.id (some call)) }

def apply : WebCommand → Web → Web
  | server c, s => { s with server := c.apply s.server }
  | elsewhere c, s => { s with server := c.apply s.server }
  | choose tab page, s => { s with storage := (s.storage.currentSession tab page).2 }
  | startRefresh call tab page stale, s => applyStartRefresh call tab page stale s
  | lock call id, s => { s with lock := Function.update s.lock id (some call) }
  | present tab id stale, s => applyPresent tab id stale s
  | persist tab tokens iat, s =>
      { s with storage := s.storage.persistSession tab tokens iat s.clock }
  | refused tab id attempted, s =>
      if s.storage.Replaced id attempted then s
      else { s with storage := s.storage.removeSession tab id }
  | lose _, s => s
  | unlock call id, s =>
      if s.lock id = some call then
        { s with
          lock := Function.update s.lock id none
          sent := Function.update s.sent id none }
      else s
  | settle call tab id result, s =>
      { s with
        refreshPromises :=
          Function.update s.refreshPromises tab (Function.update (s.refreshPromises tab) id none)
        settled := Function.update s.settled call (some result) }
  | await _, s => s
  | syncModes session email modes, s =>
      { s with storage := s.storage.syncModes session email modes }
  | enterMode tab mode, s =>
      { s with storage := { s.storage with
          activeMode := Function.update s.storage.activeMode tab (some mode) } }
  | activate tab id requested, s =>
      { s with storage := s.storage.activateSession tab id requested }
  | switchMode tab page mode, s => { s with storage := s.storage.switchAppMode tab page mode }
  | signOut tab id, s => { s with storage := s.storage.removeSession tab id }

/-- The browser grants a lock that no call holds, and wakes a call when the
promise it waits for is settled. -/
def Granted : WebCommand → Web → Prop
  | lock _ id, s => s.lock id = none
  | await call, s => (s.settled call).isSome
  | _, _ => True

instance (c : WebCommand) (s : Web) : Decidable (c.Granted s) := by
  unfold Granted
  split <;> infer_instance

end WebCommand

/-! ## The client -/

abbrev WebAction (α : Type) := Prog Web WebCommand ApiError α

/-- A request of this browser to the server. -/
def atServer {α : Type} (p : AuthAction α) : WebAction α := p.lift Web.server .server

/-- An answer comes with the time at which its access token was signed. -/
inductive Delivery where
  | delivered (iat : Date) | requestLost | responseLost
  deriving DecidableEq, Repr

/-- What a refresh does under the lock. -/
def refreshLocked (tab : TabId) (id : UserId) (stale : Option Jwt) (newToken : String)
    (delivery : Delivery) : WebAction Bool := do
  let found ← putGet (.present tab id stale) fun s => s.storage.found id stale
  match found, delivery with
  | .current, _ => return true
  | .missing, _ => return false
  | .attempt _, .requestLost => return false
  | .attempt attempted, .responseLost => do
      let _ ← (atServer (refresh attempted newToken)).attempt
      put (.lose id)
      return false
  | .attempt attempted, .delivered iat => do
      let response ← (atServer (refresh attempted newToken)).attempt
      match response with
      | .ok tokens => do
          put (.persist tab tokens iat)
          return true
      | .error _ =>
          putGet (.refused tab id attempted) fun s => decide (s.storage.Replaced id attempted)

/-- One refresh of a session at a time in a tab, and one at a time in the browser. -/
def refreshSession (call : Nat) (tab : TabId) (page : Option AppMode) (stale : Option Jwt)
    (newToken : String) (delivery : Delivery) : WebAction Bool := do
  let chosen ← putGet (.startRefresh call tab page stale) fun s =>
    (s.storage.refreshedSession tab page stale).1.map fun session =>
      (session.id, s.refreshPromises tab session.id)
  match chosen with
  | none => return false
  | some (_, some earlier) => do
      put (.await earlier)
      get fun s => (s.settled earlier).getD false
  | some (id, none) => do
      put (.lock call id)
      let result ← refreshLocked tab id stale newToken delivery
      put (.unlock call id)
      put (.settle call tab id result)
      return result

/-- A request to the API; `unauthorized` when the answer is 401. -/
def api (call : Nat) (tab : TabId) (page : Option AppMode) (unauthorized : Bool)
    (newToken : String) (delivery : Delivery) : WebAction Unit := do
  let stale ← putGet (.choose tab page) fun s =>
    (s.storage.currentSession tab page).1.bind fun session => s.storage.accessToken session.id
  if unauthorized = true then do
    let refreshed ← refreshSession call tab page stale newToken delivery
    if refreshed = true then put (.choose tab page) else return ()
  else return ()

/-- `told` is what the server tells of the session, if it answers. -/
def syncCurrentSession (tab : TabId) (page : Option AppMode)
    (told : Option (String × List AppMode)) : WebAction (Option StoredSession) := do
  let session ← putGet (.choose tab page) fun s => (s.storage.currentSession tab page).1
  match session, told with
  | none, _ => return none
  | some session, none => return some session
  | some session, some (email, modes) => do
      put (.syncModes session email modes)
      return some session

/-- `usable` when the access token of the session is not over yet. -/
def restoreSession (call : Nat) (tab : TabId) (page : Option AppMode) (usable : Bool)
    (told : Option (String × List AppMode)) (newToken : String) (delivery : Delivery) :
    WebAction Unit := do
  let session ← putGet (.choose tab page) fun s =>
    (s.storage.currentSession tab page).1.map fun session => s.storage.accessToken session.id
  match session with
  | none => return ()
  | some stale => do
      let ready ← (if usable = true then pure true
        else refreshSession call tab page stale newToken delivery : WebAction Bool)
      if ready = true then do
        let synced ← syncCurrentSession tab page told
        match synced with
        | none => return ()
        | some session => do
            let mode ← get fun s => s.storage.modeFor tab page session
            put (.enterMode tab mode)
      else return ()

/-- The tokens of a user who has just proved who they are. -/
def firstTokens (userId : UserId) (newToken : String) : AuthAction TokenPair := do
  let found ← get fun s => s.users.find userId
  let user ← orThrow found (.unauthorized "User no longer exists")
  issueTokens user newToken

/-- `setTokens` with what the server answers to a login. -/
def storeLogin (tab : TabId) (userId : UserId) (newToken : String) (iat : Date) :
    WebAction Unit := do
  let tokens ← atServer (firstTokens userId newToken)
  put (.persist tab tokens iat)

/-- Local logout completes whatever becomes of the request. -/
def logoutSession (tab : TabId) (page : Option AppMode) (delivery : Delivery) :
    WebAction Unit := do
  let session ← putGet (.choose tab page) fun s =>
    (s.storage.currentSession tab page).1.map fun session =>
      (session.id, s.storage.refreshToken session.id)
  match session, delivery with
  | none, _ => return ()
  | some (id, none), _ => put (.signOut tab id)
  | some (id, some _), .requestLost => put (.signOut tab id)
  | some (id, some refreshToken), _ => do
      let _ ← (atServer (logout refreshToken)).attempt
      put (.signOut tab id)

def clearTokens (tab : TabId) (page : Option AppMode) : WebAction Unit := do
  let session ← putGet (.choose tab page) fun s => (s.storage.currentSession tab page).1
  match session with
  | none => return ()
  | some session => put (.signOut tab session.id)

/-! ## The system -/

inductive WebRequest where
  | api (tab : TabId) (page : Option AppMode) (unauthorized : Bool) (delivery : Delivery)
  | restore (tab : TabId) (page : Option AppMode) (usable : Bool)
      (told : Option (String × List AppMode)) (delivery : Delivery)
  | signIn (tab : TabId) (userId : UserId) (iat : Date)
  | logout (tab : TabId) (page : Option AppMode) (delivery : Delivery)
  | clear (tab : TabId) (page : Option AppMode)
  | activate (tab : TabId) (id : UserId) (requested : Option AppMode)
  | switchMode (tab : TabId) (page : Option AppMode) (mode : AppMode)
  /-- A request of another browser, or of anyone. -/
  | elsewhere (r : AuthRequest)

/-- `randomToken` is the token the server draws for a call. -/
def WebRequest.prog (randomToken : Nat → String) : Nat × WebRequest → WebAction Unit
  | (n, api tab page unauthorized delivery) =>
      ServeProof.api n tab page unauthorized (randomToken n) delivery
  | (n, restore tab page usable told delivery) =>
      restoreSession n tab page usable told (randomToken n) delivery
  | (n, signIn tab userId iat) => storeLogin tab userId (randomToken n) iat
  | (_, logout tab page delivery) => logoutSession tab page delivery
  | (_, clear tab page) => clearTokens tab page
  | (_, activate tab id requested) => put (.activate tab id requested)
  | (_, switchMode tab page mode) => put (.switchMode tab page mode)
  | (_, elsewhere r) => r.prog.lift Web.server .elsewhere

/-- The tabs of a browser, the server, and time. -/
def web (randomToken : Nat → String) :
    System Web WebCommand ApiError (Nat × WebRequest) AuthMove where
  apply := WebCommand.apply
  prog := WebRequest.prog randomToken
  env e s := { s with server := e.apply s.server }

end ServeProof
