import Mathlib.Data.List.Sort
import ServeProof.Accounts.Session

/-!
# ServeProof.Web.Storage

What the web client stores of its sessions: `localStorage`, which all tabs of
the browser share, and the `sessionStorage` of each tab.

A session is stored under the id of its user.  A token that is stored is what was
signed: the claims (`AccessToken`), and when (`Jwt.iat`), so that two tokens of the
same claims can differ.
-/

namespace ServeProof

abbrev TabId := Nat

structure StoredSession where
  id : UserId
  email : String
  role : GlobalRole
  modes : List AppMode
  defaultMode : AppMode
  updatedAt : Date
  deriving DecidableEq, Repr

/-- A signed access token. -/
structure Jwt where
  claims : AccessToken
  iat : Date
  deriving DecidableEq, Repr

structure WebStorage where
  sessions : List StoredSession
  accessToken : UserId → Option Jwt
  refreshToken : UserId → Option String
  lastSession : Option UserId
  lastFor : AppMode → Option UserId
  activeSession : TabId → Option UserId
  activeMode : TabId → Option AppMode

/-! ## The session of an access token -/

def legacyModeForRole : GlobalRole → AppMode
  | .worker => .worker
  | .venueOwner | .venueManager | .payrollAdmin | .viewer => .staff

/-- The modes a token gives; a token of old gives the one of its role. -/
def AccessToken.capabilities (claims : AccessToken) : List AppMode :=
  if claims.modes = [] then [legacyModeForRole claims.role] else claims.modes

def AccessToken.storedSession (claims : AccessToken) (now : Date) : StoredSession where
  id := claims.sub
  email := claims.email
  role := claims.role
  modes := claims.capabilities
  defaultMode :=
    if legacyModeForRole claims.role ∈ claims.capabilities then legacyModeForRole claims.role
    else claims.capabilities.headD (legacyModeForRole claims.role)
  updatedAt := now

namespace WebStorage

variable (w : WebStorage)

/-- Nothing is stored. -/
def empty : WebStorage where
  sessions := []
  accessToken := fun _ => none
  refreshToken := fun _ => none
  lastSession := none
  lastFor := fun _ => none
  activeSession := fun _ => none
  activeMode := fun _ => none

/-! ## Writing -/

/-- Of these modes the session is no longer the last one. -/
def forgetLast (modes : List AppMode) (id : UserId) : WebStorage :=
  { w with
    lastFor := fun m => if m ∈ modes ∧ w.lastFor m = some id then none else w.lastFor m }

/-- The modes that a stored session has had and a new one has not. -/
def lostModes (id : UserId) (modes : List AppMode) : List AppMode :=
  match w.sessions.find? fun item => decide (item.id = id) with
  | none => []
  | some previous => previous.modes.filter fun m => decide (m ∉ modes)

/-- The session takes the last place of the index. -/
def putSession (session : StoredSession) : WebStorage :=
  { w with
    sessions := w.sessions.filter (fun item => decide (item.id ≠ session.id)) ++ [session]
    lastFor := fun m => if m ∈ session.modes then some session.id else w.lastFor m }

def persistSession (tab : TabId) (tokens : TokenPair) (iat now : Date) : WebStorage :=
  let session := tokens.accessToken.storedSession now
  let indexed := (w.forgetLast (w.lostModes session.id session.modes) session.id).putSession session
  { indexed with
    accessToken := Function.update w.accessToken session.id (some ⟨tokens.accessToken, iat⟩)
    refreshToken :=
      if tokens.refreshToken = "" then w.refreshToken
      else Function.update w.refreshToken session.id (some tokens.refreshToken)
    lastSession := some session.id
    activeSession := Function.update w.activeSession tab (some session.id) }

/-! ## Reading -/

def sessionHasToken (session : StoredSession) : Bool := (w.accessToken session.id).isSome

def findSession (id : UserId) : Option StoredSession :=
  w.sessions.find? fun item => decide (item.id = id) && w.sessionHasToken item

/-- The sessions that have a token, the newest first. -/
def getStoredSessions : List StoredSession :=
  (w.sessions.filter w.sessionHasToken).insertionSort fun a b => b.updatedAt ≤ a.updatedAt

/-- The session a page of the mode shows when the tab has none. -/
def sessionForMode (mode : AppMode) : Option StoredSession :=
  (((w.lastFor mode).bind w.findSession).filter fun session => decide (mode ∈ session.modes)).or
    (w.getStoredSessions.find? fun session => decide (mode ∈ session.modes))

/-- The session of a tab.  The selected identity belongs to the tab; one that is
chosen here becomes it. -/
def currentSession (tab : TabId) (page : Option AppMode) : Option StoredSession × WebStorage :=
  match (w.activeSession tab).bind w.findSession, page with
  | some active, _ => (some active, w)
  | none, some mode =>
      match w.sessionForMode mode with
      | some session =>
          (some session, { w with
            activeSession := Function.update w.activeSession tab (some session.id)
            activeMode := Function.update w.activeMode tab (some mode) })
      | none => (none, w)
  | none, none =>
      match (w.lastSession.bind w.findSession).or w.getStoredSessions.head? with
      | some session =>
          (some session, { w with
            activeSession := Function.update w.activeSession tab (some session.id) })
      | none => (none, w)

/-- The session that a request has been made with, by its access token. -/
def sessionOfToken (stale : Jwt) : Option StoredSession :=
  w.sessions.find? fun item => decide (w.accessToken item.id = some stale)

/-! ## Removing -/

def removeSession (tab : TabId) (id : UserId) : WebStorage :=
  let forgotten := w.forgetLast ((w.findSession id).elim [] StoredSession.modes) id
  { forgotten with
    sessions := w.sessions.filter fun item => decide (item.id ≠ id)
    accessToken := Function.update w.accessToken id none
    refreshToken := Function.update w.refreshToken id none
    lastSession := if w.lastSession = some id then none else w.lastSession
    activeSession :=
      if w.activeSession tab = some id then Function.update w.activeSession tab none
      else w.activeSession }

/-- The modes of a session as the server tells them.  A session that is told none
stays as it is. -/
def syncModes (session : StoredSession) (email : String) (modes : List AppMode) : WebStorage :=
  if modes = [] then w
  else
    let updated : StoredSession := { session with
      email := email
      modes := modes
      defaultMode :=
        if session.defaultMode ∈ modes then session.defaultMode
        else modes.headD session.defaultMode }
    (w.forgetLast (session.modes.filter fun m => decide (m ∉ modes)) session.id).putSession updated

end WebStorage
end ServeProof
