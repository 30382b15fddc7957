import ServeProof.Accounts.Access
import ServeProof.Disclosure.Schema
import ServeProof.Interleave.Reaches

/-!
# ServeProof.Accounts.Session

Signed-in sessions: a refresh token is exchanged for the next pair of tokens,
or revoked.

The tokens are symbolic.  A `Sha256` is the text that was hashed, an
`AccessToken` the claims that were signed; random tokens are arguments of the
calls.
-/

namespace ServeProof

open Interleave
open Prog (get put putGet require orThrow)

abbrev TokenId := Nat

inductive GlobalRole where
  | worker | venueOwner | venueManager | payrollAdmin | viewer
  deriving DecidableEq, Repr

inductive AppMode where
  | worker | staff
  deriving DecidableEq, Repr

/-- A user as its tokens show it. -/
structure User where
  id : UserId
  email : String
  role : GlobalRole
  deriving DecidableEq, Repr

structure RefreshToken where
  id : TokenId
  userId : UserId
  tokenHash : Sha256
  expiresAt : Date
  revokedAt : Option Date
  deriving DecidableEq, Repr

structure AccessToken where
  sub : UserId
  email : String
  role : GlobalRole
  modes : List AppMode
  deriving DecidableEq, Repr

structure TokenPair where
  accessToken : AccessToken
  refreshToken : String
  deriving DecidableEq, Repr

/-! ## The store -/

/-- The hash of a refresh token is unique. -/
structure AuthStore where
  users : Table User.id
  members : Table OrganizationMember.key
  /-- The users that have a worker profile. -/
  workers : List UserId
  tokens : Table RefreshToken.id
  nextTokenId : TokenId
  clock : Date
  fresh : ∀ t ∈ tokens.rows, t.id < nextTokenId
  oneHash : ∀ t ∈ tokens.rows, ∀ t' ∈ tokens.rows, t.tokenHash = t'.tokenHash → t = t'

namespace AuthStore

variable (s : AuthStore)

/-- `findUnique` by the hash. -/
def findToken (hash : Sha256) : Option RefreshToken :=
  s.tokens.rows.find? fun t => decide (t.tokenHash = hash)

/-- Insert a token whose hash is not there yet. -/
def insertToken (userId : UserId) (hash : Sha256) (expiresAt : Date) : AuthStore :=
  if h : ∀ t ∈ s.tokens.rows, t.tokenHash ≠ hash then
    { s with
      tokens := s.tokens.set ⟨s.nextTokenId, userId, hash, expiresAt, none⟩
      nextTokenId := s.nextTokenId + 1
      fresh := by
        intro t ht
        cases (s.tokens.mem_set).mp ht with
        | inl h' => rw [h']; exact Nat.lt_succ_self _
        | inr h' => exact Nat.lt_succ_of_lt (s.fresh t h'.1)
      oneHash := by
        intro t ht t' ht' heq
        cases (s.tokens.mem_set).mp ht with
        | inl hnew =>
            cases (s.tokens.mem_set).mp ht' with
            | inl hnew' => rw [hnew, hnew']
            | inr hold' => exact absurd (heq.symm.trans (by rw [hnew])) (h t' hold'.1)
        | inr hold =>
            cases (s.tokens.mem_set).mp ht' with
            | inl hnew' => exact absurd (heq.trans (by rw [hnew'])) (h t hold.1)
            | inr hold' => exact s.oneHash t hold.1 t' hold'.1 heq }
  else s

/-- Revoke the tokens that satisfy `P`. -/
def revokeWhere (P : RefreshToken → Bool) (now : Date) : AuthStore :=
  have hid : ∀ t : RefreshToken, (if P t then { t with revokedAt := some now } else t).id = t.id :=
    fun t => by split <;> rfl
  have hhash : ∀ t : RefreshToken,
      (if P t then { t with revokedAt := some now } else t).tokenHash = t.tokenHash :=
    fun t => by split <;> rfl
  { s with
    tokens := s.tokens.mapRows (fun t => if P t then { t with revokedAt := some now } else t) hid
    fresh := by
      intro t ht
      obtain ⟨old, hold, rfl⟩ := List.mem_map.mp ht
      rw [hid]
      exact s.fresh old hold
    oneHash := by
      intro t ht t' ht' heq
      obtain ⟨old, hold, rfl⟩ := List.mem_map.mp ht
      obtain ⟨old', hold', rfl⟩ := List.mem_map.mp ht'
      rw [hhash, hhash] at heq
      rw [s.oneHash old hold old' hold' heq] }

/-- A token that can be claimed: not revoked, and its time is not over. -/
def Claimable (id : TokenId) (now : Date) (t : RefreshToken) : Bool :=
  decide (t.id = id ∧ t.revokedAt = none ∧ now ≤ t.expiresAt)

/-- A token that can be revoked by its text. -/
def Revocable (hash : Sha256) (t : RefreshToken) : Bool :=
  decide (t.tokenHash = hash ∧ t.revokedAt = none)

/-- What an account may show: its worker view, and the staff view of a member. -/
def modes (userId : UserId) : List AppMode :=
  (if userId ∈ s.workers then [.worker] else []) ++
    if s.members.rows.any fun m => decide (m.userId = userId) then [.staff] else []

end AuthStore

/-! ## The commands -/

inductive AuthCommand where
  /-- `updateMany` of a token that can be claimed. -/
  | claim (id : TokenId) (now : Date)
  | revoke (hash : Sha256) (now : Date)
  | upsertWorker (userId : UserId)
  | createToken (userId : UserId) (hash : Sha256) (expiresAt : Date)
  /-- A pair of tokens goes out. -/
  | answer (pair : TokenPair)

namespace AuthCommand

def apply : AuthCommand → AuthStore → AuthStore
  | claim id now, s => s.revokeWhere (AuthStore.Claimable id now) now
  | revoke hash now, s => s.revokeWhere (AuthStore.Revocable hash) now
  | upsertWorker userId, s =>
      { s with workers := if userId ∈ s.workers then s.workers else s.workers ++ [userId] }
  | createToken userId hash expiresAt, s => s.insertToken userId hash expiresAt
  | answer _, s => s

theorem clock_apply (c : AuthCommand) (s : AuthStore) : (c.apply s).clock = s.clock := by
  cases c with
  | createToken userId hash expiresAt =>
      simp only [apply, AuthStore.insertToken]
      split <;> rfl
  | claim | revoke | upsertWorker | answer => rfl

end AuthCommand

/-! ## The services -/

abbrev AuthAction (α : Type) := Prog AuthStore AuthCommand ApiError α

def refreshTokenTtlMs : Int := 7 * 24 * 60 * 60 * 1000

def issueTokens (user : User) (newToken : String) : AuthAction TokenPair := do
  put (.upsertWorker user.id)
  let modes ← get fun s => s.modes user.id
  let now ← get AuthStore.clock
  let created ← putGet (.createToken user.id ⟨newToken⟩ (now + refreshTokenTtlMs)) fun s =>
    decide (∀ t ∈ s.tokens.rows, t.tokenHash ≠ ⟨newToken⟩)
  require (created = true) (.internal "Unique constraint failed on tokenHash")
  return ⟨⟨user.id, user.email, user.role, modes⟩, newToken⟩

def invalidRefreshToken : ApiError := .unauthorized "Invalid refresh token"

/-- Rotation: atomically claim the presented token, so that concurrent requests
cannot both pass the read-before-write window and mint two token pairs. -/
def refresh (refreshToken newToken : String) : AuthAction TokenPair := do
  let found ← get fun s => (s.findToken ⟨refreshToken⟩).bind fun t =>
    (s.users.find t.userId).map fun user => (t, user)
  let stored ← orThrow found invalidRefreshToken
  require (stored.1.revokedAt = none) invalidRefreshToken
  let now ← get AuthStore.clock
  require (now ≤ stored.1.expiresAt) invalidRefreshToken
  let later ← get AuthStore.clock
  let count ← putGet (.claim stored.1.id later) fun s =>
    (s.tokens.rows.filter (AuthStore.Claimable stored.1.id later)).length
  require (count = 1) invalidRefreshToken
  issueTokens stored.2 newToken

def logout (refreshToken : String) : AuthAction Bool := do
  let now ← get AuthStore.clock
  putGet (.revoke ⟨refreshToken⟩ now) fun s =>
    s.tokens.rows.any (AuthStore.Revocable ⟨refreshToken⟩)

/-! ## The system -/

inductive AuthRequest where
  | refresh (refreshToken newToken : String)
  | logout (refreshToken : String)
  /-- The end of a login: the first pair of tokens. -/
  | login (userId : UserId) (newToken : String)

/-- The pair of a call that returns one goes out. -/
def AuthRequest.prog : AuthRequest → AuthAction Unit
  | refresh refreshToken newToken => do
      let pair ← ServeProof.refresh refreshToken newToken
      put (.answer pair)
  | logout refreshToken => do
      let _ ← ServeProof.logout refreshToken
  | login userId newToken => do
      let found ← get fun s => s.users.find userId
      let user ← orThrow found (.unauthorized "User no longer exists")
      let pair ← issueTokens user newToken
      put (.answer pair)

inductive AuthMove where
  | saveUser (user : User)
  | saveMember (member : OrganizationMember)
  /-- Time passes. -/
  | wait (milliseconds : Nat)

def AuthMove.apply : AuthMove → AuthStore → AuthStore
  | saveUser user, s => { s with users := s.users.set user }
  | saveMember member, s => { s with members := s.members.set member }
  | wait ms, s => { s with clock := s.clock + ms }

/-- The calls of the auth service that deal with refresh tokens. -/
def auth : System AuthStore AuthCommand ApiError (Nat × AuthRequest) AuthMove where
  apply := AuthCommand.apply
  prog i := i.2.prog
  env := AuthMove.apply

end ServeProof
