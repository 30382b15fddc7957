import ServeProof.Accounts.Session
import ServeProof.Disclosure.AccessStore
import ServeProof.Interleave.Eval

/-!
# ServeProof.Accounts.Login

Email OTP login: a code is sent to an address, and exchanged for a pair of
tokens.

The random code, the id of a new user and the tokens are arguments of the calls,
and so is how the mail turns out.
-/

namespace ServeProof

open Interleave
open Prog (get put putGet require orThrow)

/-- The accounts, and the codes in Redis. -/
structure LoginStore where
  accounts : AuthStore
  access : AccessStore

namespace LoginStore

def clock (s : LoginStore) : Date := s.accounts.clock

/-- No code has been sent yet. -/
def fresh (accounts : AuthStore) : LoginStore := ⟨accounts, ∅⟩

end LoginStore

namespace AuthStore

/-- `findUnique` by the address. -/
def findUser (s : AuthStore) (email : String) : Option User :=
  s.users.rows.find? fun u => decide (u.email = email)

/-- A new user violates no constraint: neither the id nor the address is there. -/
def Admits (s : AuthStore) (user : User) : Prop :=
  ∀ u ∈ s.users.rows, u.id ≠ user.id ∧ u.email ≠ user.email

instance (s : AuthStore) (user : User) : Decidable (s.Admits user) :=
  inferInstanceAs (Decidable (∀ u ∈ s.users.rows, u.id ≠ user.id ∧ u.email ≠ user.email))

def insertUser (s : AuthStore) (user : User) : AuthStore :=
  if s.Admits user then { s with users := s.users.set user } else s

end AuthStore

inductive LoginCommand where
  | auth (c : AuthCommand)
  | createUser (user : User)
  | redis (c : RedisCommand)

def LoginCommand.apply : LoginCommand → LoginStore → LoginStore
  | auth c, s => { s with accounts := c.apply s.accounts }
  | createUser user, s => { s with accounts := s.accounts.insertUser user }
  | redis c, s => { s with access := s.access.apply s.clock c }

abbrev LoginAction (α : Type) := Prog LoginStore LoginCommand ApiError α

/-- A program on the accounts, as part of a login. -/
def signing {α : Type} (p : AuthAction α) : LoginAction α := p.lift LoginStore.accounts .auth

/-! ## The services -/

def loginOtpTtlSeconds : Int := 300
def loginOtpMaxAttempts : Int := 5

/-- Send a code to an address.  `mailError` is how the mail fails, if it is sent
and does. -/
def requestOtp (email code : String) (mailError : Option String) : LoginAction Unit := do
  let key := email.toLower
  put (.redis (.set (.loginOtp key) (.hash ⟨code⟩) loginOtpTtlSeconds))
  put (.redis (.set (.loginAttempts key) (.count 0) loginOtpTtlSeconds))
  match mailError with
  | none => return ()
  | some message => Prog.throw (.internal message)

/-- The account of an address; it is created at the first login. -/
def accountOf (email newUserId : String) : LoginAction User := do
  let found ← get fun s => s.accounts.findUser email
  match found with
  | some user => return user
  | none => do
      let user : User := ⟨newUserId, email, .worker⟩
      let created ← putGet (.createUser user) fun s => decide (s.accounts.Admits user)
      require (created = true) (.internal "Unique constraint failed on email")
      return user

/-- Exchange a code for a pair of tokens. -/
def verifyOtp (email code newUserId newToken : String) : LoginAction (TokenPair × UserId) := do
  let key := email.toLower
  let attempts ← putGet (.redis (.add (.loginAttempts key) 1)) fun s =>
    s.access.count s.clock (.loginAttempts key) + 1
  if loginOtpMaxAttempts < attempts then do
    put (.redis (.del [.loginOtp key]))
    Prog.throw (.unauthorized "Too many attempts; request a new code")
  else do
    let stored ← get fun s => s.access.get s.clock (.loginOtp key)
    let storedHash ← orThrow stored (.unauthorized "Invalid or expired code")
    require (storedHash = .hash ⟨code⟩) (.unauthorized "Invalid or expired code")
    put (.redis (.del [.loginOtp key, .loginAttempts key]))
    let user ← accountOf key newUserId
    let tokens ← signing (issueTokens user newToken)
    return (tokens, user.id)

/-! ## The system -/

inductive LoginRequest where
  | requestOtp (email code : String) (mailError : Option String)
  | verifyOtp (email code newUserId newToken : String)
  | auth (r : AuthRequest)

/-- The pair of a login goes out. -/
def LoginRequest.prog : LoginRequest → LoginAction Unit
  | requestOtp email code mailError => ServeProof.requestOtp email code mailError
  | verifyOtp email code newUserId newToken => do
      let answer ← ServeProof.verifyOtp email code newUserId newToken
      put (.auth (.answer answer.1))
  | auth r => signing r.prog

inductive LoginMove where
  | auth (e : AuthMove)
  /-- A key expires, whatever its time. -/
  | expire (key : RedisKey)

def LoginMove.apply : LoginMove → LoginStore → LoginStore
  | auth e, s => { s with accounts := e.apply s.accounts }
  | expire key, s => { s with access := s.access.erase fun e => decide (e.key = key) }

/-- The calls of the auth service. -/
def login : System LoginStore LoginCommand ApiError (Nat × LoginRequest) LoginMove where
  apply := LoginCommand.apply
  prog i := i.2.prog
  env := LoginMove.apply

end ServeProof
