import ServeProof.Accounts.Login
import ServeProof.Disclosure.Codes
import ServeProof.Rotation

/-!
# ServeProof.LoginGuesses

How often the one-time code of a login can be guessed at.

`verifyOtp` counts the attempt before it reads the stored hash, and the attempt
that is one too many deletes the code and leaves the counter.  So a call that
reads the hash has counted its attempt while the code was there, and the counter
of a code that is there has never come down.
-/

namespace ServeProof

open Interleave
open Prog (get put putGet require orThrow)
open Prog (only_get_bind only_put_bind only_putGet_bind only_put only_require_bind
  only_orThrow_bind only_ite)
open Prog (reaches_bind_commits reaches_get_bind reaches_putGet_bind reaches_put_bind
  reaches_orThrow reaches_ite returned_eq_some_iff)

/-! ## Up to the comparison -/

/-- `verifyOtp` up to its comparison: the stored hash. -/
def loginHash (email : String) : LoginAction RedisValue := do
  let key := email.toLower
  let attempts ← putGet (.redis (.add (.loginAttempts key) 1)) fun s =>
    s.access.count s.clock (.loginAttempts key) + 1
  if loginOtpMaxAttempts < attempts then do
    put (.redis (.del [.loginOtp key]))
    Prog.throw (.unauthorized "Too many attempts; request a new code")
  else do
    let stored ← get fun s => s.access.get s.clock (.loginOtp key)
    orThrow stored (.unauthorized "Invalid or expired code")

/-- The rest of it. -/
def signIn (email code newUserId newToken : String) (storedHash : RedisValue) :
    LoginAction (TokenPair × UserId) := do
  let key := email.toLower
  require (storedHash = .hash ⟨code⟩) (.unauthorized "Invalid or expired code")
  put (.redis (.del [.loginOtp key, .loginAttempts key]))
  let user ← accountOf key newUserId
  let tokens ← signing (issueTokens user newToken)
  return (tokens, user.id)

theorem verifyOtp_eq (email code newUserId newToken : String) :
    verifyOtp email code newUserId newToken =
      loginHash email >>= signIn email code newUserId newToken := by
  simp only [verifyOtp, loginHash, Prog.bind_assoc]
  refine congrArg _ (funext fun attempts => ?_)
  split
  · rfl
  · simp only [Prog.bind_assoc]
    rfl

/-- What a call has seen when it comes to its comparison: the counter at its turn,
and then the hash. -/
theorem reaches_loginHash {l : List LoginStore} {email : String} {stored : RedisValue}
    (h : (loginHash email).Reaches l (.returns stored)) :
    ∃ u t l', l = u :: t :: l' ∧
      u.access.count u.clock (.loginAttempts email.toLower) + 1 ≤ loginOtpMaxAttempts ∧
      t.access.get t.clock (.loginOtp email.toLower) = some stored ∧
      (loginHash email).Reaches [u, t] (.returns stored) := by
  obtain ⟨-, hc⟩ | ⟨u, l₁, rfl, hcount⟩ := reaches_putGet_bind.mp h
  · cases hc
  obtain ⟨-, hmany⟩ | ⟨hfew, hget⟩ := reaches_ite.mp hcount
  · obtain ⟨-, hc⟩ | ⟨_, _, rfl, hthrow⟩ := reaches_put_bind.mp hmany
    · cases hc
    · exact hthrow.elim
  obtain ⟨t, l₂, rfl, hstored⟩ := reaches_get_bind.mp hget
  obtain ⟨storedHash, hfound, hreturn⟩ := reaches_orThrow.mp hstored
  cases hreturn
  refine ⟨u, t, l₂, rfl, Int.not_lt.mp hfew, hfound, ?_⟩
  refine reaches_putGet_bind.mpr (.inr ⟨u, [t], rfl, reaches_ite.mpr (.inr ⟨hfew, ?_⟩)⟩)
  exact reaches_get_bind.mpr ⟨t, [], rfl, reaches_orThrow.mpr ⟨stored, hfound, rfl⟩⟩

/-! ## The commands on a code -/

/-- A command that only guesses at the code of an address, or stores one. -/
inductive LoginCommand.OnCode (key : String) : LoginCommand → Prop where
  | auth (c : AuthCommand) : OnCode key (.auth c)
  | createUser (user : User) : OnCode key (.createUser user)
  | guess {c : RedisCommand} (h : c.Guesses (.loginOtp key) (.loginAttempts key)) :
      OnCode key (.redis c)
  | code (h : Sha256) : OnCode key (.redis (.set (.loginOtp key) (.hash h) loginOtpTtlSeconds))
  | counter : OnCode key (.redis (.set (.loginAttempts key) (.count 0) loginOtpTtlSeconds))

theorem only_signing {α : Type} (p : AuthAction α) (key : String) :
    (signing p).Only (LoginCommand.OnCode key) :=
  Prog.Only.lift (Prog.Only.imp (fun c _ => .auth c) (Prog.only_true p))

theorem only_requestOtp (email code : String) (mailError : Option String) (key : String) :
    (requestOtp email code mailError).Only (LoginCommand.OnCode key) := by
  have hcode : LoginCommand.OnCode key
      (.redis (.set (.loginOtp email.toLower) (.hash ⟨code⟩) loginOtpTtlSeconds)) := by
    by_cases hkey : email.toLower = key
    · exact hkey ▸ .code _
    · exact .guess (.of_key (by simpa [RedisCommand.key] using hkey) (by simp [RedisCommand.key])
        (by simp))
  have hcounter : LoginCommand.OnCode key
      (.redis (.set (.loginAttempts email.toLower) (.count 0) loginOtpTtlSeconds)) := by
    by_cases hkey : email.toLower = key
    · exact hkey ▸ .counter
    · exact .guess (.of_key (by simp [RedisCommand.key]) (by simpa [RedisCommand.key] using hkey)
        (by simp))
  refine only_put_bind.mpr ⟨hcode, fun _ => only_put_bind.mpr ⟨hcounter, fun _ => ?_⟩⟩
  cases mailError <;> trivial

theorem only_accountOf (email newUserId key : String) :
    (accountOf email newUserId).Only (LoginCommand.OnCode key) := by
  refine only_get_bind.mpr fun s => ?_
  cases s.accounts.findUser email with
  | some user => trivial
  | none =>
      exact only_putGet_bind.mpr ⟨.createUser _, fun _ => only_require_bind.mpr fun _ => trivial⟩

theorem only_verifyOtp (email code newUserId newToken key : String) :
    (verifyOtp email code newUserId newToken).Only (LoginCommand.OnCode key) := by
  have hadd : LoginCommand.OnCode key (.redis (.add (.loginAttempts email.toLower) 1)) := by
    refine .guess ⟨by simp [RedisCommand.key], fun hk => ⟨1, by decide, ?_⟩, by simp⟩
    rw [RedisCommand.key, Option.some.injEq] at hk
    rw [hk]
  have hdel (keys : List RedisKey)
      (h : RedisKey.loginAttempts key ∈ keys → RedisKey.loginOtp key ∈ keys) :
      LoginCommand.OnCode key (.redis (.del keys)) := by
    refine .guess ⟨by simp [RedisCommand.key], by simp [RedisCommand.key], fun keys' hk => ?_⟩
    cases hk
    exact h
  refine only_putGet_bind.mpr ⟨hadd, fun _ => only_ite.mpr ⟨fun _ => ?_, fun _ => ?_⟩⟩
  · exact only_put_bind.mpr ⟨hdel _ (by simp), fun _ => trivial⟩
  · simp only [only_get_bind, only_orThrow_bind, only_require_bind]
    refine fun _ _ _ _ => only_put_bind.mpr ⟨hdel _ (by simp), fun _ => ?_⟩
    exact (only_accountOf _ _ key).bind fun user =>
      (only_signing (issueTokens user newToken) key).bind fun tokens => trivial

/-- Every call only guesses at a code, or stores one. -/
theorem only_login (i : Nat × LoginRequest) (key : String) :
    (login.prog i).Only (LoginCommand.OnCode key) := by
  obtain ⟨n, r⟩ := i
  cases r with
  | requestOtp email code mailError => exact only_requestOtp email code mailError key
  | verifyOtp email code newUserId newToken =>
      exact (only_verifyOtp email code newUserId newToken key).bind fun _ =>
        only_put.mpr (.auth _)
  | auth r => exact only_signing r.prog key

/-! ## In a run -/

/-- The command stores no code of the address, and starts no counter. -/
def NoFurtherLoginCode (key : String) : LoginCommand → Prop
  | .redis (.set (.loginOtp key') _ _) | .redis (.set (.loginAttempts key') _ _) => key' ≠ key
  | _ => True

instance decidableNoFurtherLoginCode (key : String) (c : LoginCommand) :
    Decidable (NoFurtherLoginCode key c) :=
  match c with
  | .redis (.set (.loginOtp key') _ _) | .redis (.set (.loginAttempts key') _ _) =>
      inferInstanceAs (Decidable (key' ≠ key))
  | .redis (.set (.otp _) _ _) | .redis (.set (.attempts _) _ _) | .redis (.set (.cooldown _) _ _)
  | .redis (.set (.hourlyRequests _) _ _) | .redis (.set (.session _ _) _ _) | .redis (.setNx ..)
  | .redis (.add ..) | .redis (.expire ..) | .redis (.del _) | .auth _ | .createUser _ =>
      isTrue trivial

/-- The counter of a code expires no earlier than the code. -/
def CodeExpiresFirst (key : String) : LoginMove → LoginStore → Prop
  | .expire expired, s =>
      expired = .loginAttempts key → s.access.get s.clock (.loginOtp key) = none
  | .auth _, _ => True

instance decidableCodeExpiresFirst (key : String) (e : LoginMove) (s : LoginStore) :
    Decidable (CodeExpiresFirst key e s) :=
  match e with
  | .expire expired => inferInstanceAs
      (Decidable (expired = .loginAttempts key → s.access.get s.clock (.loginOtp key) = none))
  | .auth _ => isTrue trivial

theorem LoginCommand.OnCode.guesses {key : String} {c : RedisCommand}
    (h : LoginCommand.OnCode key (.redis c)) (hno : NoFurtherLoginCode key (.redis c)) :
    c.Guesses (.loginOtp key) (.loginAttempts key) := by
  cases h with
  | guess h => exact h
  | code h => exact absurd rfl hno
  | counter => exact absurd rfl hno

theorem AuthMove.clock_apply (e : AuthMove) (s : AuthStore) : s.clock ≤ (e.apply s).clock := by
  cases e with
  | saveUser | saveMember => exact Int.le_refl _
  | wait ms => exact Int.le_add_of_nonneg_right (Int.natCast_nonneg ms)

theorem LoginCommand.clock_apply (c : LoginCommand) (s : LoginStore) :
    (c.apply s).clock = s.clock := by
  cases c with
  | auth c => exact c.clock_apply s.accounts
  | createUser user =>
      simp only [LoginCommand.apply, LoginStore.clock, AuthStore.insertUser]
      split <;> rfl
  | redis c => rfl

/-- What happened between two stores: the counter of the address, as long as its
code was there, has not come down -- if it does not expire before the code, which
stays so. -/
def KeepsCode (key : String) (s t : LoginStore) : Prop :=
  s.access.Outlived s.clock (.loginOtp key) (.loginAttempts key) →
    t.access.Outlived t.clock (.loginOtp key) (.loginAttempts key) ∧
      AccessStore.KeepsIn LoginStore.access LoginStore.clock (.loginOtp key) (.loginAttempts key)
        s t

theorem KeepsCode.refl {key : String} (s : LoginStore) : KeepsCode key s s :=
  fun h => ⟨h, .refl⟩

theorem KeepsCode.trans {key : String} (s t u : LoginStore) (h : KeepsCode key s t)
    (h' : KeepsCode key t u) : KeepsCode key s u := by
  intro ho
  obtain ⟨ho', hkeeps⟩ := h ho
  obtain ⟨ho'', hkeeps'⟩ := h' ho'
  exact ⟨ho'', hkeeps.trans hkeeps'⟩

theorem keepsCode_apply {key : String} {c : LoginCommand} (hc : c.OnCode key)
    (hno : NoFurtherLoginCode key c) (s : LoginStore) : KeepsCode key s (c.apply s) := by
  intro ho
  rw [AccessStore.KeepsIn, LoginCommand.clock_apply]
  cases c with
  | auth c => exact ⟨ho, .refl⟩
  | createUser user => exact ⟨ho, .refl⟩
  | redis c => exact AccessStore.keeps_code (hc.guesses hno) ho

theorem keepsCode_env {key : String} {e : LoginMove} {s : LoginStore}
    (he : CodeExpiresFirst key e s) : KeepsCode key s (e.apply s) := by
  intro ho
  cases e with
  | auth e => exact AccessStore.keeps_code_wait (e.clock_apply s.accounts) ho
  | expire expired =>
      exact AccessStore.keeps_code_expire
        (fun h => AccessStore.live_eq_none_iff_get.mpr (he h)) ho

/-- A code of the address has five minutes ahead of it at most. -/
def CodeLasts (key : String) (s : LoginStore) : Prop :=
  s.access.Lasts s.clock (.loginOtp key) loginOtpTtlSeconds

theorem codeLasts_apply {key : String} {c : LoginCommand} (hc : c.OnCode key) {s : LoginStore}
    (h : CodeLasts key s) : CodeLasts key (c.apply s) := by
  rw [CodeLasts, LoginCommand.clock_apply]
  cases hc with
  | auth c => exact h
  | createUser user => exact h
  | guess hguess => exact AccessStore.lasts_apply (fun hkey => absurd hkey hguess.sets) h
  | code hash => exact AccessStore.lasts_apply (fun _ => ⟨_, rfl⟩) h
  | counter => exact AccessStore.lasts_apply (fun hkey => by simp [RedisCommand.key] at hkey) h

theorem codeLasts_env {key : String} {e : LoginMove} {s : LoginStore} (h : CodeLasts key s) :
    CodeLasts key (e.apply s) := by
  cases e with
  | auth e => exact AccessStore.lasts_wait (e.clock_apply s.accounts) h
  | expire expired =>
      intro entry hentry
      rw [LoginMove.apply, Table.find_erase] at hentry
      exact h entry (Option.filter_eq_some_iff.mp hentry).1

section Runs

variable {s : LoginStore} {ms ms' : List (Move LoginRequest LoginMove)} {email code : String}

/-- The hash a call has compared its code with, and the address it is for. -/
def loginComparedBy (s : LoginStore) (ms : List (Move LoginRequest LoginMove)) (n : Nat) :
    Option (String × RedisValue) :=
  match (calls ms)[n]? with
  | some (.verifyOtp email _ _ _) =>
      ((loginHash email).returned (login.seenBy s ms n)).map fun stored => (email.toLower, stored)
  | _ => none

/-- The calls that take all their steps in the second part of the run, and have
compared their code with the hash of `code`. -/
def loginGuesses (s : LoginStore) (ms ms' : List (Move LoginRequest LoginMove))
    (email code : String) : List Nat :=
  (List.range (calls (ms ++ ms')).length).filter fun n =>
    decide ((login.seenBy s ms n).length = 0 ∧
      loginComparedBy s (ms ++ ms') n = some (email.toLower, .hash ⟨code⟩))

/-- The address whose counter a call is about to start. -/
def loginIssuing : LoginAction Unit → Option String
  | .commit (.redis (.set (.loginAttempts key) _ _)) _ => some key
  | _ => none

/-- With the last step of the run a call has issued the code for the address. -/
def IssuesLoginCode (s : LoginStore) (ms : List (Move LoginRequest LoginMove))
    (email code : String) : Prop :=
  ∃ ms₀ m mailError, ms = ms₀ ++ [.step m] ∧
    (calls ms₀)[m]? = some (.requestOtp email code mailError) ∧
    (login.runFrom s ms₀).threads[m]?.bind loginIssuing = some email.toLower

/-- A code lasts five minutes at most in any run. -/
theorem codeLasts_run (accounts : AuthStore) (key : String)
    (ms : List (Move LoginRequest LoginMove)) :
    CodeLasts key (login.runFrom (LoginStore.fresh accounts) ms).store := by
  have hall : login.Respects (fun _ _ => True) (fun _ _ => True) (number 0 ms)
      (login.runFrom (LoginStore.fresh accounts) []) :=
    login.respects_of_all _ _ (fun _ _ => trivial) (fun _ _ => trivial) _ _
  have hrun : CodeLasts key (login.runFrom (LoginStore.fresh accounts) []).store →
      CodeLasts key (login.runFrom (LoginStore.fresh accounts) ([] ++ ms)).store := by
    refine System.relates_steps (R := fun t u => CodeLasts key t → CodeLasts key u)
      (fun _ h => h) (fun _ _ _ h h' ht => h' (h ht)) fun as₁ m as₂ has => ?_
    exact System.relates_admitted (R := fun t u => CodeLasts key t → CodeLasts key u) hall
      (fun _ h => h)
      (fun n i k l s hreaches _ => codeLasts_apply ((only_login (n, i) key).reaches hreaches))
      (fun e s _ => codeLasts_env) has
  exact hrun fun e he => nomatch he

/-- A code that has just been issued has a counter at 0, which outlives it. -/
theorem outlived_of_issues {accounts : AuthStore} (hs : s = LoginStore.fresh accounts)
    (h : IssuesLoginCode s ms email code) :
    (login.runFrom s ms).store.access.Outlived (login.runFrom s ms).store.clock
        (.loginOtp email.toLower) (.loginAttempts email.toLower) ∧
      (login.runFrom s ms).store.access.count (login.runFrom s ms).store.clock
        (.loginAttempts email.toLower) = 0 := by
  obtain ⟨ms₀, m, mailError, rfl, -, hissuing⟩ := h
  obtain ⟨p, hp, hkey⟩ := Option.bind_eq_some_iff.mp hissuing
  obtain ⟨value, ttl, next, rfl⟩ : ∃ value ttl next,
      p = .commit (.redis (.set (.loginAttempts email.toLower) value ttl)) next := by
    unfold loginIssuing at hkey
    split at hkey
    · cases hkey
      exact ⟨_, _, _, rfl⟩
    · cases hkey
  obtain ⟨i, -, hreaches⟩ := System.reaches_of_thread hp
  obtain ⟨rfl, rfl⟩ : value = .count 0 ∧ ttl = loginOtpTtlSeconds := by
    cases (only_login (m, i) email.toLower).reaches hreaches with
    | guess hguess =>
        obtain ⟨n, -, hadd⟩ := hguess.adds rfl
        cases hadd
    | counter => exact ⟨rfl, rfl⟩
  rw [System.runFrom_commit hp]
  exact ⟨AccessStore.outlived_set (by simp) (by decide) (hs ▸ codeLasts_run accounts _ ms₀),
    AccessStore.count_set (by decide)⟩

/-- A call that compares its code has counted its attempt before it has read the
hash, both after the code was issued. -/
theorem attempt_of_loginGuess {n : Nat} (hn : n ∈ loginGuesses s ms ms' email code) :
    ∃ as cs bs next, ms' = as ++ .step n :: cs ++ bs ∧
      (login.runFrom s (ms ++ as)).threads[n]? =
        some (.commit (.redis (.add (.loginAttempts email.toLower) 1)) next) ∧
      (login.runFrom s (ms ++ as)).store.access.count (login.runFrom s (ms ++ as)).store.clock
        (.loginAttempts email.toLower) + 1 ≤ loginOtpMaxAttempts ∧
      ((login.runFrom s (ms ++ (as ++ .step n :: cs))).store.access.get
        (login.runFrom s (ms ++ (as ++ .step n :: cs))).store.clock
        (.loginOtp email.toLower)).isSome := by
  obtain ⟨hnew, hcompared⟩ := of_decide_eq_true (List.mem_filter.mp hn).2
  unfold loginComparedBy at hcompared
  split at hcompared
  · next email' code' newUserId newToken hcall =>
    obtain ⟨stored, hreturned, heq⟩ := Option.map_eq_some_iff.mp hcompared
    obtain ⟨hemail, rfl⟩ := Prod.mk.inj heq
    obtain ⟨u, t, l', hl, hcount, hfound, -⟩ :=
      reaches_loginHash (returned_eq_some_iff.mp hreturned)
    rw [hemail] at hcount hfound
    have hl₁ : login.seenBy s (ms ++ ms') n = [u] ++ t :: l' := hl
    obtain ⟨as', bs, hms, rfl, hseen, hlt⟩ :=
      System.seenBy_split_append (by rw [hnew]; exact Nat.zero_le _) hl₁
    have hl₂ : login.seenBy s (ms ++ as') n = [] ++ u :: [] := hseen
    obtain ⟨as, cs, rfl, rfl, hseen', hlt'⟩ := System.seenBy_split_append (by rw [hnew]; rfl) hl₂
    have hin : n < (calls (ms ++ as)).length := login.length_runFrom s (ms ++ as) ▸ hlt'
    have hcall' : (calls (ms ++ as))[n]? = some (.verifyOtp email' code' newUserId newToken) := by
      rw [hms, List.append_assoc, ← List.append_assoc, calls_append] at hcall
      rwa [List.getElem?_append_left hin] at hcall
    have hadd : (login.prog (n, .verifyOtp email' code' newUserId newToken)).Reaches []
        (.commits (.redis (.add (.loginAttempts email'.toLower) 1))) :=
      reaches_bind_commits (reaches_putGet_bind.mpr (.inl ⟨rfl, rfl⟩)) _
    obtain ⟨next, hnext⟩ := System.thread_of_reaches hlt' hcall' (hseen' ▸ hadd)
    refine ⟨as, cs, .step n :: bs, next, hms, hemail ▸ hnext, hcount, ?_⟩
    rw [hfound]
    rfl
  · cases hcompared

end Runs

section Concrete

/-- A user asks for a code: the run before the counter is started. -/
abbrev Scenario.loginRequested : List (Move LoginRequest LoginMove) :=
  [.call (.requestOtp "User@example.test" "123456" none), .step 0]

abbrev Scenario.loginIssued : List (Move LoginRequest LoginMove) := loginRequested ++ [.step 0]

/-- Seven calls at once, of which five come to the comparison. -/
abbrev Scenario.sevenLogins : List (Move LoginRequest LoginMove) :=
  List.replicate 7 (.call (.verifyOtp "user@example.test" "000000" "user" "token")) ++
    [1, 2, 3, 4, 5, 6, 7].map .step ++ [1, 2, 3, 4, 5, 6, 7].map .step

open Scenario

end Concrete

end ServeProof
