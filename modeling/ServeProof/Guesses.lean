import ServeProof.Disclosure.Codes
import ServeProof.Gate
import ServeProof.Interleave.Tickets

/-!
# ServeProof.Guesses

How often the one-time code of a recipient can be guessed at.

`verifyRecipientOtp` reads the stored hash before it counts the attempt, and the
attempt that is one too many deletes the counter with the code.  So a call that
has read the hash before the deletion counts from 0 again after it.  Where every
attempt finds the counter there, five calls at most compare their code with the
hash.
-/

namespace ServeProof

open Interleave
open Prog (get put putGet require orThrow)
open Prog (only_get_bind only_put_bind only_putGet_bind only_put only_require_bind
  only_orThrow_bind only_ite only_throw)
open Prog (reaches_bind_commits reaches_get_bind reaches_putGet_bind reaches_put_bind
  reaches_require_bind reaches_orThrow_bind reaches_ite reaches_pure returned_eq_some_iff)

/-! ## Up to the comparison -/

/-- `verifyRecipientOtp` up to its comparison: the grant, and the stored hash. -/
def comparedHash (rawToken : String) : Action (GrantView × RedisValue) := do
  let v ← grantByToken rawToken
  let _ ← assertRecipientAccessAvailable v
  let id := v.grant.id
  let stored ← get fun s => s.access.get s.clock (.otp id)
  let storedHash ← orThrow stored (.unauthorized "Invalid or expired code")
  let attempts ← putGet (.redis (.add (.attempts id) 1)) fun s =>
    s.access.count s.clock (.attempts id) + 1
  if otpMaxAttempts < attempts then do
    put (.redis (.del [.otp id, .attempts id]))
    Prog.throw (.unauthorized "Too many attempts; request a new code")
  else return (v, storedHash)

/-- The rest of it. -/
def redeem (code accessToken : String) (found : GrantView × RedisValue) : Action Int := do
  let id := found.1.grant.id
  require (found.2 = .hash ⟨code⟩) (.unauthorized "Invalid or expired code")
  put (.redis (.del [.otp id, .attempts id]))
  let now ← get Platform.clock
  let expiresInSeconds := sessionSeconds found.1.grant.expiresAt now
  put (.redis (.set (.session id ⟨accessToken⟩) .flag expiresInSeconds))
  return expiresInSeconds

theorem verifyRecipientOtp_eq (rawToken code accessToken : String) :
    verifyRecipientOtp rawToken code accessToken =
      comparedHash rawToken >>= redeem code accessToken := by
  simp only [verifyRecipientOtp, comparedHash, Prog.bind_assoc]
  refine congrArg _ (funext fun v => congrArg _ (funext fun _ => congrArg _ (funext fun stored =>
    congrArg _ (funext fun storedHash => congrArg _ (funext fun attempts => ?_)))))
  split
  · rfl
  · rfl

section Reads

variable {l : List Platform} {rawToken : String} {v : GrantView}

theorem reaches_assertRecipientAccessAvailable_bind {α : Type} {f : String → Action α}
    {o : Outcome Command α} : (assertRecipientAccessAvailable v >>= f).Reaches l o ↔
      ∃ s l' email, l = s :: l' ∧ reportStatus v s.clock = .valid ∧
        v.grant.recipientEmail.filter (fun email =>
          decide (v.grant.accessMode = .recipientOtp ∧ email ≠ "")) = some email ∧
        (f email).Reaches l' o := by
  unfold assertRecipientAccessAvailable
  simp only [Prog.bind_assoc, reaches_get_bind, reaches_require_bind, reaches_orThrow_bind]
  constructor
  · rintro ⟨s, l', rfl, hvalid, email, hemail, h⟩
    exact ⟨s, l', email, rfl, hvalid, hemail, h⟩
  · rintro ⟨s, l', email, rfl, hvalid, hemail, h⟩
    exact ⟨s, l', rfl, hvalid, email, hemail, h⟩

/-- What a call has seen when it comes to its comparison: the grant, the hash, and
the counter at its turn. -/
theorem reaches_comparedHash {stored : RedisValue}
    (h : (comparedHash rawToken).Reaches l (.returns (v, stored))) :
    ∃ s₁ s₂ s₃ u l', l = [s₁, s₂, s₃] ++ u :: l' ∧ s₁.findGrant rawToken = some v ∧
      s₃.access.get s₃.clock (.otp v.grant.id) = some stored ∧
      u.access.count u.clock (.attempts v.grant.id) + 1 ≤ otpMaxAttempts ∧
      (comparedHash rawToken).Reaches [s₁, s₂, s₃]
        (.commits (.redis (.add (.attempts v.grant.id) 1))) ∧
      (comparedHash rawToken).Reaches [s₁, s₂, s₃, u] (.returns (v, stored)) := by
  obtain ⟨s₁, l₁, v', rfl, hv, hassert⟩ := reaches_grantByToken_bind.mp h
  obtain ⟨s₂, l₂, email, rfl, hvalid, hemail, hget⟩ :=
    reaches_assertRecipientAccessAvailable_bind.mp hassert
  obtain ⟨s₃, l₃, rfl, hstored⟩ := reaches_get_bind.mp hget
  obtain ⟨storedHash, hfound, hattempts⟩ := reaches_orThrow_bind.mp hstored
  obtain ⟨-, hc⟩ | ⟨u, l₄, rfl, hcount⟩ := reaches_putGet_bind.mp hattempts
  · cases hc
  obtain ⟨-, hmany⟩ | ⟨hfew, hreturn⟩ := reaches_ite.mp hcount
  · obtain ⟨-, hc⟩ | ⟨_, _, rfl, hthrow⟩ := reaches_put_bind.mp hmany
    · cases hc
    · exact hthrow.elim
  cases reaches_pure.mp hreturn
  -- the same steps, up to the counter and with it
  have hsteps (l : List Platform) (o : Outcome Command (GrantView × RedisValue))
      (ho : (Prog.putGet _ _ >>= fun attempts => _).Reaches l o) :
      (comparedHash rawToken).Reaches (s₁ :: s₂ :: s₃ :: l) o :=
    reaches_grantByToken_bind.mpr ⟨s₁, _, v, rfl, hv,
      reaches_assertRecipientAccessAvailable_bind.mpr ⟨s₂, _, email, rfl, hvalid, hemail,
        reaches_get_bind.mpr ⟨s₃, _, rfl, reaches_orThrow_bind.mpr ⟨stored, hfound, ho⟩⟩⟩⟩
  refine ⟨s₁, s₂, s₃, u, l₄, rfl, hv, hfound, Int.not_lt.mp hfew, hsteps [] _ ?_, hsteps [u] _ ?_⟩
  · exact reaches_putGet_bind.mpr (.inl ⟨rfl, rfl⟩)
  · exact reaches_putGet_bind.mpr (.inr ⟨u, [], rfl, reaches_ite.mpr (.inr ⟨hfew, rfl⟩)⟩)

end Reads

/-! ## The commands on a code -/

namespace RedisCommand

/-- The command stores a code of the grant, or starts its counter. -/
inductive StoresCode (g : GrantId) : RedisCommand → Prop where
  | code (h : Sha256) : StoresCode g (.set (.otp g) (.hash h) otpTtlSeconds)
  | counter : StoresCode g (.set (.attempts g) (.count 0) otpTtlSeconds)

/-- A command that only guesses at the code of the grant, or stores one. -/
def OnCode (g : GrantId) (c : RedisCommand) : Prop :=
  c.Guesses (.otp g) (.attempts g) ∨ c.StoresCode g

/-- A command on another key is neither. -/
theorem onCode_of_key {g : GrantId} {c : RedisCommand} {key : RedisKey} (hc : c.key = some key)
    (h : key ≠ .otp g) (h' : key ≠ .attempts g) : c.OnCode g := by
  refine .inl (.of_key ?_ ?_ ?_)
  · rw [hc]
    exact fun heq => h (Option.some.inj heq)
  · rw [hc]
    exact fun heq => h' (Option.some.inj heq)
  · rintro keys rfl
    cases hc

end RedisCommand

def Command.OnCode (g : GrantId) : Command → Prop
  | .redis c => c.OnCode g
  | _ => True

theorem only_requestRecipientOtp (rawToken code : String) (mailError : Option String)
    (g : GrantId) : (requestRecipientOtp rawToken code mailError).Only (Command.OnCode g) := by
  refine (only_grantByToken rawToken).bind fun v =>
    (only_assertRecipientAccessAvailable v).bind fun email => ?_
  simp only [only_putGet_bind, only_require_bind]
  refine ⟨RedisCommand.onCode_of_key rfl (by simp) (by simp), fun _ _ =>
    ⟨RedisCommand.onCode_of_key rfl (by simp) (by simp), fun _ => ?_⟩⟩
  have hexpire : (Command.redis (.expire (.hourlyRequests v.grant.id) (60 * 60))).OnCode g :=
    RedisCommand.onCode_of_key rfl (by simp) (by simp)
  refine (Prog.Only.when (only_put.mpr hexpire)).bind fun _ => ?_
  have hcode : (Command.redis (.set (.otp v.grant.id) (.hash ⟨code⟩) otpTtlSeconds)).OnCode g := by
    by_cases hg : v.grant.id = g
    · exact .inr (hg ▸ .code _)
    · exact RedisCommand.onCode_of_key rfl (by simpa using hg) (by simp)
  have hcounter :
      (Command.redis (.set (.attempts v.grant.id) (.count 0) otpTtlSeconds)).OnCode g := by
    by_cases hg : v.grant.id = g
    · exact .inr (hg ▸ .counter)
    · exact RedisCommand.onCode_of_key rfl (by simp) (by simpa using hg)
  refine only_require_bind.mpr fun _ => only_put_bind.mpr ⟨hcode, fun _ =>
    only_put_bind.mpr ⟨hcounter, fun _ => ?_⟩⟩
  cases mailError with
  | none => trivial
  | some message =>
      refine only_put_bind.mpr ⟨.inl ⟨by simp [RedisCommand.key], by simp [RedisCommand.key],
        fun keys hk hmem => ?_⟩, fun _ => ?_⟩
      · cases hk
        simpa using hmem
      · exact only_put_bind.mpr
          ⟨RedisCommand.onCode_of_key rfl (by simp) (by simp), fun _ => trivial⟩

theorem only_verifyRecipientOtp (rawToken code accessToken : String) (g : GrantId) :
    (verifyRecipientOtp rawToken code accessToken).Only (Command.OnCode g) := by
  refine (only_grantByToken rawToken).bind fun v =>
    (only_assertRecipientAccessAvailable v).bind fun _ => ?_
  have hadd : (Command.redis (.add (.attempts v.grant.id) 1)).OnCode g := by
    refine .inl ⟨by simp [RedisCommand.key], fun hk => ⟨1, by decide, ?_⟩, by simp⟩
    rw [RedisCommand.key, Option.some.injEq] at hk
    rw [hk]
  have hdel : (Command.redis (.del [.otp v.grant.id, .attempts v.grant.id])).OnCode g := by
    refine .inl ⟨by simp [RedisCommand.key], by simp [RedisCommand.key], fun keys hk hmem => ?_⟩
    cases hk
    simpa using hmem
  simp only [only_get_bind, only_orThrow_bind, only_putGet_bind, only_ite, only_put_bind,
    only_require_bind]
  refine fun _ stored _ => ⟨hadd, fun _ => ⟨fun _ => ⟨hdel, fun _ => trivial⟩, fun _ _ => ?_⟩⟩
  exact ⟨hdel, fun _ _ => ⟨RedisCommand.onCode_of_key rfl (by simp) (by simp), fun _ => trivial⟩⟩

/-- Every call only guesses at a code, or stores one. -/
theorem only_onCode [Collation] (session : Nat) (r : Request) (g : GrantId) :
    (Request.prog (session, r)).Only (Command.OnCode g) := by
  have hother (h : ∀ c, ¬ r.Makes (.redis c)) :
      (Request.prog (session, r)).Only (Command.OnCode g) := by
    refine (only_prog session r).imp fun c hc => ?_
    cases c with
    | redis c => exact absurd hc (h c)
    | settle | books | disclose | correct | lockVenue | unlockVenue | answer => trivial
  cases r with
  | service call => exact hother fun c => id
  | income r => exact hother fun c h => h.not_discloses trivial
  | disclosure r =>
      cases r with
      | requestRecipientOtp rawToken code mailError =>
          exact only_ignoreResult (only_requestRecipientOtp rawToken code mailError g)
      | verifyRecipientOtp rawToken code accessToken =>
          exact only_ignoreResult (only_verifyRecipientOtp rawToken code accessToken g)
      | _ => exact hother fun c h => by simp [Request.Makes] at h

/-! ## In a run -/

/-- The command stores no code of the grant, and starts no counter. -/
def NoFurtherCode (g : GrantId) : Command → Prop
  | .redis (.set (.otp g') _ _) | .redis (.set (.attempts g') _ _) => g' ≠ g
  | _ => True

instance decidableNoFurtherCode (g : GrantId) (c : Command) : Decidable (NoFurtherCode g c) :=
  match c with
  | .redis (.set (.otp g') _ _) | .redis (.set (.attempts g') _ _) =>
      inferInstanceAs (Decidable (g' ≠ g))
  | .redis (.set (.cooldown _) _ _) | .redis (.set (.hourlyRequests _) _ _)
  | .redis (.set (.session _ _) _ _) | .redis (.set (.loginOtp _) _ _)
  | .redis (.set (.loginAttempts _) _ _) | .redis (.setNx ..) | .redis (.add ..)
  | .redis (.expire ..) | .redis (.del _) | .settle _ | .books _ | .disclose _ | .correct ..
  | .lockVenue .. | .unlockVenue .. | .answer _ => isTrue trivial

/-- An attempt at the code of the grant finds the counter there. -/
def FindsCounter (g : GrantId) : Command → Platform → Prop
  | .redis (.add (.attempts g') _), s => g' = g → (s.access.get s.clock (.attempts g)).isSome
  | _, _ => True

instance decidableFindsCounter (g : GrantId) (c : Command) (s : Platform) :
    Decidable (FindsCounter g c s) :=
  match c with
  | .redis (.add (.attempts g') _) =>
      inferInstanceAs (Decidable (g' = g → (s.access.get s.clock (.attempts g)).isSome))
  | .redis (.add (.otp _) _) | .redis (.add (.cooldown _) _) | .redis (.add (.hourlyRequests _) _)
  | .redis (.add (.session _ _) _) | .redis (.add (.loginOtp _) _)
  | .redis (.add (.loginAttempts _) _) | .redis (.set ..) | .redis (.setNx ..)
  | .redis (.expire ..) | .redis (.del _) | .settle _ | .books _ | .disclose _ | .correct ..
  | .lockVenue .. | .unlockVenue .. | .answer _ => isTrue trivial

theorem Command.guesses_of_onCode {g : GrantId} {c : RedisCommand} (h : (Command.redis c).OnCode g)
    (hno : NoFurtherCode g (.redis c)) : c.Guesses (.otp g) (.attempts g) := by
  cases h with
  | inl h => exact h
  | inr h => cases h <;> exact absurd rfl hno

/-- A command of no code leaves the access store alone. -/
theorem Command.access_apply (c : Command) (s : Platform) :
    (c.apply s).access = s.access ∨ ∃ k, c = .redis k ∧
      (c.apply s).access = s.access.apply s.clock k := by
  cases c with
  | redis k => exact .inr ⟨k, rfl, rfl⟩
  | settle | books | disclose | correct | answer => exact .inl rfl
  | lockVenue session v => simp only [apply]; split <;> exact .inl rfl
  | unlockVenue session v => simp only [apply]; split <;> exact .inl rfl

theorem PlatformMove.access_apply (e : PlatformMove) (s : Platform) :
    (e.apply s).access = s.access ∧ s.clock ≤ (e.apply s).clock := by
  cases e with
  | world e => exact ⟨rfl, Int.le_refl _⟩
  | payroll row => exact ⟨rfl, Int.le_refl _⟩
  | wait ms => exact ⟨rfl, Int.le_add_of_nonneg_right (Int.natCast_nonneg ms)⟩

/-- What happened between two stores: the counter of the grant, as long as it was
there, has not come down. -/
def KeepsCounter (g : GrantId) (s t : Platform) : Prop :=
  AccessStore.KeepsIn Platform.access Platform.clock (.attempts g) (.attempts g) s t

theorem keepsCounter_apply {g : GrantId} {c : Command} {s : Platform} (hc : c.OnCode g)
    (hno : NoFurtherCode g c) (hfinds : FindsCounter g c s) : KeepsCounter g s (c.apply s) := by
  rw [KeepsCounter, AccessStore.KeepsIn, Command.clock_apply]
  obtain h | ⟨k, rfl, h⟩ := c.access_apply s
  · rw [h]
    exact .refl
  · rw [h]
    have hguess := Command.guesses_of_onCode hc hno
    refine AccessStore.keeps_counter hguess fun hkey => ?_
    obtain ⟨n, -, rfl⟩ := hguess.adds hkey
    rw [AccessStore.live_isSome_iff_get]
    exact hfinds rfl

theorem keepsCounter_env (g : GrantId) (e : PlatformMove) (s : Platform) :
    KeepsCounter g s (e.apply s) := by
  obtain ⟨haccess, hle⟩ := e.access_apply s
  rw [KeepsCounter, AccessStore.KeepsIn, haccess]
  exact AccessStore.keeps_counter_wait hle

section Runs

variable [Collation] {s : Platform} {ms ms' : List (Move Request PlatformMove)} {g : GrantId}
  {code : String}

/-- The hash a call has compared its code with, and the grant it is for. -/
def comparedBy (s : Platform) (ms : List (Move Request PlatformMove)) (n : Nat) :
    Option (GrantId × RedisValue) :=
  match (calls ms)[n]? with
  | some (.disclosure (.verifyRecipientOtp rawToken _ _)) =>
      ((comparedHash rawToken).returned (platform.seenBy s ms n)).map fun found =>
        (found.1.grant.id, found.2)
  | _ => none

/-- The calls that have compared their code with the hash of `code` in the second
part of the run. -/
def guesses (s : Platform) (ms ms' : List (Move Request PlatformMove)) (g : GrantId)
    (code : String) : List Nat :=
  (List.range (calls (ms ++ ms')).length).filter fun n =>
    decide (comparedBy s ms n = none ∧ comparedBy s (ms ++ ms') n = some (g, .hash ⟨code⟩))

/-- The grant whose counter a call is about to start. -/
def issuing : Action Unit → Option GrantId
  | .commit (.redis (.set (.attempts g) _ _)) _ => some g
  | _ => none

/-- With the last step of the run a call has issued the code for the grant. -/
def IssuesCode (s : Platform) (ms : List (Move Request PlatformMove)) (g : GrantId)
    (code : String) : Prop :=
  ∃ ms₀ m rawToken mailError, ms = ms₀ ++ [.step m] ∧
    (calls ms₀)[m]? = some (.disclosure (.requestRecipientOtp rawToken code mailError)) ∧
    (platform.runFrom s ms₀).threads[m]?.bind issuing = some g

/-- The counter of a code that has just been issued is at 0. -/
theorem count_of_issues (h : IssuesCode s ms g code) :
    (platform.runFrom s ms).store.access.count (platform.runFrom s ms).store.clock
      (.attempts g) = 0 := by
  obtain ⟨ms₀, m, rawToken, mailError, rfl, -, hissuing⟩ := h
  obtain ⟨p, hp, hg⟩ := Option.bind_eq_some_iff.mp hissuing
  obtain ⟨value, ttl, next, rfl⟩ : ∃ value ttl next,
      p = .commit (.redis (.set (.attempts g) value ttl)) next := by
    unfold issuing at hg
    split at hg
    · cases hg
      exact ⟨_, _, _, rfl⟩
    · cases hg
  obtain ⟨i, -, hreaches⟩ := System.reaches_of_thread hp
  have hstores : (RedisCommand.set (.attempts g) value ttl).StoresCode g := by
    cases (only_onCode m i g).reaches hreaches with
    | inl hguess =>
        obtain ⟨n, -, hadd⟩ := hguess.adds rfl
        cases hadd
    | inr hstores => exact hstores
  cases hstores
  rw [System.runFrom_commit hp]
  exact AccessStore.count_set (by decide)

/-- A call that has compared its code has seen the hash in its third step, and
counted its attempt in the fourth. -/
theorem seen_of_compared {n : Nat} {stored : RedisValue}
    (h : comparedBy s ms n = some (g, stored)) :
    ∃ rawToken code' accessToken s₁ s₂ s₃ u l v,
      (calls ms)[n]? = some (.disclosure (.verifyRecipientOtp rawToken code' accessToken)) ∧
      platform.seenBy s ms n = [s₁, s₂, s₃] ++ u :: l ∧ v.grant.id = g ∧
      s₃.access.get s₃.clock (.otp g) = some stored ∧
      u.access.count u.clock (.attempts g) + 1 ≤ otpMaxAttempts ∧
      (comparedHash rawToken).Reaches [s₁, s₂, s₃]
        (.commits (.redis (.add (.attempts g) 1))) ∧
      (comparedHash rawToken).Reaches [s₁, s₂, s₃, u] (.returns (v, stored)) := by
  unfold comparedBy at h
  split at h
  · next rawToken code' accessToken hcall =>
    obtain ⟨⟨v, stored'⟩, hreturned, heq⟩ := Option.map_eq_some_iff.mp h
    cases heq
    obtain ⟨s₁, s₂, s₃, u, l, hl, -, hfound, hcount, hadd, hreturns⟩ :=
      reaches_comparedHash (returned_eq_some_iff.mp hreturned)
    exact ⟨rawToken, code', accessToken, s₁, s₂, s₃, u, l, v, hcall, hl, rfl, hfound, hcount, hadd,
      hreturns⟩
  · cases h

/-- A call that has not compared its code in the first part of a run has not come
to its fourth step there. -/
theorem length_seen_of_uncompared {n : Nat} {stored : RedisValue}
    (hbefore : comparedBy s ms n = none)
    (hafter : comparedBy s (ms ++ ms') n = some (g, stored)) :
    (platform.seenBy s ms n).length ≤ 3 := by
  obtain ⟨rawToken, code', accessToken, s₁, s₂, s₃, u, l, v, hcall, hl, hg, -, -, -, hreturns⟩ :=
    seen_of_compared hafter
  by_contra hlong
  obtain ⟨l', hl'⟩ := platform.seenBy_append s ms ms' n
  have hall : [s₁, s₂, s₃, u] <+: platform.seenBy s (ms ++ ms') n := ⟨l, hl.symm⟩
  obtain ⟨l'', hshared⟩ := List.prefix_of_prefix_length_le hall ⟨l', hl'.symm⟩
    (Nat.not_le.mp hlong)
  have hlt : n < (calls ms).length :=
    System.lt_of_mem_seenBy (hshared ▸ List.mem_append_left l'' List.mem_cons_self)
  rw [calls_append, List.getElem?_append_left hlt] at hcall
  have hcompared : comparedBy s ms n = some (g, stored) := by
    simp only [comparedBy, hcall, ← hshared]
    rw [returned_eq_some_iff.mpr (hreturns.append l'')]
    simp [hg]
  exact absurd (hbefore.symm.trans hcompared) nofun

/-- A call that compares its code counts its attempt before that. -/
theorem attempt_of_guess {n : Nat} (hn : n ∈ guesses s ms ms' g code) :
    ∃ as bs next, ms' = as ++ .step n :: bs ∧
      (platform.runFrom s (ms ++ as)).threads[n]? =
        some (.commit (.redis (.add (.attempts g) 1)) next) ∧
      (platform.runFrom s (ms ++ as)).store.access.count
        (platform.runFrom s (ms ++ as)).store.clock (.attempts g) + 1 ≤ otpMaxAttempts := by
  obtain ⟨hbefore, hafter⟩ := of_decide_eq_true (List.mem_filter.mp hn).2
  obtain ⟨rawToken, code', accessToken, s₁, s₂, s₃, u, l, v, hcall, hl, hg, -, hcount, hadd, -⟩ :=
    seen_of_compared hafter
  have hcommit : (platform.prog (n, .disclosure
      (.verifyRecipientOtp rawToken code' accessToken))).Reaches [s₁, s₂, s₃]
        (.commits (.redis (.add (.attempts g) 1))) :=
    reaches_bind_commits (verifyRecipientOtp_eq rawToken code' accessToken ▸
      reaches_bind_commits hadd _) _
  obtain ⟨as, bs, next, hms, rfl, -, -, hnext⟩ :=
    System.commit_of_seen hcall (length_seen_of_uncompared hbefore hafter) hl hcommit
  exact ⟨as, bs, next, hms, hnext, hcount⟩

end Runs

section Concrete

open Scenario

/-- A recipient asks for a code: the run before the counter is started. -/
abbrev Scenario.codeRequested : List (Move Request PlatformMove) :=
  .call (createGrantCall .level1 .recipientOtp) :: List.replicate 2 (.step 0) ++
    .call issueCall :: List.replicate 10 (.step 1) ++
    .call (.disclosure (.requestRecipientOtp "token" "123456" none)) ::
      List.replicate 6 (.step 2)

abbrev Scenario.codeIssued : List (Move Request PlatformMove) := codeRequested ++ [.step 2]

/-- A wrong code and then the right one. -/
abbrev Scenario.twoGuesses : List (Move Request PlatformMove) :=
  .call (.disclosure (.verifyRecipientOtp "token" "000000" "access")) ::
    List.replicate 4 (.step 3) ++
    .call (.disclosure (.verifyRecipientOtp "token" "123456" "access")) ::
      List.replicate 7 (.step 4)

/-- Seven calls read the hash; five of them compare their codes, the sixth deletes
the counter, and the seventh counts from 0 again. -/
abbrev Scenario.sevenGuesses : List (Move Request PlatformMove) :=
  List.replicate 7 (.call (.disclosure (.verifyRecipientOtp "token" "000000" "access"))) ++
    [3, 4, 5, 6, 7, 8, 9].flatMap (fun n => List.replicate 3 (.step n)) ++
    [3, 4, 5, 6, 7, 8, 8, 9].map .step

end Concrete

end ServeProof
