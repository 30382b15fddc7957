import ServeProof.Guesses
import ServeProof.LoginGuesses

/-!
# ServeProof.Redeemed

How often a one-time code can be exchanged, for the session of a recipient or
for the tokens of a login.

Both flows read the stored hash, compare it, and delete it in a later command
whose answer they do not look at.  So two calls that have read the hash before
one of them deletes it both succeed.  Where a call that has compared the right
code still finds it there when it deletes it, one call at most succeeds.
-/

namespace ServeProof

open Interleave
open Prog (reaches_bind_commits reaches_put_bind reaches_require_bind takes_of_reaches_bind
  returned_eq_some_iff)

/-! ## A call that succeeds -/

/-- A recipient that has got a session has deleted the code, after the comparison. -/
theorem reaches_redeem {l : List Platform} {rawToken code accessToken : String} {seconds : Int}
    (h : (verifyRecipientOtp rawToken code accessToken).Reaches l (.returns seconds)) :
    ∃ s₁ s₂ s₃ u d l' v, l = [s₁, s₂, s₃, u] ++ d :: l' ∧
      (comparedHash rawToken).Reaches [s₁, s₂, s₃, u] (.returns (v, .hash ⟨code⟩)) ∧
      (verifyRecipientOtp rawToken code accessToken).Reaches [s₁, s₂, s₃, u]
        (.commits (.redis (.del [.otp v.grant.id, .attempts v.grant.id]))) := by
  rw [verifyRecipientOtp_eq] at h ⊢
  obtain ⟨l₁, l₂, ⟨v, stored⟩, rfl, htakes, hredeem⟩ := takes_of_reaches_bind h
  obtain ⟨s₁, s₂, s₃, u, l', rfl, -, -, -, -, hreturns⟩ := reaches_comparedHash htakes.reaches
  obtain rfl : l' = [] := by
    have hsplit : [s₁, s₂, s₃] ++ u :: l' = [s₁, s₂, s₃, u] ++ l' := rfl
    rw [hsplit] at htakes
    exact htakes.minimal hreturns
  obtain ⟨hright, hdel⟩ := reaches_require_bind.mp hredeem
  obtain ⟨-, hc⟩ | ⟨d, l₃, rfl, -⟩ := reaches_put_bind.mp hdel
  · cases hc
  have hright' : stored = .hash ⟨code⟩ := hright
  subst hright'
  refine ⟨s₁, s₂, s₃, u, d, l₃, v, rfl, hreturns, ?_⟩
  have hcommit : (redeem code accessToken (v, .hash ⟨code⟩)).Reaches []
      (.commits (.redis (.del [.otp v.grant.id, .attempts v.grant.id]))) :=
    reaches_require_bind.mpr ⟨rfl, reaches_put_bind.mpr (.inl ⟨rfl, rfl⟩)⟩
  exact htakes.bind hcommit

/-- A user who has got a pair of tokens has deleted the code, after the comparison. -/
theorem reaches_signIn {l : List LoginStore} {email code newUserId newToken : String}
    {answer : TokenPair × UserId}
    (h : (verifyOtp email code newUserId newToken).Reaches l (.returns answer)) :
    ∃ u t d l', l = [u, t] ++ d :: l' ∧ (loginHash email).Reaches [u, t] (.returns (.hash ⟨code⟩)) ∧
      (verifyOtp email code newUserId newToken).Reaches [u, t]
        (.commits (.redis (.del [.loginOtp email.toLower, .loginAttempts email.toLower]))) := by
  rw [verifyOtp_eq] at h ⊢
  obtain ⟨l₁, l₂, stored, rfl, htakes, hsign⟩ := takes_of_reaches_bind h
  obtain ⟨u, t, l', rfl, -, -, hreturns⟩ := reaches_loginHash htakes.reaches
  obtain rfl : l' = [] := by
    have hsplit : u :: t :: l' = [u, t] ++ l' := rfl
    rw [hsplit] at htakes
    exact htakes.minimal hreturns
  obtain ⟨rfl, hdel⟩ := reaches_require_bind.mp hsign
  obtain ⟨-, hc⟩ | ⟨d, l₃, rfl, -⟩ := reaches_put_bind.mp hdel
  · cases hc
  refine ⟨u, t, d, l₃, rfl, hreturns, ?_⟩
  have hcommit : (signIn email code newUserId newToken (.hash ⟨code⟩)).Reaches []
      (.commits (.redis (.del [.loginOtp email.toLower, .loginAttempts email.toLower]))) :=
    reaches_require_bind.mpr ⟨rfl, reaches_put_bind.mpr (.inl ⟨rfl, rfl⟩)⟩
  exact htakes.bind hcommit

/-! ## In a run -/

/-- The command stores the hash under the key. -/
def RedisCommand.Stores (key : RedisKey) (h : Sha256) : RedisCommand → Prop
  | .set key' (.hash h') _ => key' = key ∧ h' = h
  | _ => False

instance decidableStores (key : RedisKey) (h : Sha256) (c : RedisCommand) :
    Decidable (c.Stores key h) :=
  match c with
  | .set key' (.hash h') _ => inferInstanceAs (Decidable (key' = key ∧ h' = h))
  | .set _ .flag _ | .set _ (.count _) _ | .setNx .. | .add .. | .expire .. | .del _ =>
      isFalse id

/-- The command does not store the code again. -/
def Command.Spares (g : GrantId) (code : String) : Command → Prop
  | .redis c => ¬ c.Stores (.otp g) ⟨code⟩
  | _ => True

instance decidableSpares (g : GrantId) (code : String) (c : Command) :
    Decidable (c.Spares g code) :=
  match c with
  | .redis c => inferInstanceAs (Decidable (¬ c.Stores (.otp g) ⟨code⟩))
  | .settle _ | .books _ | .disclose _ | .correct .. | .lockVenue .. | .unlockVenue ..
  | .answer _ => isTrue trivial

def LoginCommand.Spares (key code : String) : LoginCommand → Prop
  | .redis c => ¬ c.Stores (.loginOtp key) ⟨code⟩
  | _ => True

instance decidableLoginSpares (key code : String) (c : LoginCommand) :
    Decidable (c.Spares key code) :=
  match c with
  | .redis c => inferInstanceAs (Decidable (¬ c.Stores (.loginOtp key) ⟨code⟩))
  | .auth _ | .createUser _ => isTrue trivial

/-- The grant has the code in Redis. -/
def Platform.HasCode (g : GrantId) (code : String) (s : Platform) : Prop :=
  s.access.get s.clock (.otp g) = some (.hash ⟨code⟩)

instance (g : GrantId) (code : String) (s : Platform) : Decidable (s.HasCode g code) :=
  inferInstanceAs (Decidable (_ = _))

/-- The address has the code in Redis. -/
def LoginStore.HasCode (key code : String) (s : LoginStore) : Prop :=
  s.access.get s.clock (.loginOtp key) = some (.hash ⟨code⟩)

instance (key code : String) (s : LoginStore) : Decidable (s.HasCode key code) :=
  inferInstanceAs (Decidable (_ = _))

theorem hasCode_of_apply {g : GrantId} {code : String} {c : Command} {s : Platform}
    (hc : c.OnCode g) (hspares : c.Spares g code) (h : (c.apply s).HasCode g code) :
    s.HasCode g code := by
  rw [Platform.HasCode, Command.clock_apply] at h
  obtain hsame | ⟨k, rfl, hk⟩ := c.access_apply s
  · rwa [hsame] at h
  · rw [hk] at h
    refine AccessStore.get_of_apply (fun ttl heq => ?_) (fun hkey => ?_) h
    · exact hspares (by rw [heq]; exact ⟨rfl, rfl⟩)
    · cases hc with
      | inl hguess => exact absurd hkey hguess.sets
      | inr hstores =>
          cases hstores with
          | code h => exact ⟨_, _, rfl⟩
          | counter => cases hkey

theorem hasCode_of_env {g : GrantId} {code : String} {e : PlatformMove} {s : Platform}
    (h : (e.apply s).HasCode g code) : s.HasCode g code := by
  obtain ⟨haccess, hle⟩ := e.access_apply s
  rw [Platform.HasCode, haccess] at h
  exact AccessStore.get_of_later hle h

theorem loginHasCode_of_apply {key code : String} {c : LoginCommand} {s : LoginStore}
    (hc : c.OnCode key) (hspares : c.Spares key code) (h : (c.apply s).HasCode key code) :
    s.HasCode key code := by
  rw [LoginStore.HasCode, LoginCommand.clock_apply] at h
  cases hc with
  | auth c => exact h
  | createUser user => exact h
  | guess hguess =>
      refine AccessStore.get_of_apply (fun ttl heq => ?_) (fun hkey => ?_) h
      · exact hguess.sets (by rw [heq]; rfl)
      · exact absurd hkey hguess.sets
  | code hash =>
      refine AccessStore.get_of_apply (fun ttl heq => ?_) (fun _ => ⟨_, _, rfl⟩) h
      cases heq
      exact hspares ⟨rfl, rfl⟩
  | counter =>
      refine AccessStore.get_of_apply (fun ttl heq => by cases heq) (fun hkey => ?_) h
      cases hkey

theorem loginHasCode_of_env {key code : String} {e : LoginMove} {s : LoginStore}
    (h : (e.apply s).HasCode key code) : s.HasCode key code := by
  cases e with
  | auth e => exact AccessStore.get_of_later (e.clock_apply s.accounts) h
  | expire expired =>
      obtain ⟨entry, he, hvalue⟩ := Option.map_eq_some_iff.mp h
      obtain ⟨hfind, halive⟩ := AccessStore.live_eq_some_iff.mp he
      rw [LoginMove.apply, Table.find_erase] at hfind
      have hbefore : s.access.live s.clock (.loginOtp key) = some entry :=
        AccessStore.live_eq_some_iff.mpr ⟨(Option.filter_eq_some_iff.mp hfind).1, halive⟩
      rw [LoginStore.HasCode, AccessStore.get, hbefore, Option.map_some, hvalue]

/-! ## The recipients -/

section Recipients

variable [Collation] {s : Platform} {ms ms' : List (Move Request PlatformMove)} {g : GrantId}
  {code : String}

/-- The call has got a session. -/
def hasSession (s : Platform) (ms : List (Move Request PlatformMove)) (n : Nat) : Bool :=
  match (calls ms)[n]? with
  | some (.disclosure (.verifyRecipientOtp rawToken code accessToken)) =>
      ((verifyRecipientOtp rawToken code accessToken).returned (platform.seenBy s ms n)).isSome
  | _ => false

/-- The calls that have exchanged the code for a session, after a comparison in the
second part of the run. -/
def redeemed (s : Platform) (ms ms' : List (Move Request PlatformMove)) (g : GrantId)
    (code : String) : List Nat :=
  (guesses s ms ms' g code).filter fun n => hasSession s (ms ++ ms') n

/-- The call is about to delete keys. -/
def deleting : Action Unit → Bool
  | .commit (.redis (.del _)) _ => true
  | _ => false

/-- A call that is about to delete the code it has compared its own with finds it
there. -/
def FindsCode (s : Platform) (g : GrantId) (code : String)
    (ms : List (Move Request PlatformMove)) (n : Nat) : Prop :=
  (platform.runFrom s ms).threads[n]?.any deleting = true →
    comparedBy s ms n = some (g, .hash ⟨code⟩) → (platform.runFrom s ms).store.HasCode g code

instance (s : Platform) (g : GrantId) (code : String) (ms : List (Move Request PlatformMove))
    (n : Nat) : Decidable (FindsCode s g code ms n) :=
  inferInstanceAs (Decidable (_ = true → _ = some _ → Platform.HasCode _ _ _))

/-- A call that has got a session has deleted the code in the second part of the
run. -/
theorem deletion_of_redeemed {n : Nat} (hn : n ∈ redeemed s ms ms' g code) :
    ∃ as bs keys next, ms' = as ++ .step n :: bs ∧ .otp g ∈ keys ∧
      (platform.runFrom s (ms ++ as)).threads[n]? = some (.commit (.redis (.del keys)) next) ∧
      comparedBy s (ms ++ as) n = some (g, .hash ⟨code⟩) := by
  obtain ⟨hguess, hsession⟩ := List.mem_filter.mp hn
  obtain ⟨hbefore, hafter⟩ := of_decide_eq_true (List.mem_filter.mp hguess).2
  have hshort := length_seen_of_uncompared hbefore hafter
  unfold hasSession at hsession
  split at hsession
  · next rawToken code' accessToken hcall =>
    obtain ⟨seconds, hreturned⟩ := Option.isSome_iff_exists.mp hsession
    obtain ⟨s₁, s₂, s₃, u, d, l', v, hl, hcompares, hdel⟩ :=
      reaches_redeem (returned_eq_some_iff.mp hreturned)
    -- what it has compared is the code of the grant
    simp only [comparedBy, hcall, hl] at hafter
    rw [returned_eq_some_iff.mpr (hcompares.append _), Option.map_some, Option.some.injEq,
      Prod.mk.injEq] at hafter
    obtain ⟨hg, hcode⟩ := hafter
    have hcommit : (platform.prog (n, .disclosure
        (.verifyRecipientOtp rawToken code' accessToken))).Reaches [s₁, s₂, s₃, u]
          (.commits (.redis (.del [.otp v.grant.id, .attempts v.grant.id]))) :=
      reaches_bind_commits hdel _
    obtain ⟨as, bs, next, hms, -, hseen, hcall', hnext⟩ :=
      System.commit_of_seen hcall (Nat.le_succ_of_le hshort) hl hcommit
    refine ⟨as, bs, _, next, hms, by rw [hg]; exact List.mem_cons_self, hnext, ?_⟩
    simp only [comparedBy, hcall', hseen]
    rw [returned_eq_some_iff.mpr hcompares, Option.map_some, hg, hcode]
  · cases hsession

theorem redeemed_bounded
    (hrun : platform.Respects (fun c _ => c.Spares g code) (fun _ _ => True)
      (number (calls ms).length ms') (platform.runFrom s ms))
    (hfinds : AtSteps (fun as n => FindsCode s g code (ms ++ as) n) ms') :
    (redeemed s ms ms' g code).length ≤ 1 := by
  refine System.once platform s ms ms' (Platform.HasCode g code)
    ((List.nodup_range.filter _).filter _)
    (fun as₁ m as₂ has => ?_) fun n hn => ?_
  · exact System.relates_admitted (R := fun t u => ¬ t.HasCode g code → ¬ u.HasCode g code) hrun
      (fun _ h => h)
      (fun n i k l s hreaches hspares hgone h =>
        hgone (hasCode_of_apply ((only_onCode n i g).reaches hreaches) hspares h))
      (fun e s _ hgone h => hgone (hasCode_of_env h)) has
  · obtain ⟨as, bs, keys, next, hms, hkeys, hthread, hcompared⟩ := deletion_of_redeemed hn
    have hfound := hfinds.split hms (by rw [hthread]; rfl) hcompared
    refine ⟨as, bs, hms, hfound, fun h => ?_⟩
    rw [System.runFrom_commit hthread] at h
    exact nomatch (AccessStore.get_del hkeys).symm.trans h

end Recipients

/-! ## The logins -/

section Logins

variable {s : LoginStore} {ms ms' : List (Move LoginRequest LoginMove)} {email code : String}

/-- The call has got a pair of tokens. -/
def hasTokens (s : LoginStore) (ms : List (Move LoginRequest LoginMove)) (n : Nat) : Bool :=
  match (calls ms)[n]? with
  | some (.verifyOtp email code newUserId newToken) =>
      ((verifyOtp email code newUserId newToken).returned (login.seenBy s ms n)).isSome
  | _ => false

/-- The calls that have exchanged the code for a pair of tokens, after a comparison
in the second part of the run. -/
def loginRedeemed (s : LoginStore) (ms ms' : List (Move LoginRequest LoginMove))
    (email code : String) : List Nat :=
  (List.range (calls (ms ++ ms')).length).filter fun n =>
    decide (loginComparedBy s ms n = none ∧
      loginComparedBy s (ms ++ ms') n = some (email.toLower, .hash ⟨code⟩)) &&
    hasTokens s (ms ++ ms') n

def loginDeleting : LoginAction Unit → Bool
  | .commit (.redis (.del _)) _ => true
  | _ => false

/-- A call that is about to delete the code it has compared its own with finds it
there. -/
def FindsLoginCode (s : LoginStore) (key code : String)
    (ms : List (Move LoginRequest LoginMove)) (n : Nat) : Prop :=
  (login.runFrom s ms).threads[n]?.any loginDeleting = true →
    loginComparedBy s ms n = some (key, .hash ⟨code⟩) →
      (login.runFrom s ms).store.HasCode key code

instance (s : LoginStore) (key code : String) (ms : List (Move LoginRequest LoginMove)) (n : Nat) :
    Decidable (FindsLoginCode s key code ms n) :=
  inferInstanceAs (Decidable (_ = true → _ = some _ → LoginStore.HasCode _ _ _))

/-- A call that has got a pair of tokens has deleted the code in the second part of
the run. -/
theorem deletion_of_loginRedeemed {n : Nat} (hn : n ∈ loginRedeemed s ms ms' email code) :
    ∃ as bs keys next, ms' = as ++ .step n :: bs ∧ .loginOtp email.toLower ∈ keys ∧
      (login.runFrom s (ms ++ as)).threads[n]? = some (.commit (.redis (.del keys)) next) ∧
      loginComparedBy s (ms ++ as) n = some (email.toLower, .hash ⟨code⟩) := by
  obtain ⟨hboth, htokens⟩ := Bool.and_eq_true_iff.mp (List.mem_filter.mp hn).2
  obtain ⟨hbefore, hafter⟩ := of_decide_eq_true hboth
  unfold hasTokens at htokens
  split at htokens
  · next email' code' newUserId newToken hcall =>
    obtain ⟨answer, hreturned⟩ := Option.isSome_iff_exists.mp htokens
    obtain ⟨u, t, d, l', hl, hcompares, hdel⟩ := reaches_signIn (returned_eq_some_iff.mp hreturned)
    simp only [loginComparedBy, hcall, hl] at hafter
    rw [returned_eq_some_iff.mpr (hcompares.append _), Option.map_some, Option.some.injEq,
      Prod.mk.injEq] at hafter
    obtain ⟨hemail, hcode⟩ := hafter
    -- in the first part of the run it has not come to the comparison
    have hshort : (login.seenBy s ms n).length ≤ [u, t].length := by
      by_contra hlong
      obtain ⟨l₁, hl₁⟩ := login.seenBy_append s ms ms' n
      have hall : [u, t] <+: login.seenBy s (ms ++ ms') n := ⟨d :: l', hl.symm⟩
      obtain ⟨l₂, hshared⟩ := List.prefix_of_prefix_length_le hall ⟨l₁, hl₁.symm⟩
        (Nat.le_of_lt (Nat.not_le.mp hlong))
      have hlt : n < (calls ms).length :=
        System.lt_of_mem_seenBy (hshared ▸ List.mem_append_left l₂ List.mem_cons_self)
      rw [calls_append, List.getElem?_append_left hlt] at hcall
      simp only [loginComparedBy, hcall, ← hshared] at hbefore
      rw [returned_eq_some_iff.mpr (hcompares.append l₂)] at hbefore
      cases hbefore
    have hcommit : (login.prog (n, .verifyOtp email' code' newUserId newToken)).Reaches [u, t]
        (.commits (.redis (.del [.loginOtp email'.toLower, .loginAttempts email'.toLower]))) :=
      reaches_bind_commits hdel _
    obtain ⟨as, bs, next, hms, -, hseen, hcall', hnext⟩ :=
      System.commit_of_seen hcall hshort hl hcommit
    refine ⟨as, bs, _, next, hms, by rw [hemail]; exact List.mem_cons_self, hnext, ?_⟩
    simp only [loginComparedBy, hcall', hseen]
    rw [returned_eq_some_iff.mpr hcompares, Option.map_some, hemail, hcode]
  · cases htokens

theorem loginRedeemed_bounded
    (hrun : login.Respects (fun c _ => c.Spares email.toLower code) (fun _ _ => True)
      (number (calls ms).length ms') (login.runFrom s ms))
    (hfinds : AtSteps (fun as n => FindsLoginCode s email.toLower code (ms ++ as) n) ms') :
    (loginRedeemed s ms ms' email code).length ≤ 1 := by
  refine System.once login s ms ms' (LoginStore.HasCode email.toLower code)
    (List.nodup_range.filter _)
    (fun as₁ m as₂ has => ?_) fun n hn => ?_
  · exact System.relates_admitted
      (R := fun t u => ¬ t.HasCode email.toLower code → ¬ u.HasCode email.toLower code) hrun
      (fun _ h => h)
      (fun n i k l s hreaches hspares hgone h =>
        hgone (loginHasCode_of_apply ((only_login (n, i) _).reaches hreaches) hspares h))
      (fun e s _ hgone h => hgone (loginHasCode_of_env h)) has
  · obtain ⟨as, bs, keys, next, hms, hkeys, hthread, hcompared⟩ := deletion_of_loginRedeemed hn
    have hfound := hfinds.split hms (by rw [hthread]; rfl) hcompared
    refine ⟨as, bs, hms, hfound, fun h => ?_⟩
    rw [System.runFrom_commit hthread] at h
    exact nomatch (AccessStore.get_del hkeys).symm.trans h

end Logins

/-! ## Both flows -/

/-- **At most one exchange**: after a code was stored, and where it is not stored
again, one call at most gets a session or a pair of tokens for it -- in every run in
which each call that has compared the right code still finds it there when it
deletes it. -/
theorem code_redeemed_once [Collation] :
    (∀ (s : Platform) (ms ms' : List (Move Request PlatformMove)) (g : GrantId) (code : String),
      platform.Respects (fun c _ => c.Spares g code) (fun _ _ => True)
        (number (calls ms).length ms') (platform.runFrom s ms) →
      AtSteps (fun as n => FindsCode s g code (ms ++ as) n) ms' →
      (redeemed s ms ms' g code).length ≤ 1) ∧
    ∀ (s : LoginStore) (ms ms' : List (Move LoginRequest LoginMove)) (email code : String),
      login.Respects (fun c _ => c.Spares email.toLower code) (fun _ _ => True)
        (number (calls ms).length ms') (login.runFrom s ms) →
      AtSteps (fun as n => FindsLoginCode s email.toLower code (ms ++ as) n) ms' →
      (loginRedeemed s ms ms' email code).length ≤ 1 :=
  ⟨fun _ _ _ _ _ => redeemed_bounded, fun _ _ _ _ _ => loginRedeemed_bounded⟩

section Concrete

open Scenario

/-- Two calls with the right code, the steps in the order of `order`. -/
abbrev Scenario.twoRedemptions (order : List Nat) : List (Move Request PlatformMove) :=
  List.replicate 2 (.call (.disclosure (.verifyRecipientOtp "token" "123456" "access"))) ++
    order.map .step

abbrev Scenario.twoSignIns (order : List Nat) : List (Move LoginRequest LoginMove) :=
  [.call (.verifyOtp "user@example.test" "123456" "other" "first"),
    .call (.verifyOtp "user@example.test" "123456" "other" "second")] ++ order.map .step

/-- One call after the other. -/
theorem code_redeemed_once_in_turn :
    (@redeemed byCodePoint start codeIssued
      (twoRedemptions (List.replicate 7 3 ++ List.replicate 7 4)) 1 "123456").length ≤ 1 ∧
    (loginRedeemed (.fresh signedOut) loginIssued
      (twoSignIns (List.replicate 8 1 ++ List.replicate 2 2)) "User@example.test"
        "123456").length ≤ 1 := by
  have hlogin : login.Respects (fun c _ => c.Spares "User@example.test".toLower "123456")
      (fun _ _ => True)
      (number (calls loginIssued).length (twoSignIns (List.replicate 8 1 ++ List.replicate 2 2)))
      (login.runFrom (.fresh signedOut) loginIssued) ∧
    AtSteps (fun as n => FindsLoginCode (.fresh signedOut) "User@example.test".toLower "123456"
      (loginIssued ++ as) n) (twoSignIns (List.replicate 8 1 ++ List.replicate 2 2)) := by
    decide +kernel
  exact ⟨(@code_redeemed_once byCodePoint).1 start codeIssued _ 1 "123456" (by decide +kernel)
      (by decide +kernel),
    (@code_redeemed_once byCodePoint).2 (.fresh signedOut) loginIssued _ "User@example.test"
      "123456" hlogin.1 hlogin.2⟩

/-- Both calls have read the hash before one of them deletes it. -/
theorem code_redeemed_twice :
    (@IssuesCode byCodePoint start codeIssued 1 "123456" ∧
      (@platform byCodePoint).Respects (fun c _ => c.Spares 1 "123456") (fun _ _ => True)
        (number (calls codeIssued).length
          (twoRedemptions ([3, 3, 3, 4, 4, 4] ++ List.replicate 4 3 ++ List.replicate 4 4)))
        ((@platform byCodePoint).runFrom start codeIssued) ∧
      (@redeemed byCodePoint start codeIssued
        (twoRedemptions ([3, 3, 3, 4, 4, 4] ++ List.replicate 4 3 ++ List.replicate 4 4)) 1
          "123456").length = 2) ∧
    IssuesLoginCode (.fresh signedOut) loginIssued "User@example.test" "123456" ∧
      login.Respects (fun c _ => c.Spares "User@example.test".toLower "123456") (fun _ _ => True)
        (number (calls loginIssued).length
          (twoSignIns ([1, 1, 2, 2] ++ List.replicate 6 1 ++ List.replicate 6 2)))
        (login.runFrom (.fresh signedOut) loginIssued) ∧
      (loginRedeemed (.fresh signedOut) loginIssued
        (twoSignIns ([1, 1, 2, 2] ++ List.replicate 6 1 ++ List.replicate 6 2))
          "User@example.test" "123456").length = 2 := by
  refine ⟨⟨⟨codeRequested, 2, "token", none, rfl, rfl, ?_⟩, ?_, ?_⟩,
    ⟨loginRequested, 0, none, rfl, rfl, ?_⟩, ?_⟩
  all_goals decide +kernel

end Concrete

end ServeProof
