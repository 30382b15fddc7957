import ServeProof.Accounts.Session

/-!
# ServeProof.Rotation

Refresh tokens are single use.

The claim of a token is conditional and atomic, and a token that is revoked
stays revoked (`Spent`): of all calls that present it one comes to a claim that
counts, and only that one goes on to return a pair of tokens.
-/

namespace ServeProof

open Interleave
open Prog (only_get_bind only_put_bind only_putGet_bind only_require_bind only_orThrow_bind)
open Prog (reaches_bind reaches_bind_commits reaches_get_bind reaches_putGet_bind
  reaches_require_bind reaches_orThrow_bind)

namespace AuthStore

/-- The token with this hash is revoked. -/
def Spent (hash : Sha256) (s : AuthStore) : Prop :=
  ∃ t ∈ s.tokens.rows, t.tokenHash = hash ∧ t.revokedAt ≠ none

instance (hash : Sha256) (s : AuthStore) : Decidable (s.Spent hash) :=
  inferInstanceAs (Decidable (∃ t ∈ _, _))

/-- A token stays what it is, and stays revoked. -/
def TokensStay (s s' : AuthStore) : Prop :=
  ∀ t ∈ s.tokens.rows, ∃ t' ∈ s'.tokens.rows, t'.id = t.id ∧ t'.tokenHash = t.tokenHash ∧
    (t.revokedAt ≠ none → t'.revokedAt ≠ none)

theorem TokensStay.refl (s : AuthStore) : s.TokensStay s := fun t ht => ⟨t, ht, rfl, rfl, id⟩

theorem TokensStay.trans {s s' s'' : AuthStore} (h : s.TokensStay s') (h' : s'.TokensStay s'') :
    s.TokensStay s'' := by
  intro t ht
  obtain ⟨t', ht', hid, hhash, hrevoked⟩ := h t ht
  obtain ⟨t'', ht'', hid', hhash', hrevoked'⟩ := h' t' ht'
  exact ⟨t'', ht'', hid'.trans hid, hhash'.trans hhash, fun hr => hrevoked' (hrevoked hr)⟩

theorem tokensStay_revokeWhere (s : AuthStore) (P : RefreshToken → Bool) (now : Date) :
    s.TokensStay (s.revokeWhere P now) := by
  intro t ht
  refine ⟨_, List.mem_map_of_mem ht, ?_⟩
  split
  · exact ⟨rfl, rfl, fun _ => nofun⟩
  · exact ⟨rfl, rfl, id⟩

theorem tokensStay_insertToken (s : AuthStore) (userId : UserId) (hash : Sha256)
    (expiresAt : Date) : s.TokensStay (s.insertToken userId hash expiresAt) := by
  intro t ht
  refine ⟨t, ?_, rfl, rfl, id⟩
  unfold insertToken
  split
  · exact s.tokens.mem_set.mpr (.inr ⟨ht, Nat.ne_of_lt (s.fresh t ht)⟩)
  · exact ht

theorem tokensStay_apply (c : AuthCommand) (s : AuthStore) : s.TokensStay (c.apply s) := by
  cases c with
  | claim id now => exact s.tokensStay_revokeWhere _ now
  | revoke hash now => exact s.tokensStay_revokeWhere _ now
  | upsertWorker userId => exact .refl s
  | createToken userId hash expiresAt => exact s.tokensStay_insertToken userId hash expiresAt
  | answer pair => exact .refl s

theorem tokensStay_env (e : AuthMove) (s : AuthStore) : s.TokensStay (e.apply s) := by
  cases e <;> exact .refl s

theorem Spent.stays {s s' : AuthStore} {hash : Sha256} (h : s.Spent hash)
    (hs : s.TokensStay s') : s'.Spent hash := by
  obtain ⟨t, ht, hhash, hrevoked⟩ := h
  obtain ⟨t', ht', -, hhash', hrevoked'⟩ := hs t ht
  exact ⟨t', ht', hhash'.trans hhash, hrevoked' hrevoked⟩

/-- A claim that counts finds the token unspent, and spends it. -/
theorem spent_claim {s : AuthStore} {t : RefreshToken} (ht : t ∈ s.tokens.rows) {now : Date}
    (hcount : (s.tokens.rows.filter (Claimable t.id now)).length = 1) :
    ¬ s.Spent t.tokenHash ∧ ((AuthCommand.claim t.id now).apply s).Spent t.tokenHash := by
  obtain ⟨t', ht'⟩ := List.length_eq_one_iff.mp hcount
  have hmem : t' ∈ s.tokens.rows.filter (Claimable t.id now) := by
    rw [ht']
    exact List.mem_cons_self
  obtain ⟨hrow, hclaimable⟩ := List.mem_filter.mp hmem
  obtain ⟨hid, hopen, -⟩ := of_decide_eq_true hclaimable
  obtain rfl : t' = t := s.tokens.eq_of_key_eq hrow ht hid
  refine ⟨fun hspent => ?_, ?_⟩
  · obtain ⟨t'', ht'', hhash, hrevoked⟩ := hspent
    rw [s.oneHash t'' ht'' t' ht hhash] at hrevoked
    exact hrevoked hopen
  · refine ⟨_, List.mem_map_of_mem ht, ?_⟩
    rw [if_pos hclaimable]
    exact ⟨rfl, nofun⟩

end AuthStore

/-! ## A refresh that returns -/

theorem only_issueTokens (user : User) (newToken : String) :
    (issueTokens user newToken).Only fun c => ∀ pair, c ≠ .answer pair := by
  refine only_put_bind.mpr ⟨nofun, fun _ => ?_⟩
  simp only [only_get_bind, only_putGet_bind, only_require_bind]
  exact fun _ _ => ⟨nofun, fun _ _ => trivial⟩

theorem only_refresh (refreshToken newToken : String) :
    (refresh refreshToken newToken).Only fun c => ∀ pair, c ≠ .answer pair := by
  unfold refresh
  simp only [only_get_bind, only_orThrow_bind, only_require_bind, only_putGet_bind]
  exact fun _ stored _ _ _ _ _ => ⟨nofun, fun _ _ => only_issueTokens stored.2 newToken⟩

/-- What a refresh has read and done when it returns a pair: it has found the
token, and its claim of it has counted. -/
theorem reaches_refresh {refreshToken newToken : String} {pair : TokenPair} {l : List AuthStore}
    (h : (AuthRequest.refresh refreshToken newToken).prog.Reaches l (.commits (.answer pair))) :
    ∃ s₁ s₂ s₃ u l' t now, l = [s₁, s₂, s₃] ++ u :: l' ∧
      s₁.findToken ⟨refreshToken⟩ = some t ∧
      (AuthRequest.refresh refreshToken newToken).prog.Reaches [s₁, s₂, s₃]
        (.commits (.claim t.id now)) ∧
      (u.tokens.rows.filter (AuthStore.Claimable t.id now)).length = 1 := by
  obtain ⟨c, hc, hcommit⟩ | ⟨l₁, l₂, _, rfl, hreturns, -⟩ := reaches_bind h
  · cases hc
    exact absurd rfl ((only_refresh refreshToken newToken).reaches hcommit pair)
  · obtain ⟨s₁, l', rfl, hfound⟩ := reaches_get_bind.mp hreturns
    obtain ⟨stored, hstored, hopen⟩ := reaches_orThrow_bind.mp hfound
    obtain ⟨hrevoked, hnow⟩ := reaches_require_bind.mp hopen
    obtain ⟨s₂, l', rfl, hexpires⟩ := reaches_get_bind.mp hnow
    obtain ⟨hexpiresAt, hlater⟩ := reaches_require_bind.mp hexpires
    obtain ⟨s₃, l', rfl, hclaim⟩ := reaches_get_bind.mp hlater
    obtain ⟨-, hc⟩ | ⟨u, l', rfl, hcount⟩ := reaches_putGet_bind.mp hclaim
    · cases hc
    · obtain ⟨hcount, -⟩ := reaches_require_bind.mp hcount
      obtain ⟨t, ht, huser⟩ := Option.bind_eq_some_iff.mp hstored
      obtain ⟨user, -, rfl⟩ := Option.map_eq_some_iff.mp huser
      refine ⟨s₁, s₂, s₃, u, l' ++ l₂, t, s₃.clock, by simp, ht, ?_, hcount⟩
      refine reaches_bind_commits ?_ _
      -- the same steps, up to the claim
      refine reaches_get_bind.mpr ⟨s₁, [s₂, s₃], rfl, reaches_orThrow_bind.mpr ⟨_, hstored, ?_⟩⟩
      refine reaches_require_bind.mpr ⟨hrevoked, reaches_get_bind.mpr ⟨s₂, [s₃], rfl, ?_⟩⟩
      refine reaches_require_bind.mpr ⟨hexpiresAt, reaches_get_bind.mpr ⟨s₃, [], rfl, ?_⟩⟩
      exact reaches_putGet_bind.mpr (.inl ⟨rfl, rfl⟩)

/-! ## In a run -/

/-- The pair a call is about to return. -/
def returning : AuthAction Unit → Option TokenPair
  | .commit (.answer pair) _ => some pair
  | _ => none

/-- In the run the call `n` presents the token and returns a pair for it. -/
def Returns (s : AuthStore) (ms : List (Move AuthRequest AuthMove)) (refreshToken : String)
    (n : Nat) : Prop :=
  ∃ ms₁ ms₂ newToken, ms = ms₁ ++ .step n :: ms₂ ∧
    (calls ms₁)[n]? = some (.refresh refreshToken newToken) ∧
    ∃ p ∈ (auth.runFrom s ms₁).threads[n]?, (returning p).isSome

/-- In the run the call `n` claims the token, which is unspent before. -/
def Claims (s : AuthStore) (ms : List (Move AuthRequest AuthMove)) (refreshToken : String)
    (n : Nat) : Prop :=
  ∃ id now u, auth.Made ms s n (.claim id now) u ∧ ¬ u.Spent ⟨refreshToken⟩ ∧
    ((AuthCommand.claim id now).apply u).Spent ⟨refreshToken⟩

variable {s : AuthStore} {ms ms' : List (Move AuthRequest AuthMove)} {refreshToken : String}
  {n : Nat}

/-- Who returns a pair has claimed the token. -/
theorem Returns.claims (h : Returns s ms refreshToken n) : Claims s ms refreshToken n := by
  obtain ⟨ms₁, ms₂, newToken, rfl, hcall, p, hp, hreturning⟩ := h
  obtain ⟨pair, next, rfl⟩ : ∃ pair next, p = .commit (.answer pair) next := by
    unfold returning at hreturning
    split at hreturning
    · exact ⟨_, _, rfl⟩
    · cases hreturning
  obtain ⟨i, hi, hreaches⟩ := System.reaches_of_thread hp
  cases hcall.symm.trans hi
  obtain ⟨s₁, s₂, s₃, u, l, t, now, hseen, ht, hclaim, hcount⟩ := reaches_refresh hreaches
  have hmade := System.made_of_reaches hi hseen hclaim
  -- the token that was found is the one that is claimed
  have hstays : s₁.TokensStay u := by
    have hpair := (auth.seen_pairwise (R := AuthStore.TokensStay) AuthStore.TokensStay.refl
      (fun _ _ _ => AuthStore.TokensStay.trans) AuthStore.tokensStay_apply
      AuthStore.tokensStay_env (n := n) (number 0 ms₁) (Config.start s)).1
    have hall : auth.seen n (number 0 ms₁) (Config.start s) = s₁ :: s₂ :: s₃ :: u :: l := hseen
    rw [hall, List.pairwise_cons] at hpair
    exact hpair.1 u (by simp)
  have hmem : t ∈ s₁.tokens.rows := List.mem_of_find?_eq_some ht
  have hhash : t.tokenHash = ⟨refreshToken⟩ := by simpa using List.find?_some ht
  obtain ⟨t', ht', hid, hhash', -⟩ := hstays t hmem
  rw [← hid] at hcount
  obtain ⟨hunspent, hspent⟩ := AuthStore.spent_claim ht' hcount
  rw [hhash', hhash, hid] at hspent
  rw [hhash', hhash] at hunspent
  exact ⟨t.id, now, u, hmade.append _, hunspent, hspent⟩

/-- **Single use**: of all calls that present a refresh token one returns a pair
at most; and once the token is spent only a call that has claimed it before
returns one. -/
theorem refresh_single_use (h : Returns s (ms ++ ms') refreshToken n) :
    (∀ m, Returns s (ms ++ ms') refreshToken m → m = n) ∧
      ((auth.runFrom s ms).store.Spent ⟨refreshToken⟩ → Claims s ms refreshToken n) := by
  have hcommit (c : AuthCommand) (s : AuthStore) (hs : s.Spent ⟨refreshToken⟩) :
      (c.apply s).Spent ⟨refreshToken⟩ := hs.stays (s.tokensStay_apply c)
  have henv (e : AuthMove) (s : AuthStore) (hs : s.Spent ⟨refreshToken⟩) :
      (e.apply s).Spent ⟨refreshToken⟩ := hs.stays (s.tokensStay_env e)
  obtain ⟨id, now, u, hmade, hunspent, hspent⟩ := h.claims
  constructor
  · intro m hm
    obtain ⟨id', now', u', hmade', hunspent', hspent'⟩ := hm.claims
    exact hmade'.unique hcommit henv hmade hunspent' hunspent hspent' hspent
  · intro hbefore
    exact ⟨id, now, u, hmade.before hcommit henv hunspent hbefore, hunspent, hspent⟩

section Concrete

/-- One user, with no session yet. -/
def Scenario.signedOut : AuthStore where
  users := (∅ : Table User.id).set ⟨"user", "user@example.test", .worker⟩
  members := ∅
  workers := []
  tokens := ∅
  nextTokenId := 1
  clock := 0
  fresh := fun _ h => absurd h List.not_mem_nil
  oneHash := fun _ h => absurd h List.not_mem_nil

/-- The user logs in. -/
def Scenario.signedIn : List (Move AuthRequest AuthMove) :=
  .call (.login "user" "first") :: List.replicate 6 (.step 0)

/-- The token is presented, up to the answer. -/
def Scenario.rotated : List (Move AuthRequest AuthMove) :=
  .call (.refresh "first" "second") :: List.replicate 8 (.step 1)

open Scenario

theorem refresh_single_use_of_login :
    (∀ m, Returns signedOut (signedIn ++ (rotated ++ [.step 1])) "first" m → m = 1) ∧
      ((auth.runFrom signedOut signedIn).store.Spent ⟨"first"⟩ →
        Claims signedOut signedIn "first" 1) :=
  refresh_single_use ⟨signedIn ++ rotated, [], "second", by simp, rfl,
    by decide +kernel⟩

end Concrete

end ServeProof
