import ServeProof.Interleave.Within
import ServeProof.Web.Kept

/-!
# ServeProof.SignedIn

A browser stays signed in while its tabs refresh the session.
-/

namespace ServeProof

open Interleave
open Prog (put putGet Sat sat_of_rely sat_get_bind sat_put_bind sat_put sat_putGet_bind sat_pure sat_ite)

section Browser

variable (ours : String → Prop) (u : UserId) (randomToken : Nat → String)

/-- The calls of a browser in which the user is signed in. -/
def browser : Sessions Web WebCommand where
  apply := WebCommand.apply
  rely := Web.Rely ours u randomToken
  inv := Web.Kept ours u
  ok := Web.Admitted ours u

end Browser

variable {ours : String → Prop} {u : UserId} {randomToken : Nat → String}

theorem browser_lawful (n : Nat) : ((browser ours u randomToken).of n).Lawful :=
  ⟨Web.Rely.refl n, Web.Rely.trans⟩

namespace Web

variable {n : Nat}

/-! ## At the server -/

/-- The lock that the call holds, and what it has sent. -/
def Holds (n : Nat) (s t : Web) : Prop :=
  ∀ v, s.lock v = some n → t.lock v = some n ∧ t.sent v = s.sent v

/-- What a call does at the server leaves its lock. -/
theorem remembers_holds : Prog.Remembers ((browser ours u randomToken).of n)
    (Known ours u randomToken n) (fun c => ∃ c', c = .server c') (Holds n) where
  refl s v h := ⟨h, rfl⟩
  trans h h' v hv := ⟨(h' v (h v hv).1).1, ((h' v (h v hv).1).2).trans (h v hv).2⟩
  of_rely h := h.held
  of_commit _ _ _ hc v hv := by
    obtain ⟨c', rfl⟩ := hc
    exact ⟨hv, rfl⟩

/-- A pair of tokens that the call has been given for a user, and not yet used. -/
structure Given (ours : String → Prop) (u : UserId) (newToken : String) (v : UserId)
    (tokens : TokenPair) (s : Web) : Prop where
  refreshToken : tokens.refreshToken = newToken
  sub : tokens.accessToken.sub = v
  issued : s.server.Issued v newToken
  unused : v = u → s.Unused ours u newToken

theorem Given.rely {s t : Web} {v : UserId} {tokens : TokenPair}
    (h : Given ours u (randomToken n) v tokens s) (hr : Rely ours u randomToken n s t) :
    Given ours u (randomToken n) v tokens t :=
  ⟨h.refreshToken, h.sub, h.issued.endures hr.endures, fun hv => hr.unused (h.unused hv)⟩

/-- What a call knows of the pair it stores. -/
theorem Given.known {s : Web} {v : UserId} {tokens : TokenPair}
    (h : Given ours u (randomToken n) v tokens s) (tab : TabId) (iat : Date) :
    Known ours u randomToken n (.persist tab tokens iat) s :=
  ⟨h.refreshToken, h.sub ▸ h.issued, fun hv => h.unused (h.sub.symm.trans hv)⟩

/-- A new pair of tokens is given. -/
theorem sat_issueTokens (user : User) (s : Web) :
    ((atServer (issueTokens user (randomToken n))).attempt).Sat ((browser ours u randomToken).of n)
      (Known ours u randomToken n) s fun r s' =>
        ∃ tokens, r = .ok tokens ∧ Given ours u (randomToken n) user.id tokens s' := by
  unfold atServer issueTokens
  simp only [Prog.lift_bind, Prog.lift_put, Prog.lift_get, Prog.lift_putGet, Prog.lift_require,
    Prog.lift_pure, Prog.attempt_put_bind, Prog.attempt_get_bind, Prog.attempt_putGet_bind,
    Prog.attempt_require_bind, Prog.attempt_pure]
  refine sat_put_bind.mpr fun s₁ _ _ _ => ⟨trivial, sat_get_bind.mpr fun s₂ _ _ => ?_⟩
  refine sat_get_bind.mpr fun s₃ _ _ => sat_putGet_bind.mpr fun s₄ _ hs₄ hok => ⟨trivial, ?_⟩
  obtain ⟨hfresh, hours⟩ := hok
  rw [if_pos (decide_eq_true hfresh)]
  refine sat_pure.mpr fun s₅ hr _ => ⟨_, rfl, Given.rely ?_ hr⟩
  have hworks := @AuthStore.works_insertToken _ user.id _ (s₃.server.clock + refreshTokenTtlMs)
    hfresh
  refine ⟨rfl, rfl, hworks.issued, ?_⟩
  rintro rfl
  refine ⟨hours, hworks, fun huse => ?_⟩
  obtain ⟨t, ht, hhash, -⟩ := hs₄.issued _ _ huse
  exact hfresh t ht hhash

/-- The refresh that a call has sent succeeds when its token works. -/
theorem sat_refresh {v : UserId} {attempted : String} {s : Web} (hlock : s.lock v = some n)
    (hsent : s.sent v = some attempted) (hworks : v = u → s.server.Works u attempted) :
    ((atServer (refresh attempted (randomToken n))).attempt).Sat ((browser ours u randomToken).of n)
      (Known ours u randomToken n) s fun r s' =>
        (∀ tokens, r = .ok tokens → Given ours u (randomToken n) v tokens s') ∧
          (v = u → ∃ tokens, r = .ok tokens) := by
  -- what the call can rely on, in a store that it sees
  have hsees (s' : Web) (hr : Rely ours u randomToken n s s') (hs' : s'.Kept ours u) :
      (s'.lock v = some n ∧ s'.sent v = some attempted) ∧ s'.server.Issued v attempted ∧
        (v = u → s'.server.Works u attempted ∧ s'.server.InTime attempted) := by
    obtain ⟨hlock', hsame⟩ := hr.held v hlock
    have hsent' := hsame.trans hsent
    refine ⟨⟨hlock', hsent'⟩, hs'.issued v attempted (.inr hsent'), ?_⟩
    rintro rfl
    have hours := hs'.ours attempted (.inr hsent')
    exact ⟨hr.works hlock attempted hours (hworks rfl), hs'.inTime attempted (.inr hsent')⟩
  unfold atServer refresh
  simp only [Prog.lift_bind, Prog.lift_get, Prog.lift_putGet, Prog.lift_require,
    Prog.lift_orThrow, Prog.attempt_get_bind, Prog.attempt_putGet_bind,
    Prog.attempt_require_bind, Prog.attempt_orThrow_bind]
  refine sat_get_bind.mpr fun s₁ hr₁ hs₁ => ?_
  obtain ⟨-, hissued₁, hown₁⟩ := hsees s₁ hr₁ hs₁
  obtain ⟨t, ht, hhash, huser⟩ := hissued₁
  rw [AuthStore.findToken_of_mem ht hhash, Option.bind_some]
  -- an error, that a token of `u` does not meet
  have hrefused (s' : Web) (hne : v ≠ u) :
      (Pure.pure (.error invalidRefreshToken) : WebAction (Except ApiError TokenPair)).Sat
        ((browser ours u randomToken).of n) (Known ours u randomToken n) s' fun r s'' =>
          (∀ tokens, r = .ok tokens → Given ours u (randomToken n) v tokens s'') ∧
            (v = u → ∃ tokens, r = .ok tokens) :=
    sat_pure.mpr fun _ _ _ => ⟨fun _ h => (by cases h), fun h => absurd h hne⟩
  cases hfind : s₁.server.users.find t.userId with
  | none =>
      refine hrefused s₁ ?_
      rintro rfl
      have hkept := hs₁.user
      rw [← huser, hfind] at hkept
      cases hkept
  | some user =>
      have hid : user.id = v := (Table.key_of_find hfind).trans huser
      dsimp only [Option.map_some]
      refine sat_ite.mpr ⟨fun hopen => ?_, fun hopen => hrefused s₁ fun hv => ?_⟩
      · refine sat_get_bind.mpr fun s₂ hr₂ hs₂ => ?_
        obtain ⟨-, -, hown₂⟩ := hsees s₂ (hr₁.trans hr₂) hs₂
        obtain ⟨t₂, ht₂, -, hhash₂, -, hexpires₂⟩ := hr₂.endures t ht
        refine sat_ite.mpr ⟨fun _ => ?_, fun hlate => hrefused s₂ fun hv => hlate ?_⟩
        · refine sat_get_bind.mpr fun s₃ hr₃ hs₃ => ?_
          have hr₃ := hr₂.trans hr₃
          obtain ⟨-, -, hown₃⟩ := hsees s₃ (hr₁.trans hr₃) hs₃
          obtain ⟨t₃, ht₃, -, hhash₃, -, hexpires₃⟩ := hr₃.endures t ht
          refine sat_putGet_bind.mpr fun s₄ hr₄ hs₄ _ => ?_
          have hr₄ := hr₃.trans hr₄
          obtain ⟨⟨hlock₄, hsent₄⟩, -, hown₄⟩ := hsees s₄ (hr₁.trans hr₄) hs₄
          obtain ⟨t₄, ht₄, hid₄, hhash₄, -, hexpires₄⟩ := hr₄.endures t ht
          refine ⟨⟨v, attempted, hlock₄, hsent₄, t₄, ht₄, hid₄, hhash₄.trans hhash⟩, ?_⟩
          refine sat_ite.mpr ⟨fun _ => ?_, fun hcount => hrefused _ fun hv => hcount ?_⟩
          · refine (sat_issueTokens user _).mono fun r s' hgiven => ?_
            obtain ⟨tokens, rfl, hgiven⟩ := hgiven
            refine ⟨fun tokens' h => ?_, fun _ => ⟨tokens, rfl⟩⟩
            cases h
            exact hid ▸ hgiven
          · have hopen₄ := ((hown₄ hv).1.of_mem ht₄ (hhash₄.trans hhash)).2
            have htime := (hown₃ hv).2.of_mem ht₃ (hhash₃.trans hhash)
            rw [← hid₄]
            exact AuthStore.claim_counts ht₄ hopen₄ (by rwa [hexpires₄, ← hexpires₃])
        · have htime := (hown₂ hv).2.of_mem ht₂ (hhash₂.trans hhash)
          rwa [hexpires₂] at htime
      · exact hopen ((hown₁ hv).1.of_mem ht hhash).2

/-! ## With the lock -/

/-- The call holds the lock of a session, and the stored token works if it is the
one of `u`. -/
structure Owns (u : UserId) (n : Nat) (id : UserId) (s : Web) : Prop where
  lock : s.lock id = some n
  works : id = u → s.StoredWorks u

theorem Owns.rely {s t : Web} {id : UserId} (h : Owns u n id s)
    (hr : Rely ours u randomToken n s t) : Owns u n id t where
  lock := (hr.held id h.lock).1
  works := by
    rintro rfl
    exact hr.storedWorks h.lock (h.works rfl)

theorem sat_owns {s : Web} {id : UserId} (h : Owns u n id s) (result : Bool) :
    (Pure.pure result : WebAction Bool).Sat ((browser ours u randomToken).of n)
      (Known ours u randomToken n) s fun _ s' => Owns u n id s' :=
  sat_pure.mpr fun _ hr _ => h.rely hr

/-- A refresh by who holds the lock. -/
theorem sat_sent {id : UserId} {attempted : String} {s : Web} (howns : Owns u n id s)
    (hsent : s.sent id = some attempted) (hstored : s.storage.refreshToken id = some attempted) :
    ((atServer (refresh attempted (randomToken n))).attempt).Sat ((browser ours u randomToken).of n)
      (Known ours u randomToken n) s fun r s' =>
        s'.lock id = some n ∧
          (∀ tokens, r = .ok tokens → Given ours u (randomToken n) id tokens s') ∧
          (id = u → ∃ tokens, r = .ok tokens) := by
  have honly : ((atServer (refresh attempted (randomToken n))).attempt).Only
      fun c => ∃ c', c = .server c' :=
    (Prog.Only.lift ((Prog.only_true _).imp fun c _ => ⟨c, rfl⟩)).attempt
  refine (Sat.remember remembers_holds honly (sat_refresh howns.lock hsent ?_)).mono ?_
  · exact fun hid => howns.works hid attempted (hid ▸ hstored)
  · exact fun r s' h => ⟨(h.2 id howns.lock).1, h.1⟩

/-- The tokens that come back are stored. -/
theorem sat_stored {tab : TabId} {id : UserId} {tokens : TokenPair} {iat : Date} {s : Web}
    (htoken : Function.Injective randomToken) (hne : randomToken n ≠ "")
    (hlock : s.lock id = some n) (hgiven : Given ours u (randomToken n) id tokens s) :
    (do put (.persist tab tokens iat); return true : WebAction Bool).Sat
      ((browser ours u randomToken).of n) (Known ours u randomToken n) s
      fun _ s' => Owns u n id s' := by
  refine sat_put_bind.mpr fun s' hr hs' hadmitted => ?_
  have hgiven' := hgiven.rely hr
  have hknown := hgiven'.known tab iat
  refine ⟨hknown, sat_owns ?_ true⟩
  refine ⟨(hr.held id hlock).1, ?_⟩
  rintro rfl
  exact (persist_commit htoken hne hs' hadmitted hknown).2.1 hgiven'.sub

/-- The session of another user is given up when the server refuses. -/
theorem sat_refused {tab : TabId} {id : UserId} {attempted : String} {s : Web} (hother : id ≠ u)
    (hlock : s.lock id = some n) :
    (putGet (.refused tab id attempted) fun s => decide (s.storage.Replaced id attempted) :
      WebAction Bool).Sat ((browser ours u randomToken).of n) (Known ours u randomToken n) s
      fun _ s' => Owns u n id s' := by
  refine fun s' hr _ _ => ⟨hother, sat_owns ⟨?_, fun h => absurd h hother⟩ _⟩
  change (WebCommand.apply (.refused tab id attempted) s').lock id = some n
  rw [WebCommand.apply]
  split
  · exact (hr.held id hlock).1
  · exact (hr.held id hlock).1

theorem sat_refreshLocked {tab : TabId} {id : UserId} {stale : Option Jwt} {delivery : Delivery}
    {s : Web} (htoken : Function.Injective randomToken) (hne : randomToken n ≠ "")
    (hlock : s.lock id = some n) (hsent : s.sent id = none) :
    (refreshLocked tab id stale (randomToken n) delivery).Sat ((browser ours u randomToken).of n)
      (Known ours u randomToken n) s fun _ s' => Owns u n id s' := by
  refine sat_putGet_bind.mpr fun s₁ hr hs₁ _ => ?_
  obtain ⟨hlock₁, hsame⟩ := hr.held id hlock
  have hsent₁ : s₁.sent id = none := hsame.trans hsent
  have howns : Owns u n id s₁ := by
    refine ⟨hlock₁, ?_⟩
    rintro rfl text hst
    refine (hs₁.works text hst).resolve_right fun h => ?_
    cases hsent₁.symm.trans h
  refine ⟨hlock₁, ?_⟩
  have happly : ((browser ours u randomToken).of n).apply (.present tab id stale) s₁ =
      WebCommand.applyPresent tab id stale s₁ := rfl
  rw [happly, WebCommand.applyPresent]
  cases hfound : s₁.storage.found id stale with
  | current => exact sat_owns howns true
  | missing =>
      refine sat_owns ?_ false
      refine ⟨hlock₁, ?_⟩
      rintro rfl text hst
      rw [WebStorage.refreshToken_removeSession, Function.update_self] at hst
      cases hst
  | attempt attempted =>
      have hstored : s₁.storage.refreshToken id = some attempted := by
        unfold WebStorage.found at hfound
        grind
      dsimp only
      -- the token is on its way
      set s₂ : Web := { s₁ with sent := Function.update s₁.sent id (some attempted) } with hs₂
      have howns₂ : Owns u n id s₂ := ⟨howns.lock, howns.works⟩
      have hsent₂ : s₂.sent id = some attempted := Function.update_self ..
      cases delivery with
      | requestLost => exact sat_owns howns₂ false
      | responseLost =>
          refine Sat.bind (browser_lawful n) ((sat_sent howns₂ hsent₂ hstored).mono fun r s₃ h => ?_)
          refine sat_put_bind.mpr fun s₄ hr₄ _ hother => ⟨trivial, sat_owns ?_ false⟩
          exact ⟨(hr₄.held id h.1).1, fun hid => absurd hid hother⟩
      | delivered iat =>
          refine Sat.bind (browser_lawful n) ((sat_sent howns₂ hsent₂ hstored).mono fun r s₃ h => ?_)
          obtain ⟨hlock₃, hgiven, hok⟩ := h
          cases r with
          | ok tokens => exact sat_stored htoken hne hlock₃ (hgiven tokens rfl)
          | error e =>
              refine sat_refused (fun hid => ?_) hlock₃
              obtain ⟨tokens, htokens⟩ := hok hid
              cases htokens

/-! ## The calls -/

theorem sat_syncCurrentSession (tab : TabId) (page : Option AppMode)
    (told : Option (String × List AppMode)) (s : Web) :
    (syncCurrentSession tab page told).Sat
      ((browser ours u randomToken).of n) (Known ours u randomToken n) s fun _ _ => True := by
  refine sat_putGet_bind.mpr fun s₁ _ _ _ => ⟨trivial, ?_⟩
  split
  · exact sat_pure.mpr fun _ _ _ => trivial
  · exact sat_pure.mpr fun _ _ _ => trivial
  · exact sat_put_bind.mpr fun _ _ _ _ => ⟨trivial, sat_pure.mpr fun _ _ _ => trivial⟩

section Calls

variable (htoken : Function.Injective randomToken) (hne : ∀ n, randomToken n ≠ "")

include htoken hne

theorem sat_refreshSession (tab : TabId) (page : Option AppMode) (stale : Option Jwt)
    (delivery : Delivery) (s : Web) :
    (refreshSession n tab page stale (randomToken n) delivery).Sat
      ((browser ours u randomToken).of n) (Known ours u randomToken n) s fun _ _ => True := by
  refine sat_putGet_bind.mpr fun s₁ _ _ _ => ⟨trivial, ?_⟩
  split
  · exact sat_pure.mpr fun _ _ _ => trivial
  · exact sat_put_bind.mpr fun _ _ _ _ => ⟨trivial, fun _ _ _ _ _ _ => trivial⟩
  · next id _ =>
    refine sat_put_bind.mpr fun s₂ _ hs₂ hfree => ⟨rfl, ?_⟩
    refine Sat.bind (browser_lawful n) ((sat_refreshLocked htoken (hne n) ?_ ?_).mono ?_)
    · exact Function.update_self ..
    · exact hs₂.idle id hfree
    · refine fun result s₃ howns => sat_put_bind.mpr fun s₄ hr₄ _ _ => ⟨?_, ?_⟩
      · exact ⟨rfl, (howns.rely hr₄).works⟩
      · exact sat_put_bind.mpr fun _ _ _ _ => ⟨trivial, sat_pure.mpr fun _ _ _ => trivial⟩

theorem sat_api (tab : TabId) (page : Option AppMode) (unauthorized : Bool) (delivery : Delivery)
    (s : Web) : (api n tab page unauthorized (randomToken n) delivery).Sat
      ((browser ours u randomToken).of n) (Known ours u randomToken n) s fun _ _ => True := by
  refine sat_putGet_bind.mpr fun s₁ _ _ _ => ⟨trivial, sat_ite.mpr ⟨fun _ => ?_, fun _ => ?_⟩⟩
  · refine Sat.andThen (browser_lawful n) (sat_refreshSession htoken hne tab page _ delivery _) ?_
    refine fun refreshed s₂ => sat_ite.mpr ⟨fun _ => ?_, fun _ => sat_pure.mpr fun _ _ _ => trivial⟩
    exact sat_put.mpr fun _ _ _ _ => ⟨trivial, fun _ _ _ => trivial⟩
  · exact sat_pure.mpr fun _ _ _ => trivial

theorem sat_restoreSession (tab : TabId) (page : Option AppMode) (usable : Bool)
    (told : Option (String × List AppMode)) (delivery : Delivery) (s : Web) :
    (restoreSession n tab page usable told (randomToken n) delivery).Sat
      ((browser ours u randomToken).of n) (Known ours u randomToken n) s fun _ _ => True := by
  refine sat_putGet_bind.mpr fun s₁ _ _ _ => ⟨trivial, ?_⟩
  split
  · exact sat_pure.mpr fun _ _ _ => trivial
  · refine Sat.andThen (browser_lawful n) ?_ fun ready s₂ => ?_
    · refine sat_ite.mpr ⟨fun _ => sat_pure.mpr fun _ _ _ => trivial, fun _ => ?_⟩
      exact sat_refreshSession htoken hne tab page _ delivery _
    · refine sat_ite.mpr ⟨fun _ => ?_, fun _ => sat_pure.mpr fun _ _ _ => trivial⟩
      refine Sat.andThen (browser_lawful n) (sat_syncCurrentSession tab page told s₂) ?_
      intro synced s₃
      split
      · exact sat_pure.mpr fun _ _ _ => trivial
      · refine sat_get_bind.mpr fun _ _ _ => sat_put.mpr fun _ _ _ _ => ?_
        exact ⟨trivial, fun _ _ _ => trivial⟩

end Calls

/-- The tokens of a login are stored. -/
theorem sat_storeLogin (tab : TabId) (userId : UserId) (iat : Date) (s : Web) :
    (storeLogin tab userId (randomToken n) iat).Sat
      ((browser ours u randomToken).of n) (Known ours u randomToken n) s fun _ _ => True := by
  have hfirst : (atServer (firstTokens userId (randomToken n))).Sat
      ((browser ours u randomToken).of n) (Known ours u randomToken n) s fun tokens s' =>
        ∃ v, Given ours u (randomToken n) v tokens s' := by
    unfold atServer firstTokens
    simp only [Prog.lift_bind, Prog.lift_get, Prog.lift_orThrow]
    refine sat_get_bind.mpr fun s₁ _ _ => Prog.sat_orThrow_bind.mpr fun user _ => ?_
    refine (Sat.of_attempt (sat_issueTokens user s₁)).mono fun tokens s' h => ?_
    obtain ⟨tokens', heq, hgiven⟩ := h
    cases heq
    exact ⟨user.id, hgiven⟩
  refine Sat.bind (browser_lawful n) (hfirst.mono fun tokens s' hgiven => ?_)
  obtain ⟨v, hgiven⟩ := hgiven
  refine sat_put.mpr fun s₁ hr _ _ => ⟨(hgiven.rely hr).known tab iat, fun _ _ _ => trivial⟩

theorem sat_logoutSession (tab : TabId) (page : Option AppMode) (delivery : Delivery) (s : Web) :
    (logoutSession tab page delivery).Sat
      ((browser ours u randomToken).of n) (Known ours u randomToken n) s fun _ _ => True := by
  refine sat_putGet_bind.mpr fun s₁ _ _ _ => ⟨trivial, ?_⟩
  have hsignOut (id : UserId) (s : Web) : (put (.signOut tab id) : WebAction Unit).Sat
      ((browser ours u randomToken).of n) (Known ours u randomToken n) s fun _ _ => True :=
    sat_put.mpr fun _ _ _ _ => ⟨trivial, fun _ _ _ => trivial⟩
  split
  · exact sat_pure.mpr fun _ _ _ => trivial
  · exact hsignOut _ _
  · exact hsignOut _ _
  · refine Sat.andThen (browser_lawful n) (Sat.of_only ?_ fun _ _ => trivial) fun _ s₂ => ?_
    · refine Prog.Only.attempt (Prog.Only.lift ?_)
      unfold logout
      exact fun _ => ⟨fun _ => trivial, fun _ => trivial⟩
    · exact hsignOut _ _

/-- Every call of the browser knows at its commits what it should. -/
theorem sat_request (htoken : Function.Injective randomToken) (hne : ∀ n, randomToken n ≠ "")
    (r : WebRequest) (s : Web) :
    (WebRequest.prog randomToken (n, r)).Sat
      ((browser ours u randomToken).of n) (Known ours u randomToken n) s fun _ _ => True := by
  cases r with
  | api tab page unauthorized delivery => exact sat_api htoken hne tab page unauthorized delivery s
  | restore tab page usable told delivery =>
      exact sat_restoreSession htoken hne tab page usable told delivery s
  | signIn tab userId iat => exact sat_storeLogin tab userId iat s
  | logout tab page delivery => exact sat_logoutSession tab page delivery s
  | clear tab page =>
      refine sat_putGet_bind.mpr fun s₁ _ _ _ => ⟨trivial, ?_⟩
      split
      · exact sat_pure.mpr fun _ _ _ => trivial
      · exact sat_put.mpr fun _ _ _ _ => ⟨trivial, fun _ _ _ => trivial⟩
  | activate tab id requested => exact sat_put.mpr fun _ _ _ _ => ⟨trivial, fun _ _ _ => trivial⟩
  | switchMode tab page mode => exact sat_put.mpr fun _ _ _ _ => ⟨trivial, fun _ _ _ => trivial⟩
  | elsewhere r =>
      refine Sat.of_only (Prog.Only.lift ?_) fun _ _ => trivial
      exact (Prog.only_true _).imp fun _ _ _ => trivial

end Web

theorem browser_sound (htoken : Function.Injective randomToken) (hne : ∀ n, randomToken n ≠ "") :
    (web randomToken).SoundEach (Web.InTimeAfter u) (browser ours u randomToken)
      (Web.Known ours u randomToken) where
  lawful := browser_lawful
  commit n _ _ hs hok hk := Web.commit htoken (hne n) hs hok hk
  env _ _ hs htime := Web.env_commit hs htime
  apply_eq := rfl
  call _ r s _ := Web.sat_request htoken hne r s

/-- The user is signed in with a token that works, and no refresh is under way. -/
structure SignedIn (ours : String → Prop) (u : UserId) (server : AuthStore)
    (storage : WebStorage) : Prop where
  user : (server.users.find u).isSome
  session : (storage.findSession u).isSome
  token : ∃ text, storage.refreshToken u = some text ∧ ours text ∧ server.Works u text ∧
    server.InTime text
  issued : ∀ v text, storage.refreshToken v = some text → server.Issued v text

theorem SignedIn.kept {server : AuthStore} {storage : WebStorage}
    (h : SignedIn ours u server storage) : (Web.idle server storage).Kept ours u := by
  obtain ⟨text, hstored, hours, hworks, htime⟩ := h.token
  have hown (text' : String) (huse : (Web.idle server storage).InUse u text') : text' = text := by
    cases huse with
    | inl hst => exact Option.some.inj (hst.symm.trans hstored)
    | inr hsent => cases hsent
  exact {
    user := h.user
    signed := WebStorage.findSession_isSome.mp h.session
    stored := by
      change (storage.refreshToken u).isSome
      rw [hstored]
      rfl
    ours := fun text' huse => hown text' huse ▸ hours
    issued := fun v text' huse => by
      cases huse with
      | inl hst => exact h.issued v text' hst
      | inr hsent => cases hsent
    works := fun text' hst => .inl (hown text' (.inl hst) ▸ hworks)
    inTime := fun text' huse => hown text' huse ▸ htime
    idle := fun _ _ => rfl }

section Concrete

/-- The tokens the server draws: no two are the same. -/
def Scenario.token (n : Nat) : String := String.ofList (List.replicate (n + 1) 'x')

/-- A user who is signed in, with the refresh token `first`. -/
def Scenario.signedInServer : AuthStore where
  users := (∅ : Table User.id).set ⟨"user", "user@example.test", .worker⟩
  members := ∅
  workers := ["user"]
  tokens := (∅ : Table RefreshToken.id).set ⟨0, "user", ⟨"first"⟩, 100, none⟩
  nextTokenId := 1
  clock := 1
  fresh := by decide
  oneHash := by decide

def Scenario.claims : AccessToken := ⟨"user", "user@example.test", .worker, [.worker]⟩

def Scenario.signedInBrowser : WebStorage :=
  WebStorage.empty.persistSession 0 ⟨claims, "first"⟩ 0 0

/-- Two tabs refresh the session at the same time, and one has to wait. -/
def Scenario.twoTabs : List (Move WebRequest AuthMove) :=
  [.call (.api 0 none true (.delivered 1)), .call (.api 1 none true (.delivered 1))] ++
    ([0, 1, 0, 1] ++ List.replicate 12 0).map .step ++ .env (.wait 1) ::
    ([0, 0] ++ List.replicate 6 1).map .step

open Scenario

theorem token_injective : Function.Injective token := by
  intro m n h
  simpa [token] using congrArg String.length h

theorem token_ne_empty (n : Nat) : token n ≠ "" := by
  intro h
  simpa [token] using congrArg String.length h

theorem signedIn_start : SignedIn (fun _ => True) "user" signedInServer signedInBrowser where
  user := by decide
  session := by decide
  token := ⟨"first", by decide, trivial, by decide, by decide⟩
  issued v text hstored := by
    have hfirst : signedInBrowser.refreshToken =
        Function.update WebStorage.empty.refreshToken "user" (some "first") :=
      WebStorage.refreshToken_persistSession (by decide)
    rw [hfirst] at hstored
    by_cases hv : v = "user"
    · rw [hv, Function.update_self] at hstored
      cases hstored
      rw [hv]
      decide
    · rw [Function.update_of_ne hv] at hstored
      cases hstored

end Concrete

end ServeProof
