import ServeProof.Web.Client

/-!
# ServeProof.Web.Effects

What the commands of the web client and of its server do to the refresh tokens:
those the server takes (`Works`), and those the browser stores.
-/

namespace ServeProof

/-! ## The tokens of the server -/

namespace AuthStore

/-- The server takes the refresh token. -/
def Works (s : AuthStore) (userId : UserId) (text : String) : Prop :=
  ∃ t ∈ s.tokens.rows, t.tokenHash = ⟨text⟩ ∧ t.userId = userId ∧ t.revokedAt = none

/-- The refresh token has been given to the user. -/
def Issued (s : AuthStore) (userId : UserId) (text : String) : Prop :=
  ∃ t ∈ s.tokens.rows, t.tokenHash = ⟨text⟩ ∧ t.userId = userId

def InTime (s : AuthStore) (text : String) : Prop :=
  ∃ t ∈ s.tokens.rows, t.tokenHash = ⟨text⟩ ∧ s.clock ≤ t.expiresAt

instance (s : AuthStore) (userId : UserId) (text : String) : Decidable (s.Works userId text) :=
  inferInstanceAs (Decidable (∃ t ∈ _, _))

instance (s : AuthStore) (userId : UserId) (text : String) : Decidable (s.Issued userId text) :=
  inferInstanceAs (Decidable (∃ t ∈ _, _))

instance (s : AuthStore) (text : String) : Decidable (s.InTime text) :=
  inferInstanceAs (Decidable (∃ t ∈ _, _))

theorem Works.issued {s : AuthStore} {userId : UserId} {text : String} (h : s.Works userId text) :
    s.Issued userId text := by
  obtain ⟨t, ht, hhash, huser, -⟩ := h
  exact ⟨t, ht, hhash, huser⟩

theorem Issued.unique {s : AuthStore} {u v : UserId} {text : String} (h : s.Issued u text)
    (h' : s.Issued v text) : u = v := by
  obtain ⟨t, ht, hhash, rfl⟩ := h
  obtain ⟨t', ht', hhash', rfl⟩ := h'
  rw [s.oneHash t ht t' ht' (hhash.trans hhash'.symm)]

/-- The tokens stay, but for their revocation. -/
def Endures (s s' : AuthStore) : Prop :=
  ∀ t ∈ s.tokens.rows, ∃ t' ∈ s'.tokens.rows, t'.id = t.id ∧ t'.tokenHash = t.tokenHash ∧
    t'.userId = t.userId ∧ t'.expiresAt = t.expiresAt

theorem Endures.refl (s : AuthStore) : s.Endures s := fun t ht => ⟨t, ht, rfl, rfl, rfl, rfl⟩

theorem Endures.trans {s s' s'' : AuthStore} (h : s.Endures s') (h' : s'.Endures s'') :
    s.Endures s'' := by
  intro t ht
  obtain ⟨t', ht', hid, hhash, huser, hexpires⟩ := h t ht
  obtain ⟨t'', ht'', hid', hhash', huser', hexpires'⟩ := h' t' ht'
  exact ⟨t'', ht'', hid'.trans hid, hhash'.trans hhash, huser'.trans huser,
    hexpires'.trans hexpires⟩

theorem Issued.endures {s s' : AuthStore} {userId : UserId} {text : String}
    (h : s.Issued userId text) (hs : s.Endures s') : s'.Issued userId text := by
  obtain ⟨t, ht, hhash, huser⟩ := h
  obtain ⟨t', ht', -, hhash', huser', -⟩ := hs t ht
  exact ⟨t', ht', hhash'.trans hhash, huser'.trans huser⟩

theorem InTime.endures {s s' : AuthStore} {text : String} (h : s.InTime text)
    (hs : s.Endures s') (hclock : s'.clock = s.clock) : s'.InTime text := by
  obtain ⟨t, ht, hhash, htime⟩ := h
  obtain ⟨t', ht', -, hhash', -, hexpires⟩ := hs t ht
  exact ⟨t', ht', hhash'.trans hhash, by rw [hclock, hexpires]; exact htime⟩

theorem endures_revokeWhere (s : AuthStore) (P : RefreshToken → Bool) (now : Date) :
    s.Endures (s.revokeWhere P now) := by
  intro t ht
  refine ⟨_, List.mem_map_of_mem ht, ?_⟩
  split <;> exact ⟨rfl, rfl, rfl, rfl⟩

/-- A token that is not among those that are revoked goes on to work. -/
theorem Works.revokeWhere {s : AuthStore} {userId : UserId} {text : String}
    (h : s.Works userId text) {P : RefreshToken → Bool} {now : Date}
    (hP : ∀ t ∈ s.tokens.rows, t.tokenHash = ⟨text⟩ → P t = false) :
    (s.revokeWhere P now).Works userId text := by
  obtain ⟨t, ht, hhash, huser, hopen⟩ := h
  refine ⟨_, List.mem_map_of_mem ht, ?_⟩
  rw [if_neg (by rw [hP t ht hhash]; exact Bool.false_ne_true)]
  exact ⟨hhash, huser, hopen⟩

theorem mem_insertToken {s : AuthStore} {userId : UserId} {hash : Sha256} {expiresAt : Date}
    {t : RefreshToken} (ht : t ∈ s.tokens.rows) :
    t ∈ (s.insertToken userId hash expiresAt).tokens.rows := by
  unfold insertToken
  split
  · exact s.tokens.mem_set.mpr (.inr ⟨ht, Nat.ne_of_lt (s.fresh t ht)⟩)
  · exact ht

/-- A new token works. -/
theorem works_insertToken {s : AuthStore} {userId : UserId} {text : String} {expiresAt : Date}
    (hfresh : ∀ t ∈ s.tokens.rows, t.tokenHash ≠ ⟨text⟩) :
    (s.insertToken userId ⟨text⟩ expiresAt).Works userId text := by
  unfold insertToken
  rw [dif_pos hfresh]
  exact ⟨_, s.tokens.mem_set.mpr (.inl rfl), rfl, rfl, rfl⟩

/-! ### The row of a token -/

section Row

variable {s : AuthStore} {text : String} {t : RefreshToken} (ht : t ∈ s.tokens.rows)
  (hhash : t.tokenHash = ⟨text⟩)

include ht hhash

theorem findToken_of_mem : s.findToken ⟨text⟩ = some t := by
  cases hfind : s.findToken ⟨text⟩ with
  | none => exact absurd hhash (by simpa using List.find?_eq_none.mp hfind t ht)
  | some t' =>
      have hmem : t' ∈ s.tokens.rows := List.mem_of_find?_eq_some hfind
      have hhash' : t'.tokenHash = ⟨text⟩ := by simpa using List.find?_some hfind
      rw [s.oneHash t' hmem t ht (hhash'.trans hhash.symm)]

theorem Works.of_mem {userId : UserId} (h : s.Works userId text) :
    t.userId = userId ∧ t.revokedAt = none := by
  obtain ⟨t', ht', hhash', huser, hopen⟩ := h
  rw [s.oneHash t ht t' ht' (hhash.trans hhash'.symm)]
  exact ⟨huser, hopen⟩

theorem InTime.of_mem (h : s.InTime text) : s.clock ≤ t.expiresAt := by
  obtain ⟨t', ht', hhash', htime⟩ := h
  rwa [s.oneHash t ht t' ht' (hhash.trans hhash'.symm)]

end Row

/-- The claim of a token that works counts. -/
theorem claim_counts {s : AuthStore} {t : RefreshToken} (ht : t ∈ s.tokens.rows)
    (hopen : t.revokedAt = none) {now : Date} (htime : now ≤ t.expiresAt) :
    (s.tokens.rows.filter (Claimable t.id now)).length = 1 := by
  have hone : s.tokens.rows.filter (Claimable t.id now) =
      s.tokens.rows.filter fun t' => decide (t'.id = t.id) := by
    refine List.filter_congr fun t' ht' => decide_eq_decide.mpr ⟨fun h => h.1, fun hid => ?_⟩
    rw [s.tokens.eq_of_key_eq ht' ht hid]
    exact ⟨rfl, hopen, htime⟩
  rw [hone, s.tokens.filter_key, s.tokens.find_key ht]
  rfl

end AuthStore

namespace AuthCommand

/-- The command does not revoke the token. -/
def Spares (c : AuthCommand) (text : String) (s : AuthStore) : Prop :=
  match c with
  | claim id _ => ∀ t ∈ s.tokens.rows, t.id = id → t.tokenHash ≠ ⟨text⟩
  | revoke hash _ => hash ≠ ⟨text⟩
  | upsertWorker _ | createToken .. | answer _ => True

variable {c : AuthCommand} {s : AuthStore} {userId : UserId} {text : String}

theorem endures_apply (c : AuthCommand) (s : AuthStore) : s.Endures (c.apply s) := by
  cases c with
  | claim id now => exact s.endures_revokeWhere _ now
  | revoke hash now => exact s.endures_revokeWhere _ now
  | createToken userId hash expiresAt =>
      exact fun t ht => ⟨t, AuthStore.mem_insertToken ht, rfl, rfl, rfl, rfl⟩
  | upsertWorker userId => exact .refl s
  | answer tokens => exact .refl s

theorem works_apply (h : s.Works userId text) (hc : c.Spares text s) :
    (c.apply s).Works userId text := by
  cases c with
  | claim id now =>
      refine h.revokeWhere fun t ht hhash => ?_
      exact decide_eq_false fun hclaim => hc t ht hclaim.1 hhash
  | revoke hash now =>
      refine h.revokeWhere fun t _ hhash => ?_
      exact decide_eq_false fun hrevoke => hc (hrevoke.1.symm.trans hhash)
  | createToken userId' hash expiresAt =>
      obtain ⟨t, ht, hrest⟩ := h
      exact ⟨t, AuthStore.mem_insertToken ht, hrest⟩
  | upsertWorker userId' => exact h
  | answer tokens => exact h

theorem users_apply (c : AuthCommand) (s : AuthStore) : (c.apply s).users = s.users := by
  cases c with
  | createToken userId hash expiresAt =>
      simp only [apply, AuthStore.insertToken]
      split <;> rfl
  | claim | revoke | upsertWorker | answer => rfl

end AuthCommand

/-! ## What the browser stores -/

namespace WebStorage

/-- The session of the user is there, with an access token. -/
def Signed (w : WebStorage) (u : UserId) : Prop :=
  (∃ item ∈ w.sessions, item.id = u) ∧ (w.accessToken u).isSome

variable {w : WebStorage} {u v : UserId}

theorem findSession_isSome : (w.findSession u).isSome ↔ w.Signed u := by
  rw [findSession, List.find?_isSome]
  constructor
  · rintro ⟨item, hitem, hp⟩
    obtain ⟨hid, htoken⟩ := Bool.and_eq_true_iff.mp hp
    have hid := of_decide_eq_true hid
    exact ⟨⟨item, hitem, hid⟩, hid ▸ htoken⟩
  · rintro ⟨⟨item, hitem, rfl⟩, htoken⟩
    exact ⟨item, hitem, by simp [sessionHasToken, htoken]⟩

/-- The sessions and their tokens are the same. -/
structure Same (w w' : WebStorage) : Prop where
  sessions : w'.sessions = w.sessions
  accessToken : w'.accessToken = w.accessToken
  refreshToken : w'.refreshToken = w.refreshToken

theorem Same.refl (w : WebStorage) : w.Same w := ⟨rfl, rfl, rfl⟩

theorem same_currentSession (w : WebStorage) (tab : TabId) (page : Option AppMode) :
    w.Same (w.currentSession tab page).2 := by
  unfold currentSession
  split
  · exact .refl w
  · split <;> exact ⟨rfl, rfl, rfl⟩
  · split <;> exact ⟨rfl, rfl, rfl⟩

theorem same_refreshedSession (w : WebStorage) (tab : TabId) (page : Option AppMode)
    (stale : Option Jwt) : w.Same (w.refreshedSession tab page stale).2 := by
  unfold refreshedSession
  split
  · exact .refl w
  · exact w.same_currentSession tab page

theorem same_activateSession (w : WebStorage) (tab : TabId) (id : UserId)
    (requested : Option AppMode) : w.Same (w.activateSession tab id requested) := by
  unfold activateSession
  split <;> exact ⟨rfl, rfl, rfl⟩

theorem same_switchAppMode (w : WebStorage) (tab : TabId) (page : Option AppMode)
    (mode : AppMode) : w.Same (w.switchAppMode tab page mode) := by
  have h := w.same_currentSession tab page
  unfold switchAppMode
  dsimp only
  split
  · exact h
  · exact ⟨h.sessions, h.accessToken, h.refreshToken⟩

/-- Of the sessions those of the others may change, and what is stored of `u` stays. -/
structure KeepsFor (u : UserId) (w w' : WebStorage) : Prop where
  signed : w.Signed u → w'.Signed u
  own : w'.refreshToken u = w.refreshToken u
  stored : ∀ v text, w'.refreshToken v = some text → w.refreshToken v = some text

theorem Same.keepsFor {w' : WebStorage} (h : w.Same w') : KeepsFor u w w' where
  signed hs := by rwa [Signed, h.sessions, h.accessToken]
  own := by rw [h.refreshToken]
  stored v text ht := by rwa [h.refreshToken] at ht

theorem accessToken_removeSession (tab : TabId) :
    (w.removeSession tab v).accessToken = Function.update w.accessToken v none := rfl

theorem refreshToken_removeSession (tab : TabId) :
    (w.removeSession tab v).refreshToken = Function.update w.refreshToken v none := rfl

theorem keepsFor_removeSession (w : WebStorage) (tab : TabId) (hne : v ≠ u) :
    KeepsFor u w (w.removeSession tab v) where
  signed := by
    rintro ⟨⟨item, hitem, hid⟩, htoken⟩
    refine ⟨⟨item, List.mem_filter.mpr ⟨hitem, decide_eq_true (hid ▸ hne.symm)⟩, hid⟩, ?_⟩
    rwa [accessToken_removeSession, Function.update_of_ne hne.symm]
  own := Function.update_of_ne hne.symm _ _
  stored v' text ht := by
    by_cases hv : v' = v
    · rw [refreshToken_removeSession, hv, Function.update_self] at ht
      cases ht
    · rwa [refreshToken_removeSession, Function.update_of_ne hv] at ht

theorem mem_putSession {session : StoredSession} :
    (∃ item ∈ w.sessions, item.id = u) ∨ session.id = u →
      ∃ item ∈ (w.putSession session).sessions, item.id = u := by
  intro h
  by_cases hid : session.id = u
  · exact ⟨session, List.mem_append_right _ (List.mem_singleton.mpr rfl), hid⟩
  · obtain ⟨item, hitem, rfl⟩ := h.resolve_right hid
    refine ⟨item, List.mem_append_left _ (List.mem_filter.mpr ⟨hitem, ?_⟩), rfl⟩
    exact decide_eq_true (Ne.symm hid)

theorem keepsFor_syncModes (w : WebStorage) (session : StoredSession) (email : String)
    (modes : List AppMode) : KeepsFor u w (w.syncModes session email modes) := by
  unfold syncModes
  split
  · exact (Same.refl w).keepsFor
  · exact ⟨fun h => ⟨mem_putSession (.inl h.1), h.2⟩, rfl, fun _ _ ht => ht⟩

theorem signed_persistSession {tab : TabId} {tokens : TokenPair} {iat now : Date}
    (h : w.Signed u ∨ tokens.accessToken.sub = u) : (w.persistSession tab tokens iat now).Signed u := by
  refine ⟨mem_putSession (h.imp_left fun hs => hs.1), ?_⟩
  by_cases hid : tokens.accessToken.sub = u
  · subst hid
    simp [persistSession, AccessToken.storedSession]
  · have hs := h.resolve_right hid
    simpa [persistSession, AccessToken.storedSession, Function.update_of_ne (Ne.symm hid)]
      using hs.2

theorem refreshToken_persistSession {tab : TabId} {tokens : TokenPair} {iat now : Date}
    (h : tokens.refreshToken ≠ "") :
    (w.persistSession tab tokens iat now).refreshToken =
      Function.update w.refreshToken tokens.accessToken.sub (some tokens.refreshToken) := by
  simp [persistSession, AccessToken.storedSession, h]

end WebStorage

end ServeProof
