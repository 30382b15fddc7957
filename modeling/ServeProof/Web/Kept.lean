import ServeProof.Interleave.Within
import ServeProof.Web.Effects

/-!
# ServeProof.Web.Kept

What the calls of a browser keep, for the user who is signed in.

The server takes a refresh token once, so two tabs that present the same one
would sign the user out.  The lock owns the stored token: while it is free the
token works (`Web.Kept.works`), and who holds it is the only one to present it.

* `Web.Kept` -- the invariant;
* `Web.Rely` -- what a call can rely on while others move;
* `Web.commit` -- what a commit keeps of both, made by a call that knows what it
  should (`Web.Known`), in a run that is admitted (`Web.Admitted`).
-/

namespace ServeProof

namespace Web

/-- The refresh token of the session is stored, or on its way to the server. -/
def InUse (s : Web) (v : UserId) (text : String) : Prop :=
  s.storage.refreshToken v = some text ∨ s.sent v = some text

def StoredWorks (s : Web) (u : UserId) : Prop :=
  ∀ text, s.storage.refreshToken u = some text → s.server.Works u text

section Browser

variable (ours : String → Prop) (u : UserId) (randomToken : Nat → String)

/-- A token of the user that works and that no tab uses yet. -/
structure Unused (s : Web) (text : String) : Prop where
  ours : ours text
  works : s.server.Works u text
  notInUse : ¬ s.InUse u text

/-- The user is signed in, and the stored token works unless it has been sent. -/
structure Kept (s : Web) : Prop where
  user : (s.server.users.find u).isSome
  signed : s.storage.Signed u
  stored : (s.storage.refreshToken u).isSome
  ours : ∀ text, s.InUse u text → ours text
  issued : ∀ v text, s.InUse v text → s.server.Issued v text
  works : ∀ text, s.storage.refreshToken u = some text →
    s.server.Works u text ∨ s.sent u = some text
  inTime : ∀ text, s.InUse u text → s.server.InTime text
  idle : ∀ v, s.lock v = none → s.sent v = none

/-- What the call `n` can rely on while others move. -/
structure Rely (n : Nat) (s t : Web) : Prop where
  endures : s.server.Endures t.server
  held : ∀ v, s.lock v = some n → t.lock v = some n ∧ t.sent v = s.sent v
  works : s.lock u = some n → ∀ text, ours text → s.server.Works u text → t.server.Works u text
  storedWorks : s.lock u = some n → s.StoredWorks u → t.StoredWorks u
  unused : s.Unused ours u (randomToken n) → t.Unused ours u (randomToken n)

/-- What a run is about: random tokens do not repeat, nobody else has the tokens
of this browser, the user does not sign out in it, and no answer to a refresh
of the session is lost or comes too late. -/
def Admitted : WebCommand → Web → Prop
  | .server (.createToken _ hash _), s =>
      (∀ t ∈ s.server.tokens.rows, t.tokenHash ≠ hash) ∧ ours hash.preimage
  | .server (.revoke hash _), s => ¬ s.server.Issued u hash.preimage
  | .elsewhere (.claim id _), s =>
      ∀ t ∈ s.server.tokens.rows, t.id = id → ¬ ours t.tokenHash.preimage
  | .elsewhere (.revoke hash _), _ => ¬ ours hash.preimage
  | .persist _ tokens _, s =>
      tokens.accessToken.sub = u → s.server.InTime tokens.refreshToken
  | .signOut _ id, _ | .lose id, _ => id ≠ u
  | c, s => c.Granted s

/-- The tokens in use stay in time. -/
def InTimeAfter (e : AuthMove) (s : Web) : Prop :=
  ∀ text, s.InUse u text → (e.apply s.server).InTime text

instance [DecidablePred ours] (c : WebCommand) (s : Web) : Decidable (Admitted ours u c s) := by
  unfold Admitted
  split <;> infer_instance

instance (e : AuthMove) (s : Web) : Decidable (InTimeAfter u e s) :=
  decidable_of_iff (∀ text ∈ (s.storage.refreshToken u).toList ++ (s.sent u).toList,
    (e.apply s.server).InTime text)
    (by simp [InTimeAfter, InUse])

/-- What the call `n` knows at its commits. -/
def Known (n : Nat) : WebCommand → Web → Prop
  | .server (.claim id _), s =>
      ∃ v text, s.lock v = some n ∧ s.sent v = some text ∧
        ∃ t ∈ s.server.tokens.rows, t.id = id ∧ t.tokenHash = ⟨text⟩
  | .persist _ tokens _, s =>
      tokens.refreshToken = randomToken n ∧
        s.server.Issued tokens.accessToken.sub (randomToken n) ∧
        (tokens.accessToken.sub = u → s.Unused ours u (randomToken n))
  | .lock call _, _ => call = n
  | .present _ id _, s => s.lock id = some n
  | .refused _ id _, _ => id ≠ u
  | .unlock call id, s => call = n ∧ (id = u → s.StoredWorks u)
  | _, _ => True

end Browser

variable {ours : String → Prop} {u : UserId} {randomToken : Nat → String}

theorem Rely.refl (n : Nat) (s : Web) : Rely ours u randomToken n s s :=
  ⟨.refl _, fun _ h => ⟨h, rfl⟩, fun _ _ _ h => h, fun _ h => h, id⟩

theorem Rely.trans {n : Nat} {s t t' : Web} (h : Rely ours u randomToken n s t)
    (h' : Rely ours u randomToken n t t') : Rely ours u randomToken n s t' where
  endures := h.endures.trans h'.endures
  held v hv :=
    ⟨(h'.held v (h.held v hv).1).1, (h'.held v (h.held v hv).1).2.trans (h.held v hv).2⟩
  works hu text ho hw := h'.works (h.held u hu).1 text ho (h.works hu text ho hw)
  storedWorks hu hs := h'.storedWorks (h.held u hu).1 (h.storedWorks hu hs)
  unused hn := h'.unused (h.unused hn)

/-! ## What a commit does -/

variable {n : Nat} {s t : Web}

theorem Kept.issued_of_works (hs : s.Kept ours u) {v : UserId} {text : String}
    (hv : s.InUse v text) (hw : s.server.Works u text) : v = u :=
  (hs.issued v text hv).unique hw.issued

/-- A command of the server that hits only what the call has sent. -/
theorem server_commit (hs : s.Kept ours u) (c : AuthCommand)
    (hc : ∀ text, ours text → s.server.Works u text →
      c.Spares text s.server ∨ s.lock u = some n ∧ s.sent u = some text)
    (ht : t = { s with server := c.apply s.server }) :
    t.Kept ours u ∧ ∀ m, m ≠ n → Rely ours u randomToken m s t := by
  subst ht
  have hendures := c.endures_apply s.server
  have hworks (text : String) (ho : ours text) (hw : s.server.Works u text)
      (hsent : ¬ (s.lock u = some n ∧ s.sent u = some text)) :
      (c.apply s.server).Works u text :=
    AuthCommand.works_apply hw ((hc text ho hw).resolve_right hsent)
  have hkept : Web.Kept ours u { s with server := c.apply s.server } := {
    user := by rw [AuthCommand.users_apply]; exact hs.user
    signed := hs.signed
    stored := hs.stored
    ours := hs.ours
    issued := fun v text hv => (hs.issued v text hv).endures hendures
    works := by
      intro text hstored
      cases hs.works text hstored with
      | inr hsent => exact .inr hsent
      | inl hw =>
          by_cases hsent : s.lock u = some n ∧ s.sent u = some text
          · exact .inr hsent.2
          · exact .inl (hworks text (hs.ours text (.inl hstored)) hw hsent)
    inTime := fun text hv =>
      (hs.inTime text hv).endures hendures (c.clock_apply s.server)
    idle := hs.idle }
  refine ⟨hkept, fun m hm => ⟨hendures, fun _ h => ⟨h, rfl⟩, ?_, ?_, ?_⟩⟩
  · intro hlock text ho hw
    refine hworks text ho hw fun hsent => hm ?_
    exact Option.some.inj (hlock.symm.trans hsent.1)
  · intro hlock hstored text hst
    refine hworks text (hs.ours text (.inl hst)) (hstored text hst) fun hsent => hm ?_
    exact Option.some.inj (hlock.symm.trans hsent.1)
  · intro hun
    exact ⟨hun.ours, hworks _ hun.ours hun.works fun hsent => hun.notInUse (.inr hsent.2),
      hun.notInUse⟩

/-- What is stored of others may change. -/
theorem storage_commit (hs : s.Kept ours u) (hserver : t.server = s.server)
    (hlock : t.lock = s.lock) (hsent : t.sent = s.sent)
    (hstorage : WebStorage.KeepsFor u s.storage t.storage) :
    t.Kept ours u ∧ ∀ m, Rely ours u randomToken m s t := by
  have huse (v : UserId) (text : String) (h : t.InUse v text) : s.InUse v text :=
    h.imp (hstorage.stored v text) fun h => hsent ▸ h
  have hown : t.InUse u = s.InUse u := by
    funext text
    rw [InUse, InUse, hstorage.own, hsent]
  have hstored : t.StoredWorks u ↔ s.StoredWorks u := by
    rw [StoredWorks, StoredWorks, hstorage.own, hserver]
  refine ⟨?_, fun m => ⟨hserver ▸ .refl _, fun v hv => ⟨hlock ▸ hv, by rw [hsent]⟩,
    fun _ _ _ hw => hserver ▸ hw, fun _ => hstored.mpr, fun hun => ?_⟩⟩
  · exact {
      user := by rw [hserver]; exact hs.user
      signed := hstorage.signed hs.signed
      stored := by rw [hstorage.own]; exact hs.stored
      ours := by rw [hown]; exact hs.ours
      issued := fun v text hv => by rw [hserver]; exact hs.issued v text (huse v text hv)
      works := by rw [hstorage.own, hserver, hsent]; exact hs.works
      inTime := by rw [hown, hserver]; exact hs.inTime
      idle := by rw [hlock, hsent]; exact hs.idle }
  · exact ⟨hun.ours, by rw [hserver]; exact hun.works, by rw [hown]; exact hun.notInUse⟩

/-- The stored session gets a token that no tab has used. -/
theorem persist_commit (htoken : Function.Injective randomToken) (hne : randomToken n ≠ "")
    (hs : s.Kept ours u) {tab : TabId} {tokens : TokenPair} {iat : Date}
    (hok : Admitted ours u (.persist tab tokens iat) s)
    (hk : Known ours u randomToken n (.persist tab tokens iat) s) :
    (WebCommand.apply (.persist tab tokens iat) s).Kept ours u ∧
      (tokens.accessToken.sub = u →
        (WebCommand.apply (.persist tab tokens iat) s).StoredWorks u) ∧
      ∀ m, m ≠ n → Rely ours u randomToken m s (WebCommand.apply (.persist tab tokens iat) s) := by
  obtain ⟨htext, hissued, hunused⟩ := hk
  have hstored : (s.storage.persistSession tab tokens iat s.clock).refreshToken =
      Function.update s.storage.refreshToken tokens.accessToken.sub (some (randomToken n)) := by
    rw [WebStorage.refreshToken_persistSession (by rwa [htext]), htext]
  have hcases (v : UserId) (text : String)
      (h : (s.storage.persistSession tab tokens iat s.clock).refreshToken v = some text) :
      tokens.accessToken.sub = v ∧ text = randomToken n ∨ s.storage.refreshToken v = some text := by
    rw [hstored] at h
    by_cases hv : v = tokens.accessToken.sub
    · rw [hv, Function.update_self] at h
      exact .inl ⟨hv.symm, (Option.some.inj h).symm⟩
    · rw [Function.update_of_ne hv] at h
      exact .inr h
  have hnew (hsub : tokens.accessToken.sub = u) :
      (WebCommand.apply (.persist tab tokens iat) s).StoredWorks u := by
    intro text hst
    change (s.storage.persistSession tab tokens iat s.clock).refreshToken u = some text at hst
    rw [hstored, hsub, Function.update_self] at hst
    cases hst
    exact (hunused hsub).works
  refine ⟨?_, hnew, fun m hm => ⟨.refl _, fun _ h => ⟨h, rfl⟩, fun _ _ _ hw => hw, ?_, ?_⟩⟩
  · exact {
      user := hs.user
      signed := WebStorage.signed_persistSession (.inl hs.signed)
      stored := by
        change ((s.storage.persistSession tab tokens iat s.clock).refreshToken u).isSome
        rw [hstored]
        by_cases hsub : u = tokens.accessToken.sub
        · rw [hsub, Function.update_self]
          rfl
        · rw [Function.update_of_ne hsub]
          exact hs.stored
      ours := by
        rintro text (hst | hsent)
        · obtain ⟨hsub, rfl⟩ | hold := hcases u text hst
          · exact (hunused hsub).ours
          · exact hs.ours text (.inl hold)
        · exact hs.ours text (.inr hsent)
      issued := by
        rintro v text (hst | hsent)
        · obtain ⟨rfl, rfl⟩ | hold := hcases v text hst
          · exact hissued
          · exact hs.issued v text (.inl hold)
        · exact hs.issued v text (.inr hsent)
      works := by
        intro text hst
        obtain ⟨hsub, rfl⟩ | hold := hcases u text hst
        · exact .inl (hunused hsub).works
        · exact hs.works text hold
      inTime := by
        rintro text (hst | hsent)
        · obtain ⟨hsub, rfl⟩ | hold := hcases u text hst
          · exact htext ▸ hok hsub
          · exact hs.inTime text (.inl hold)
        · exact hs.inTime text (.inr hsent)
      idle := hs.idle }
  · intro _ hst text htext'
    obtain ⟨hsub, rfl⟩ | hold := hcases u text htext'
    · exact (hunused hsub).works
    · exact hst text hold
  · intro hun
    refine ⟨hun.ours, hun.works, ?_⟩
    rintro (hst | hsent)
    · obtain ⟨-, heq⟩ | hold := hcases u _ hst
      · exact hm (htoken heq)
      · exact hun.notInUse (.inl hold)
    · exact hun.notInUse (.inr hsent)

/-- A call that holds the lock sends the stored token. -/
theorem send_commit (hs : s.Kept ours u) {id : UserId} {text : String}
    (hlock : s.lock id = some n) (hstored : s.storage.refreshToken id = some text)
    (ht : t = { s with sent := Function.update s.sent id (some text) }) :
    t.Kept ours u ∧ ∀ m, m ≠ n → Rely ours u randomToken m s t := by
  subst ht
  have huse (v : UserId) (text' : String)
      (h : Web.InUse { s with sent := Function.update s.sent id (some text) } v text') :
      s.InUse v text' := by
    cases h with
    | inl hst => exact .inl hst
    | inr hsent =>
        by_cases hv : v = id
        · simp only [hv, Function.update_self] at hsent
          cases hsent
          exact .inl (hv ▸ hstored)
        · simp only [Function.update_of_ne hv] at hsent
          exact .inr hsent
  refine ⟨?_, fun m hm => ⟨.refl _, fun v hv => ⟨hv, ?_⟩, fun _ _ _ hw => hw, fun _ h => h,
    fun hun => ⟨hun.ours, hun.works, fun h => hun.notInUse (huse u _ h)⟩⟩⟩
  · exact {
      user := hs.user
      signed := hs.signed
      stored := hs.stored
      ours := fun text' h => hs.ours text' (huse u text' h)
      issued := fun v text' h => hs.issued v text' (huse v text' h)
      works := by
        intro text' hst
        by_cases hid : u = id
        · subst hid
          refine .inr ?_
          simp only [Function.update_self]
          exact hstored.symm.trans hst
        · simp only [Function.update_of_ne hid]
          exact hs.works text' hst
      inTime := fun text' h => hs.inTime text' (huse u text' h)
      idle := by
        intro v hv
        have hne : v ≠ id := by
          rintro rfl
          cases hv.symm.trans hlock
        simp only [Function.update_of_ne hne]
        exact hs.idle v hv }
  · have hne : v ≠ id := by
      rintro rfl
      exact hm (Option.some.inj (hv.symm.trans hlock))
    simp only [Function.update_of_ne hne]

theorem lock_commit (hs : s.Kept ours u) {id : UserId} (hfree : s.lock id = none)
    (ht : t = { s with lock := Function.update s.lock id (some n) }) :
    t.Kept ours u ∧ ∀ m, m ≠ n → Rely ours u randomToken m s t := by
  subst ht
  refine ⟨{ hs with idle := ?_ }, fun m _ => ⟨.refl _, fun v hv => ⟨?_, rfl⟩,
    fun _ _ _ hw => hw, fun _ h => h, fun hun => ⟨hun.ours, hun.works, hun.notInUse⟩⟩⟩
  · intro v hv
    by_cases hid : v = id
    · simp only [hid, Function.update_self] at hv
      cases hv
    · simp only [Function.update_of_ne hid] at hv
      exact hs.idle v hv
  · have hne : v ≠ id := by
      rintro rfl
      cases hv.symm.trans hfree
    simp only [Function.update_of_ne hne]
    exact hv

/-- A call lets go of the lock when the stored token works. -/
theorem unlock_commit (hs : s.Kept ours u) {id : UserId} (hlock : s.lock id = some n)
    (hworks : id = u → s.StoredWorks u)
    (ht : t = { s with
      lock := Function.update s.lock id none
      sent := Function.update s.sent id none }) :
    t.Kept ours u ∧ ∀ m, m ≠ n → Rely ours u randomToken m s t := by
  subst ht
  have huse (v : UserId) (text : String)
      (h : Web.InUse { s with
        lock := Function.update s.lock id none
        sent := Function.update s.sent id none } v text) : s.InUse v text := by
    cases h with
    | inl hst => exact .inl hst
    | inr hsent =>
        by_cases hv : v = id
        · simp only [hv, Function.update_self] at hsent
          cases hsent
        · simp only [Function.update_of_ne hv] at hsent
          exact .inr hsent
  refine ⟨?_, fun m hm => ⟨.refl _, fun v hv => ?_, fun _ _ _ hw => hw, fun _ h => h,
    fun hun => ⟨hun.ours, hun.works, fun h => hun.notInUse (huse u _ h)⟩⟩⟩
  · exact {
      user := hs.user
      signed := hs.signed
      stored := hs.stored
      ours := fun text h => hs.ours text (huse u text h)
      issued := fun v text h => hs.issued v text (huse v text h)
      works := by
        intro text hst
        by_cases hid : u = id
        · exact .inl (hworks hid.symm text hst)
        · simp only [Function.update_of_ne hid]
          exact hs.works text hst
      inTime := fun text h => hs.inTime text (huse u text h)
      idle := by
        intro v hv
        by_cases hid : v = id
        · simp only [hid, Function.update_self]
        · simp only [Function.update_of_ne hid] at hv ⊢
          exact hs.idle v hv }
  · have hne : v ≠ id := by
      rintro rfl
      exact hm (Option.some.inj (hv.symm.trans hlock))
    simp only [Function.update_of_ne hne]
    exact ⟨hv, trivial⟩

/-- A commit that leaves the sessions of the browser as they are. -/
theorem same_commit (hs : s.Kept ours u) (hserver : t.server = s.server)
    (hlock : t.lock = s.lock) (hsent : t.sent = s.sent) (hstorage : s.storage.Same t.storage) :
    t.Kept ours u ∧ ∀ m, m ≠ n → Rely ours u randomToken m s t := by
  obtain ⟨hkept, hrely⟩ := storage_commit hs hserver hlock hsent hstorage.keepsFor
  exact ⟨hkept, fun m _ => hrely m⟩

theorem startRefresh_commit (hs : s.Kept ours u) (call : Nat) (tab : TabId)
    (page : Option AppMode) (stale : Option Jwt) :
    (WebCommand.applyStartRefresh call tab page stale s).Kept ours u ∧ ∀ m, m ≠ n →
      Rely ours u randomToken m s (WebCommand.applyStartRefresh call tab page stale s) := by
  unfold WebCommand.applyStartRefresh
  dsimp only
  split
  · exact same_commit hs rfl rfl rfl (s.storage.same_refreshedSession tab page stale)
  · exact same_commit hs rfl rfl rfl (s.storage.same_refreshedSession tab page stale)

theorem removal_commit (hs : s.Kept ours u) {id : UserId} (hne : id ≠ u) (tab : TabId)
    (ht : t = { s with storage := s.storage.removeSession tab id }) :
    t.Kept ours u ∧ ∀ m, m ≠ n → Rely ours u randomToken m s t := by
  subst ht
  obtain ⟨hkept, hrely⟩ := storage_commit (t := { s with
    storage := s.storage.removeSession tab id }) hs rfl rfl rfl
    (s.storage.keepsFor_removeSession tab hne)
  exact ⟨hkept, fun m _ => hrely m⟩

theorem present_commit (hs : s.Kept ours u) {tab : TabId} {id : UserId} {stale : Option Jwt}
    (hlock : s.lock id = some n) :
    (WebCommand.applyPresent tab id stale s).Kept ours u ∧ ∀ m, m ≠ n →
      Rely ours u randomToken m s (WebCommand.applyPresent tab id stale s) := by
  unfold WebCommand.applyPresent
  cases hfound : s.storage.found id stale with
  | current => exact same_commit hs rfl rfl rfl (.refl _)
  | missing =>
      have hne : id ≠ u := by
        rintro rfl
        have hstored := hs.stored
        unfold WebStorage.found at hfound
        grind
      exact removal_commit hs hne tab rfl
  | attempt refreshToken =>
      have hstored : s.storage.refreshToken id = some refreshToken := by
        unfold WebStorage.found at hfound
        grind
      exact send_commit hs hlock hstored rfl

/-- A command of the server for a call of the browser: it claims what the call has
sent. -/
theorem spares_server {c : AuthCommand} (hs : s.Kept ours u)
    (hok : Admitted ours u (.server c) s) (hk : Known ours u randomToken n (.server c) s)
    {text : String} (hw : s.server.Works u text) :
    c.Spares text s.server ∨ s.lock u = some n ∧ s.sent u = some text := by
  cases c with
  | claim id now =>
      obtain ⟨v, sent, hlock, hsent, t, ht, hid, hhash⟩ := hk
      by_cases heq : text = sent
      · subst heq
        obtain rfl := hs.issued_of_works (.inr hsent) hw
        exact .inr ⟨hlock, hsent⟩
      · refine .inl fun t' ht' hid' hhash' => heq ?_
        rw [s.server.tokens.eq_of_key_eq ht' ht (hid'.trans hid.symm), hhash] at hhash'
        exact (congrArg Sha256.preimage hhash').symm
  | revoke hash now =>
      refine .inl fun hhash => hok ?_
      rw [hhash]
      exact hw.issued
  | upsertWorker | createToken | answer => exact .inl trivial

theorem spares_elsewhere {c : AuthCommand} (hok : Admitted ours u (.elsewhere c) s)
    {text : String} (ho : ours text) : c.Spares text s.server := by
  cases c with
  | claim id now =>
      intro t ht hid hhash
      refine hok t ht hid ?_
      rw [hhash]
      exact ho
  | revoke hash now =>
      intro hhash
      refine hok ?_
      rw [hhash]
      exact ho
  | upsertWorker | createToken | answer => trivial

/-- Every commit keeps the invariant, and what the other calls rely on. -/
theorem commit (htoken : Function.Injective randomToken) (hne : randomToken n ≠ "")
    (hs : s.Kept ours u) {c : WebCommand} (hok : Admitted ours u c s)
    (hk : Known ours u randomToken n c s) :
    (c.apply s).Kept ours u ∧ ∀ m, m ≠ n → Rely ours u randomToken m s (c.apply s) := by
  cases c with
  | server c => exact server_commit hs c (fun _ _ hw => spares_server hs hok hk hw) rfl
  | elsewhere c =>
      exact server_commit hs c (fun _ ho _ => .inl (spares_elsewhere hok ho)) rfl
  | choose tab page => exact same_commit hs rfl rfl rfl (s.storage.same_currentSession tab page)
  | startRefresh call tab page stale => exact startRefresh_commit hs call tab page stale
  | lock call id =>
      obtain rfl : call = n := hk
      exact lock_commit hs hok rfl
  | present tab id stale => exact present_commit hs hk
  | persist tab tokens iat =>
      obtain ⟨hkept, -, hrely⟩ := persist_commit htoken hne hs hok hk
      exact ⟨hkept, hrely⟩
  | refused tab id attempted =>
      rw [WebCommand.apply]
      split
      · exact same_commit hs rfl rfl rfl (.refl _)
      · exact removal_commit hs hk tab rfl
  | unlock call id =>
      obtain ⟨rfl, hworks⟩ : call = n ∧ _ := hk
      rw [WebCommand.apply]
      split
      · next hlock => exact unlock_commit hs hlock hworks rfl
      · exact same_commit hs rfl rfl rfl (.refl _)
  | lose id => exact same_commit hs rfl rfl rfl (.refl _)
  | settle call tab id result => exact same_commit hs rfl rfl rfl (.refl _)
  | await call => exact same_commit hs rfl rfl rfl (.refl _)
  | syncModes session email modes =>
      obtain ⟨hkept, hrely⟩ := storage_commit (t := { s with
        storage := s.storage.syncModes session email modes }) hs rfl rfl rfl
        (s.storage.keepsFor_syncModes session email modes)
      exact ⟨hkept, fun m _ => hrely m⟩
  | enterMode tab mode => exact same_commit hs rfl rfl rfl ⟨rfl, rfl, rfl⟩
  | activate tab id requested =>
      exact same_commit hs rfl rfl rfl (s.storage.same_activateSession tab id requested)
  | switchMode tab page mode =>
      exact same_commit hs rfl rfl rfl (s.storage.same_switchAppMode tab page mode)
  | signOut tab id => exact removal_commit hs hok tab rfl

/-- Users join and change, and time passes. -/
theorem env_commit (hs : s.Kept ours u) {e : AuthMove} (htime : InTimeAfter u e s) :
    Web.Kept ours u { s with server := e.apply s.server } ∧
      ∀ m, Rely ours u randomToken m s { s with server := e.apply s.server } := by
  have htokens : (e.apply s.server).tokens = s.server.tokens := by
    cases e <;> rfl
  have hendures : s.server.Endures (e.apply s.server) := by
    rw [AuthStore.Endures, htokens]
    exact AuthStore.Endures.refl s.server
  have hworks (text : String) (hw : s.server.Works u text) : (e.apply s.server).Works u text := by
    rwa [AuthStore.Works, htokens]
  refine ⟨?_, fun m => ⟨hendures, fun _ h => ⟨h, rfl⟩, fun _ text _ hw => hworks text hw,
    fun _ hst text htext => hworks text (hst text htext),
    fun hun => ⟨hun.ours, hworks _ hun.works, hun.notInUse⟩⟩⟩
  exact {
    user := by
      cases e with
      | saveUser user =>
          change ((s.server.users.set user).find u).isSome
          rw [Table.find_set]
          split
          · rfl
          · exact hs.user
      | saveMember member => exact hs.user
      | wait ms => exact hs.user
    signed := hs.signed
    stored := hs.stored
    ours := hs.ours
    issued := fun v text hv => (hs.issued v text hv).endures hendures
    works := fun text hst => (hs.works text hst).imp_left (hworks text)
    inTime := htime
    idle := hs.idle }

end Web

end ServeProof
