import ServeProof.Onchain.Program
import ServeProof.Scenario
import ServeProof.Services.Providers

/-!
# ServeProof.Entrusted

Whose tokens the connection of a venue to Square keeps.

A token is *entrusted* to a venue when Square has given it for a code that was presented with a
state of the venue less than ten minutes after a manager of the venue was sent to Square with
it, or for a token entrusted before.  Calls that connect, calls that sync and whatever else the
platform does overlap in any way; what they know is static, so the invariant is one about each
row.

* `stored_tokens_entrusted` -- each token a connection keeps is entrusted to its venue;
* `evidence_entrusted` -- each row a sync writes is of evidence that Square gave for such a token.
-/

namespace ServeProof

open Interleave
open Onchain (bind_eq_ok pure_eq_ok)
open Prog (sat_get_bind sat_put_bind sat_putGet_bind sat_require_bind sat_orThrow_bind
  sat_ofExcept_bind only_get_bind only_put_bind only_putGet_bind)

/-! ## Entrusted tokens -/

section Definitions

variable (stateHash : String → String) (calls : Set ProvidersCall)

/-- A manager of the venue is sent to Square with a state of this hash, which expires then. -/
def StateIssued (venueId : VenueId) (hash : String) (expiresAt : Time) : Prop :=
  ∃ config state locationId issuedAt,
    .createSquareAuthorization config state venueId locationId issuedAt ∈ calls ∧
      stateHash state = hash ∧ expiresAt = issuedAt + stateLifetime

/-- Square has given the tokens for the venue. -/
inductive Entrusted : VenueId → SquareTokens → Prop where
  /-- For a code, presented with a state of the venue in time. -/
  | code {venueId : VenueId} {square : SquareOAuth} {input : SquareCallback} {now expiresAt : Time}
      {state code : String} {tokens : SquareTokenResponse}
      (hcall : .completeSquareAuthorization square input now ∈ calls)
      (hstate : present input.state = some state)
      (hissued : StateIssued stateHash calls venueId (stateHash state) expiresAt)
      (htime : now < expiresAt) (hcode : present input.code = some code)
      (htokens : square.obtainToken code = .ok tokens) : Entrusted venueId tokens.toSquareTokens
  /-- For a refresh token it had given for the venue. -/
  | refresh {venueId : VenueId} {square : SquareApi} {now : Time} {refreshToken : String}
      {old tokens : SquareTokens} (hold : Entrusted venueId old)
      (hrefresh : old.refreshToken = some refreshToken)
      (hcall : .sync square venueId now ∈ calls)
      (htokens : square.obtainToken refreshToken = .ok tokens) : Entrusted venueId tokens

/-- Square has given a sync of the venue the evidence, for a token entrusted to the venue. -/
def Fetched (venueId : VenueId) (evidence : SquareEvidence) : Prop :=
  ∃ square now retry tokens locationId, .sync square venueId now ∈ calls ∧
    Entrusted stateHash calls venueId tokens ∧
      square.fetch retry tokens.accessToken locationId = .ok evidence

variable (gcm : Gcm) (secret : String)

/-- A call encrypts and decrypts with the secret of the deployment. -/
def ProvidersCall.Fits : ProvidersCall → Prop
  | .createSquareAuthorization .. => True
  | .completeSquareAuthorization square _ _ =>
      (∀ config ∈ square.config, config.encryptionSecret = secret) ∧
        square.accessIv.length = 12 ∧ square.refreshIv.length = 12
  | .sync square _ _ =>
      (∀ envelope, square.decrypt envelope =
        (decryptProviderToken gcm envelope secret).mapError .other) ∧
      (16 ≤ utf16Length secret → ∀ token, ∃ iv, iv.length = 12 ∧
        encryptProviderToken gcm iv token secret = .ok (square.encrypt token))

/-- The envelope of a token. -/
def EnvelopeOf (token envelope : String) : Prop :=
  ∃ iv, iv.length = 12 ∧ encryptProviderToken gcm iv token secret = .ok envelope

/-- The envelopes are of tokens entrusted to the venue. -/
structure Vouched (venueId : VenueId) (access refresh : Option String) : Prop where
  access : ∀ envelope ∈ access, ∃ tokens, Entrusted stateHash calls venueId tokens ∧
    EnvelopeOf gcm secret tokens.accessToken envelope
  refresh : ∀ envelope ∈ refresh, ∃ tokens token, Entrusted stateHash calls venueId tokens ∧
    tokens.refreshToken = some token ∧ EnvelopeOf gcm secret token envelope

/-- Each row keeps envelopes of tokens that are entrusted to its venue. -/
def Backend.Vouches (s : Backend) : Prop :=
  ∀ c ∈ s.connections.rows, Vouched stateHash calls gcm secret c.id.venueId c.encryptedAccessToken
    c.encryptedRefreshToken

/-- And each state that a connection waits for was issued for its venue. -/
structure Providers.Vouches (s : Providers) : Prop where
  tokens : s.backend.Vouches stateHash calls gcm secret
  states : ∀ id hash expiresAt, (s.authorizations id).oauthStateHash = some hash →
    (s.authorizations id).oauthStateExpiresAt = some expiresAt →
      StateIssued stateHash calls id.venueId hash expiresAt

end Definitions

section Entrusted

variable {stateHash : String → String} {calls : Set ProvidersCall} {gcm : Gcm} {secret : String}

/-! ### Envelopes -/

/-- What is read from the envelope of a token is the token. -/
theorem EnvelopeOf.read (hgcm : gcm.Lawful) {token envelope text : String}
    (h : EnvelopeOf gcm secret token envelope)
    (hread : decryptProviderToken gcm envelope secret = .ok text) : text = token := by
  obtain ⟨iv, hiv, henvelope⟩ := h
  have hround : decryptProviderToken gcm (envelope ++ "") secret = _ :=
    decryptProviderToken_encryptProviderToken hgcm hiv henvelope (by simp)
  rw [String.append_empty, hread] at hround
  split at hround
  · cases hround
  · exact Except.ok.inj hround

/-- Whatever is read is read with a key. -/
theorem long_of_read {envelope text : String}
    (hread : decryptProviderToken gcm envelope secret = .ok text) : 16 ≤ utf16Length secret := by
  by_contra hshort
  have h := decryptProviderToken_short gcm (Nat.lt_of_not_le hshort) envelope
  rw [hread] at h
  cases h with
  | inl h => cases h
  | inr h => cases h

/-- What is read of an optional text is read of the text. -/
theorem exists_of_mapM {ε α β : Type} {read : α → Except ε β} {text : Option α} {r : Option β}
    (h : text.mapM read = .ok r) {b : β} (hb : b ∈ r) : ∃ a ∈ text, read a = .ok b := by
  cases text with
  | none =>
      cases h
      cases hb
  | some a =>
      cases hread : read a with
      | error e =>
          simp only [Option.mapM_some, hread] at h
          cases h
      | ok b' =>
          simp only [Option.mapM_some, hread] at h
          cases h
          cases hb
          exact ⟨a, rfl, hread⟩

/-- A text that is there is one of those that may be. -/
theorem mem_of_mem_present {text : Option String} {a : String} (h : a ∈ present text) :
    a ∈ text :=
  (Option.filter_eq_some_iff.mp h).1

/-- New tokens of a venue in their envelopes; where there is no new refresh token, the old one
stays. -/
theorem vouched_stored {venueId : VenueId} {tokens : SquareTokens}
    {access refresh stored : Option String} {envelope : String}
    (htokens : Entrusted stateHash calls venueId tokens)
    (hold : Vouched stateHash calls gcm secret venueId access refresh)
    (haccess : EnvelopeOf gcm secret tokens.accessToken envelope)
    (hstored : ∀ e ∈ stored, ∃ token ∈ present tokens.refreshToken,
      EnvelopeOf gcm secret token e) :
    Vouched stateHash calls gcm secret venueId (some envelope) (stored.or refresh) := by
  constructor
  · rintro _ ⟨⟩
    exact ⟨tokens, htokens, haccess⟩
  · intro e he
    cases stored with
    | none => exact hold.refresh e he
    | some new =>
        obtain ⟨token, htoken, hof⟩ := hstored e he
        exact ⟨tokens, token, htokens, mem_of_mem_present htoken, hof⟩

/-! ### What a sync knows -/

/-- What a sync knows of its commands: the tokens it stores are the venue's, and so is the
evidence. -/
def BackendCommand.Knows (stateHash : String → String) (calls : Set ProvidersCall) (gcm : Gcm)
    (secret : String) : BackendCommand → Prop
  | .storeTokens id tokens => Vouched stateHash calls gcm secret id.venueId
      (some tokens.encryptedAccessToken) tokens.encryptedRefreshToken
  | .platform (.settle (.record (.saveTip row))) =>
      ∃ evidence, Fetched stateHash calls row.id.venueId evidence ∧
        ∃ tip ∈ evidence.cardTips ++ evidence.cashTips, row = tip.row row.id.venueId
  | .platform (.settle (.record (.saveShift row))) =>
      ∃ evidence, Fetched stateHash calls row.id.venueId evidence ∧
        ∃ shift ∈ evidence.shifts, ∃ workerId old, row = shift.row row.id.venueId workerId old
  | _ => True

/-- The setting of a sync. -/
def vouchedBackend (stateHash : String → String) (calls : Set ProvidersCall) (gcm : Gcm)
    (secret : String) : Discipline Backend BackendCommand where
  apply := BackendCommand.apply
  rely _ _ := True
  inv s := s.Vouches stateHash calls gcm secret
  ok _ _ := True

theorem vouchedBackend_lawful : (vouchedBackend stateHash calls gcm secret).Lawful :=
  ⟨fun _ => trivial, fun _ _ => trivial⟩

/-- The tokens a sync comes by: the one that is stored, or new ones for the refresh token that
is. -/
theorem tokensOf_eq_ok {square : SquareApi} {connection : ProviderConnection} {force : Bool}
    {now : Time} {access : Option String} {refreshed : Option SquareTokens}
    (h : square.tokensOf connection force now = .ok (access, refreshed)) :
    (refreshed = none ∧ ∀ token ∈ access, ∃ envelope ∈ connection.encryptedAccessToken,
        square.decrypt envelope = .ok token) ∨
      ∃ envelope ∈ connection.encryptedRefreshToken, ∃ refreshToken tokens,
        square.decrypt envelope = .ok refreshToken ∧ square.obtainToken refreshToken = .ok tokens ∧
          access = some tokens.accessToken ∧ refreshed = some tokens := by
  unfold SquareApi.tokensOf at h
  split at h
  · cases h
  obtain ⟨read, hread, h⟩ := bind_eq_ok.mp h
  cases hrefresh : (present connection.encryptedRefreshToken).filter fun _ => decide
      (force = true ∨ ∃ t ∈ connection.tokenExpiresAt, t < now + 24 * 60 * 60 * 1000) with
  | none =>
      simp only [hrefresh] at h
      cases h
      refine .inl ⟨rfl, fun token htoken => ?_⟩
      obtain ⟨envelope, henvelope, hdecrypt⟩ := exists_of_mapM hread htoken
      exact ⟨envelope, mem_of_mem_present henvelope, hdecrypt⟩
  | some envelope =>
      simp only [hrefresh] at h
      obtain ⟨refreshToken, hdecrypt, h⟩ := bind_eq_ok.mp h
      obtain ⟨tokens, htokens, h⟩ := bind_eq_ok.mp h
      cases h
      have hmem := mem_of_mem_present (Option.filter_eq_some_iff.mp hrefresh).1
      exact .inr ⟨envelope, hmem, refreshToken, tokens, hdecrypt, htokens, rfl, rfl⟩

section Sync

variable {square : SquareApi} {venueId : VenueId} {now : Time} {connection : ProviderConnection}

/-- What a sync decrypts it reads from an envelope. -/
theorem read_of_decrypt (hfits : (ProvidersCall.sync square venueId now).Fits gcm secret)
    {envelope token : String} (h : square.decrypt envelope = .ok token) :
    decryptProviderToken gcm envelope secret = .ok token := by
  rw [hfits.1] at h
  cases hread : decryptProviderToken gcm envelope secret with
  | ok text =>
      rw [hread] at h
      cases h
      rfl
  | error e =>
      rw [hread] at h
      cases h

/-- An access token to fetch with is one of the venue. -/
theorem sat_client (hgcm : gcm.Lawful) (hcall : .sync square venueId now ∈ calls)
    (hfits : (ProvidersCall.sync square venueId now).Fits gcm secret)
    (hid : connection.id.venueId = venueId)
    (hvouched : Vouched stateHash calls gcm secret venueId connection.encryptedAccessToken
      connection.encryptedRefreshToken) (force : Bool) (s : Backend) :
    (square.client connection force now).Sat (vouchedBackend stateHash calls gcm secret)
      (fun c _ => c.Knows stateHash calls gcm secret) s
      fun opened _ => ∀ token, opened = .ok token →
        ∃ tokens, Entrusted stateHash calls venueId tokens ∧ tokens.accessToken = token := by
  unfold SquareApi.client
  split
  · rintro s - - token ⟨⟩
  · next access refreshed htokens =>
    obtain ⟨rfl, haccess⟩ | ⟨envelope, henvelope, refreshToken, tokens, hdecrypt, hobtain, rfl,
      rfl⟩ := tokensOf_eq_ok htokens
    · intro s _ _ token htoken
      cases hpresent : present access with
      | none =>
          rw [hpresent] at htoken
          cases htoken
      | some read =>
          rw [hpresent] at htoken
          cases htoken
          obtain ⟨envelope, henvelope, hdecrypt⟩ := haccess token (mem_of_mem_present hpresent)
          obtain ⟨tokens, hentrusted, hof⟩ := hvouched.access envelope henvelope
          exact ⟨tokens, hentrusted, (hof.read hgcm (read_of_decrypt hfits hdecrypt)).symm⟩
    · obtain ⟨old, token, hold, htoken, hof⟩ := hvouched.refresh envelope henvelope
      have hread := read_of_decrypt hfits hdecrypt
      obtain rfl := hof.read hgcm hread
      have hentrusted : Entrusted stateHash calls venueId tokens :=
        .refresh hold htoken hcall hobtain
      have hencrypt := hfits.2 (long_of_read hread)
      refine sat_put_bind.mpr fun s _ _ _ => ⟨?_, ?_⟩
      · rw [BackendCommand.Knows, hid]
        refine vouched_stored hentrusted hvouched (hencrypt _) fun e he => ?_
        obtain ⟨token, htoken, rfl⟩ := Option.map_eq_some_iff.mp he
        exact ⟨token, htoken, hencrypt token⟩
      · intro s _ _ token htoken
        cases hpresent : present (some tokens.accessToken) with
        | none =>
            rw [hpresent] at htoken
            cases htoken
        | some read =>
            rw [hpresent] at htoken
            cases htoken
            exact ⟨tokens, hentrusted, Option.some.inj (mem_of_mem_present hpresent)⟩

/-- What a sync fetches it fetches with a token of the venue. -/
theorem sat_fetchEvidence (hgcm : gcm.Lawful) (hcall : .sync square venueId now ∈ calls)
    (hfits : (ProvidersCall.sync square venueId now).Fits gcm secret)
    (hid : connection.id.venueId = venueId)
    (hvouched : Vouched stateHash calls gcm secret venueId connection.encryptedAccessToken
      connection.encryptedRefreshToken) (locationId : String) (s : Backend) :
    (square.fetchEvidence connection locationId now).Sat
      (vouchedBackend stateHash calls gcm secret) (fun c _ => c.Knows stateHash calls gcm secret) s
      fun fetched _ => ∀ evidence, fetched = .ok evidence →
        Fetched stateHash calls venueId evidence := by
  have hclient := sat_client hgcm hcall hfits hid hvouched
  have hfetched {retry : Bool} {token : String} {evidence : SquareEvidence}
      (htoken : ∃ tokens, Entrusted stateHash calls venueId tokens ∧ tokens.accessToken = token)
      (hfetch : square.fetch retry token locationId = .ok evidence) :
      Fetched stateHash calls venueId evidence := by
    obtain ⟨tokens, hentrusted, rfl⟩ := htoken
    exact ⟨square, now, retry, tokens, locationId, hcall, hentrusted, hfetch⟩
  refine Prog.Sat.bind vouchedBackend_lawful ((hclient false s).mono fun opened s hopened => ?_)
  cases opened with
  | error e => rintro s - - evidence ⟨⟩
  | ok token =>
      have htoken := hopened token rfl
      dsimp only
      split
      · next evidence hfetch =>
        rintro s - - _ ⟨⟩
        exact hfetched htoken hfetch
      · rintro s - - evidence ⟨⟩
      · split
        · refine Prog.Sat.bind vouchedBackend_lawful
            ((hclient true s).mono fun reopened s hreopened => ?_)
          cases reopened with
          | error e => rintro s - - evidence ⟨⟩
          | ok token => exact fun s _ _ evidence hfetch => hfetched (hreopened token rfl) hfetch
        · rintro s - - evidence ⟨⟩

/-- What a sync stores of evidence. -/
theorem only_persist {evidence : SquareEvidence}
    (hfetched : Fetched stateHash calls venueId evidence) :
    (onPlatform (settling (persist venueId (evidence.cardTips ++ evidence.cashTips)
      evidence.shifts))).Only (BackendCommand.Knows stateHash calls gcm secret) := by
  refine Prog.Only.lift (Prog.Only.lift (only_get_bind.mpr fun w => ?_))
  refine Prog.Only.bind (Prog.Only.forEach fun tip htip => ?_) fun _ =>
    Prog.Only.forEach fun shift hshift => only_get_bind.mpr fun w => ?_
  · exact only_putGet_bind.mpr ⟨⟨evidence, hfetched, tip, htip, rfl⟩, fun _ => trivial⟩
  · exact only_putGet_bind.mpr ⟨⟨evidence, hfetched, shift, hshift, _, _, rfl⟩, fun _ => trivial⟩

theorem sat_sync (hgcm : gcm.Lawful) (hcall : .sync square venueId now ∈ calls)
    (hfits : (ProvidersCall.sync square venueId now).Fits gcm secret) (s : Backend) :
    (sync square venueId now).Sat (vouchedBackend stateHash calls gcm secret)
      (fun c _ => c.Knows stateHash calls gcm secret) s fun _ _ => True := by
  refine sat_get_bind.mpr fun s _ hs => sat_orThrow_bind.mpr ?_
  rintro ⟨connection, locationId⟩ hfound
  -- the row is the venue's, and what it keeps is vouched for
  obtain ⟨row, hrow, hlocation⟩ := Option.bind_eq_some_iff.mp hfound
  obtain ⟨location, -, hopened⟩ := Option.bind_eq_some_iff.mp hlocation
  have hsame : row = connection := by
    split at hopened
    · cases hopened
    · cases hopened
      rfl
  subst hsame
  have hid : row.id.venueId = venueId :=
    congrArg ProviderConnectionId.venueId (Table.key_of_find hrow)
  have hvouched := hs row (Table.mem_of_find hrow)
  rw [hid] at hvouched
  refine sat_put_bind.mpr fun s _ _ _ => ⟨trivial, ?_⟩
  refine Prog.Sat.bind vouchedBackend_lawful
    ((sat_fetchEvidence hgcm hcall hfits hid hvouched locationId _).mono
      fun fetched s hfetched => ?_)
  cases fetched with
  | error e => exact sat_put_bind.mpr fun s _ _ _ => ⟨trivial, trivial⟩
  | ok evidence =>
      refine Prog.Sat.andThen vouchedBackend_lawful
        ((only_persist (hfetched evidence rfl)).sat _) fun _ s => ?_
      exact sat_put_bind.mpr fun s _ _ _ => ⟨trivial, fun _ _ _ => trivial⟩

end Sync

/-! ### What the other calls know -/

/-- What a call knows of its commands: a state is issued for the venue, and the tokens it stores
are the venue's. -/
def ProvidersCommand.Knows (stateHash : String → String) (calls : Set ProvidersCall) (gcm : Gcm)
    (secret : String) : ProvidersCommand → Prop
  | .backend c => c.Knows stateHash calls gcm secret
  | .authorize id _ _ hash expiresAt => StateIssued stateHash calls id.venueId hash expiresAt
  | .consumeState .. | .refused .. => True
  | .connected id done => Vouched stateHash calls gcm secret id.venueId
      (some done.tokens.encryptedAccessToken) done.tokens.encryptedRefreshToken

/-- The setting of a call. -/
def vouchedProviders (stateHash : String → String) (calls : Set ProvidersCall) (gcm : Gcm)
    (secret : String) : Discipline Providers ProvidersCommand where
  apply := ProvidersCommand.apply
  rely _ _ := True
  inv s := s.Vouches stateHash calls gcm secret
  ok _ _ := True

/-- The connection that waits for a state waits for one of its venue, which has not expired. -/
theorem awaiting_eq_some {s : Providers} {hash : String} {now : Time}
    {connection : ProviderConnection} {ids : List (String × String)}
    (h : s.awaiting hash now = some (connection, ids)) :
    connection ∈ s.backend.connections.rows ∧
      (s.authorizations connection.id).oauthStateHash = some hash ∧
        ∃ expiresAt, (s.authorizations connection.id).oauthStateExpiresAt = some expiresAt ∧
          now < expiresAt := by
  obtain ⟨row, hrow, hsame⟩ := Option.map_eq_some_iff.mp h
  cases hsame
  have hmem := List.mem_of_find?_eq_some hrow
  have hwaits := List.find?_some hrow
  obtain ⟨-, hhash, expiresAt, hexpires, htime⟩ := of_decide_eq_true hwaits
  exact ⟨hmem, hhash, expiresAt, hexpires, htime⟩

section Complete

variable {square : SquareOAuth} {input : SquareCallback} {now : Time}
  {connection : ProviderConnection}

/-- What is stored of the tokens of a venue. -/
theorem vouched_of_stored {config : ProviderConfig} {tokens : SquareTokens} {stored : StoredTokens}
    (hfits : (ProvidersCall.completeSquareAuthorization square input now).Fits gcm secret)
    (hconfig : square.config = some config)
    (htokens : Entrusted stateHash calls connection.id.venueId tokens)
    (hvouched : Vouched stateHash calls gcm secret connection.id.venueId
      connection.encryptedAccessToken connection.encryptedRefreshToken)
    (h : square.stored gcm config connection tokens = .ok stored) :
    Vouched stateHash calls gcm secret connection.id.venueId
      (some stored.encryptedAccessToken) stored.encryptedRefreshToken := by
  obtain ⟨hsecret, haccessIv, hrefreshIv⟩ := hfits
  unfold SquareOAuth.stored at h
  rw [hsecret config hconfig] at h
  obtain ⟨access, haccess, h⟩ := bind_eq_ok.mp h
  obtain ⟨refresh, hrefresh, h⟩ := bind_eq_ok.mp h
  cases h
  refine vouched_stored htokens hvouched ⟨_, haccessIv, haccess⟩ fun e he => ?_
  obtain ⟨token, htoken, hencrypt⟩ := exists_of_mapM hrefresh he
  exact ⟨token, htoken, _, hrefreshIv, hencrypt⟩

theorem sat_connect {state code : String} {expiresAt : Time}
    (hcall : .completeSquareAuthorization square input now ∈ calls)
    (hfits : (ProvidersCall.completeSquareAuthorization square input now).Fits gcm secret)
    (hstate : present input.state = some state)
    (hissued : StateIssued stateHash calls connection.id.venueId (stateHash state) expiresAt)
    (htime : now < expiresAt) (hcode : present input.code = some code)
    (hvouched : Vouched stateHash calls gcm secret connection.id.venueId
      connection.encryptedAccessToken connection.encryptedRefreshToken)
    (ids : List (String × String)) (s : Providers) :
    (square.connect gcm connection ids code).Sat (vouchedProviders stateHash calls gcm secret)
      (fun c _ => c.Knows stateHash calls gcm secret) s fun _ _ => True := by
  refine sat_orThrow_bind.mpr fun config hconfig => sat_ofExcept_bind.mpr ?_
  rintro ⟨tokens, location⟩ hexchange
  have hobtain : square.obtainToken code = .ok tokens := by
    obtain ⟨tokens', htokens, h⟩ := bind_eq_ok.mp hexchange
    obtain ⟨locations, -, h⟩ := bind_eq_ok.mp h
    cases hobtained : square.obtainToken code with
    | error e =>
        rw [hobtained] at htokens
        cases htokens
    | ok obtained =>
        rw [hobtained] at htokens
        cases htokens
        split at h
        · cases h
          rfl
        · cases h
  have hentrusted : Entrusted stateHash calls connection.id.venueId tokens.toSquareTokens :=
    .code hcall hstate hissued htime hcode hobtain
  refine sat_ofExcept_bind.mpr fun stored hstored => sat_put_bind.mpr fun s _ _ _ => ⟨?_, ?_⟩
  · cases hok : square.stored gcm config connection tokens.toSquareTokens with
    | error e =>
        rw [hok] at hstored
        cases hstored
    | ok stored' =>
        rw [hok] at hstored
        cases hstored
        exact vouched_of_stored hfits hconfig hentrusted hvouched hok
  · exact fun _ _ _ => trivial

theorem sat_completeSquareAuthorization
    (hcall : .completeSquareAuthorization square input now ∈ calls)
    (hfits : (ProvidersCall.completeSquareAuthorization square input now).Fits gcm secret)
    (s : Providers) :
    (completeSquareAuthorization gcm stateHash square input now).Sat
      (vouchedProviders stateHash calls gcm secret)
      (fun c _ => c.Knows stateHash calls gcm secret) s fun _ _ => True := by
  refine sat_orThrow_bind.mpr fun state hstate => sat_get_bind.mpr fun s _ hs =>
    sat_orThrow_bind.mpr ?_
  rintro ⟨connection, ids⟩ hfound
  obtain ⟨hmem, hhash, expiresAt, hexpires, htime⟩ := awaiting_eq_some hfound
  have hissued := hs.states connection.id _ expiresAt hhash hexpires
  have hvouched := hs.tokens connection hmem
  refine sat_putGet_bind.mpr fun s _ _ _ => ⟨trivial, sat_require_bind.mpr fun _ => ?_⟩
  split
  · exact sat_put_bind.mpr fun s _ _ _ => ⟨trivial, trivial⟩
  · refine sat_orThrow_bind.mpr fun code hcode => ?_
    exact sat_connect hcall hfits hstate hissued htime hcode hvouched ids _

end Complete

/-! ### What the commands keep -/

/-- Rows that are written with envelopes of their venue. -/
theorem Backend.Vouches.update {s : Backend} (hs : s.Vouches stateHash calls gcm secret)
    (id : ProviderConnectionId) {f : ProviderConnection → ProviderConnection}
    (hf : ∀ c, (f c).id = c.id)
    (hnew : ∀ c, c.id = id → Vouched stateHash calls gcm secret id.venueId c.encryptedAccessToken
      c.encryptedRefreshToken → Vouched stateHash calls gcm secret id.venueId
        (f c).encryptedAccessToken (f c).encryptedRefreshToken) :
    (s.updateConnection id f).Vouches stateHash calls gcm secret := by
  intro c hc
  obtain ⟨hmem, -⟩ | ⟨old, hold, rfl, rfl⟩ := (Table.mem_update _ hf).mp hc
  · exact hs c hmem
  · rw [hf]
    exact hnew old rfl (hs old hold)

theorem Backend.Vouches.apply {s : Backend} (hs : s.Vouches stateHash calls gcm secret)
    {c : BackendCommand} (hc : c.Knows stateHash calls gcm secret) :
    (c.apply s).Vouches stateHash calls gcm secret := by
  cases c with
  | platform c => exact hs
  | startSync id now => exact hs.update id (fun _ => rfl) fun _ _ h => h
  | storeTokens id tokens => exact hs.update id (fun _ => rfl) fun _ _ _ => hc
  | syncSucceeded id now => exact hs.update id (fun _ => rfl) fun _ _ h => h
  | syncFailed id now error => exact hs.update id (fun _ => rfl) fun _ _ h => h

/-- The states of the connections, when one connection waits for a state of its venue or for
none. -/
theorem issued_update {s : Providers} (hs : s.Vouches stateHash calls gcm secret)
    {id : ProviderConnectionId} {row : SquareAuthorization}
    (hrow : ∀ hash expiresAt, row.oauthStateHash = some hash →
      row.oauthStateExpiresAt = some expiresAt → StateIssued stateHash calls id.venueId hash expiresAt)
    (id' : ProviderConnectionId) (hash : String) (expiresAt : Time)
    (hhash : (Function.update s.authorizations id row id').oauthStateHash = some hash)
    (hexpires : (Function.update s.authorizations id row id').oauthStateExpiresAt =
      some expiresAt) : StateIssued stateHash calls id'.venueId hash expiresAt := by
  by_cases hid : id' = id
  · subst hid
    rw [Function.update_self] at hhash hexpires
    exact hrow hash expiresAt hhash hexpires
  · rw [Function.update_of_ne hid] at hhash hexpires
    exact hs.states id' hash expiresAt hhash hexpires

theorem Providers.Vouches.apply {s : Providers} (hs : s.Vouches stateHash calls gcm secret)
    {c : ProvidersCommand} (hc : c.Knows stateHash calls gcm secret) :
    (c.apply s).Vouches stateHash calls gcm secret := by
  cases c with
  | backend c => exact ⟨hs.tokens.apply hc, hs.states⟩
  | authorize id environment locationId hash expiresAt =>
      refine ⟨fun c hmem => ?_, issued_update hs ?_⟩
      · obtain rfl | ⟨hmem, -⟩ := (Table.mem_set _).mp hmem
        · cases hfind : s.backend.connections.find id with
          | none => exact ⟨(by rintro _ ⟨⟩), (by rintro _ ⟨⟩)⟩
          | some old => exact hs.tokens old (Table.mem_of_find hfind)
        · exact hs.tokens c hmem
      · rintro _ _ ⟨⟩ ⟨⟩
        exact hc
  | consumeState id hash =>
      rw [ProvidersCommand.apply]
      split
      · exact ⟨hs.tokens, issued_update hs (by rintro _ _ ⟨⟩)⟩
      · exact hs
  | refused id error =>
      exact ⟨hs.tokens.update id (fun _ => rfl) fun _ _ h => h, hs.states⟩
  | connected id done =>
      exact ⟨hs.tokens.update id (fun _ => rfl) fun _ _ _ => hc,
        issued_update hs (hs.states id)⟩

/-! ## In every run -/

variable (stateHash) in
/-- Every call knows at its commits what it should. -/
theorem providers_sound (hgcm : gcm.Lawful) (hfits : ∀ c ∈ calls, c.Fits gcm secret) :
    (providers gcm stateHash calls).Sound (fun _ _ => True)
      (vouchedProviders stateHash calls gcm secret)
      (fun c _ => c.Knows stateHash calls gcm secret) where
  lawful := ⟨fun _ => trivial, fun _ _ => trivial⟩
  commit _ _ hs _ hc := ⟨trivial, hs.apply hc⟩
  env _ _ hs _ := ⟨trivial, hs.tokens, hs.states⟩
  apply_eq := rfl
  call := by
    rintro ⟨n, call, hcall⟩ s -
    have hfit := hfits call hcall
    have hlawful : (vouchedProviders stateHash calls gcm secret).Lawful :=
      ⟨fun _ => trivial, fun _ _ => trivial⟩
    cases call with
    | createSquareAuthorization config state venueId locationId now =>
        refine Prog.Sat.andThen hlawful ?_ fun _ _ _ _ _ => trivial
        refine sat_orThrow_bind.mpr fun config' _ => sat_put_bind.mpr fun s _ _ _ => ⟨?_, ?_⟩
        · exact ⟨config, state, locationId, now, hcall, rfl, rfl⟩
        · exact fun _ _ _ => trivial
    | completeSquareAuthorization square input now =>
        exact Prog.Sat.andThen hlawful (sat_completeSquareAuthorization hcall hfit s)
          fun _ _ _ _ _ => trivial
    | sync square venueId now =>
        refine Prog.Sat.andThen hlawful ?_ fun _ _ _ _ _ => trivial
        have hview (s : Providers) (hs : (vouchedProviders stateHash calls gcm secret).inv s) :
            (vouchedBackend stateHash calls gcm secret).inv s.backend := hs.tokens
        exact Prog.Sat.lift (fun _ _ _ => trivial) hview (fun _ _ _ => trivial) (fun _ _ h => h)
          (fun _ _ => rfl) (sat_sync hgcm hcall hfit s.backend)

/-- No venue has connected yet. -/
def Providers.Unconnected (s : Providers) : Prop :=
  s.backend.connections.rows = [] ∧ ∀ id, (s.authorizations id).oauthStateHash = none

theorem Providers.Unconnected.vouches {s : Providers} (h : s.Unconnected) :
    s.Vouches stateHash calls gcm secret where
  tokens c hc := by
    rw [h.1] at hc
    cases hc
  states id hash expiresAt hhash := by
    rw [h.2 id] at hhash
    cases hhash

/-- **A sync writes what Square gave for a token of the venue.**  When a call is about to write a
row of evidence, Square has given the evidence for a token that is entrusted to the venue of the
row. -/
theorem evidence_entrusted (hgcm : gcm.Lawful) (hfits : ∀ c ∈ calls, c.Fits gcm secret)
    {s : Providers} (hs : s.Unconnected) (ms : List (Move calls (Platform → Platform))) {n : Nat}
    {write : RecordWrite} {next : Providers → ProvidersAction Unit}
    (hn : ((providers gcm stateHash calls).runFrom s ms).threads[n]? =
      some (.commit (.backend (.platform (.settle (.record write)))) next)) :
    (∀ row, write = .saveTip row → ∃ evidence, Fetched stateHash calls row.id.venueId evidence ∧
      ∃ tip ∈ evidence.cardTips ++ evidence.cashTips, row = tip.row row.id.venueId) ∧
    (∀ row, write = .saveShift row → ∃ evidence, Fetched stateHash calls row.id.venueId evidence ∧
      ∃ shift ∈ evidence.shifts, ∃ workerId old, row = shift.row row.id.venueId workerId old) := by
  have hknown := (providers_sound stateHash hgcm hfits).known_commit hs.vouches
    (System.respects_of_all _ _ _ (fun _ _ => trivial) (fun _ _ => trivial)
      (number 0 ms) _) hn trivial
  constructor
  · rintro row rfl
    exact hknown
  · rintro row rfl
    exact hknown

end Entrusted

/-! ### A venue that connects and syncs -/

namespace Scenario

def oauthState : String := "AQIDBAUGBwgJCgsMDQ4PEBESExQVFhcYGRobHB0eHyA"

/-- SHA-256 of the one state, in hexadecimal. -/
def oauthStateHash (state : String) : String :=
  if state = oauthState then "eb9f16800c9029ffca85695763d23c3ace71011cf40e9354acd810205e250f87"
  else state

def squareConfig : ProviderConfig where
  environment := .sandbox
  appId := "app"
  redirectUri := "https://api.example.test/providers/square/callback"
  encryptionSecret := TokenSample.secret

def squareOAuth : SquareOAuth where
  config := some squareConfig
  obtainToken code :=
    if code = "code" then
      .ok { accessToken := "café", refreshToken := none, expiresAt := none, merchantId := "seller" }
    else .error (.squareApi "Square OAuth 401" 401)
  listLocations _ := .ok [⟨"bar", some "Bar", some "ACTIVE", some "UTC"⟩]
  accessIv := TokenSample.iv
  refreshIv := TokenSample.iv

def cardTip : ProviderTipEvidence where
  provider := SquareClient.provider
  externalPaymentId := "payment"
  tipType := .cardTip
  grossAmountUsdCents := 500
  paymentStatus := .completed
  refundStatus := .none
  businessDate := date
  sourceHash := 0

def squareApi : SquareApi where
  configured := true
  decrypt envelope :=
    (decryptProviderToken TokenSample.gcm envelope TokenSample.secret).mapError .other
  encrypt token :=
    match encryptProviderToken TokenSample.gcm TokenSample.iv token TokenSample.secret with
    | .ok envelope => envelope
    | .error _ => ""
  obtainToken _ := .error (.squareApi "Square OAuth 401" 401)
  fetch _ token location :=
    if token = "café" ∧ location = "bar" then .ok ⟨[cardTip], [], []⟩
    else .error (.squareApi "Square API 401" 401)

def sendOff : ProvidersCall :=
  .createSquareAuthorization (some squareConfig) oauthState venue none 0

def comeBack : ProvidersCall :=
  .completeSquareAuthorization squareOAuth ⟨some oauthState, some "code", none, none⟩ 1000

def syncVenue : ProvidersCall := .sync squareApi venue 2000

def connecting : Set ProvidersCall := {sendOff, comeBack, syncVenue}

/-- No venue has connected yet. -/
def unconnected : Providers where
  backend := ⟨Platform.fresh World.empty 0 "key", ∅⟩
  authorizations _ := ⟨.sandbox, none, none, none⟩
  externalIds _ := []

def connectingSendOff : connecting := ⟨sendOff, .inl rfl⟩

def connectingComeBack : connecting := ⟨comeBack, .inr (.inl rfl)⟩

def connectingSync : connecting := ⟨syncVenue, .inr (.inr rfl)⟩

/-- The manager goes and comes back. -/
def connects : List (Move connecting (Platform → Platform)) :=
  [.call connectingSendOff, .step 0, .call connectingComeBack, .step 1, .step 1, .step 1]

/-- And the venue is synced, up to the row of the tip. -/
def connectsAndSyncs : List (Move connecting (Platform → Platform)) :=
  connects ++ .call connectingSync :: List.replicate 3 (.step 2)

theorem connecting_fits : ∀ c ∈ connecting, c.Fits TokenSample.gcm TokenSample.secret := by
  rintro c (rfl | rfl | rfl)
  · trivial
  · refine ⟨?_, rfl, rfl⟩
    rintro _ ⟨⟩
    rfl
  · refine ⟨fun _ => rfl, fun hlong token => ?_⟩
    obtain ⟨envelope, henvelope⟩ := exists_envelope TokenSample.iv token TokenSample.gcm hlong
    refine ⟨TokenSample.iv, rfl, ?_⟩
    simp only [squareApi, henvelope]

theorem unconnected_unconnected : unconnected.Unconnected := ⟨rfl, fun _ => rfl⟩

end Scenario

open Scenario

/-- The row of evidence that a call writes next. -/
def writing : ProvidersAction Unit → Option TipEvidence
  | .commit (.backend (.platform (.settle (.record (.saveTip row))))) _ => some row
  | _ => none

theorem commit_of_writing {p : ProvidersAction Unit} {row : TipEvidence}
    (h : writing p = some row) :
    ∃ next, p = .commit (.backend (.platform (.settle (.record (.saveTip row))))) next := by
  unfold writing at h
  split at h
  · cases h
    exact ⟨_, rfl⟩
  · cases h

theorem evidence_entrusted_synced :
    ∃ evidence, Fetched oauthStateHash connecting venue evidence ∧
      ∃ tip ∈ evidence.cardTips ++ evidence.cashTips, cardTip.row venue = tip.row venue := by
  have hwriting : (((providers TokenSample.gcm oauthStateHash connecting).runFrom unconnected
      connectsAndSyncs).threads[2]?).bind writing = some (cardTip.row venue) := by decide +kernel
  obtain ⟨p, hp, hrow⟩ := Option.bind_eq_some_iff.mp hwriting
  obtain ⟨next, rfl⟩ := commit_of_writing hrow
  exact (evidence_entrusted TokenSample.lawful connecting_fits unconnected_unconnected
    connectsAndSyncs hp).1 _ rfl

end ServeProof
