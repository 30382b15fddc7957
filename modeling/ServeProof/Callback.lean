import ServeProof.Entrusted
import ServeProof.Interleave.Tickets

/-!
# ServeProof.Callback

A state is good for one answer from Square.

A call that comes back with a state writes its answer (the connection, or the error) only after
it has used the state up, in a step that sees the connection still waiting for it.  A connection
waits for a state only after a manager was sent off with it; so where no two managers are sent
off with states of one hash, no two calls answer with it (`state_answered_once`), however the
calls overlap.
-/

namespace ServeProof

open Interleave
open Prog (Reaches reaches_bind reaches_get_bind reaches_put_bind reaches_putGet_bind
  reaches_require_bind reaches_orThrow_bind reaches_pure reaches_throw)

/-! ## What a connection waits for -/

section Awaits

variable {s : Providers} {id : ProviderConnectionId} {hash : String}

/-- A row that is updated was there. -/
theorem Backend.isSome_of_update {s : Backend} {id' : ProviderConnectionId}
    {f : ProviderConnection → ProviderConnection}
    (h : ((s.updateConnection id' f).connections.find id).isSome) (hf : ∀ c, (f c).id = c.id) :
    (s.connections.find id).isSome := by
  rw [Backend.updateConnection, Table.find_update _ hf] at h
  split at h
  · next hid => rwa [hid, Option.isSome_map] at h
  · exact h

/-- The commands of a sync write rows that are there. -/
theorem Backend.isSome_of_apply {s : Backend} {c : BackendCommand}
    (h : ((c.apply s).connections.find id).isSome) : (s.connections.find id).isSome := by
  cases c with
  | platform c => exact h
  | startSync id' now => exact Backend.isSome_of_update h fun _ => rfl
  | storeTokens id' tokens => exact Backend.isSome_of_update h fun _ => rfl
  | syncSucceeded id' now => exact Backend.isSome_of_update h fun _ => rfl
  | syncFailed id' now error => exact Backend.isSome_of_update h fun _ => rfl

/-- A connection waits for a state that it did not wait for only when a manager is sent off with
it. -/
theorem Providers.Awaits.of_apply {c : ProvidersCommand} (h : (c.apply s).Awaits id hash) :
    s.Awaits id hash ∨ ∃ environment locationId expiresAt,
      c = .authorize id environment locationId hash expiresAt := by
  obtain ⟨hrow, hhash⟩ := h
  cases c with
  | backend c => exact .inl ⟨Backend.isSome_of_apply hrow, hhash⟩
  | authorize id' environment locationId hash' expiresAt =>
      by_cases hid : id = id'
      · subst hid
        simp only [ProvidersCommand.apply, Function.update_self, Option.some.injEq] at hhash
        subst hhash
        exact .inr ⟨environment, locationId, expiresAt, rfl⟩
      · simp only [ProvidersCommand.apply, Table.find_set, ProviderConnection.id_authorized,
          if_neg (Ne.symm hid)] at hrow
        simp only [ProvidersCommand.apply, Function.update_of_ne hid] at hhash
        exact .inl ⟨hrow, hhash⟩
  | consumeState id' hash' =>
      rw [ProvidersCommand.apply] at hrow hhash
      split at hhash
      · next hwaits =>
        rw [if_pos hwaits] at hrow
        by_cases hid : id = id'
        · subst hid
          simp [Providers.updateAuthorization] at hhash
        · simp only [Providers.updateAuthorization, Function.update_of_ne hid] at hhash
          exact .inl ⟨hrow, hhash⟩
      · next hwaits =>
        rw [if_neg hwaits] at hrow
        exact .inl ⟨hrow, hhash⟩
  | refused id' error => exact .inl ⟨Backend.isSome_of_update hrow (fun _ => rfl), hhash⟩
  | connected id' done =>
      refine .inl ⟨Backend.isSome_of_update hrow (fun _ => rfl), ?_⟩
      by_cases hid : id = id'
      · subst hid
        simp only [ProvidersCommand.apply, Providers.updateAuthorization,
          Providers.updateConnection, Function.update_self] at hhash
        exact hhash
      · simp only [ProvidersCommand.apply, Providers.updateAuthorization,
          Providers.updateConnection, Function.update_of_ne hid] at hhash
        exact hhash

/-- A state that is used up is not waited for. -/
theorem not_awaits_consumeState :
    ¬ ((ProvidersCommand.consumeState id hash).apply s).Awaits id hash := by
  rw [ProvidersCommand.apply]
  split
  · rintro ⟨-, h⟩
    simp [Providers.updateAuthorization] at h
  · next h => exact h

end Awaits

/-! ## Who sends off and who comes back -/

/-- The call sends a manager off with a state of this hash. -/
def ProvidersCall.SendsOff (stateHash : String → String) (hash : String) : ProvidersCall → Prop
  | .createSquareAuthorization _ state _ _ _ => stateHash state = hash
  | _ => False

/-- The call comes back with a state of this hash. -/
def ProvidersCall.ComesBack (stateHash : String → String) (hash : String) : ProvidersCall → Prop
  | .completeSquareAuthorization _ input _ => (present input.state).map stateHash = some hash
  | _ => False

/-- The answer from Square is written: the error, or the connection. -/
def ProvidersCommand.IsAnswer : ProvidersCommand → Prop
  | .refused .. | .connected .. => True
  | _ => False

section Programs

variable {gcm : Gcm} {stateHash : String → String} {l : List Providers} {k : ProvidersCommand}

theorem reaches_createSquareAuthorization {config : Option ProviderConfig} {state : String}
    {venueId : VenueId} {asked : Option String} {now : Time}
    (h : (createSquareAuthorization config stateHash state venueId asked now).Reaches l
      (.commits k)) : l = [] ∧ ∃ environment, k = .authorize ⟨venueId, SquareClient.provider⟩
        environment asked (stateHash state) (now + stateLifetime) := by
  obtain ⟨config, -, h⟩ := reaches_orThrow_bind.mp h
  obtain ⟨hl, hk⟩ | ⟨u, rest, -, h⟩ := reaches_put_bind.mp h
  · cases hk
    exact ⟨hl, config.environment, rfl⟩
  · cases reaches_pure.mp h

theorem only_connect {square : SquareOAuth} {connection : ProviderConnection}
    {ids : List (String × String)} {code : String} :
    (square.connect gcm connection ids code).Only ProvidersCommand.IsAnswer := by
  refine Prog.only_orThrow_bind.mpr fun config _ => ?_
  refine Prog.Only.bind (Prog.only_ofExcept _) fun exchanged => ?_
  refine Prog.Only.bind (Prog.only_ofExcept _) fun stored => ?_
  exact Prog.only_put_bind.mpr ⟨trivial, fun _ => trivial⟩

/-- Who writes an answer has used up the state it came back with, and the connection still waited
for it then. -/
theorem reaches_completeSquareAuthorization {square : SquareOAuth} {input : SquareCallback}
    {now : Time}
    (h : (completeSquareAuthorization gcm stateHash square input now).Reaches l (.commits k)) :
    ∃ state id, present input.state = some state ∧
      ((∃ u, l = [u] ∧ k = .consumeState id (stateHash state)) ∨
        ∃ u v rest, l = u :: v :: rest ∧ v.Awaits id (stateHash state) ∧
          (completeSquareAuthorization gcm stateHash square input now).Reaches [u]
            (.commits (.consumeState id (stateHash state))) ∧ k.IsAnswer) := by
  obtain ⟨state, hstate, h⟩ := reaches_orThrow_bind.mp h
  obtain ⟨u, rest, rfl, h⟩ := reaches_get_bind.mp h
  obtain ⟨⟨connection, ids⟩, hfound, h⟩ := reaches_orThrow_bind.mp h
  refine ⟨state, connection.id, hstate, ?_⟩
  obtain ⟨rfl, hk⟩ | ⟨v, rest, rfl, h⟩ := reaches_putGet_bind.mp h
  · cases hk
    exact .inl ⟨u, rfl, rfl⟩
  · obtain ⟨hwaits, h⟩ := reaches_require_bind.mp h
    refine .inr ⟨u, v, rest, rfl, of_decide_eq_true hwaits, ?_, ?_⟩
    · refine reaches_orThrow_bind.mpr ⟨state, hstate, reaches_get_bind.mpr ⟨u, [], rfl, ?_⟩⟩
      refine reaches_orThrow_bind.mpr ⟨(connection, ids), hfound, ?_⟩
      exact reaches_putGet_bind.mpr (.inl ⟨rfl, rfl⟩)
    · split at h
      · obtain ⟨-, hk⟩ | ⟨w, rest, -, h⟩ := reaches_put_bind.mp h
        · cases hk
          trivial
        · exact (reaches_throw.mp h).elim
      · obtain ⟨code, -, h⟩ := reaches_orThrow_bind.mp h
        exact only_connect.reaches h

end Programs

/-! ## In a run -/

section Runs

variable {gcm : Gcm} {stateHash : String → String} {requests : Set ProvidersCall} {s : Providers}
  {ms : List (Move requests (Platform → Platform))} {n : Nat} {hash : String}

/-- A manager is sent off by a call that does nothing else. -/
theorem sendsOff_of_thread {id : ProviderConnectionId} {environment : SquareEnvironment}
    {asked : Option String} {expiresAt : Time} {next : Providers → ProvidersAction Unit}
    (h : ((providers gcm stateHash requests).runFrom s ms).threads[n]? =
      some (.commit (.authorize id environment asked hash expiresAt) next)) :
    ∃ call : requests, (calls ms)[n]? = some call ∧ call.val.SendsOff stateHash hash ∧
      (providers gcm stateHash requests).seenBy s ms n = [] := by
  obtain ⟨⟨call, hcall⟩, hi, hreaches⟩ := System.reaches_of_thread h
  refine ⟨_, hi, ?_⟩
  cases call with
  | createSquareAuthorization config state venueId locationId now =>
      obtain ⟨k, hk, hreaches⟩ | ⟨l₁, l₂, a, -, -, hpure⟩ := reaches_bind hreaches
      · cases hk
        obtain ⟨hl, environment, hk⟩ := reaches_createSquareAuthorization hreaches
        cases hk
        exact ⟨rfl, hl⟩
      · cases reaches_pure.mp hpure
  | completeSquareAuthorization square input now =>
      obtain ⟨k, hk, hreaches⟩ | ⟨l₁, l₂, a, -, -, hpure⟩ := reaches_bind hreaches
      · cases hk
        obtain ⟨state, id', -, ⟨u, -, hk⟩ | ⟨u, v, rest, -, -, -, hanswer⟩⟩ :=
          reaches_completeSquareAuthorization hreaches
        · cases hk
        · exact hanswer.elim
      · cases reaches_pure.mp hpure
  | sync square venueId now =>
      have honly : (ProvidersCall.prog gcm stateHash (.sync square venueId now)).Only fun k =>
          ∃ c, k = .backend c :=
        Prog.Only.bind (Prog.Only.lift ((Prog.only_true _).imp fun c _ => ⟨c, rfl⟩))
          fun _ => trivial
      obtain ⟨c, hk⟩ := honly.reaches hreaches
      cases hk

/-- A connection waits for a state in the second part of a run when it did before, or when a
manager is sent off with it in that part. -/
theorem sentOff_between {id : ProviderConnectionId}
    {ms' : List (Move requests (Platform → Platform))}
    (h : ((providers gcm stateHash requests).runFrom s (ms ++ ms')).store.Awaits id hash) :
    ((providers gcm stateHash requests).runFrom s ms).store.Awaits id hash ∨
      ∃ as n bs, ms' = as ++ .step n :: bs ∧ ∃ environment asked expiresAt next,
        ((providers gcm stateHash requests).runFrom s (ms ++ as)).threads[n]? =
          some (.commit (.authorize id environment asked hash expiresAt) next) := by
  obtain hbefore | ⟨as, n, bs, k, next, hms, hn, hnot, hafter⟩ :=
    System.brought_about (H := fun t : Providers => t.Awaits id hash) (fun _ _ h => h) h
  · exact .inl hbefore
  · obtain hbefore | ⟨environment, asked, expiresAt, rfl⟩ := Providers.Awaits.of_apply hafter
    · exact absurd hbefore hnot
    · exact .inr ⟨as, n, bs, hms, environment, asked, expiresAt, next, hn⟩

/-- No two calls of the run send a manager off with states of this hash. -/
def SentOffOnce (stateHash : String → String) (hash : String)
    (ms : List (Move requests (Platform → Platform))) : Prop :=
  ∀ (n n' : Nat) (call call' : requests), (calls ms)[n]? = some call →
    (calls ms)[n']? = some call' → call.val.SendsOff stateHash hash →
      call'.val.SendsOff stateHash hash → n = n'

theorem calls_earlier {ms' : List (Move requests (Platform → Platform))} {call : requests}
    (h : (calls ms)[n]? = some call) : (calls (ms ++ ms'))[n]? = some call := by
  obtain ⟨hlt, -⟩ := List.getElem?_eq_some_iff.mp h
  rwa [calls_append, List.getElem?_append_left hlt]

theorem SentOffOnce.earlier {ms₁ ms₂ : List (Move requests (Platform → Platform))}
    (h : SentOffOnce stateHash hash ms) (hms : ms = ms₁ ++ ms₂) :
    SentOffOnce stateHash hash ms₁ := by
  subst hms
  intro n n' call call' hcall hcall'
  exact h n n' call call' (calls_earlier hcall) (calls_earlier hcall')

variable {n' : Nat} {p q p' q' : List (Move requests (Platform → Platform))}
  {id id' : ProviderConnectionId} {environment environment' : SquareEnvironment}
  {asked asked' : Option String} {expiresAt expiresAt' : Time}
  {next next' : Providers → ProvidersAction Unit}

/-- Nobody is sent off after somebody has been. -/
theorem not_sentOff_after (hone : SentOffOnce stateHash hash (p ++ .step n :: q))
    (hn : ((providers gcm stateHash requests).runFrom s p).threads[n]? =
      some (.commit (.authorize id environment asked hash expiresAt) next))
    (hn' : ((providers gcm stateHash requests).runFrom s (p ++ .step n :: q)).threads[n']? =
      some (.commit (.authorize id' environment' asked' hash expiresAt') next')) : False := by
  obtain ⟨call, hcall, hsends, -⟩ := sendsOff_of_thread hn
  obtain ⟨call', hcall', hsends', hseen⟩ := sendsOff_of_thread hn'
  obtain rfl := hone n n' call call' (calls_earlier hcall) hcall' hsends hsends'
  -- the call has taken its only step
  have hlt := (List.getElem?_eq_some_iff.mp hn).1
  obtain ⟨l, hl⟩ := System.seenBy_step hlt q
  rw [hl] at hseen
  simp at hseen

/-- Of two commits of a run that send a manager off, one is the other. -/
theorem sentOff_unique (hone : SentOffOnce stateHash hash ms)
    (hms : ms = p ++ .step n :: q) (hms' : ms = p' ++ .step n' :: q')
    (hn : ((providers gcm stateHash requests).runFrom s p).threads[n]? =
      some (.commit (.authorize id environment asked hash expiresAt) next))
    (hn' : ((providers gcm stateHash requests).runFrom s p').threads[n']? =
      some (.commit (.authorize id' environment' asked' hash expiresAt') next')) : id = id' := by
  obtain ⟨cs, hp, hcs⟩ | ⟨cs, hp, hcs⟩ := List.append_eq_append_iff.mp (hms.symm.trans hms')
  · cases cs with
    | nil =>
        rw [List.append_nil] at hp
        subst hp
        cases (List.cons.inj hcs).1
        cases hn.symm.trans hn'
        rfl
    | cons m cs =>
        cases (List.cons.inj hcs).1
        subst hp
        exact (not_sentOff_after (hone.earlier hms') hn hn').elim
  · cases cs with
    | nil =>
        rw [List.append_nil] at hp
        subst hp
        cases (List.cons.inj hcs).1
        cases hn.symm.trans hn'
        rfl
    | cons m cs =>
        cases (List.cons.inj hcs).1
        subst hp
        exact (not_sentOff_after (hone.earlier hms) hn' hn).elim

/-- After a state has been used up no connection waits for it. -/
theorem not_awaits_after (hstart : ∀ id, ¬ s.Awaits id hash)
    (hone : SentOffOnce stateHash hash (p ++ .step n :: q))
    (hn : ((providers gcm stateHash requests).runFrom s p).threads[n]? =
      some (.commit (.consumeState id hash) next))
    (hwaits : ((providers gcm stateHash requests).runFrom s p).store.Awaits id hash) :
    ¬ ((providers gcm stateHash requests).runFrom s (p ++ .step n :: q)).store.Awaits
      id' hash := by
  have hafter := System.runFrom_commit hn
  -- the connection waits because somebody was sent off before
  have hsent {id : ProviderConnectionId}
      (h : ((providers gcm stateHash requests).runFrom s p).store.Awaits id hash) :=
    (@sentOff_between _ _ _ _ [] _ _ _ h).resolve_left (hstart id)
  obtain ⟨p₁, n₁, q₁, hp₁, environment, asked, expiresAt, next₁, hn₁⟩ := hsent hwaits
  intro h
  have hsplit : p ++ .step n :: q = (p ++ [.step n]) ++ q := by simp
  rw [hsplit] at h
  obtain hnow | ⟨p₂, n₂, q₂, hp₂, environment', asked', expiresAt', next₂, hn₂⟩ :=
    sentOff_between h
  · -- it is the same connection, and it waits no longer
    rw [hafter] at hnow
    obtain hbefore | ⟨environment', asked', expiresAt', hk⟩ := Providers.Awaits.of_apply hnow
    · obtain ⟨p₂, n₂, q₂, hp₂, environment', asked', expiresAt', next₂, hn₂⟩ := hsent hbefore
      obtain rfl := sentOff_unique (hone.earlier rfl) hp₁ hp₂ hn₁ hn₂
      exact not_awaits_consumeState hnow
    · cases hk
  · -- nobody is sent off once more
    have hrun : (p ++ [.step n]) ++ p₂ = p₁ ++ .step n₁ :: (q₁ ++ .step n :: p₂) := by
      rw [hp₁]
      simp
    have hrest : p ++ .step n :: q =
        (p₁ ++ .step n₁ :: (q₁ ++ .step n :: p₂)) ++ .step n₂ :: q₂ := by
      rw [← hrun, hp₂]
      simp
    rw [hrun] at hn₂
    exact not_sentOff_after (hone.earlier hrest) hn₁ hn₂

/-- Who writes an answer has used up the state before, for which a connection still waited. -/
theorem consumed_of_answer {k : ProvidersCommand} {t : Providers} {call : requests}
    (h : (providers gcm stateHash requests).Made ms s n k t) (hk : k.IsAnswer)
    (hcall : (calls ms)[n]? = some call) (hback : call.val.ComesBack stateHash hash) :
    ∃ id p q next, ms = p ++ .step n :: q ∧
      ((providers gcm stateHash requests).runFrom s p).threads[n]? =
        some (.commit (.consumeState id hash) next) ∧
      ((providers gcm stateHash requests).runFrom s p).store.Awaits id hash := by
  obtain ⟨ms₁, ms₂, next, rfl, hn, -⟩ := h
  obtain ⟨i, hi, hreaches⟩ := System.reaches_of_thread hn
  cases hcall.symm.trans (calls_earlier hi)
  obtain ⟨call, hmem⟩ := call
  cases call with
  | createSquareAuthorization => exact hback.elim
  | sync => exact hback.elim
  | completeSquareAuthorization square input now =>
      obtain ⟨k, hk', hreaches⟩ | ⟨l₁, l₂, a, -, -, hpure⟩ := reaches_bind hreaches
      · cases hk'
        obtain ⟨state, id, hstate, ⟨u, -, rfl⟩ | ⟨u, v, rest, hl, hwaits, hconsume, -⟩⟩ :=
          reaches_completeSquareAuthorization hreaches
        · exact hk.elim
        · obtain rfl : stateHash state = hash := by
            have hhash : (present input.state).map stateHash = some hash := hback
            rw [hstate] at hhash
            exact Option.some.inj hhash
          have hsplit : (providers gcm stateHash requests).seenBy s ms₁ n = [u] ++ v :: rest := hl
          obtain ⟨p, q, rfl, rfl, hseen, hlt⟩ := System.seenBy_split hsplit
          have hip : (calls p)[n]? = some ⟨_, hmem⟩ := by
            have hin : n < (calls p).length := System.length_runFrom s p ▸ hlt
            rwa [calls_append, List.getElem?_append_left hin] at hi
          obtain ⟨next', hnext⟩ := System.thread_of_reaches hlt hip
            (hseen ▸ Prog.reaches_bind_commits hconsume _)
          exact ⟨id, p, q ++ .step n :: ms₂, next', by simp, hnext, hwaits⟩
      · cases reaches_pure.mp hpure

/-- **A state is answered once.**  Where managers are not sent off twice with states of one hash,
of all calls that come back with a state of this hash one at most writes an answer, whatever the
order of their steps. -/
theorem state_answered_once (hstart : ∀ id, ¬ s.Awaits id hash)
    (hone : SentOffOnce stateHash hash ms) {k k' : ProvidersCommand} {t t' : Providers}
    {call call' : requests} (h : (providers gcm stateHash requests).Made ms s n k t)
    (h' : (providers gcm stateHash requests).Made ms s n' k' t') (hk : k.IsAnswer)
    (hk' : k'.IsAnswer) (hcall : (calls ms)[n]? = some call)
    (hcall' : (calls ms)[n']? = some call') (hback : call.val.ComesBack stateHash hash)
    (hback' : call'.val.ComesBack stateHash hash) : n = n' := by
  obtain ⟨id, p, q, next, hms, hn, hwaits⟩ := consumed_of_answer h hk hcall hback
  obtain ⟨id', p', q', next', hms', hn', hwaits'⟩ := consumed_of_answer h' hk' hcall' hback'
  obtain ⟨cs, hp, hcs⟩ | ⟨cs, hp, hcs⟩ := List.append_eq_append_iff.mp (hms.symm.trans hms')
  · cases cs with
    | nil =>
        cases (List.cons.inj hcs).1
        rfl
    | cons m cs =>
        cases (List.cons.inj hcs).1
        subst hp
        exact absurd hwaits' (not_awaits_after hstart (hone.earlier hms') hn hwaits)
  · cases cs with
    | nil =>
        cases (List.cons.inj hcs).1
        rfl
    | cons m cs =>
        cases (List.cons.inj hcs).1
        subst hp
        exact absurd hwaits (not_awaits_after hstart (hone.earlier hms) hn' hwaits')

end Runs

/-! ### Two calls come back with one state -/

/-- The call writes its answer next. -/
def answering : ProvidersAction Unit → Bool
  | .commit (.refused ..) _ | .commit (.connected ..) _ => true
  | _ => false

theorem commit_of_answering {p : ProvidersAction Unit} (h : answering p = true) :
    ∃ k next, p = .commit k next ∧ k.IsAnswer := by
  unfold answering at h
  split at h
  · exact ⟨_, _, rfl, trivial⟩
  · exact ⟨_, _, rfl, trivial⟩
  · cases h

namespace Scenario

/-- Both have found the connection when the second uses the state up. -/
def comesBackTwice : List (Move connecting (Platform → Platform)) :=
  [.call connectingSendOff, .step 0, .call connectingComeBack, .call connectingComeBack,
    .step 1, .step 2, .step 2, .step 1]

theorem sentOffOnce_comesBackTwice :
    SentOffOnce oauthStateHash (oauthStateHash oauthState) (comesBackTwice ++ [.step 2]) := by
  have hfirst {n : Nat} {call : connecting}
      (h : (calls (comesBackTwice ++ [.step 2]))[n]? = some call)
      (hsends : call.val.SendsOff oauthStateHash (oauthStateHash oauthState)) : n = 0 := by
    rcases n with _ | _ | _ | n
    · rfl
    · cases h
      exact hsends.elim
    · cases h
      exact hsends.elim
    · cases h
  intro n n' call call' hcall hcall' hsends hsends'
  rw [hfirst hcall hsends, hfirst hcall' hsends']

end Scenario

open Scenario

theorem state_answered_once_of_two :
    ∃ n k t, (providers TokenSample.gcm oauthStateHash connecting).Made
        (comesBackTwice ++ [.step 2]) unconnected n k t ∧ k.IsAnswer ∧
      (calls (comesBackTwice ++ [.step 2]))[n]? = some connectingComeBack ∧
      ∀ n' k' t', (providers TokenSample.gcm oauthStateHash connecting).Made
          (comesBackTwice ++ [.step 2]) unconnected n' k' t' → k'.IsAnswer →
        (calls (comesBackTwice ++ [.step 2]))[n']? = some connectingComeBack → n' = n := by
  have hanswering : (((providers TokenSample.gcm oauthStateHash connecting).runFrom unconnected
      comesBackTwice).threads[2]?).map answering = some true := by decide +kernel
  obtain ⟨p, hp, hanswers⟩ := Option.map_eq_some_iff.mp hanswering
  obtain ⟨k, next, rfl, hk⟩ := commit_of_answering hanswers
  have hmade : (providers TokenSample.gcm oauthStateHash connecting).Made
      (comesBackTwice ++ [.step 2]) unconnected 2 k
        ((providers TokenSample.gcm oauthStateHash connecting).runFrom unconnected
          comesBackTwice).store := ⟨comesBackTwice, [], next, rfl, hp, rfl⟩
  refine ⟨2, k, _, hmade, hk, rfl, fun n' k' t' hmade' hk' hcall => ?_⟩
  exact state_answered_once (fun id h => by cases h.1) sentOffOnce_comesBackTwice hmade' hmade hk'
    hk hcall rfl rfl rfl

end ServeProof
