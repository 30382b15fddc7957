import ServeProof.Interleave.Reaches
import ServeProof.Knowledge.Reports
import ServeProof.Scenario.Disclosed

/-!
# ServeProof.Gate

What stands behind a snapshot that a verification link discloses.

Two things are traced back to the calls that brought them about: a report to the
`issueReport` that created it (`Issued`), a session to the `verifyRecipientOtp`
that minted it (`Minted`).  `reaches_verifyByToken` says what the caller of a
link has read when the snapshot goes out.
-/

namespace ServeProof

open Interleave
open Prog (reaches_bind reaches_get_bind reaches_put_bind reaches_putGet_bind reaches_require_bind
  reaches_orThrow_bind reaches_ite reaches_pure reaches_get reaches_put reaches_read_bind)

/-! ## What a recipient call has read -/

section Reads

variable {l : List Platform}

theorem reaches_grantByToken_bind {α : Type} {rawToken : String} {f : GrantView → Action α}
    {o : Outcome Command α} : (grantByToken rawToken >>= f).Reaches l o ↔
      ∃ s l' v, l = s :: l' ∧ s.findGrant rawToken = some v ∧ (f v).Reaches l' o := by
  change (Prog.get _ >>= fun found => Prog.orThrow found _ >>= f).Reaches l o ↔ _
  simp only [reaches_get_bind, reaches_orThrow_bind]
  constructor
  · rintro ⟨s, l', rfl, v, hv, h⟩
    exact ⟨s, l', v, rfl, hv, h⟩
  · rintro ⟨s, l', v, rfl, hv, h⟩
    exact ⟨s, l', rfl, v, hv, h⟩

theorem reaches_admitted {v : GrantView} {accessSession : Option String}
    (h : (admitted v accessSession).Reaches l (.returns true)) :
    v.grant.accessMode ≠ .recipientOtp ∨ ∃ s accessToken, s ∈ l ∧
      accessSession = some accessToken ∧
        (s.access.get s.clock (.session v.grant.id ⟨accessToken⟩)).isSome := by
  unfold admitted sessionValid at h
  obtain ⟨hmode, h⟩ | ⟨hmode, -⟩ := reaches_ite.mp h
  · refine .inr ?_
    split at h
    · cases reaches_pure.mp h
    · next accessToken hsession =>
      obtain ⟨s, l', rfl, hs⟩ := reaches_get.mp h
      exact ⟨s, accessToken, List.mem_cons_self, (Option.filter_eq_some_iff.mp hsession).1,
        (Outcome.returns.inj hs).symm⟩
  · exact .inl hmode

/-- What the caller of a link has read when a snapshot goes out: the grant, the
time after that, and the session after that. -/
theorem reaches_verifyByToken {rawToken : String} {ip userAgent accessSession : Option String}
    {base : VerificationBase} {snapshot : Option Snapshot}
    (h : (Request.disclosureProg (.verifyByToken rawToken ip userAgent accessSession)).Reaches l
      (.commits (.answer (.disclosed base snapshot)))) :
    ∃ s₁ s₂ l' v, l = s₁ :: s₂ :: l' ∧ s₁.findGrant rawToken = some v ∧
      reportStatus v s₂.clock = .valid ∧ snapshot = v.report.map VerificationReport.snapshot ∧
      (v.grant.accessMode = .recipientOtp → ∃ s₃ accessToken, s₃ ∈ l ∧
        accessSession = some accessToken ∧
          (s₃.access.get s₃.clock (.session v.grant.id ⟨accessToken⟩)).isSome) := by
  obtain ⟨_, hc, h⟩ | ⟨l₁, l₂, response, rfl, hverify, hput⟩ := reaches_bind h
  · cases hc
    obtain ⟨row, hrow⟩ := (only_verifyByToken rawToken ip userAgent accessSession).reaches h
    cases hrow
  · obtain ⟨-, hresponse⟩ | ⟨-, hnone⟩ := reaches_put.mp hput
    · cases hresponse
      obtain ⟨s₁, l', v, rfl, hv, h⟩ := reaches_grantByToken_bind.mp hverify
      obtain ⟨s₂, l'', rfl, h⟩ := reaches_get_bind.mp h
      obtain ⟨-, h⟩ | ⟨hvalid, h⟩ := reaches_ite.mp h
      · cases reaches_pure.mp h
      · obtain ⟨_, hc, -⟩ | ⟨l₃, l₄, allowed, rfl, hadmitted, h⟩ := reaches_bind h
        · cases hc
        · obtain ⟨-, h⟩ | ⟨hallowed, h⟩ := reaches_ite.mp h
          · cases reaches_pure.mp h
          · obtain ⟨-, hc⟩ | ⟨_, l₅, rfl, hdone⟩ := reaches_put_bind.mp h
            · cases hc
            · cases reaches_pure.mp hdone
              refine ⟨s₁, s₂, _, v, rfl, hv, not_not.mp hvalid, rfl, fun hmode => ?_⟩
              have htrue : allowed = true := by simpa using hallowed
              obtain hlink | ⟨s₃, accessToken, hs₃, hpresented⟩ :=
                reaches_admitted (htrue ▸ hadmitted)
              · exact absurd hmode hlink
              · refine ⟨s₃, accessToken, ?_, hpresented⟩
                simp [hs₃]
    · cases hnone

theorem sessionSeconds_le (expiresAt now : Date) :
    sessionSeconds expiresAt now ≤ sessionTtlSeconds := by
  simp only [sessionSeconds, sessionTtlSeconds]
  omega

/-- A session is minted for the grant of the link, with the code that was sent,
for a quarter of an hour at most. -/
theorem reaches_verifyRecipientOtp {rawToken code accessToken : String} {k : RedisCommand}
    (h : (Request.disclosureProg (.verifyRecipientOtp rawToken code accessToken)).Reaches l
      (.commits (.redis k))) {g : GrantId} {token : Sha256}
    (hk : k.key = some (.session g token)) :
    token = ⟨accessToken⟩ ∧ (∃ s ∈ l, ∃ v, s.findGrant rawToken = some v ∧ v.grant.id = g) ∧
      (∃ s ∈ l, s.access.get s.clock (.otp g) = some (.hash ⟨code⟩)) ∧
      ∃ ttl, ttl ≤ sessionTtlSeconds ∧ k = .set (.session g token) .flag ttl := by
  obtain ⟨_, hc, h⟩ | ⟨_, _, _, -, -, hnone⟩ := reaches_bind h
  · cases hc
    obtain ⟨s, l', v, rfl, hv, hassert⟩ := reaches_grantByToken_bind.mp h
    obtain ⟨l₁, l₂, _, rfl, -, hget⟩ :=
      reaches_read_bind (only_assertRecipientAccessAvailable v) hassert
    obtain ⟨u, l₃, rfl, hstored⟩ := reaches_get_bind.mp hget
    obtain ⟨stored, hfound, hattempts⟩ := reaches_orThrow_bind.mp hstored
    obtain ⟨-, hc⟩ | ⟨_, l₄, rfl, hcount⟩ := reaches_putGet_bind.mp hattempts
    · cases hc
      cases hk
    obtain ⟨-, hmany⟩ | ⟨-, hcode⟩ := reaches_ite.mp hcount
    · obtain ⟨-, hc⟩ | ⟨_, _, rfl, hthrow⟩ := reaches_put_bind.mp hmany
      · cases hc
        cases hk
      · exact hthrow.elim
    obtain ⟨hright, hdel⟩ := reaches_require_bind.mp hcode
    obtain ⟨-, hc⟩ | ⟨_, l₅, rfl, hnow⟩ := reaches_put_bind.mp hdel
    · cases hc
      cases hk
    obtain ⟨t, l₆, rfl, hmint⟩ := reaches_get_bind.mp hnow
    obtain ⟨-, hc⟩ | ⟨_, l₇, rfl, hdone⟩ := reaches_put_bind.mp hmint
    · cases hc
      cases hk
      refine ⟨rfl, ⟨s, by simp, v, hv, rfl⟩, ⟨u, by simp, hright ▸ hfound⟩, _, ?_, rfl⟩
      exact sessionSeconds_le v.grant.expiresAt t.clock
    · cases reaches_pure.mp hdone
  · cases hnone

end Reads

/-! ## Where a report comes from -/

section Runs

variable [Collation] {s : Platform} {ms : List (Move Request PlatformMove)}

/-- The report `r` is issued in the run: a call of `issueReport` takes a step
after which it is there, with the snapshot it has now. -/
def Issued (s : Platform) (ms : List (Move Request PlatformMove)) (r : VerificationReport) :
    Prop :=
  ∃ ms₁ m ms₂ user grant renderError, ms = ms₁ ++ .step m :: ms₂ ∧
    (calls ms₁)[m]? = some (.disclosure (.issueReport user grant renderError)) ∧
    (platform.runFrom s ms₁).store.disclosures.reports.find r.id = none ∧
    ∃ issued, (platform.runFrom s (ms₁ ++ [.step m])).store.disclosures.reports.find r.id =
      some issued ∧ issued.status = .issued ∧ issued.disclosureGrantId = r.disclosureGrantId ∧
        issued.snapshot = r.snapshot

/-- A report goes back to a creation, and is no draft. -/
def ReportsFrom (Q : Nat → Command → Platform → Prop) (s : Platform) : Prop :=
  ∀ r ∈ s.disclosures.reports.rows, r.status ≠ .draft ∧
    ∃ n row u, Q n (.disclose (.createReport row)) u ∧
      (DisclosureWrite.createReport row).Applies u.disclosures ∧
      (row.row u.clock u.disclosures.nextReportId).Became r

omit [Collation] in
theorem reportsFrom_commit {Q : Nat → Command → Platform → Prop} {t : Platform} (n : Nat)
    (c : Command) (h : ReportsFrom Q t) (hQ : Q n c t) : ReportsFrom Q (c.apply t) := by
  intro r' hr'
  obtain hsame | ⟨k, hk, hc⟩ := c.disclosures_apply t
  · exact h r' (hsame ▸ hr')
  · rw [hk] at hr'
    obtain ⟨r, hr, hb, -⟩ | ⟨row, rfl, happlies, rfl⟩ := DisclosureWrite.report_of_apply hr'
    · obtain ⟨hdraft, n', row, u, hQ', happlies, hfrom⟩ := h r hr
      exact ⟨hb.not_draft hdraft, n', row, u, hQ', happlies, hfrom.trans hb⟩
    · obtain rfl | ⟨workerId, hflip⟩ := hc
      · exact ⟨nofun, n, row, t, hQ, happlies, .refl _⟩
      · cases hflip

/-- A report that is created is issued then. -/
theorem issued_of_made {r : VerificationReport} {n : Nat} {row : NewReport} {u : Platform}
    (h : platform.Made ms s n (.disclose (.createReport row)) u)
    (happlies : (DisclosureWrite.createReport row).Applies u.disclosures)
    (hr : (row.row u.clock u.disclosures.nextReportId).Became r) : Issued s ms r := by
  obtain ⟨ms₁, ms₂, next, rfl, hn, rfl⟩ := h
  obtain ⟨i, hi, hreaches⟩ := System.reaches_of_thread hn
  obtain ⟨user, grant, renderError, rfl⟩ :=
    ((only_prog n i).reaches hreaches).writesReport (.create row)
  have hfresh : (platform.runFrom s ms₁).store.disclosures.reports.find r.id = none := by
    rw [Table.find_eq_none_iff, hr.id]
    exact fun x hx => Nat.ne_of_lt ((platform.runFrom s ms₁).store.disclosures.freshReport x hx)
  refine ⟨ms₁, n, ms₂, user, grant, renderError, rfl, hi, hfresh, _, ?_, rfl,
    hr.disclosureGrantId.symm, hr.snapshot.symm⟩
  rw [System.runFrom_commit hn, Table.find_eq_some_iff]
  refine ⟨?_, hr.id.symm⟩
  have hrows := @DisclosureWrite.rows_createReport (platform.runFrom s ms₁).store.clock _ _ happlies
  exact hrows ▸ List.mem_append_right _ (List.mem_singleton.mpr rfl)

theorem issued_of_report {w : World} {clock : Date} {key : String}
    (hs : s = Platform.fresh w clock key) {r : VerificationReport}
    (hr : r ∈ (platform.runFrom s ms).store.disclosures.reports.rows) :
    r.status ≠ .draft ∧ Issued s ms r := by
  have hfrom : ReportsFrom (fun n k t => platform.Made ms s n k t)
      (platform.runFrom s ms).store := by
    refine System.made_of (P := ReportsFrom) ?_ ?_ ?_ ?_ ms
    · subst hs
      exact fun _ h => absurd h List.not_mem_nil
    · intro Q Q' t hQ h r hr
      obtain ⟨hdraft, n, row, u, hq, hrest⟩ := h r hr
      exact ⟨hdraft, n, row, u, hQ _ _ _ hq, hrest⟩
    · intro Q t e h
      cases e <;> exact h
    · exact fun n k h hQ => reportsFrom_commit n k h hQ
  obtain ⟨hdraft, n, row, u, hmade, happlies, hb⟩ := hfrom r hr
  exact ⟨hdraft, issued_of_made hmade happlies hb⟩

/-! ## Where a session comes from -/

/-- After `ms` the call `m` mints the session of `accessToken` for the grant: it
has found the grant under its link, and its code is the one that was sent. -/
structure Mints (s : Platform) (ms : List (Move Request PlatformMove)) (m : Nat) (g : GrantId)
    (accessToken : String) : Prop where
  call : ∃ rawToken code,
    (calls ms)[m]? = some (.disclosure (.verifyRecipientOtp rawToken code accessToken)) ∧
    (∃ u ∈ platform.seenBy s ms m, ∃ v, u.findGrant rawToken = some v ∧ v.grant.id = g) ∧
    ∃ u ∈ platform.seenBy s ms m, u.access.get u.clock (.otp g) = some (.hash ⟨code⟩)
  commit : ∃ ttl next, (platform.runFrom s ms).threads[m]? =
    some (.commit (.redis (.set (.session g ⟨accessToken⟩) .flag ttl)) next)

/-- A session goes back to a command that gave its key a value. -/
def SessionsFrom (Q : Nat → Command → Platform → Prop) (s : Platform) : Prop :=
  ∀ g token e, s.access.find (.session g token) = some e →
    ∃ n k u, Q n (.redis k) u ∧ k.key = some (.session g token) ∧
      ∀ value ttl, k = .set (.session g token) value ttl →
        e.expiresAt = some (AccessStore.after u.clock ttl)

omit [Collation] in
theorem sessionsFrom_commit {Q : Nat → Command → Platform → Prop} {t : Platform} (n : Nat)
    (c : Command) (h : SessionsFrom Q t) (hQ : Q n c t) : SessionsFrom Q (c.apply t) := by
  intro g token e he
  cases c with
  | settle | books | disclose | correct | answer => exact h g token e he
  | lockVenue session v =>
      simp only [Command.apply] at he
      split at he <;> exact h g token e he
  | unlockVenue session v =>
      simp only [Command.apply] at he
      split at he <;> exact h g token e he
  | redis k =>
      by_cases hk : k.key = some (.session g token)
      · refine ⟨n, k, t, hQ, hk, fun value ttl hset => ?_⟩
        subst hset
        have hentry : (AccessStore.apply t.access t.clock
            (.set (.session g token) value ttl)).find (.session g token) = some e := he
        rw [AccessStore.apply, Table.find_set, if_pos rfl] at hentry
        cases hentry
        rfl
      · exact h g token e (AccessStore.find_of_apply hk he)

omit [Collation] in
theorem Request.Makes.mints {r : Request} {k : RedisCommand} (h : r.Makes (.redis k)) {g : GrantId}
    {token : Sha256} (hk : k.key = some (.session g token)) :
    ∃ rawToken code accessToken,
      r = .disclosure (.verifyRecipientOtp rawToken code accessToken) := by
  cases r with
  | service call => exact h.elim
  | income r => exact absurd trivial h.not_discloses
  | disclosure r =>
      cases r with
      | verifyRecipientOtp rawToken code accessToken => exact ⟨rawToken, code, accessToken, rfl⟩
      | requestRecipientOtp rawToken code mailError =>
          obtain ⟨k', hk', hne⟩ := h
          cases hk'
          exact absurd hk (hne g token)
      | _ => simp [Makes] at h

/-- A session that is alive was minted a quarter of an hour ago at most. -/
theorem minted_of_session {w : World} {clock : Date} {key : String}
    (hs : s = Platform.fresh w clock key) {g : GrantId} {accessToken : String}
    (h : ((platform.runFrom s ms).store.access.get (platform.runFrom s ms).store.clock
      (.session g ⟨accessToken⟩)).isSome) :
    ∃ ms₁ m ms₂, ms = ms₁ ++ .step m :: ms₂ ∧ Mints s ms₁ m g accessToken ∧
      (platform.runFrom s ms).store.clock ≤
        (platform.runFrom s ms₁).store.clock + 15 * 60 * 1000 := by
  have hfrom : SessionsFrom (fun n k t => platform.Made ms s n k t)
      (platform.runFrom s ms).store := by
    refine System.made_of (P := SessionsFrom) ?_ ?_ ?_ ?_ ms
    · subst hs
      intro g token e he
      cases he
    · intro Q Q' t hQ h g token e he
      obtain ⟨n, k, u, hq, hrest⟩ := h g token e he
      exact ⟨n, k, u, hQ _ _ _ hq, hrest⟩
    · intro Q t e h
      cases e <;> exact h
    · exact fun n k h hQ => sessionsFrom_commit n k h hQ
  obtain ⟨e, he, halive⟩ := AccessStore.find_of_get h
  obtain ⟨n, k, u, ⟨ms₁, ms₂, next, rfl, hn, rfl⟩, hk, hset⟩ := hfrom g _ e he
  obtain ⟨i, hi, hreaches⟩ := System.reaches_of_thread hn
  obtain ⟨rawToken, code, accessToken', rfl⟩ := ((only_prog n i).reaches hreaches).mints hk
  obtain ⟨htoken, hgrant, hcode, ttl, httl, rfl⟩ := reaches_verifyRecipientOtp hreaches hk
  cases htoken
  refine ⟨ms₁, n, ms₂, rfl, ⟨⟨rawToken, code, hi, hgrant, hcode⟩, ttl, next, hn⟩, ?_⟩
  have hlimit := halive _ (hset .flag ttl rfl)
  have hquarter : ttl * 1000 ≤ 15 * 60 * 1000 :=
    Int.mul_le_mul_of_nonneg_right httl (by decide)
  exact Int.le_trans hlimit (Int.add_le_add_left hquarter _)

/-! ## What is disclosed -/

omit [Collation] in
theorem Request.Makes.answers {r : Request} {response : VerifyResponse}
    (h : r.Makes (.answer response)) : ∃ rawToken ip userAgent accessSession,
      r = .disclosure (.verifyByToken rawToken ip userAgent accessSession) := by
  cases r with
  | service call => exact h.elim
  | income r => exact absurd trivial h.not_discloses
  | disclosure r => cases r <;> simp [Makes] at h ⊢

omit [Collation] in
theorem Command.clock_apply (c : Command) (s : Platform) : (c.apply s).clock = s.clock := by
  cases c with
  | lockVenue session v => simp only [apply]; split <;> rfl
  | unlockVenue session v => simp only [apply]; split <;> rfl
  | settle | books | disclose | correct | redis | answer => rfl

omit [Collation] in
theorem PlatformMove.clock_apply (e : PlatformMove) (s : Platform) :
    s.clock ≤ (e.apply s).clock := by
  cases e with
  | wait ms => exact Int.le_add_of_nonneg_right (Int.natCast_nonneg ms)
  | world e => exact Int.le_refl s.clock
  | payroll row => exact Int.le_refl s.clock

/-- The snapshot in the response a call is about to send. -/
def disclosing : Action Unit → Option (Option Snapshot)
  | .commit (.answer (.disclosed _ snapshot)) _ => some snapshot
  | _ => none

omit [Collation] in
theorem disclosing_eq_some {p : Action Unit} {snapshot : Option Snapshot}
    (h : disclosing p = some snapshot) :
    ∃ base next, p = .commit (.answer (.disclosed base snapshot)) next := by
  unfold disclosing at h
  split at h
  · exact ⟨_, _, by rw [Option.some.inj h]⟩
  · cases h

/-- What a call sees later is later. -/
theorem clock_seenBy {n : Nat} {s₁ s₂ : Platform} {l : List Platform}
    (h : platform.seenBy s ms n = s₁ :: s₂ :: l) : s₁.clock ≤ s₂.clock := by
  have hpair := (platform.seen_pairwise (R := fun s t => s.clock ≤ t.clock)
    (fun s => Int.le_refl s.clock) (fun _ _ _ h h' => Int.le_trans h h') ?_ ?_ (n := n)
    (number 0 ms) (Config.start s)).1
  · rw [System.seenBy] at h
    rw [h, List.pairwise_cons] at hpair
    exact hpair.1 s₂ List.mem_cons_self
  · exact fun c s => Int.le_of_eq (c.clock_apply s).symm
  · exact PlatformMove.clock_apply

theorem Issued.append {r : VerificationReport} (h : Issued s ms r)
    (ms' : List (Move Request PlatformMove)) : Issued s (ms ++ ms') r := by
  obtain ⟨ms₁, m, ms₂, user, grant, renderError, rfl, h⟩ := h
  exact ⟨ms₁, m, ms₂ ++ ms', user, grant, renderError, by simp, h⟩

/-- **The gate**: when a snapshot goes out, the grant was open when it was read,
and its newest report issued; the snapshot is the one that was stored with that
report; and a recipient has presented a session that was minted for the grant,
a quarter of an hour before at most. -/
theorem disclosed_only_through_the_gate {w : World} {clock : Date} {key : String}
    (hs : s = Platform.fresh w clock key) {n : Nat} {snapshot : Option Snapshot}
    (h : ∃ p ∈ (platform.runFrom s ms).threads[n]?, disclosing p = some snapshot) :
    ∃ rawToken ip userAgent accessSession,
      (calls ms)[n]? =
        some (.disclosure (.verifyByToken rawToken ip userAgent accessSession)) ∧
      ∃ read ∈ (platform.seenBy s ms n).head?, ∃ v r, read.findGrant rawToken = some v ∧
        v.grant.revokedAt = none ∧ read.clock ≤ v.grant.expiresAt ∧
        v.report = some r ∧ r.status = .issued ∧ snapshot = some r.snapshot ∧ Issued s ms r ∧
        (v.grant.accessMode = .recipientOtp → ∃ accessToken, accessSession = some accessToken ∧
          ∃ ms₁ m ms₂ ms₃, ms = ms₁ ++ .step m :: ms₂ ++ .step n :: ms₃ ∧
            Mints s ms₁ m v.grant.id accessToken ∧
            (platform.runFrom s (ms₁ ++ .step m :: ms₂)).store.clock ≤
              (platform.runFrom s ms₁).store.clock + 15 * 60 * 1000) := by
  obtain ⟨p, hp, hdisclosing⟩ := h
  obtain ⟨base, next, rfl⟩ := disclosing_eq_some hdisclosing
  obtain ⟨i, hi, hreaches⟩ := System.reaches_of_thread hp
  obtain ⟨rawToken, ip, userAgent, accessSession, rfl⟩ :=
    ((only_prog n i).reaches hreaches).answers
  obtain ⟨s₁, s₂, l, v, hl, hv, hvalid, hsnapshot, hsession⟩ := reaches_verifyByToken hreaches
  obtain ⟨r, hr, hstatus, hopen, hexpires⟩ := reportStatus_valid hvalid
  have hread : s₁ ∈ platform.seenBy s ms n := by
    rw [hl]
    exact List.mem_cons_self
  obtain ⟨ms₀, ms', rfl, hs₁⟩ := System.mem_seenBy hread
  have hmem := (Platform.report_of_findGrant hv hr).1
  rw [hs₁] at hmem
  obtain ⟨hdraft, hissued⟩ := issued_of_report hs hmem
  refine ⟨rawToken, ip, userAgent, accessSession, hi, s₁, by rw [hl]; rfl, v, r, hv, hopen,
    Int.le_trans (clock_seenBy hl) hexpires, hr, ?_, ?_, hissued.append _, fun hmode => ?_⟩
  · simp_all
  · rw [hsnapshot, hr]
    rfl
  · obtain ⟨s₃, accessToken, hs₃, hpresented, halive⟩ := hsession hmode
    obtain ⟨ms₃, ms₄, hms, rfl⟩ := System.mem_seenBy hs₃
    obtain ⟨ms₁, m, ms₂, rfl, hmints, hquarter⟩ := minted_of_session hs halive
    exact ⟨accessToken, hpresented, ms₁, m, ms₂, ms₄, hms, hmints, hquarter⟩

end Runs

section Concrete

open Scenario

/-- A recipient asks for a code, exchanges it for a session and opens the link. -/
abbrev Scenario.opened : List (Move Request PlatformMove) :=
  .call (createGrantCall .level1 .recipientOtp) :: List.replicate 2 (.step 0) ++
    .call issueCall :: List.replicate 10 (.step 1) ++
    .call (.disclosure (.requestRecipientOtp "token" "123456" none)) ::
      List.replicate 10 (.step 2) ++
    .call (.disclosure (.verifyRecipientOtp "token" "123456" "access")) ::
      List.replicate 10 (.step 3) ++
    .call (.disclosure (.verifyByToken "token" none none (some "access"))) ::
      List.replicate 4 (.step 4)

/-- The criterion of the grant, which the empty ledger does not meet. -/
abbrev Scenario.criterion : Snapshot := .level1 "평균 월소득 ≥ $1.00" false

theorem disclosed_to_the_recipient :
    ∃ rawToken ip userAgent accessSession,
      (calls opened)[4]? =
        some (.disclosure (.verifyByToken rawToken ip userAgent accessSession)) ∧
      ∃ read ∈ ((@platform byCodePoint).seenBy start opened 4).head?, ∃ v r,
        read.findGrant rawToken = some v ∧
        v.grant.revokedAt = none ∧ read.clock ≤ v.grant.expiresAt ∧
        v.report = some r ∧ r.status = .issued ∧ some criterion = some r.snapshot ∧
        @Issued byCodePoint start opened r ∧
        (v.grant.accessMode = .recipientOtp → ∃ accessToken, accessSession = some accessToken ∧
          ∃ ms₁ m ms₂ ms₃, opened = ms₁ ++ .step m :: ms₂ ++ .step 4 :: ms₃ ∧
            @Mints byCodePoint start ms₁ m v.grant.id accessToken ∧
            ((@platform byCodePoint).runFrom start (ms₁ ++ .step m :: ms₂)).store.clock ≤
              ((@platform byCodePoint).runFrom start ms₁).store.clock + 15 * 60 * 1000) :=
  @disclosed_only_through_the_gate byCodePoint start opened evidence 0 "key" rfl 4
    (some criterion) (by decide +kernel)

end Concrete

end ServeProof
