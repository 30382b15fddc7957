import ServeProof.Interleave.Reaches
import ServeProof.Scenario

/-!
# ServeProof.Consent

An external account is linked by its owner's consent: the venue proposes the
account to a worker, and the worker's own user accepts.

An acceptance reads the account, checks that its worker is the user's, reads it
again, and confirms the row by its id.  The shifts and the held shares go to the
worker of the second reading.  Between these steps the venue may propose the
account to someone else: a confirmation is backed by consent when the account
names one worker throughout (`Undisturbed`).
-/

namespace ServeProof

open Interleave System
open Prog

/-! ## Links -/

/-- Whom a write links to an external account: a confirmation the worker of the
copy it was read as, an attachment of a held share the worker it goes to. -/
def Write.links : Write → Option (AccountId × WorkerId)
  | .record (.verify seen _) => some (seen.id, seen.workerId)
  | .batch (.attach held workerId) =>
      held.provider.bind fun provider => held.externalWorkerId.map fun externalWorkerId =>
        (⟨held.batchId.venueId, provider, externalWorkerId⟩, workerId)
  | .record _ | .batch _ | .payout _ | .broadcast .. => none

/-- The worker an account names. -/
def World.named (w : World) (id : AccountId) : Option WorkerId :=
  (w.db.accounts.find id).map ExternalWorkerAccount.workerId

/-- No account is confirmed. -/
def World.Unlinked (w : World) : Prop :=
  ∀ row ∈ w.db.accounts.rows, row.mappingStatus ≠ .confirmed

/-! ## Calls -/

/-- The calls about external accounts. -/
inductive MappingCall where
  | createMapping (id : AccountId) (workerId : WorkerId)
  | respondToMapping (id : AccountId) (userId : UserId) (decision : MappingDecision)

def MappingCall.prog : MappingCall → Service Unit
  | .createMapping id workerId => discardResult (ServeProof.createMapping id workerId)
  | .respondToMapping id userId decision => ServeProof.respondToMapping id userId decision

/-- A move of a run: a call, a step of a call, or anything else that is written in
between, which links nobody. -/
abbrev MappingMove := Move MappingCall { c : Write // c.links = none }

def mappings : System World Write ApiError (Nat × MappingCall)
    { c : Write // c.links = none } where
  apply := Write.apply
  prog i := i.2.prog
  env c := c.1.apply

/-! ## Consent -/

/-- The account names the worker, who is the user's. -/
def World.NamesWorkerOf (w : World) (id : AccountId) (workerId : WorkerId) (userId : UserId) :
    Prop :=
  w.named id = some workerId ∧ (w.db.workers.find workerId).map Worker.userId = some userId

instance (w : World) (id : AccountId) (workerId : WorkerId) (userId : UserId) :
    Decidable (w.NamesWorkerOf id workerId userId) := inferInstanceAs (Decidable (_ ∧ _))

/-- The call, with the stores it has seen so far, is an acceptance of the account
by the worker's own user, which found that the account names the worker. -/
def MappingCall.Accepts (id : AccountId) (workerId : WorkerId) : MappingCall → List World → Prop
  | .respondToMapping id' userId .accept, s :: _ => id' = id ∧ s.NamesWorkerOf id workerId userId
  | _, _ => False

instance (id : AccountId) (workerId : WorkerId) :
    (c : MappingCall) → (l : List World) → Decidable (c.Accepts id workerId l)
  | .respondToMapping _ _ .accept, _ :: _ => inferInstanceAs (Decidable (_ ∧ _))
  | .respondToMapping _ _ .accept, [] => isFalse (by simp [MappingCall.Accepts])
  | .respondToMapping _ _ .reject, _ => isFalse (by simp [MappingCall.Accepts])
  | .createMapping .., _ => isFalse (by simp [MappingCall.Accepts])

/-- In the run, the worker's own user has accepted the account while it named the
worker. -/
def Accepted (s : World) (ms : List MappingMove)
    (id : AccountId) (workerId : WorkerId) : Prop :=
  ∃ n < (calls ms).length, ∃ c ∈ (calls ms)[n]?, c.Accepts id workerId (mappings.seenBy s ms n)

instance (s : World) (ms : List MappingMove)
    (id : AccountId) (workerId : WorkerId) : Decidable (Accepted s ms id workerId) :=
  inferInstanceAs (Decidable (∃ n < _, _))

/-- The acceptance gets to its confirmation: the account waits for the user when it
is first read, and is not rejected when it is read again. -/
def Confirms (id : AccountId) (userId : UserId) (s₁ s₂ : World) : Prop :=
  (∃ a ∈ s₁.db.accounts.find id, a.mappingStatus = .pending ∧
    (s₁.db.workers.find a.workerId).map Worker.userId = some userId) ∧
  ∃ a ∈ s₂.db.accounts.find id, a.mappingStatus ≠ .rejected

instance (id : AccountId) (userId : UserId) (s₁ s₂ : World) :
    Decidable (Confirms id userId s₁ s₂) := inferInstanceAs (Decidable (_ ∧ _))

/-- An acceptance that confirms the account finds it naming one worker: when it is
checked, when it is read again, and when it is confirmed. -/
def MappingCall.Steady : MappingCall → List World → Prop
  | .respondToMapping id userId .accept, s₁ :: s₂ :: s₃ :: _ =>
      Confirms id userId s₁ s₂ → s₂.named id = s₁.named id ∧ s₃.named id = s₁.named id
  | _, _ => True

instance : (c : MappingCall) → (l : List World) → Decidable (c.Steady l)
  | .respondToMapping _ _ .accept, _ :: _ :: _ :: _ => inferInstanceAs (Decidable (_ → _))
  | .respondToMapping _ _ .accept, [] | .respondToMapping _ _ .accept, [_]
  | .respondToMapping _ _ .accept, [_, _] => isTrue trivial
  | .respondToMapping _ _ .reject, _ => isTrue (by simp [MappingCall.Steady])
  | .createMapping .., _ => isTrue (by simp [MappingCall.Steady])

/-- No account is proposed to another worker under an acceptance that confirms it. -/
def Undisturbed (s : World) (ms : List MappingMove) : Prop :=
  ∀ n < (calls ms).length, ∀ c ∈ (calls ms)[n]?, c.Steady (mappings.seenBy s ms n)

instance (s : World) (ms : List MappingMove) :
    Decidable (Undisturbed s ms) :=
  inferInstanceAs (Decidable (∀ n < _, _))

/-- Accounts are confirmed, shifts mapped and held shares attached by consent. -/
structure Consent (s : World) (ms : List MappingMove) :
    Prop where
  confirmed : ∀ id row, (mappings.runFrom s ms).store.db.accounts.find id = some row →
    row.mappingStatus = .confirmed → Accepted s ms id row.workerId
  backfilled : ∀ n c t, mappings.Made ms s n c t → ∀ id row row' workerId,
    t.db.shifts.find id = some row → (c.apply t).db.shifts.find id = some row' →
    row'.mappedWorkerId = some workerId → row.mappedWorkerId ≠ some workerId →
    Accepted s ms ⟨id.venueId, id.provider, row'.externalWorkerId⟩ workerId
  attached : ∀ n held workerId t, mappings.Made ms s n (.batch (.attach held workerId)) t →
    ∃ provider externalWorkerId, held.provider = some provider ∧
      held.externalWorkerId = some externalWorkerId ∧
      Accepted s ms ⟨held.batchId.venueId, provider, externalWorkerId⟩ workerId

/-! ## What the writes do -/

namespace Write

variable {c : Write} {w : World}

/-- Only a confirmation confirms. -/
theorem confirmed_apply (hc : ∀ seen by', c ≠ .record (.verify seen by')) {id : AccountId}
    {row : ExternalWorkerAccount} (h : (c.apply w).db.accounts.find id = some row)
    (hrow : row.mappingStatus = .confirmed) : w.db.accounts.find id = some row := by
  cases c with
  | payout c =>
      have haccounts : (c.apply w.db).accounts = w.db.accounts :=
        congrArg Records.accounts (c.records_apply w.db)
      rwa [apply_payout_db, haccounts] at h
  | batch c =>
      have haccounts : (c.apply w.db).accounts = w.db.accounts :=
        congrArg Records.accounts (c.records_apply w.db)
      rwa [apply_batch_db, haccounts] at h
  | broadcast => exact h
  | record c =>
      cases c with
      | verify seen by' => exact absurd rfl (hc seen by')
      | propose id' workerId =>
          simp only [apply_record_db, RecordWrite.apply, Table.find_set] at h
          split at h
          · cases h
            cases hrow
          · exact h
      | rejectAccount seen by' =>
          simp only [apply_record_db, RecordWrite.apply] at h
          rw [Table.find_update (f := fun a : ExternalWorkerAccount =>
            { a with mappingStatus := .rejected, verifiedBy := some by' }) _ fun _ => rfl] at h
          split at h
          · obtain ⟨row, -, rfl⟩ := Option.map_eq_some_iff.mp h
            cases hrow
          · exact h
      | addWallet row =>
          simp only [apply_record_db, RecordWrite.apply] at h
          split at h <;> exact h
      | _ => exact h

/-- A confirmed account is the one that is confirmed, under the worker it names, or
it was confirmed before. -/
theorem confirmed_verify {seen : ExternalWorkerAccount} {by' : UserId} {id : AccountId}
    {row : ExternalWorkerAccount}
    (h : (apply (.record (.verify seen by')) w).db.accounts.find id = some row) :
    (id = seen.id ∧ w.named id = some row.workerId) ∨ w.db.accounts.find id = some row := by
  simp only [apply_record_db, RecordWrite.apply] at h
  rw [Table.find_update (f := fun a : ExternalWorkerAccount =>
    { a with mappingStatus := .confirmed, verifiedBy := some by' }) _ fun _ => rfl] at h
  split at h
  · next hid =>
    obtain ⟨old, hold, rfl⟩ := Option.map_eq_some_iff.mp h
    refine .inl ⟨hid.symm, ?_⟩
    rw [World.named, ← hid, hold]
    rfl
  · exact .inr h

/-- The writes of the calls about external accounts; an attachment is one of a share
that is held for an account. -/
def OfMapping : Write → Prop
  | .record (.propose ..) | .record (.verify ..) | .record (.rejectAccount ..) => True
  | .batch (.attach held workerId) => ∃ link, links (.batch (.attach held workerId)) = some link
  | _ => False

/-- A shift that is mapped is linked. -/
theorem OfMapping.links_of_mapped (hc : c.OfMapping) {id : ShiftId} {row row' : ShiftEvidence}
    {workerId : WorkerId} (hrow : w.db.shifts.find id = some row)
    (hrow' : (c.apply w).db.shifts.find id = some row')
    (hmapped : row'.mappedWorkerId = some workerId) (hnew : row.mappedWorkerId ≠ some workerId) :
    c.links = some (⟨id.venueId, id.provider, row'.externalWorkerId⟩, workerId) := by
  have hsame (h : (c.apply w).db.shifts = w.db.shifts) : False := by
    rw [h, hrow, Option.some.injEq] at hrow'
    exact hnew (hrow' ▸ hmapped)
  cases c with
  | payout c => exact hc.elim
  | broadcast => exact hc.elim
  | batch c => exact (hsame (congrArg Records.shifts (c.records_apply w.db))).elim
  | record c =>
      cases c with
      | propose => exact (hsame rfl).elim
      | rejectAccount => exact (hsame rfl).elim
      | verify seen by' =>
          have hid : row.id = id := Table.key_of_find hrow
          rw [apply_record_db, RecordWrite.apply, Table.find_mapRows, hrow, Option.map_some,
            Option.some.injEq, RecordWrite.backfill] at hrow'
          split at hrow'
          · next hmatch =>
            obtain ⟨hvenue, hprovider, hexternal, -⟩ := hmatch
            subst hrow'
            cases hmapped
            rw [links, ← hid, hvenue, hprovider, hexternal]
          · exact absurd (hrow' ▸ hmapped) hnew
      | _ => exact hc.elim

end Write

/-! ## What an acceptance has read -/

theorem only_attachHeldAllocations (mapping : ExternalWorkerAccount) :
    (attachHeldAllocations mapping).Only fun c =>
      ∃ held, c = .batch (.attach held mapping.workerId) ∧
        c.links = some (mapping.id, mapping.workerId) := by
  refine only_get_bind.mpr fun w => ?_
  refine Only.forEach fun held hheld => only_transact.mpr ⟨held, rfl, ?_⟩
  obtain ⟨-, hprovider, hexternal, hvenue⟩ := of_decide_eq_true (List.mem_filter.mp hheld).2
  rw [Write.links, hprovider, hexternal, hvenue]
  rfl

theorem only_createMapping (id : AccountId) (workerId : WorkerId) :
    (createMapping id workerId).Only fun c => c = .record (.propose id workerId) := by
  simp only [createMapping, only_get_bind, only_orThrow_bind, only_commit_bind]
  exact fun _ _ _ => ⟨trivial, fun _ _ => trivial⟩

theorem MappingCall.only_prog (c : MappingCall) : c.prog.Only Write.OfMapping := by
  cases c with
  | createMapping id workerId =>
      refine ((only_createMapping id workerId).imp fun c hc => ?_).bind
        fun _ => only_pure.mpr trivial
      rw [hc]
      trivial
  | respondToMapping id userId decision =>
      simp only [MappingCall.prog, ServeProof.respondToMapping, only_get_bind, only_orThrow_bind,
        only_require_bind]
      intro w mapping _ _
      cases decision with
      | reject => exact only_require_bind.mpr fun _ => ⟨trivial, fun _ => trivial⟩
      | accept =>
          refine only_require_bind.mpr fun _ => Only.ite trivial ?_
          simp only [verifyMapping, only_get_bind, only_orThrow_bind, only_require_bind,
            only_commit_bind]
          refine fun _ mapping _ _ => ⟨trivial, fun _ => ?_⟩
          refine (only_attachHeldAllocations mapping).imp fun c hc => ?_
          obtain ⟨held, rfl, hlinks⟩ := hc
          exact ⟨_, hlinks⟩

/-- What an acceptance has read when it comes to a write that links: the account it
checked, and the account it read again, whose worker it links. -/
theorem reaches_respondToMapping {id id' : AccountId} {userId : UserId} {decision : MappingDecision}
    {workerId : WorkerId} {l : List World} {k : Write}
    (h : (respondToMapping id userId decision).Reaches l (.commits k))
    (hk : k.links = some (id', workerId)) :
    ∃ s₁ s₂ l', decision = .accept ∧ id' = id ∧ l = s₁ :: s₂ :: l' ∧ Confirms id userId s₁ s₂ ∧
      s₂.named id = some workerId ∧
      ((∃ seen by', k = .record (.verify seen by')) → l' = []) := by
  obtain ⟨s₁, l₁, rfl, h⟩ := reaches_get_bind.mp h
  obtain ⟨⟨row, worker⟩, hrow, h⟩ := reaches_orThrow_bind.mp h
  obtain ⟨hworker, h⟩ := reaches_require_bind.mp h
  obtain ⟨row', hfind, hpair⟩ := Option.map_eq_some_iff.mp hrow
  cases hpair
  cases decision with
  | reject =>
      obtain ⟨-, h⟩ := reaches_require_bind.mp h
      obtain ⟨-, hc⟩ | ⟨_, _, -, hc⟩ := reaches_putGet_bind.mp h
      · cases hc
        cases hk
      · cases hc
  | accept =>
      obtain ⟨hrejected, h⟩ := reaches_require_bind.mp h
      obtain ⟨-, hc⟩ | ⟨hconfirmed, h⟩ := reaches_ite.mp h
      · cases hc
      · obtain ⟨s₂, l₂, rfl, h⟩ := reaches_get_bind.mp h
        obtain ⟨mapping, hmapping, h⟩ := reaches_orThrow_bind.mp h
        obtain ⟨hopen, h⟩ := reaches_require_bind.mp h
        have hid : mapping.id = id := Table.key_of_find hmapping
        have hpending : row.mappingStatus = .pending := by
          cases hstatus : row.mappingStatus with
          | pending => rfl
          | confirmed => exact absurd hstatus hconfirmed
          | rejected => exact absurd hstatus hrejected
        have hconfirms : Confirms id userId s₁ s₂ :=
          ⟨⟨row, hfind, hpending, hworker⟩, mapping, hmapping, hopen⟩
        have hnamed : s₂.named id = some mapping.workerId := by
          exact congrArg (Option.map ExternalWorkerAccount.workerId) hmapping
        obtain ⟨rfl, hc⟩ | ⟨s₃, l₃, rfl, h⟩ := reaches_putGet_bind.mp h
        · cases hc
          cases hk
          exact ⟨s₁, s₂, [], rfl, hid, rfl, hconfirms, hnamed, fun _ => rfl⟩
        · obtain ⟨held, rfl, hlinks⟩ := (only_attachHeldAllocations mapping).reaches h
          obtain ⟨rfl, rfl⟩ := Prod.mk.inj (Option.some.inj (hk.symm.trans hlinks))
          exact ⟨s₁, s₂, s₃ :: l₃, rfl, hid, rfl, hconfirms, hnamed, nofun⟩

theorem MappingCall.reaches_links {c : MappingCall} {l : List World} {k : Write}
    {id : AccountId} {workerId : WorkerId} (h : c.prog.Reaches l (.commits k))
    (hk : k.links = some (id, workerId)) :
    ∃ userId s₁ s₂ l', c = .respondToMapping id userId .accept ∧ l = s₁ :: s₂ :: l' ∧
      Confirms id userId s₁ s₂ ∧ s₂.named id = some workerId ∧
      ((∃ seen by', k = .record (.verify seen by')) → l' = []) := by
  cases c with
  | createMapping id' workerId' =>
      obtain rfl := (((only_createMapping id' workerId').bind fun _ =>
        only_pure.mpr trivial).reaches h : k = _)
      cases hk
  | respondToMapping id' userId decision =>
      obtain ⟨s₁, s₂, l', rfl, rfl, hl, hrest⟩ := reaches_respondToMapping h hk
      exact ⟨userId, s₁, s₂, l', rfl, hl, hrest⟩

/-! ## Runs -/

section Runs

variable {s : World} {ms ms' : List MappingMove}
  {id : AccountId} {workerId : WorkerId}

theorem length_runFrom (s : World)
    (ms : List MappingMove) :
    (mappings.runFrom s ms).threads.length = (calls ms).length :=
  (mappings.length_exec_number ms (Config.start s)).trans (Nat.zero_add _)

theorem Accepted.append (h : Accepted s ms id workerId)
    (ms' : List MappingMove) :
    Accepted s (ms ++ ms') id workerId := by
  obtain ⟨n, hn, c, hc, hacc⟩ := h
  obtain ⟨l, hl⟩ := mappings.seenBy_append s ms ms' n
  have hlt : n < (calls (ms ++ ms')).length := by
    rw [calls_append, List.length_append]
    omega
  have hc' : c ∈ (calls (ms ++ ms'))[n]? := by
    rw [calls_append, List.getElem?_append_left hn]
    exact hc
  refine ⟨n, hlt, c, hc', ?_⟩
  rw [hl]
  cases c with
  | createMapping => exact hacc.elim
  | respondToMapping id' userId decision =>
      cases decision with
      | reject => exact hacc.elim
      | accept =>
          cases hseen : mappings.seenBy s ms n with
          | nil => rw [hseen] at hacc; exact hacc.elim
          | cons t l' => rw [hseen] at hacc; exact hacc

theorem Undisturbed.of_append (h : Undisturbed s (ms ++ ms')) : Undisturbed s ms := by
  intro n hn c hc
  obtain ⟨l, hl⟩ := mappings.seenBy_append s ms ms' n
  have hlt : n < (calls (ms ++ ms')).length := by
    rw [calls_append, List.length_append]
    omega
  have hc' : c ∈ (calls (ms ++ ms'))[n]? := by
    rw [calls_append, List.getElem?_append_left hn]
    exact hc
  have hsteady := h n hlt c hc'
  rw [hl] at hsteady
  cases c with
  | createMapping => trivial
  | respondToMapping id' userId decision =>
      cases decision with
      | reject => trivial
      | accept =>
          match hseen : mappings.seenBy s ms n with
          | [] | [_] | [_, _] => trivial
          | s₁ :: s₂ :: s₃ :: l' => rw [hseen] at hsteady; exact hsteady

/-- Whom a write of an undisturbed run links has accepted; a confirmation finds the
account naming the worker. -/
theorem Undisturbed.links {n : Nat} {k : Write} {next : World → Service Unit}
    (h : Undisturbed s (ms ++ .step n :: ms'))
    (hn : (mappings.runFrom s ms).threads[n]? = some (.commit k next))
    (hk : k.links = some (id, workerId)) :
    Accepted s (ms ++ .step n :: ms') id workerId ∧
      ((∃ seen by', k = .record (.verify seen by')) →
        (mappings.runFrom s ms).store.named id = some workerId) := by
  obtain ⟨c, hc, hreach⟩ := reaches_of_thread hn
  obtain ⟨userId, s₁, s₂, l, rfl, hl, hconfirms, hnamed, hverify⟩ :=
    MappingCall.reaches_links hreach hk
  have hlt : n < (mappings.runFrom s ms).threads.length := (List.getElem?_eq_some_iff.mp hn).1
  obtain ⟨later, hlater⟩ := mappings.seenBy_step hlt ms'
  have hlen : n < (calls (ms ++ .step n :: ms')).length := by
    rw [calls_append, List.length_append, ← length_runFrom s]
    omega
  have hcall : .respondToMapping id userId .accept ∈ (calls (ms ++ .step n :: ms'))[n]? := by
    rw [calls_append, List.getElem?_append_left (length_runFrom s ms ▸ hlt)]
    exact hc
  have hsteady := h n hlen _ hcall
  rw [hlater, hl] at hsteady
  -- the store in which the third step is taken
  obtain ⟨s₃, l₃, hthird, hstore⟩ : ∃ s₃ l₃,
      l ++ (mappings.runFrom s ms).store :: later = s₃ :: l₃ ∧
        (l = [] → s₃ = (mappings.runFrom s ms).store) := by
    cases l with
    | nil => exact ⟨_, _, rfl, fun _ => rfl⟩
    | cons s₃ l => exact ⟨_, _, rfl, nofun⟩
  rw [List.cons_append, List.cons_append, hthird] at hsteady
  obtain ⟨hsecond, hconfirm⟩ := hsteady hconfirms
  obtain ⟨⟨row, hrow, -, huser⟩, -⟩ := hconfirms
  have hworker : row.workerId = workerId := by
    have hfirst : s₁.named id = some row.workerId :=
      congrArg (Option.map ExternalWorkerAccount.workerId) hrow
    rw [← hsecond, hnamed, Option.some.injEq] at hfirst
    exact hfirst.symm
  refine ⟨⟨n, hlen, _, hcall, ?_⟩, fun hk => ?_⟩
  · rw [hlater, hl]
    exact ⟨rfl, hsecond ▸ hnamed, hworker ▸ huser⟩
  · rw [← hstore (hverify hk), hconfirm, ← hsecond, hnamed]

theorem accepted_of_confirmed (hs : s.Unlinked) (h : Undisturbed s ms)
    {row : ExternalWorkerAccount}
    (hrow : (mappings.runFrom s ms).store.db.accounts.find id = some row)
    (hconfirmed : row.mappingStatus = .confirmed) : Accepted s ms id row.workerId := by
  induction ms using List.reverseRecOn generalizing row with
  | nil => exact absurd hconfirmed (hs row (Table.mem_of_find hrow))
  | append_singleton ms m ih =>
      have hbefore : (mappings.runFrom s ms).store.db.accounts.find id = some row →
          Accepted s (ms ++ [m]) id row.workerId := fun hrow =>
        (ih h.of_append hrow hconfirmed).append [m]
      obtain hsame | ⟨e, rfl, he⟩ | ⟨n, k, next, rfl, hn, hk⟩ := store_runFrom_snoc s ms m
      · rw [hsame] at hrow
        exact hbefore hrow
      · rw [he] at hrow
        refine hbefore (Write.confirmed_apply (fun seen by' hverify => ?_) hrow hconfirmed)
        have hnone := e.2
        rw [hverify] at hnone
        cases hnone
      · rw [hk] at hrow
        by_cases hverify : ∃ seen by', k = .record (.verify seen by')
        · obtain ⟨seen, by', rfl⟩ := hverify
          obtain ⟨rfl, hnamed⟩ | hrow := Write.confirmed_verify hrow
          · obtain ⟨hacc, hnames⟩ := h.links hn rfl
            have hworker : row.workerId = seen.workerId :=
              Option.some.inj (hnamed.symm.trans (hnames ⟨seen, by', rfl⟩))
            exact hworker ▸ hacc
          · exact hbefore hrow
        · refine hbefore (Write.confirmed_apply (fun seen by' hk => ?_) hrow hconfirmed)
          exact hverify ⟨seen, by', hk⟩

/-- **Consent**: as long as no account is proposed to another worker under an
acceptance that confirms it, accounts are confirmed, shifts mapped and held shares
attached by the consent of the worker alone. -/
theorem consent_of_undisturbed (hs : s.Unlinked) (h : Undisturbed s (ms ++ ms')) :
    Consent s ms where
  confirmed id row hrow hconfirmed := accepted_of_confirmed hs h.of_append hrow hconfirmed
  backfilled n c t hmade id row row' workerId hrow hrow' hmapped hnew := by
    obtain ⟨ms₁, ms₂, next, rfl, hn, rfl⟩ := hmade
    obtain ⟨i, -, hreach⟩ := reaches_of_thread hn
    have hlinks := (i.only_prog.reaches hreach).links_of_mapped hrow hrow' hmapped hnew
    exact (h.of_append.links hn hlinks).1
  attached n held workerId t hmade := by
    obtain ⟨ms₁, ms₂, next, rfl, hn, rfl⟩ := hmade
    obtain ⟨i, -, hreach⟩ := reaches_of_thread hn
    obtain ⟨⟨id, w⟩, hlinks⟩ := i.only_prog.reaches hreach
    obtain ⟨provider, hprovider, hrest⟩ := Option.bind_eq_some_iff.mp hlinks
    obtain ⟨externalWorkerId, hexternal, hpair⟩ := Option.map_eq_some_iff.mp hrest
    cases hpair
    exact ⟨provider, externalWorkerId, hprovider, hexternal, (h.of_append.links hn hlinks).1⟩

end Runs

namespace Scenario

abbrev account : AccountId := ⟨venue, "square", "held"⟩

/-- Two workers; the account is proposed to the first, who answers. -/
def proposed : List MappingMove :=
  [.env ⟨.record (.saveWorker ⟨worker, "worker-user", "Worker", none⟩), rfl⟩,
    .env ⟨.record (.saveWorker ⟨"other", "other-user", "Other", none⟩), rfl⟩,
    .call (.createMapping account worker), .step 0, .step 0,
    .call (.respondToMapping account "worker-user" .accept)]

/-- The acceptance takes its steps one after the other. -/
def linked : List MappingMove :=
  proposed ++ [.step 1, .step 1, .step 1]

/-- Before the confirmation the venue proposes the account to the other worker. -/
def reproposed : List MappingMove :=
  proposed ++
    [.step 1, .step 1, .call (.createMapping account "other"), .step 2, .step 2, .step 1]

end Scenario

open Scenario

theorem consent_of_linked : Accepted World.empty linked account worker :=
  (@consent_of_undisturbed World.empty linked [] (fun _ h => absurd h List.not_mem_nil)
    (by decide +kernel)).confirmed account ⟨account, worker, .confirmed, some "worker-user"⟩
    (by decide +kernel) rfl

/-- The account is confirmed under the other worker, who has accepted nothing. -/
theorem linked_without_consent : World.empty.Unlinked ∧ ¬ Consent World.empty reproposed := by
  refine ⟨fun _ h => absurd h List.not_mem_nil, fun h => ?_⟩
  have hother : Accepted World.empty reproposed account "other" :=
    h.confirmed account ⟨account, "other", .confirmed, some "worker-user"⟩ (by decide +kernel) rfl
  have hnot : ¬ Accepted World.empty reproposed account "other" := by decide +kernel
  exact hnot hother

end ServeProof
