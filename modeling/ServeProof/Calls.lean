import ServeProof.Knowledge.Evidence
import ServeProof.Knowledge.Settlement

/-!
# ServeProof.Calls

The service as a whole: every call of the API and of the worker, and the moves
of the world around it (blocks are produced, providers deliver evidence,
workers change their wallets).
-/

namespace ServeProof

open Interleave

/-- Calls that pay. -/
inductive PayoutCall where
  | createUsdcPayout (allocationId : AllocationId) (initiatedByUserId : Option UserId)
  | buildTransaction (payoutId : AllocationId) (initiatedByUserId : Option UserId) (now : Time)
  | submitSigned (payoutId : AllocationId) (payload : Option SubmittedTransaction)
      (submittedByUserId : Option UserId) (now : Time) (sendError : Option String)
  | registerLegacyEvidence (allocationId : AllocationId) (rail : LegacyRail)
      (externalReference : String) (submittedByUserId : Option UserId) (now : Time)

/-- Jobs of the settlement worker. -/
inductive WorkerCall where
  | processConfirmation (payoutId : AllocationId) (signature : Signature) (now : Time)
  | reconcileStalePayouts (now : Time)
  | onPayoutSettled (paymentId : AllocationId)

/-- Calls that make batches. -/
inductive AllocationCall where
  | calculate (venueId : VenueId) (businessDate : String) (policyVersion : Option Nat)
      (calculatedBy : Option UserId) (now : Time)
  | approve (id : BatchId) (approvedBy : UserId) (now : Time)
  | reject (id : BatchId) (rejectedBy : UserId) (reason : String)

/-- Calls that feed the calculation. -/
inductive EvidenceCall where
  | importCsv (venueId : VenueId) (csv : CsvNormalizationResult) (actorUserId : Option UserId)
      (now : Time)
  | createVersion (venueId : VenueId) (input : PolicyInput)
  | newVersionFrom (policyId : PolicyId) (overrides : PolicyOverrides)
  | respondToMapping (id : AccountId) (userId : UserId) (decision : MappingDecision)

inductive Call where
  | payout (c : PayoutCall)
  | worker (c : WorkerCall)
  | allocation (c : AllocationCall)
  | evidence (c : EvidenceCall)

/-- Forget the answer of a call. -/
def discardResult {α : Type} (p : Service α) : Service Unit := do let _ ← p

theorem only_discardResult {α : Type} {p : Service α} {ok : Write → Prop} (h : p.Only ok) :
    (discardResult p).Only ok :=
  h.bind fun _ => trivial

namespace Call

variable [Collation]

def payoutProg : PayoutCall → Service Unit
  | .createUsdcPayout p by' => discardResult (createUsdcPayout p by')
  | .buildTransaction p by' now => discardResult (buildTransaction p by' now)
  | .submitSigned p payload by' now sendError =>
      discardResult (submitSigned p payload by' now sendError)
  | .registerLegacyEvidence p rail reference by' now =>
      discardResult (registerLegacyEvidence p rail reference by' now)

def workerProg : WorkerCall → Service Unit
  | .processConfirmation p sig now => processConfirmation p sig now
  | .reconcileStalePayouts now => reconcileStalePayouts now
  | .onPayoutSettled p => onPayoutSettled p

def allocationProg : AllocationCall → Service Unit
  | .calculate venueId date version by' now =>
      discardResult (calculate venueId date version by' now)
  | .approve id by' now => approve id by' now
  | .reject id by' reason => reject id by' reason

def evidenceProg : EvidenceCall → Service Unit
  | .importCsv venueId csv by' now => importCsv venueId csv by' now
  | .createVersion venueId input => createVersion venueId input
  | .newVersionFrom id overrides => newVersionFrom id overrides
  | .respondToMapping id user decision => respondToMapping id user decision

def prog : Call → Service Unit
  | payout c => payoutProg c
  | worker c => workerProg c
  | allocation c => allocationProg c
  | evidence c => evidenceProg c

section Sat

variable {D : Discipline World Write} {since : AllocationId → World → World → Prop} {s₀ : World}

omit [Collation] in
theorem sat_discardResult (hD : D.Lawful) {α : Type} {p : Service α} {known : Write → World → Prop}
    (h : p.Sat D known s₀ fun _ _ => True) :
    (discardResult p).Sat D known s₀ fun _ _ => True :=
  Prog.Sat.andThen hD h fun _ _ _ _ _ => trivial

theorem sat_payoutProg (hD : D.Lawful) (c : PayoutCall) :
    (payoutProg c).Sat D (Known D since) s₀ fun _ _ => True := by
  cases c with
  | createUsdcPayout => exact sat_discardResult hD (sat_createUsdcPayout hD _ _)
  | buildTransaction => exact sat_discardResult hD (sat_buildTransaction hD _ _ _)
  | submitSigned => exact sat_discardResult hD (sat_submitSigned hD _ _ _ _ _)
  | registerLegacyEvidence =>
      exact sat_discardResult hD (sat_registerLegacyEvidence hD _ _ _ _ _)

theorem sat_workerProg (hD : D.Lawful) (hM : Memory D since) (c : WorkerCall) :
    (workerProg c).Sat D (Known D since) s₀ fun _ _ => True := by
  cases c with
  | processConfirmation => exact sat_processConfirmation hD hM _ _ _
  | reconcileStalePayouts => exact sat_reconcileStalePayouts hD hM _
  | onPayoutSettled => exact sat_onPayoutSettled hM _

theorem sat_allocationProg (hD : D.Lawful) (c : AllocationCall) :
    (allocationProg c).Sat D (Known D since) s₀ fun _ _ => True := by
  cases c with
  | calculate => exact sat_discardResult hD (sat_calculate hD _ _ _ _ _)
  | approve => exact sat_approve _ _ _
  | reject => exact sat_reject _ _ _

theorem sat_evidenceProg (hD : D.Lawful) (hM : Memory D since) (c : EvidenceCall) :
    (evidenceProg c).Sat D (Known D since) s₀ fun _ _ => True := by
  cases c with
  | importCsv => exact sat_importCsv hD _ _ _ _
  | createVersion => exact sat_createVersion _ _
  | newVersionFrom => exact sat_newVersionFrom _ _
  | respondToMapping => exact sat_respondToMapping hD hM _ _ _

/-- Every call knows at its commands what it should. -/
theorem sat_prog (hD : D.Lawful) (hM : Memory D since) (c : Call) :
    c.prog.Sat D (Known D since) s₀ fun _ _ => True := by
  cases c with
  | payout c => exact sat_payoutProg hD c
  | worker c => exact sat_workerProg hD hM c
  | allocation c => exact sat_allocationProg hD c
  | evidence c => exact sat_evidenceProg hD hM c

end Sat

end Call

/-! ## The world around the calls -/

inductive EnvMove where
  /-- The chain takes a step. -/
  | chain (step : Chain.Step)
  /-- Evidence, accounts, policies or wallets change from outside. -/
  | record (c : RecordWrite)

def EnvMove.apply : EnvMove → World → World
  | chain step, w => { w with chain := w.chain.step step }
  | record c, w => Write.apply (.record c) w

theorem EnvMove.apply_later (e : EnvMove) (w : World) : w.chain.Later (e.apply w).chain := by
  cases e with
  | chain step => exact Chain.step_later w.chain step
  | record c => exact Chain.Later.refl w.chain

/-- The moves of the world around the calls write no payout, allocation or
batch, and hand nothing over. -/
theorem EnvMove.payouts_apply (e : EnvMove) (w : World) :
    (e.apply w).db.payouts = w.db.payouts := by
  cases e with
  | chain step => rfl
  | record c => exact RecordWrite.payouts_apply c w.db

theorem EnvMove.allocations_apply (e : EnvMove) (w : World) :
    (e.apply w).db.allocations = w.db.allocations := by
  cases e with
  | chain step => rfl
  | record c => exact RecordWrite.allocations_apply c w.db

theorem EnvMove.batches_apply (e : EnvMove) (w : World) :
    (e.apply w).db.batches = w.db.batches := by
  cases e with
  | chain step => rfl
  | record c => exact RecordWrite.batches_apply c w.db

theorem EnvMove.handed_apply (e : EnvMove) (w : World) :
    (e.apply w).chain.handed = w.chain.handed := by
  cases e with
  | chain step => exact Chain.step_handed w.chain step
  | record c => rfl

/-- All calls. -/
def service [Collation] : System World Write ApiError Call EnvMove where
  apply := Write.apply
  prog := Call.prog
  env := EnvMove.apply

/-! ## Settings

What is left to show of a property of all runs: how a command changes the
store, given what its issuer knows. -/

section Settings

variable [Collation]

/-- Calls that overlap remember what `D.rely` keeps. -/
theorem memory_of_commit {D : Discipline World Write} (hD : D.Lawful)
    (hlater : ∀ {s t}, D.rely s t → s.chain.Later t.chain)
    (hcommit : ∀ c s, D.inv s → D.ok c s → Known D (fun _ => D.rely) c s →
      D.rely s (D.apply c s)) : Memory D fun _ => D.rely where
  remembers _ :=
    { refl := hD.refl
      trans := hD.trans
      of_rely := id
      of_commit := fun hi hok hk _ => hcommit _ _ hi hok hk }
  later := hlater

/-- The rule for calls that overlap. -/
theorem service_sound {D : Discipline World Write} {okEnv : EnvMove → World → Prop}
    (hD : D.Lawful) (happly : D.apply = Write.apply)
    (hlater : ∀ {s t}, D.rely s t → s.chain.Later t.chain)
    (hcommit : ∀ c s, D.inv s → D.ok c s → Known D (fun _ => D.rely) c s →
      D.rely s (Write.apply c s) ∧ D.inv (Write.apply c s))
    (henv : ∀ e s, D.inv s → okEnv e s → D.rely s (e.apply s) ∧ D.inv (e.apply s)) :
    service.Sound okEnv D (Known D fun _ => D.rely) where
  lawful := hD
  commit := hcommit
  env := henv
  apply_eq := happly
  call c _ _ := c.sat_prog hD <| memory_of_commit hD hlater fun c s hi hok hk =>
    happly ▸ (hcommit c s hi hok hk).1

end Settings

end ServeProof
