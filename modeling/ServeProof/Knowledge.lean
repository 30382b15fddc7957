import ServeProof.Services.Evidence
import ServeProof.Services.Settlement

/-!
# ServeProof.Knowledge

What a call knows when it issues a command: the guards it has passed, each
about a store it saw earlier.

* `Seen D P` -- `P` held of a store the call saw, and since then only other
  calls moved;
* `Recall p P` -- `P` held of a store the call saw, and since then the call
  has written nothing that matters to the payout `p`;
* `After D c` -- the call's own command `c` was the last thing it did.

`Known` collects, for every command, what its issuer knows; `sat_*` says so of
every call.  How the settings differ -- calls that overlap, calls that do not --
is only in the relations `D.rely` and `since`.
-/

namespace ServeProof

open Interleave
open Prog (get put putGet require orThrow forEach Only)

/-! ## Facts about one store -/

/-- The payout row is `row`. -/
def RowIs (row : Payout) (w : World) : Prop := w.db.payouts.find row.paymentId = some row

/-- The blockhash valid through `n` has expired. -/
def Expired (n : Nat) (w : World) : Prop :=
  isBlockhashExpired (w.chain.getBlockHeight .confirmed) n = true

/-- The allocation can be paid in USDC, with these columns. -/
def Payable (data : UsdcPayout) (w : World) : Prop :=
  ∃ a b, w.db.allocations.find data.paymentId = some a ∧ w.db.batches.find a.batchId = some b ∧
    a.workerId.isSome ∧ b.status ∈ [.payable, .partiallyPaid] ∧ a.payoutStatus ≠ .paid ∧
    0 < a.netAllocatedUsdCents ∧ data.amountUsdCents = a.netAllocatedUsdCents ∧
    data.venueId = b.id.venueId ∧ ∃ wallet, w.db.wallets.find data.walletId = some wallet

/-- Legacy evidence can be registered for the allocation. -/
def Registrable (l : LegacyEvidence) (w : World) : Prop :=
  ∃ a b, w.db.allocations.find l.paymentId = some a ∧ w.db.batches.find a.batchId = some b ∧
    a.workerId.isSome ∧ b.status ∈ [.payable, .partiallyPaid] ∧ a.payoutStatus ≠ .paid ∧
    l.amountUsdCents = a.netAllocatedUsdCents

/-! ## Earlier stores -/

section Known

variable [Collation] (D : Discipline World Write)
  (since : AllocationId → World → World → Prop)

def Seen (P : World → Prop) (s : World) : Prop := ∃ s₀, D.inv s₀ ∧ D.rely s₀ s ∧ P s₀

def Recall (p : AllocationId) (P : World → Prop) (s : World) : Prop :=
  ∃ s₀, D.inv s₀ ∧ since p s₀ s ∧ P s₀

/-- Why a payout is declared failed, as far as the worker knows.  A dropped
fork cannot be observed: the transaction it was seen in is finalized by then. -/
def CauseKnown (seen : Payout) : FailCause → World → Prop
  | .onchainError _, s => ∃ sig, seen.txSignature = some sig ∧
      Recall D since seen.paymentId (fun w =>
        ∃ st, w.chain.getSignatureStatus sig = some st ∧ st.err ≠ none) s
  | .dropped, s => ∃ sig n, seen.txSignature = some sig ∧ seen.lastValidBlockHeight = some n ∧
      Recall D since seen.paymentId (fun w => w.chain.getSignatureStatus sig = none) s ∧
      Recall D since seen.paymentId (Expired n) s
  | .staleDropped, s => ∃ n, seen.lastValidBlockHeight = some n ∧
      Recall D since seen.paymentId (fun w =>
        (∀ sig ∈ seen.txSignature, w.chain.getSignatureStatus sig = none) ∧ Expired n w) s
  | .finalizedWithoutSettlement, s => ∃ sig, seen.txSignature = some sig ∧
      Recall D since seen.paymentId (fun w =>
        ∃ st, w.chain.getSignatureStatus sig = some st ∧ st.err = none ∧
          st.confirmationStatus = .finalized) s ∧
      Recall D since seen.paymentId (fun w =>
        w.chain.fetchSettlementRecord seen.paymentId .finalized = none) s
  | .forkDropped, _ => False
  | .legacyAttemptTimeout, _ => seen.lastValidBlockHeight = none ∧ seen.initiatedAt ≠ none

def PayoutKnown : PayoutWrite → World → Prop
  | .heal seen status, s =>
      Seen D (RowIs seen) s ∧ allocationStatusOf seen.status = some status
  | .create data, s => Seen D (Payable data) s
  | .reset seen data, s =>
      Seen D (Payable data) s ∧ Seen D (RowIs seen) s ∧ seen.status = .failed ∧
        data.paymentId = seen.paymentId ∧
        ∀ n ∈ seen.lastValidBlockHeight, Seen D (Expired n) s
  | .claimBuild seen .., s =>
      Seen D (RowIs seen) s ∧ seen.status ∈ [.created, .initiated, .failed] ∧
        (seen.status ≠ .created → ∀ n ∈ seen.lastValidBlockHeight, Seen D (Expired n) s)
  | .claimSubmit seen tx .., s =>
      Seen D (RowIs seen) s ∧ seen.status = .initiated ∧
        seen.recentBlockhash = some tx.recentBlockhash
  | .registerLegacy l, s => Seen D (Registrable l) s
  | .setStatus seen status, s =>
      Recall D since seen.paymentId (RowIs seen) s ∧
        ((status = .confirmed ∧ seen.status ∈ [.submitted, .initiated]) ∨
          (status = .submitted ∧ seen.status = .submitted))
  | .finalize seen record .., s =>
      Seen D (RowIs seen) s ∧ seen.status ≠ .finalized ∧
        Seen D (fun w => w.chain.fetchSettlementRecord seen.paymentId .finalized = some record) s ∧
        ∃ first, first.paymentId = seen.paymentId ∧ first.Active ∧
          Recall D since first.paymentId (RowIs first) s
  | .markFailed seen cause, s =>
      Recall D since seen.paymentId (RowIs seen) s ∧ seen.Active ∧
        CauseKnown D since seen cause s
  | .expireAllocation p, s =>
      ∃ s₀, D.inv s₀ ∧ (PayoutWrite.expire p).Applies s₀.db ∧
        D.rely (D.apply (.payout (.expire p)) s₀) s
  | .expire _, _ | .noteBroadcastError .., _ | .countRebroadcast .., _ => True

omit [Collation] in
/-- A status is set by id only on a payout that was read unresolved. -/
theorem PayoutKnown.active_of_setStatus {D : Discipline World Write}
    {since : AllocationId → World → World → Prop} {seen : Payout} {status : PayoutStatus}
    {s : World} (h : PayoutKnown D since (.setStatus seen status) s) : seen.Active := by
  rcases h.2 with ⟨-, hseen⟩ | ⟨-, hseen⟩
  · rcases List.mem_pair.mp hseen with hseen | hseen <;> constructor <;> rw [hseen] <;> decide
  · constructor <;> rw [hseen] <;> decide

/-- The call's own command `c` went through, and since then only other calls
moved. -/
def After (c : PayoutWrite) (s : World) : Prop :=
  ∃ s₀, D.inv s₀ ∧ D.ok (.payout c) s₀ ∧ PayoutKnown D since c s₀ ∧ c.Applies s₀.db ∧
    D.rely (D.apply (.payout c) s₀) s

def BatchKnown : BatchWrite → World → Prop
  | .saveCalculation seen c, s =>
      Seen D (fun w => w.db.batches.find c.batchId = seen) s ∧
        (∀ b ∈ seen, b.status.Recalculable) ∧
        ∃ (tips : List TipEvidence) (shifts : List AllocationShiftInput)
          (policy : AllocationPolicyInput),
          computeAllocationBatch (tips.map TipEvidence.input) shifts policy = .ok c.result ∧
          Seen D (fun w => ∀ t ∈ tips, t ∈ w.db.tips.rows) s
  | .approve seen .., s =>
      Seen D (fun w => w.db.batches.find seen.id = some seen) s ∧ seen.status = .calculated
  | .reject seen .., s =>
      Seen D (fun w => w.db.batches.find seen.id = some seen) s ∧
        seen.status ∈ [.calculated, .reviewRequired]
  | .rollup _ status, _ => status.Approved
  | .attach held _, s =>
      Recall D since held.id (fun w => w.db.allocations.find held.id = some held) s ∧
        held.workerId = none

/-- What the issuer of a command knows. -/
def Known : Write → World → Prop
  | .payout c, s => PayoutKnown D since c s
  | .batch c, s => BatchKnown D since c s
  | .record c, _ => ∀ row, c ≠ .saveTip row
  | .broadcast p tx, s =>
      (∃ seen now by', seen.paymentId = p ∧
        After D since (.claimSubmit seen tx now by') s) ∨
      ∃ seen : Payout, seen.paymentId = p ∧ seen.Active ∧ seen.txSignature.isSome ∧
        seen.signedTransaction = some tx ∧ Recall D since p (RowIs seen) s

/-- The command writes nothing a call remembers of the payout `p`. -/
def Write.Spares (p : AllocationId) : Write → Prop
  | .payout (.setStatus ..) | .payout (.countRebroadcast ..) => True
  | .payout c => c.target ≠ p
  | .batch (.rollup ..) => True
  | .batch (.attach held _) => held.id ≠ p
  | .batch _ => False
  | .record _ => False
  | .broadcast .. => True

/-- `since` is a memory of the calls in the setting `D`. -/
structure Memory : Prop where
  remembers : ∀ p, Prog.Remembers D (Known D since) (Write.Spares p) (since p)
  later : ∀ {p s t}, since p s t → s.chain.Later t.chain

end Known

/-! ## Writing -/

section Rules

variable {D : Discipline World Write} {known : Write → World → Prop} {s₀ : World}

theorem Seen.of_rely (hD : D.Lawful) {P : World → Prop} {s t : World} (h : Seen D P s)
    (hr : D.rely s t) : Seen D P t := by
  obtain ⟨s₀, hi, h₀, hP⟩ := h
  exact ⟨s₀, hi, hD.trans h₀ hr, hP⟩

theorem sat_transact_last {c : Write} {e : ApiError}
    (h : ∀ s, D.rely s₀ s → known c s) :
    (transact c e).Sat D known s₀ fun _ _ => True := by
  rw [sat_transact]
  exact fun s hr _ _ => ⟨h s hr, fun _ _ _ _ => trivial⟩

theorem sat_commit_last {c : Write} (h : ∀ s, D.rely s₀ s → known c s) :
    (commit c >>= fun _ => pure ()).Sat D known s₀ fun _ _ => True := by
  rw [sat_commit_bind]
  exact fun s hr _ _ => ⟨h s hr, fun _ _ _ => trivial⟩

theorem sat_writeRow {c : PayoutWrite} {e : ApiError}
    (h : ∀ s, D.rely s₀ s → known (.payout c) s) :
    (writeRow c e).Sat D known s₀ fun _ _ => True := by
  rw [writeRow, Prog.sat_putGet_bind]
  intro s hr _ _
  refine ⟨h s hr, ?_⟩
  cases if c.Applies s.db then c.row (s.db.payouts.find c.target) else none with
  | none => trivial
  | some row => exact fun _ _ _ => trivial

end Rules

/-! ## Recalling -/

section Memory

variable [Collation] {D : Discipline World Write} {since : AllocationId → World → World → Prop}
  {s₀ : World}

/-- What is recalled stays recalled while the memory lasts. -/
theorem Recall.lasts (hM : Memory D since) {p : AllocationId} {P : World → Prop} {s t : World}
    (h : Recall D since p P s) (hst : since p s t) : Recall D since p P t := by
  obtain ⟨s₀, hi, h₀, hP⟩ := h
  exact ⟨s₀, hi, (hM.remembers p).trans h₀ hst, hP⟩

theorem Recall.of_rely (hM : Memory D since) {p : AllocationId} {P : World → Prop} {s t : World}
    (h : Recall D since p P s) (hr : D.rely s t) : Recall D since p P t :=
  h.lasts hM ((hM.remembers p).of_rely hr)

theorem Recall.here (hM : Memory D since) {p : AllocationId} {P : World → Prop} {s : World}
    (hi : D.inv s) (hP : P s) : Recall D since p P s :=
  ⟨s, hi, (hM.remembers p).refl s, hP⟩

/-- What was seen is recalled. -/
theorem Seen.recall (hM : Memory D since) {p : AllocationId} {P : World → Prop} {s : World}
    (h : Seen D P s) : Recall D since p P s := by
  obtain ⟨s₀, hi, hr, hP⟩ := h
  exact ⟨s₀, hi, (hM.remembers p).of_rely hr, hP⟩

/-- Moves of other calls only move the chain on. -/
theorem Memory.rely_later (hM : Memory D since) {s t : World} (hr : D.rely s t) :
    s.chain.Later t.chain :=
  hM.later ((hM.remembers 0).of_rely hr)

/-- The sequencing rule for a first part whose commits spare a memory. -/
theorem Memory.sat_bind (hM : Memory D since) (hD : D.Lawful) {α β : Type} {p : Service α}
    {f : α → Service β} {post : β → World → Prop} {q : AllocationId}
    (hp : p.Sat D (Known D since) s₀ fun _ _ => True) (honly : p.Only (Write.Spares q))
    (hf : ∀ a s, since q s₀ s → (f a).Sat D (Known D since) s post) :
    (p >>= f).Sat D (Known D since) s₀ post :=
  Prog.Sat.bind hD ((hp.remember (hM.remembers q) honly).mono fun a s h => hf a s h.2)

end Memory

end ServeProof
