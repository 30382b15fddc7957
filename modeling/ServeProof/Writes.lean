import ServeProof.Writes.Batches
import ServeProof.Writes.Payouts
import ServeProof.Writes.Records

/-!
# ServeProof.Writes

The commands of all services, and the programs that issue them.

A service call is a `Service α`: a program whose reads are queries on the
world and whose commits are `Write`s.  `commit` reports whether the statement
went through, `transact` throws when it did not.
-/

namespace ServeProof

open Interleave

inductive Write where
  | payout (c : PayoutWrite)
  | batch (c : BatchWrite)
  | record (c : RecordWrite)
  /-- Hand the signed bytes of a payout to the RPC. -/
  | broadcast (paymentId : AllocationId) (tx : SignedTransaction)

namespace Write

def Applies : Write → World → Prop
  | payout c, w => c.Applies w.db
  | batch c, w => c.Applies w.db
  | record _, _ | broadcast .., _ => True

instance decidableApplies (c : Write) (w : World) : Decidable (c.Applies w) :=
  match c with
  | payout c => inferInstanceAs (Decidable (c.Applies w.db))
  | batch c => inferInstanceAs (Decidable (c.Applies w.db))
  | record _ | broadcast .. => isTrue trivial

def apply : Write → World → World
  | payout c, w => { w with db := c.apply w.db }
  | batch c, w => { w with db := c.apply w.db }
  | record c, w => { w with db := c.apply w.db }
  | broadcast p tx, w => { w with chain := w.chain.hand p tx }

@[simp] theorem apply_payout_db (c : PayoutWrite) (w : World) :
    (apply (payout c) w).db = c.apply w.db := rfl

@[simp] theorem apply_payout_chain (c : PayoutWrite) (w : World) :
    (apply (payout c) w).chain = w.chain := rfl

@[simp] theorem apply_batch_db (c : BatchWrite) (w : World) :
    (apply (batch c) w).db = c.apply w.db := rfl

@[simp] theorem apply_batch_chain (c : BatchWrite) (w : World) :
    (apply (batch c) w).chain = w.chain := rfl

@[simp] theorem apply_record_db (c : RecordWrite) (w : World) :
    (apply (record c) w).db = c.apply w.db := rfl

@[simp] theorem apply_record_chain (c : RecordWrite) (w : World) :
    (apply (record c) w).chain = w.chain := rfl

@[simp] theorem apply_broadcast_db (p : AllocationId) (tx : SignedTransaction) (w : World) :
    (apply (broadcast p tx) w).db = w.db := rfl

@[simp] theorem apply_broadcast_chain (p : AllocationId) (tx : SignedTransaction) (w : World) :
    (apply (broadcast p tx) w).chain = w.chain.hand p tx := rfl

/-- The chain only moves on. -/
theorem apply_later (c : Write) (w : World) : w.chain.Later (c.apply w).chain := by
  cases c with
  | broadcast p tx => exact Chain.hand_later w.chain p tx
  | _ => exact Chain.Later.refl w.chain

theorem apply_keepsIds (c : Write) (w : World) : w.db.KeepsIds (c.apply w).db := by
  cases c with
  | payout c =>
      refine ⟨by simp, fun p a' _ ha' => ?_⟩
      rw [apply_payout_db] at ha'
      by_cases h : c.Applies w.db
      · rw [PayoutWrite.find_allocations_apply h] at ha'
        split at ha'
        · next hp =>
          obtain ⟨a, ha, rfl⟩ := Option.map_eq_some_iff.mp ha'
          exact ⟨a, hp ▸ ha, (c.pay_batchId a).symm⟩
        · exact ⟨a', ha', rfl⟩
      · rw [PayoutWrite.apply_of_not_applies h] at ha'
        exact ⟨a', ha', rfl⟩
  | batch c =>
      refine ⟨c.nextAllocationId_apply w.db, fun p a' hp ha' => ?_⟩
      rcases BatchWrite.allocation_before ha' with ⟨hnew, -⟩ | ⟨a, ha, hid, -⟩
      · exact absurd hp hnew.not_gt
      · exact ⟨a, ha, hid⟩
  | record c => exact ⟨by simp, fun p a' _ ha' => ⟨a', by simpa using ha', rfl⟩⟩
  | broadcast p tx => exact Db.KeepsIds.refl w.db

/-- No write takes a shift off the record. -/
theorem find_shift_apply {c : Write} {w : World} {id : ShiftId}
    (h : (w.db.shifts.find id).isSome) : ((c.apply w).db.shifts.find id).isSome := by
  cases c with
  | payout c =>
      have hsame : (c.apply w.db).shifts = w.db.shifts :=
        congrArg Records.shifts (c.records_apply w.db)
      rw [apply_payout_db, hsame]
      exact h
  | batch c =>
      have hsame : (c.apply w.db).shifts = w.db.shifts :=
        congrArg Records.shifts (c.records_apply w.db)
      rw [apply_batch_db, hsame]
      exact h
  | record c => exact RecordWrite.find_shift_apply h
  | broadcast p tx => exact h

end Write

/-! ## Service programs -/

abbrev Service (α : Type) := Prog World Write ApiError α

/-- Issue a command; the result says whether the statement went through. -/
def commit (c : Write) : Service Bool := Prog.putGet c fun w => decide (c.Applies w)

/-- Issue a command that must go through. -/
def transact (c : Write) (e : ApiError) : Service Unit := do
  let done ← commit c
  Prog.require (done = true) e

section Rules

variable {D : Discipline World Write} {known : Write → World → Prop} {β : Type} {s₀ : World}
  {post : β → World → Prop}

theorem sat_commit_bind {c : Write} {f : Bool → Service β} :
    (commit c >>= f).Sat D known s₀ post ↔
      ∀ s, D.rely s₀ s → D.inv s → D.ok c s →
        known c s ∧ (f (decide (c.Applies s))).Sat D known (D.apply c s) post := Iff.rfl

/-- The rule for a command whose outcome the rest does not look at. -/
theorem Sat.commit {c : Write} {post : Bool → World → Prop}
    (h : ∀ s, D.rely s₀ s → D.inv s → D.ok c s →
      known c s ∧ ∀ b t, D.rely (D.apply c s) t → post b t) :
    (ServeProof.commit c).Sat D known s₀ post := by
  intro s hr hi hok
  obtain ⟨hk, hp⟩ := h s hr hi hok
  exact ⟨hk, fun t ht _ => hp _ t ht⟩

theorem sat_transact_bind {c : Write} {e : ApiError} {f : Unit → Service β} :
    (transact c e >>= f).Sat D known s₀ post ↔
      ∀ s, D.rely s₀ s → D.inv s → D.ok c s →
        known c s ∧ (c.Applies s → (f ()).Sat D known (D.apply c s) post) := by
  refine forall_congr' fun s => imp_congr_right fun _ => imp_congr_right fun _ =>
    imp_congr_right fun _ => and_congr_right fun _ => ?_
  change (Prog.require (decide (c.Applies s) = true) e >>= f).Sat D known (D.apply c s) post ↔ _
  rw [Prog.sat_require_bind, decide_eq_true_iff]

theorem sat_transact {c : Write} {e : ApiError} {post : Unit → World → Prop} :
    (transact c e).Sat D known s₀ post ↔
      ∀ s, D.rely s₀ s → D.inv s → D.ok c s →
        known c s ∧ (c.Applies s → ∀ t, D.rely (D.apply c s) t → D.inv t → post () t) := by
  refine forall_congr' fun s => imp_congr_right fun _ => imp_congr_right fun _ =>
    imp_congr_right fun _ => and_congr_right fun _ => ?_
  change (Prog.require (decide (c.Applies s) = true) e).Sat D known (D.apply c s) post ↔ _
  unfold Prog.require
  by_cases hc : c.Applies s <;> simp [hc, Prog.Sat]

variable {ok : Write → Prop}

theorem only_commit_bind {c : Write} {f : Bool → Service β} :
    (commit c >>= f).Only ok ↔ ok c ∧ ∀ s, (f (decide (c.Applies s))).Only ok := Iff.rfl

theorem only_commit {c : Write} : (commit c).Only ok ↔ ok c :=
  ⟨fun h => h.1, fun h => ⟨h, fun _ => trivial⟩⟩

theorem only_transact {c : Write} {e : ApiError} : (transact c e).Only ok ↔ ok c := by
  refine ⟨fun h => h.1, fun h => ⟨h, fun s => ?_⟩⟩
  change (Prog.require _ e).Only ok
  unfold Prog.require
  split <;> trivial

end Rules

end ServeProof
