import ServeProof.Agreement

/-!
# ServeProof.Rollup

The status of an approved batch says how many of its allocations are paid.
Every call that pays an allocation rolls its batch up before it ends.  A held
share that is merged into the row of its worker takes a row away and rolls
nothing up: that does no harm while another row is unpaid.
-/

namespace ServeProof

open Interleave System

def World.AllPaid (w : World) (b : BatchId) : Prop :=
  ∀ a ∈ w.db.allocations.rows, a.batchId = b → a.payoutStatus = .paid

def World.NonePaid (w : World) (b : BatchId) : Prop :=
  ∀ a ∈ w.db.allocations.rows, a.batchId = b → a.payoutStatus ≠ .paid

/-- The status of a batch says how many of its allocations are paid. -/
structure World.Exact (w : World) (b : AllocationBatch) : Prop where
  paid : b.status = .paid ↔ w.AllPaid b.id
  payable : b.status = .payable ↔ w.NonePaid b.id
  partiallyPaid : b.status = .partiallyPaid ↔ ¬ w.AllPaid b.id ∧ ¬ w.NonePaid b.id

/-- Every approved batch with an allocation has the status its allocations call
for. -/
def World.RollupExact (w : World) : Prop :=
  ∀ b ∈ w.db.batches.rows, b.status.Approved →
    (∃ a ∈ w.db.allocations.rows, a.batchId = b.id) → w.Exact b

instance (w : World) (b : BatchId) : Decidable (w.AllPaid b) :=
  inferInstanceAs (Decidable (∀ a ∈ _, _ → _))

instance (w : World) (b : BatchId) : Decidable (w.NonePaid b) :=
  inferInstanceAs (Decidable (∀ a ∈ _, _ → _))

instance (w : World) (b : AllocationBatch) : Decidable (w.Exact b) :=
  decidable_of_iff (_ ∧ _ ∧ _)
    ⟨fun h => ⟨h.1, h.2.1, h.2.2⟩, fun h => ⟨h.paid, h.payable, h.partiallyPaid⟩⟩

instance (w : World) : Decidable w.RollupExact :=
  inferInstanceAs (Decidable (∀ b ∈ _, _ → (∃ a ∈ _, _) → _))

/-- A share that is merged in an approved batch leaves an unpaid row. -/
def MergeLeavesUnpaid : Write → World → Prop
  | .batch (.attach held workerId), w =>
      (BatchWrite.ownRow w.db held workerId).isSome → w.Approved held.batchId →
        ∃ a ∈ w.db.allocations.rows, a.batchId = held.batchId ∧ a.id ≠ held.id ∧
          a.payoutStatus ≠ .paid
  | _, _ => True

instance (c : Write) (w : World) : Decidable (MergeLeavesUnpaid c w) :=
  match c with
  | .batch (.attach ..) => inferInstanceAs (Decidable (_ → _ → ∃ a ∈ _, _))
  | .batch (.saveCalculation ..) | .batch (.approve ..) | .batch (.reject ..)
  | .batch (.rollup ..) | .payout _ | .record _ | .broadcast .. => isTrue trivial

/-! ## The invariant -/

/-- The rollup is exact; what is paid has a finalized payout, and what has a
payout is in an approved batch. -/
structure RolledUp (w : World) : Prop where
  exact : w.RollupExact
  finalized : ∀ p, w.Paid p → w.Finalized p
  approved : ∀ p, (w.db.payouts.find p).isSome → w.InApproved p

/-- The rows of the batch `b` are the same in both, as far as their number and
what is paid can tell. -/
structure SameRows (s t : World) (b : BatchId) : Prop where
  forth : ∀ a ∈ s.db.allocations.rows, a.batchId = b → ∃ a' ∈ t.db.allocations.rows,
    a'.batchId = b ∧ (a'.payoutStatus = .paid ↔ a.payoutStatus = .paid)
  back : ∀ a' ∈ t.db.allocations.rows, a'.batchId = b → ∃ a ∈ s.db.allocations.rows,
    a.batchId = b ∧ (a'.payoutStatus = .paid ↔ a.payoutStatus = .paid)

section SameRows

variable {s t : World} {b : BatchId}

theorem SameRows.of_eq (h : t.db.allocations = s.db.allocations) : SameRows s t b where
  forth a ha hb := ⟨a, h ▸ ha, hb, Iff.rfl⟩
  back a ha hb := ⟨a, h ▸ ha, hb, Iff.rfl⟩

theorem SameRows.congr (h : SameRows s t b) {u : World} (hu : u.db.allocations = t.db.allocations) :
    SameRows s u b where
  forth a ha hb := by
    rw [hu]
    exact h.forth a ha hb
  back a ha hb := h.back a (hu ▸ ha) hb

theorem SameRows.allPaid (h : SameRows s t b) : t.AllPaid b ↔ s.AllPaid b := by
  constructor
  · intro hall a ha hb
    obtain ⟨a', ha', hb', hiff⟩ := h.forth a ha hb
    exact hiff.mp (hall a' ha' hb')
  · intro hall a' ha' hb'
    obtain ⟨a, ha, hb, hiff⟩ := h.back a' ha' hb'
    exact hiff.mpr (hall a ha hb)

theorem SameRows.nonePaid (h : SameRows s t b) : t.NonePaid b ↔ s.NonePaid b := by
  constructor
  · intro hnone a ha hb hpaid
    obtain ⟨a', ha', hb', hiff⟩ := h.forth a ha hb
    exact hnone a' ha' hb' (hiff.mpr hpaid)
  · intro hnone a' ha' hb' hpaid
    obtain ⟨a, ha, hb, hiff⟩ := h.back a' ha' hb'
    exact hnone a ha hb (hiff.mp hpaid)

/-- A batch whose rows are the same keeps an exact status. -/
theorem SameRows.exact {r : AllocationBatch} (h : SameRows s t r.id) (hs : s.Exact r) :
    t.Exact r where
  paid := hs.paid.trans h.allPaid.symm
  payable := hs.payable.trans h.nonePaid.symm
  partiallyPaid := by rw [hs.partiallyPaid, h.allPaid, h.nonePaid]

end SameRows

/-- An approved batch whose rows are the same is still exact. -/
theorem RolledUp.exact_of_same {s t : World} (hs : RolledUp s) {r : AllocationBatch}
    (hsame : SameRows s t r.id) (hr : r ∈ s.db.batches.rows) (happr : r.status.Approved)
    (hrows : ∃ a ∈ t.db.allocations.rows, a.batchId = r.id) : t.Exact r := by
  obtain ⟨a', ha', hb'⟩ := hrows
  obtain ⟨a, ha, hb, -⟩ := hsame.back a' ha' hb'
  exact hsame.exact (hs.exact r hr happr ⟨a, ha, hb⟩)

theorem RolledUp.congr {s t : World} (hs : RolledUp s)
    (hp : t.db.payouts = s.db.payouts) (ha : t.db.allocations = s.db.allocations)
    (hb : t.db.batches = s.db.batches) : RolledUp t where
  exact b hmem happr hrows := (SameRows.of_eq ha).exact (hs.exact b (hb ▸ hmem) happr (ha ▸ hrows))
  finalized p hpaid := by
    rw [World.Finalized, hp]
    rw [World.Paid, ha] at hpaid
    exact hs.finalized p hpaid
  approved p hsome a hfind := by
    rw [World.Approved, hb]
    exact hs.approved p (hp ▸ hsome) a (ha ▸ hfind)

/-- What the rollup computes is exact. -/
theorem paymentStatus_exact (w : World) {b : BatchId}
    (hrows : ∃ a ∈ w.db.allocations.rows, a.batchId = b) :
    (paymentStatus (BatchWrite.rowsOf w.db b) = .paid ↔ w.AllPaid b) ∧
      (paymentStatus (BatchWrite.rowsOf w.db b) = .payable ↔ w.NonePaid b) ∧
      (paymentStatus (BatchWrite.rowsOf w.db b) = .partiallyPaid ↔
        ¬ w.AllPaid b ∧ ¬ w.NonePaid b) := by
  obtain ⟨a₀, ha₀, hb₀⟩ := hrows
  have hall : w.AllPaid b ↔
      (BatchWrite.rowsOf w.db b).countP (fun a => decide (a.payoutStatus = .paid)) =
        (BatchWrite.rowsOf w.db b).length := by
    rw [List.countP_eq_length]
    simp only [BatchWrite.mem_rowsOf, decide_eq_true_eq, and_imp]
    exact Iff.rfl
  have hnone : w.NonePaid b ↔
      (BatchWrite.rowsOf w.db b).countP (fun a => decide (a.payoutStatus = .paid)) = 0 := by
    rw [List.countP_eq_zero]
    simp only [BatchWrite.mem_rowsOf, decide_eq_true_eq, and_imp]
    exact Iff.rfl
  have hpos : 0 < (BatchWrite.rowsOf w.db b).length :=
    List.length_pos_of_mem (BatchWrite.mem_rowsOf.mpr ⟨ha₀, hb₀⟩)
  rw [hall, hnone, paymentStatus]
  generalize (BatchWrite.rowsOf w.db b).countP _ = paid at *
  generalize (BatchWrite.rowsOf w.db b).length = all at *
  split
  · next hzero =>
    have hne : paid ≠ all := by omega
    exact ⟨by simp [hne], by simp [hzero], by simp [hzero]⟩
  · next hzero =>
    split
    · next hfull => exact ⟨by simp [hfull], by simp [hzero], by simp [hfull]⟩
    · next hfull => exact ⟨by simp [hfull], by simp [hzero], by simp [hzero, hfull]⟩

/-! ## The rollup -/

section RolledUp

variable {w : World} {b : BatchId}

theorem allocations_rolledUp : (w.rolledUp b).db.allocations = w.db.allocations :=
  BatchWrite.allocations_rollup _ _ _

theorem payouts_rolledUp : (w.rolledUp b).db.payouts = w.db.payouts := BatchWrite.payouts_apply _ _

/-- An approved batch that is rolled up has the status its rows call for; the
others stay. -/
theorem status_rolledUp {r : AllocationBatch} (hr : r ∈ (w.rolledUp b).db.batches.rows)
    (happr : r.status.Approved) :
    (r.id = b → r.status = paymentStatus (BatchWrite.rowsOf w.db b)) ∧
      (r.id ≠ b → r ∈ w.db.batches.rows) := by
  have hfind := Table.find_key hr
  rw [World.rolledUp, Write.apply_batch_db] at hfind
  by_cases h : (BatchWrite.rollup b (paymentStatus (BatchWrite.rowsOf w.db b))).Applies w.db
  · rw [BatchWrite.find_batches_rollup h] at hfind
    refine ⟨fun hid => ?_, fun hid => ?_⟩
    · rw [if_pos hid.symm] at hfind
      obtain ⟨old, -, rfl⟩ := Option.map_eq_some_iff.mp hfind
      rfl
    · rw [if_neg (Ne.symm hid)] at hfind
      exact Table.mem_of_find hfind
  · rw [BatchWrite.apply, if_neg h] at hfind
    exact ⟨fun hid => absurd ⟨r, Table.mem_of_find hfind, hid, happr⟩ h,
      fun _ => Table.mem_of_find hfind⟩

theorem approved_rolledUp {b' : BatchId} (h : w.Approved b') : (w.rolledUp b).Approved b' := by
  obtain ⟨r, hr, hs⟩ := World.approved_iff.mp h
  rw [World.approved_iff, World.rolledUp, Write.apply_batch_db]
  by_cases happ : (BatchWrite.rollup b (paymentStatus (BatchWrite.rowsOf w.db b))).Applies w.db
  · rw [BatchWrite.find_batches_rollup happ]
    split
    · next hid =>
      subst hid
      rw [hr]
      exact ⟨_, rfl, paymentStatus_approved _⟩
    · exact ⟨r, hr, hs⟩
  · rw [BatchWrite.apply, if_neg happ]
    exact ⟨r, hr, hs⟩

end RolledUp

/-! ## Payout commands -/

section Payout

variable {w : World} {c : PayoutWrite}

/-- What the rows of the other allocations look like does not change. -/
theorem sameRows_payout (h : c.Applies w.db) {b : BatchId}
    (htarget : ∀ a ∈ w.db.allocations.find c.target, a.batchId = b →
      ((c.pay a).payoutStatus = .paid ↔ a.payoutStatus = .paid)) :
    SameRows w ((Write.payout c).apply w) b where
  forth a ha hb := by
    have hfind := PayoutWrite.find_allocations_apply h a.id
    by_cases hid : c.target = a.id
    · have hrow : w.db.allocations.find c.target = some a := hid ▸ Table.find_key ha
      rw [if_pos hid, hrow, Option.map_some] at hfind
      exact ⟨c.pay a, Table.mem_of_find hfind, (c.pay_batchId a).trans hb, htarget a hrow hb⟩
    · rw [if_neg hid, Table.find_key ha] at hfind
      exact ⟨a, Table.mem_of_find hfind, hb, Iff.rfl⟩
  back a' ha' hb := by
    have hfind := PayoutWrite.find_allocations_apply h a'.id
    rw [show (c.apply w.db).allocations.find a'.id = some a' from Table.find_key ha'] at hfind
    by_cases hid : c.target = a'.id
    · rw [if_pos hid] at hfind
      obtain ⟨a, ha, rfl⟩ := Option.map_eq_some_iff.mp hfind.symm
      have hbatch : a.batchId = b := (c.pay_batchId a).symm.trans hb
      exact ⟨a, Table.mem_of_find ha, hbatch, htarget a ha hbatch⟩
    · rw [if_neg hid] at hfind
      exact ⟨a', Table.mem_of_find hfind.symm, hb, Iff.rfl⟩

/-- A single write makes nothing paid, and nothing unpaid. -/
theorem paid_of_fits (hw : RolledUp w) (h : c.Applies w.db) (hfits : c.Fits w) :
    c.payment = none ∨ (c.payment.map Prod.snd ≠ some .paid ∧ ¬ w.Paid c.target) := by
  cases c with
  | heal seen status =>
      obtain ⟨hseen, hstatus, hne⟩ := hfits
      refine .inr ⟨fun heq => hne (Option.some.inj heq), fun hpaid => hne ?_⟩
      have hfin : some seen.status = some .finalized := hseen.symm.trans (hw.finalized _ hpaid)
      rw [Option.some.inj hfin] at hstatus
      exact (Option.some.inj hstatus).symm
  | create data => exact .inr ⟨by simp [PayoutWrite.payment], hfits.1⟩
  | reset seen data => exact .inr ⟨by simp [PayoutWrite.payment], hfits⟩
  | markFailed seen cause =>
      refine .inr ⟨by simp [PayoutWrite.payment], fun hpaid => ?_⟩
      obtain ⟨status, hstatus, hne, -⟩ := hfits
      exact hne (Option.some.inj (hstatus.symm.trans (hw.finalized _ hpaid)))
  | claimBuild | claimSubmit | noteBroadcastError | countRebroadcast | setStatus => exact .inl rfl
  | expire p => exact hfits.elim
  | expireAllocation p => exact hfits.elim
  | registerLegacy l => exact hfits.elim
  | finalize seen record slot time => exact hfits.elim

/-- A single write that inserts a payout finds its batch approved. -/
theorem inApproved_of_fits (h : c.Applies w.db) (hfits : c.Fits w)
    (hnone : w.db.payouts.find c.target = none) : w.InApproved c.target := by
  have hmet := h.2
  rw [hnone] at hmet
  cases c with
  | create data => exact hfits.2
  | heal seen status =>
      have hseen := hfits.1
      rw [World.payoutStatusOf, show w.db.payouts.find seen.paymentId = none from hnone] at hseen
      contradiction
  | reset | setStatus | markFailed => exact absurd hmet Bool.false_ne_true
  | claimBuild | claimSubmit | noteBroadcastError | countRebroadcast => exact hmet.elim
  | expire p => exact hfits.elim
  | expireAllocation p => exact hfits.elim
  | registerLegacy l => exact hfits.elim
  | finalize seen record slot time => exact hfits.elim

/-- A single write leaves a finalized payout finalized, if its allocation is
paid. -/
theorem finalized_of_fits (h : c.Applies w.db) (hfits : c.Fits w) (hpaid : w.Paid c.target)
    (hfin : w.Finalized c.target) :
    c.status = some .finalized ∨ (c.status = none ∧ w.Finalized c.target) := by
  obtain ⟨row, hrow, hstatus⟩ := Option.map_eq_some_iff.mp hfin
  have hmet := h.2
  rw [hrow] at hmet
  cases c with
  | heal | noteBroadcastError | countRebroadcast => exact .inr ⟨rfl, hfin⟩
  | create data => exact absurd hpaid hfits.1
  | reset seen data => exact absurd hpaid hfits
  | claimBuild | claimSubmit =>
      simp [PayoutWrite.need, PayoutWrite.Need.Met, hstatus] at hmet
  | setStatus seen status =>
      obtain ⟨-, old, hold, hin⟩ := hfits
      obtain rfl := Option.some.inj (hold.symm.trans hfin)
      simp at hin
  | markFailed seen cause =>
      obtain ⟨old, hold, hne, -⟩ := hfits
      exact absurd (Option.some.inj (hold.symm.trans hfin)) hne
  | expire p => exact hfits.elim
  | expireAllocation p => exact hfits.elim
  | registerLegacy l => exact hfits.elim
  | finalize seen record slot time => exact hfits.elim

theorem approved_apply_payout (b : BatchId) :
    ((Write.payout c).apply w).Approved b ↔ w.Approved b := by
  rw [World.Approved, Write.apply_payout_db, PayoutWrite.batches_apply]
  exact Iff.rfl

/-- Payouts that are written are in approved batches. -/
theorem inApproved_payout (hw : RolledUp w) (h : c.Applies w.db)
    (hnew : w.db.payouts.find c.target = none → w.InApproved c.target) (p : AllocationId)
    (hp : (((Write.payout c).apply w).db.payouts.find p).isSome) :
    ((Write.payout c).apply w).InApproved p := by
  intro a' ha'
  rw [approved_apply_payout]
  have hfind := PayoutWrite.find_allocations_apply h p
  rw [show (c.apply w.db).allocations.find p = some a' from ha'] at hfind
  by_cases hid : c.target = p
  · subst hid
    rw [if_pos rfl] at hfind
    obtain ⟨a, ha, rfl⟩ := Option.map_eq_some_iff.mp hfind.symm
    rw [PayoutWrite.pay_batchId]
    cases hold : w.db.payouts.find c.target with
    | none => exact hnew hold a ha
    | some row => exact hw.approved _ (by rw [hold]; rfl) a ha
  · rw [if_neg hid] at hfind
    rw [Write.apply_payout_db, PayoutWrite.find_payouts_apply h, if_neg hid] at hp
    exact hw.approved p hp a' hfind.symm

/-- A command that sets no payment columns pays nothing. -/
theorem paid_apply_of_none (h : c.Applies w.db) (hc : c.payment = none) :
    ((Write.payout c).apply w).Paid c.target ↔ w.Paid c.target := by
  have hiff := paid_apply h c.target
  rw [if_pos rfl, hc] at hiff
  simpa using hiff

/-- A payout command that pays nothing. -/
theorem RolledUp.payout (hw : RolledUp w) (h : c.Applies w.db)
    (hpaid : c.payment = none ∨ (c.payment.map Prod.snd ≠ some .paid ∧ ¬ w.Paid c.target))
    (hfin : w.Paid c.target → c.status = some .finalized ∨ (c.status = none ∧ w.Finalized c.target))
    (hnew : w.db.payouts.find c.target = none → w.InApproved c.target) :
    RolledUp ((Write.payout c).apply w) where
  exact b hb happr hrows := by
    rw [Write.apply_payout_db, PayoutWrite.batches_apply] at hb
    have hsame : SameRows w ((Write.payout c).apply w) b.id := by
      refine sameRows_payout h fun a ha _ => ?_
      rcases hpaid with hnone | ⟨hne, hnot⟩
      · rw [PayoutWrite.pay, hnone]
      · refine iff_of_false (fun hpay => ?_)
          fun hpay => hnot (Option.map_eq_some_iff.mpr ⟨a, ha, hpay⟩)
        rw [PayoutWrite.pay] at hpay
        cases hc : c.payment with
        | none =>
            rw [hc] at hpay
            exact hnot (Option.map_eq_some_iff.mpr ⟨a, ha, hpay⟩)
        | some x =>
            rw [hc] at hpay
            exact hne (by rw [hc]; exact congrArg some hpay)
    exact hw.exact_of_same hsame hb happr hrows
  finalized p hp := by
    have hbefore : w.Paid p := by
      rw [paid_apply h] at hp
      split at hp
      · rcases hp with hpay | ⟨-, hp⟩
        · rcases hpaid with hnone | ⟨hne, -⟩
          · rw [hnone] at hpay
            contradiction
          · exact absurd hpay hne
        · exact hp
      · exact hp
    rw [finalized_apply h]
    split
    · next hid => exact hid ▸ hfin (hid ▸ hbefore)
    · exact hw.finalized p hbefore
  approved := inApproved_payout hw h hnew

/-- A payout that is finalized, with the rollup of its batch. -/
theorem RolledUp.paid (hw : RolledUp w) (h : c.Applies w.db)
    (hfin : ((Write.payout c).apply w).Finalized c.target) {a : WorkerAllocation}
    (ha : w.db.allocations.find c.target = some a)
    (hnew : w.db.payouts.find c.target = none → w.Approved a.batchId) :
    RolledUp (((Write.payout c).apply w).rolledUp a.batchId) where
  exact b hb happr hrows := by
    rw [allocations_rolledUp] at hrows
    obtain ⟨hsame, hother⟩ := status_rolledUp hb happr
    by_cases hid : b.id = a.batchId
    · obtain ⟨hpaid, hpayable, hpartly⟩ := paymentStatus_exact _ (hid ▸ hrows)
      rw [← hsame hid, ← hid] at hpaid hpayable hpartly
      exact SameRows.exact (.of_eq allocations_rolledUp) ⟨hpaid, hpayable, hpartly⟩
    · have hkept : SameRows w ((Write.payout c).apply w) b.id := by
        refine sameRows_payout h fun x hx hxb => absurd hxb fun hxb => hid ?_
        obtain rfl := Option.some.inj (ha.symm.trans hx)
        exact hxb.symm
      have hmem := hother hid
      rw [Write.apply_payout_db, PayoutWrite.batches_apply] at hmem
      exact hw.exact_of_same (hkept.congr allocations_rolledUp) hmem happr
        (by rwa [allocations_rolledUp])
  finalized p hp := by
    rw [World.Paid, allocations_rolledUp] at hp
    rw [World.Finalized, payouts_rolledUp]
    by_cases hid : c.target = p
    · exact hid ▸ hfin
    · have hbefore : w.Paid p := by
        have hiff := paid_apply h p
        rw [if_neg hid] at hiff
        exact hiff.mp hp
      have hiff := finalized_apply h p
      rw [if_neg hid] at hiff
      exact hiff.mpr (hw.finalized p hbefore)
  approved p hp := by
    rw [payouts_rolledUp] at hp
    intro x hx
    rw [allocations_rolledUp] at hx
    refine approved_rolledUp (inApproved_payout hw h (fun hnone x hx => ?_) p hp x hx)
    obtain rfl := Option.some.inj (ha.symm.trans hx)
    exact hnew hnone

end Payout

/-- What the calls that pay restore. -/
theorem completes_rollup (p : AllocationId) : Completes MergeLeavesUnpaid p RolledUp where
  payout c w hc hw _ h hfits :=
    hw.payout h (paid_of_fits hw h hfits)
      (fun hpaid => finalized_of_fits h hfits hpaid (hw.finalized _ hpaid))
      (inApproved_of_fits h hfits)
  paid c w a hc hw h _ hfin ha hnew := by
    subst hc
    exact hw.paid h hfin ha hnew
  expired w hw h := by
    obtain ⟨a, ha⟩ := Option.isSome_iff_exists.mp h.1
    have hmet := h.2
    cases hrow : w.db.payouts.find p with
    | none =>
        rw [PayoutWrite.target, hrow] at hmet
        exact hmet.elim
    | some row =>
        rw [PayoutWrite.target, hrow] at hmet
        have hinitiated : row.status = .initiated := List.mem_singleton.mp hmet
        have hopen : ¬ w.Paid p := fun hpaid => by
          have hfin := hw.finalized p hpaid
          rw [World.Finalized, hrow, Option.map_some, hinitiated] at hfin
          contradiction
        have hfailed : RolledUp ((Write.payout (.expire p)).apply w) :=
          hw.payout h (.inl rfl) (fun hpaid => absurd hpaid hopen) fun hnone => by
            rw [PayoutWrite.target, hrow] at hnone
            contradiction
        have hstill : ¬ ((Write.payout (.expire p)).apply w).Paid p := fun hpaid =>
          hopen ((paid_apply_of_none h rfl).mp hpaid)
        have happ : (PayoutWrite.expireAllocation p).Applies
            ((Write.payout (.expire p)).apply w).db :=
          ⟨Option.isSome_iff_exists.mpr ⟨_, find_allocation_apply_target h ha⟩, trivial⟩
        refine hfailed.payout happ (.inr ⟨by simp [PayoutWrite.payment], hstill⟩)
          (fun hpaid => absurd hpaid hstill) fun hnone => ?_
        have hstatus : ((Write.payout (.expire p)).apply w).payoutStatusOf p = some .failed :=
          payoutStatusOf_apply_target h
        rw [World.payoutStatusOf, show ((Write.payout (.expire p)).apply w).db.payouts.find p = none
          from hnone] at hstatus
        contradiction
  broadcast tx w hw := hw.congr rfl rfl rfl

/-! ## Batch commands -/

section Batch

variable {w : World}

/-- A batch that is not approved has no paid allocation. -/
theorem RolledUp.nonePaid (hw : RolledUp w) {b : BatchId} (h : ¬ w.Approved b) : w.NonePaid b := by
  intro a ha hb hpaid
  have hrow := Table.find_key ha
  have hfin := hw.finalized a.id (by rw [World.Paid, hrow, Option.map_some, hpaid])
  obtain ⟨row, hpayout, -⟩ := Option.map_eq_some_iff.mp hfin
  exact h (hb ▸ hw.approved a.id (by rw [hpayout]; rfl) a hrow)

/-- A batch command that leaves the rollup exact, and approved batches
approved. -/
theorem RolledUp.batch (hw : RolledUp w) {c : BatchWrite}
    (hexact : ((Write.batch c).apply w).RollupExact)
    (happr : ∀ b, w.Approved b → ((Write.batch c).apply w).Approved b) :
    RolledUp ((Write.batch c).apply w) where
  exact := hexact
  finalized p hp := by
    obtain ⟨a', ha', hpaid⟩ := Option.map_eq_some_iff.mp hp
    rw [World.Finalized, Write.apply_batch_db, BatchWrite.payouts_apply]
    rcases BatchWrite.allocation_before ha' with ⟨-, hunpaid⟩ | ⟨a, ha, -, hsame⟩
    · rw [hunpaid] at hpaid
      contradiction
    · exact hw.finalized p (Option.map_eq_some_iff.mpr ⟨a, ha, hsame.trans hpaid⟩)
  approved p hp a' ha' := by
    rw [Write.apply_batch_db, BatchWrite.payouts_apply] at hp
    obtain ⟨row, hrow⟩ := Option.isSome_iff_exists.mp hp
    obtain ⟨a, ha⟩ := w.db.find_allocation_of_payout hrow
    obtain ⟨x, hx, -, hbatch, -⟩ := BatchWrite.payoutStatus_apply ha hrow c
    obtain rfl := Option.some.inj (hx.symm.trans ha')
    exact hbatch ▸ happr a.batchId (hw.approved p hp a ha)

theorem exact_of_nonePaid {r : AllocationBatch} (hr : r.status = .payable) (hnone : w.NonePaid r.id)
    (hrows : ∃ a ∈ w.db.allocations.rows, a.batchId = r.id) : w.Exact r := by
  obtain ⟨a, ha, hb⟩ := hrows
  have hall : ¬ w.AllPaid r.id := fun hall => hnone a ha hb (hall a ha hb)
  exact ⟨by simp [hr, hall], by simp [hr, hnone], by simp [hr, hnone]⟩

/-- A batch is approved while none of its allocations is paid. -/
theorem RolledUp.approve (hw : RolledUp w) {seen : AllocationBatch}
    (hseen : w.db.batches.find seen.id = some seen) (hstatus : seen.status = .calculated)
    (u : UserId) (now : Time) : RolledUp ((Write.batch (.approve seen u now)).apply w) := by
  have h : (BatchWrite.approve seen u now).Applies w.db := by
    rw [BatchWrite.Applies, hseen]
    rfl
  have hnot : ¬ w.Approved seen.id := fun happr => by
    obtain ⟨r, hr, hs⟩ := World.approved_iff.mp happr
    obtain rfl := Option.some.inj (hseen.symm.trans hr)
    rw [hstatus] at hs
    exact absurd hs (by decide)
  refine hw.batch (fun r hr happr hrows => ?_) fun b hb => ?_
  · have hfind := Table.find_key hr
    rw [Write.apply_batch_db, BatchWrite.find_batches_approve h] at hfind
    have hsame : SameRows w ((Write.batch (.approve seen u now)).apply w) r.id :=
      .of_eq (BatchWrite.allocations_approve seen u now w.db)
    split at hfind
    · next hid =>
      obtain ⟨old, -, hold⟩ := Option.map_eq_some_iff.mp hfind
      have hpayable : r.status = .payable := by
        rw [← hold]
        rfl
      exact exact_of_nonePaid hpayable (hsame.nonePaid.mpr (hw.nonePaid (hid ▸ hnot))) hrows
    · exact hw.exact_of_same hsame (Table.mem_of_find hfind) happr hrows
  · have hne : seen.id ≠ b := fun hid => hnot (hid ▸ hb)
    rw [World.approved_iff] at hb ⊢
    rwa [Write.apply_batch_db, BatchWrite.find_batches_approve h, if_neg hne]

/-- A batch that is rejected was not approved. -/
theorem RolledUp.reject (hw : RolledUp w) {seen : AllocationBatch}
    (hseen : w.db.batches.find seen.id = some seen)
    (hstatus : seen.status ∈ [AllocationBatchStatus.calculated, .reviewRequired])
    (u : UserId) (reason : String) : RolledUp ((Write.batch (.reject seen u reason)).apply w) := by
  have h : (BatchWrite.reject seen u reason).Applies w.db := by
    rw [BatchWrite.Applies, hseen]
    rfl
  refine hw.batch (fun r hr happr hrows => ?_) fun b hb => ?_
  · have hfind := Table.find_key hr
    rw [Write.apply_batch_db, BatchWrite.find_batches_reject h] at hfind
    have hsame : SameRows w ((Write.batch (.reject seen u reason)).apply w) r.id :=
      .of_eq (BatchWrite.allocations_reject seen u reason w.db)
    split at hfind
    · obtain ⟨old, -, hold⟩ := Option.map_eq_some_iff.mp hfind
      rw [← hold] at happr
      exact absurd happr (by simp [BatchWrite.setStatus, AllocationBatchStatus.Approved])
    · exact hw.exact_of_same hsame (Table.mem_of_find hfind) happr hrows
  · rw [World.approved_iff] at hb ⊢
    rw [Write.apply_batch_db, BatchWrite.find_batches_reject h]
    obtain ⟨r, hr, hs⟩ := hb
    have hne : seen.id ≠ b := fun hid => by
      obtain rfl := Option.some.inj (hseen.symm.trans (hid ▸ hr))
      rcases List.mem_pair.mp hstatus with heq | heq <;> rw [heq] at hs <;>
        exact absurd hs (by decide)
    rw [if_neg hne]
    exact ⟨r, hr, hs⟩

/-- A calculation is saved for a batch that is not approved. -/
theorem RolledUp.saveCalculation (hw : RolledUp w) {seen : Option AllocationBatch} {c : Calculation}
    (hseen : w.db.batches.find c.batchId = seen) (hstatus : ∀ b ∈ seen, b.status.Recalculable) :
    RolledUp ((Write.batch (.saveCalculation seen c)).apply w) := by
  by_cases h : (BatchWrite.saveCalculation seen c).Applies w.db
  · refine hw.batch (fun r hr happr hrows => ?_) fun b hb => ?_
    · have hfind := Table.find_key hr
      rw [Write.apply_batch_db, BatchWrite.find_batches_saveCalculation h] at hfind
      split at hfind
      · obtain rfl := Option.some.inj hfind
        exact absurd happr c.status_recalculable.not_approved
      · next hid =>
        have hrow := BatchWrite.rowsOf_saveCalculation_of_ne h hid
        have hmem (a : WorkerAllocation) : (a ∈ ((Write.batch (.saveCalculation seen c)).apply
            w).db.allocations.rows ∧ a.batchId = r.id) ↔
            (a ∈ w.db.allocations.rows ∧ a.batchId = r.id) := by
          rw [← BatchWrite.mem_rowsOf, ← BatchWrite.mem_rowsOf, ← hrow]
          exact Iff.rfl
        have hsame : SameRows w ((Write.batch (.saveCalculation seen c)).apply w) r.id :=
          ⟨fun a ha hb => ⟨a, ((hmem a).mpr ⟨ha, hb⟩).1, hb, Iff.rfl⟩,
            fun a ha hb => ⟨a, ((hmem a).mp ⟨ha, hb⟩).1, hb, Iff.rfl⟩⟩
        exact hw.exact_of_same hsame (Table.mem_of_find hfind) happr hrows
    · rw [World.approved_iff] at hb ⊢
      rw [Write.apply_batch_db, BatchWrite.find_batches_saveCalculation h]
      obtain ⟨r, hr, hs⟩ := hb
      have hne : c.batchId ≠ b := fun hid => by
        rw [hid, hr] at hseen
        exact (hstatus r hseen.symm).not_approved hs
      rw [if_neg hne]
      exact ⟨r, hr, hs⟩
  · rw [Write.apply, BatchWrite.apply, if_neg h]
    exact hw

/-! A held share that is merged takes an unpaid row away. -/

section Merge

variable {held own : WorkerAllocation} {workerId : WorkerId}

theorem merge_back (h : (BatchWrite.attach held workerId).Applies w.db)
    (hown : BatchWrite.ownRow w.db held workerId = some own) {a' : WorkerAllocation}
    (ha' : a' ∈ ((Write.batch (.attach held workerId)).apply w).db.allocations.rows) :
    ∃ a ∈ w.db.allocations.rows, a.id ≠ held.id ∧ a.batchId = a'.batchId ∧
      a.payoutStatus = a'.payoutStatus := by
  have hfind := Table.find_key ha'
  rw [Write.apply_batch_db, BatchWrite.find_allocations_merge h hown] at hfind
  split at hfind
  · contradiction
  · next hheld =>
    split at hfind
    · next hid =>
      obtain rfl := Option.some.inj hfind
      have hmem := Table.mem_of_find (BatchWrite.find_ownRow hown).1
      exact ⟨own, hmem, fun heq => hheld heq.symm, rfl, rfl⟩
    · exact ⟨a', Table.mem_of_find hfind, fun heq => hheld heq.symm, rfl, rfl⟩

theorem merge_forth (h : (BatchWrite.attach held workerId).Applies w.db)
    (hown : BatchWrite.ownRow w.db held workerId = some own) {a : WorkerAllocation}
    (ha : a ∈ w.db.allocations.rows) (hne : a.id ≠ held.id) :
    ∃ a' ∈ ((Write.batch (.attach held workerId)).apply w).db.allocations.rows,
      a'.batchId = a.batchId ∧ a'.payoutStatus = a.payoutStatus := by
  have hfind := BatchWrite.find_allocations_merge h hown a.id
  rw [if_neg hne.symm] at hfind
  by_cases hid : own.id = a.id
  · obtain rfl := w.db.allocations.eq_of_key_eq
      (Table.mem_of_find (BatchWrite.find_ownRow hown).1) ha hid
    rw [if_pos hid] at hfind
    exact ⟨_, Table.mem_of_find hfind, rfl, rfl⟩
  · rw [if_neg hid, Table.find_key ha] at hfind
    exact ⟨a, Table.mem_of_find hfind, rfl, rfl⟩

/-- A merge is exact when it leaves an unpaid row. -/
theorem RolledUp.merge_exact (hw : RolledUp w)
    (h : (BatchWrite.attach held workerId).Applies w.db)
    (hown : BatchWrite.ownRow w.db held workerId = some own)
    (hheld : w.db.allocations.find held.id = some held)
    (hok : MergeLeavesUnpaid (.batch (.attach held workerId)) w) :
    ((Write.batch (.attach held workerId)).apply w).RollupExact := by
  have hheldmem := Table.mem_of_find hheld
  have hunpaid : held.payoutStatus ≠ .paid := fun hpaid => by
    have hfin := hw.finalized held.id (by rw [World.Paid, hheld, Option.map_some, hpaid])
    obtain ⟨row, hrow, -⟩ := Option.map_eq_some_iff.mp hfin
    have hfree := h.2 (by rw [hown]; rfl) row (Table.mem_of_find hrow) held hheldmem
      (Table.key_of_find hrow).symm
    simp at hfree
  intro r hr happr hrows
  rw [Write.apply_batch_db, BatchWrite.batches_attach] at hr
  by_cases hid : r.id = held.batchId
  · have hexact := hw.exact r hr happr ⟨held, hheldmem, hid.symm⟩
    have hall : ¬ w.AllPaid r.id := fun hall => hunpaid (hall held hheldmem hid.symm)
    have hall' : ¬ ((Write.batch (.attach held workerId)).apply w).AllPaid r.id := fun hall' => by
      obtain ⟨a, ha, hb, hne, hnot⟩ := hok (by rw [hown]; rfl) ⟨r, hr, hid, happr⟩
      obtain ⟨a', ha', hb', hsame⟩ := merge_forth h hown ha hne
      exact hnot (hsame.symm.trans (hall' a' ha' (hb'.trans (hb.trans hid.symm))))
    have hnone : ((Write.batch (.attach held workerId)).apply w).NonePaid r.id ↔
        w.NonePaid r.id := by
      constructor
      · intro hnone a ha hb hpaid
        have hne : a.id ≠ held.id := fun heq => by
          obtain rfl := w.db.allocations.eq_of_key_eq ha hheldmem heq
          exact hunpaid hpaid
        obtain ⟨a', ha', hb', hsame⟩ := merge_forth h hown ha hne
        exact hnone a' ha' (hb'.trans hb) (hsame.trans hpaid)
      · intro hnone a' ha' hb' hpaid
        obtain ⟨a, ha, -, hb, hsame⟩ := merge_back h hown ha'
        exact hnone a ha (hb.trans hb') (hsame.trans hpaid)
    exact
      { paid := iff_of_false (fun heq => hall (hexact.paid.mp heq)) hall'
        payable := hexact.payable.trans hnone.symm
        partiallyPaid := by simp [hexact.partiallyPaid, hall, hall', hnone] }
  · refine hw.exact_of_same ⟨fun a ha hb => ?_, fun a' ha' hb' => ?_⟩ hr happr hrows
    · have hne : a.id ≠ held.id := fun heq => by
        obtain rfl := w.db.allocations.eq_of_key_eq ha hheldmem heq
        exact hid hb.symm
      obtain ⟨a', ha', hb', hsame⟩ := merge_forth h hown ha hne
      exact ⟨a', ha', hb'.trans hb, by rw [hsame]⟩
    · obtain ⟨a, ha, -, hb, hsame⟩ := merge_back h hown ha'
      exact ⟨a, ha, hb.trans hb', by rw [hsame]⟩

end Merge

/-- A held share is attached to its worker. -/
theorem RolledUp.attach (hw : RolledUp w) {held : WorkerAllocation} {workerId : WorkerId}
    (hheld : w.db.allocations.find held.id = some held)
    (hok : MergeLeavesUnpaid (.batch (.attach held workerId)) w) :
    RolledUp ((Write.batch (.attach held workerId)).apply w) := by
  by_cases h : (BatchWrite.attach held workerId).Applies w.db
  · refine hw.batch ?_ fun b hb => ?_
    · cases hown : BatchWrite.ownRow w.db held workerId with
      | some own => exact hw.merge_exact h hown hheld hok
      | none =>
          intro r hr happr hrows
          rw [Write.apply_batch_db, BatchWrite.batches_attach] at hr
          have hfind := BatchWrite.find_allocations_setWorker h hown
          refine hw.exact_of_same ⟨fun a ha hb => ?_, fun a' ha' hb' => ?_⟩ hr happr hrows
          · have hrow := hfind a.id
            by_cases hid : held.id = a.id
            · obtain rfl := w.db.allocations.eq_of_key_eq (Table.mem_of_find hheld) ha hid
              rw [if_pos rfl, hheld, Option.map_some] at hrow
              exact ⟨_, Table.mem_of_find hrow, hb, Iff.rfl⟩
            · rw [if_neg hid, Table.find_key ha] at hrow
              exact ⟨a, Table.mem_of_find hrow, hb, Iff.rfl⟩
          · have hrow := (hfind a'.id).symm.trans (Table.find_key ha')
            by_cases hid : held.id = a'.id
            · rw [if_pos hid, hheld, Option.map_some] at hrow
              obtain rfl := Option.some.inj hrow
              exact ⟨held, Table.mem_of_find hheld, hb', Iff.rfl⟩
            · rw [if_neg hid] at hrow
              exact ⟨a', Table.mem_of_find hrow, hb', Iff.rfl⟩
    · rwa [World.Approved, Write.apply_batch_db, BatchWrite.batches_attach]
  · rw [Write.apply, BatchWrite.apply, if_neg h]
    exact hw

end Batch

/-! ## The result -/

theorem World.NoPayouts.rolledUp {w : World} (h : w.NoPayouts) (hexact : w.RollupExact)
    (hunpaid : ∀ p, ¬ w.Paid p) : RolledUp w where
  exact := hexact
  finalized p hp := absurd hp (hunpaid p)
  approved p hp := by
    rw [h.find] at hp
    contradiction

/-- **The rollup is exact** after every sequence of calls in which no merge takes
the last unpaid row of an approved batch. -/
theorem rollup_exact [Collation] {s : World} (hs : RolledUp s) {ops : List (Op Call EnvMove)}
    (had : service.AdmittedAll MergeLeavesUnpaid (fun _ _ => True) ops s) :
    (service.evalAll ops s).RollupExact := by
  refine (service_ends completes_rollup (fun c w hc hw hok hk => ?_) (fun e w hw _ => ?_) hs
    had).exact
  · cases c with
    | record c =>
        exact hw.congr (c.payouts_apply w.db) (c.allocations_apply w.db) (c.batches_apply w.db)
    | payout c => exact hc.elim
    | broadcast p tx => exact hc.elim
    | batch c =>
        cases c with
        | saveCalculation seen c => exact hw.saveCalculation hk.1.still hk.2.1
        | approve seen u now => exact hw.approve hk.1.still hk.2 u now
        | reject seen u reason => exact hw.reject hk.1.still hk.2 u reason
        | rollup id status => exact hc.elim
        | attach held workerId =>
            obtain ⟨⟨t, -, hkept, hrow⟩, hnone⟩ := hk
            exact hw.attach (hkept.held held hrow hnone) hok
  · exact hw.congr (e.payouts_apply w) (e.allocations_apply w) (e.batches_apply w)

/-! ## The last unpaid row -/

section Concrete

open Scenario

/-- The batch with a held share is approved. -/
def Scenario.approvedHeldOps : List (Op Call EnvMove) :=
  opening.map .env ++
    [.env (.record (.saveShift heldShift)), .call (.allocation calculateDay),
      .call (.allocation approveDay),
      .env (.record (.propose ⟨venue, "square", "held"⟩ worker))]

/-- The worker accepts before the share is paid. -/
theorem rollup_exact_of_accepted :
    ((@service byCodePoint).evalAll (approvedHeldOps ++ [.call accept, .call (register 2)])
      World.empty).RollupExact :=
  @rollup_exact byCodePoint World.empty
    (World.NoPayouts.rolledUp ⟨rfl, rfl⟩ (by decide)
      fun p => by simp [World.Paid, World.empty, Db.empty])
    _ (by decide +kernel)

/-- The worker's own share is paid, then the worker accepts: the held share is
merged, every row is paid, and the batch is not. -/
theorem rollup_inexact :
    let t := (@service byCodePoint).evalAll (approvedHeldOps ++ [.call (register 2), .call accept])
      World.empty
    ¬ t.RollupExact ∧ t.AllPaid batch ∧
      (t.db.batches.find batch).map AllocationBatch.status = some .partiallyPaid := by
  decide +kernel

end Concrete

end ServeProof
