import ServeProof.Interleave.Eval
import ServeProof.Scenario
import ServeProof.Services.Close

/-!
# ServeProof.Buckets

Whether the five buckets of a settlement close are the shares of its batch, each
counted once.

Three buckets go by the rail and two by the worker, and no bucket looks at what the
others take.  A worker's share on a rail that has no bucket is counted nowhere, and a
held share on a rail that has one is counted twice.
-/

namespace ServeProof

open Interleave

/-! ## Buckets -/

inductive Bucket where
  | cash | payroll | usdc | unassigned | held
  deriving DecidableEq, Repr

namespace Bucket

def all : List Bucket := [cash, payroll, usdc, unassigned, held]

/-- The shares a bucket counts. -/
def Counts : Bucket → WorkerAllocation → Prop
  | cash, a => HasRail [.cashRetained, .cashDrawer] a
  | payroll, a => HasRail [.payroll] a
  | usdc, a => HasRail [.usdc] a
  | unassigned, a => a.Connected ∧ railFor a = none
  | held, a => ¬ a.Connected

instance decidableCounts (b : Bucket) (a : WorkerAllocation) : Decidable (b.Counts a) :=
  match b with
  | cash => inferInstanceAs (Decidable (HasRail [.cashRetained, .cashDrawer] a))
  | payroll => inferInstanceAs (Decidable (HasRail [.payroll] a))
  | usdc => inferInstanceAs (Decidable (HasRail [.usdc] a))
  | unassigned => inferInstanceAs (Decidable (a.Connected ∧ railFor a = none))
  | held => inferInstanceAs (Decidable (¬ a.Connected))

/-- The total of the shares a bucket counts. -/
def sum (b : Bucket) (allocations : List WorkerAllocation) : Int :=
  totalUsdCents (allocations.filter fun a => decide (b.Counts a))

end Bucket

/-- The total of a bucket in a close. -/
def SettlementClose.total (c : SettlementClose) : Bucket → Int
  | .cash => c.cash.totalUsdCents
  | .payroll => c.payroll.totalUsdCents
  | .usdc => c.usdc.totalUsdCents
  | .unassigned => c.unassigned.totalUsdCents
  | .held => c.held.totalUsdCents

/-- The bucket a close has for a rail. -/
def WorkerPayoutRail.bucket : WorkerPayoutRail → Option Bucket
  | cashRetained | cashDrawer => some .cash
  | payroll => some .payroll
  | usdc => some .usdc
  | payoutProvider | bankReference => none

/-- A rail of a worker's share has a bucket, and a rail of a held share has none. -/
def WorkerAllocation.Accountable (a : WorkerAllocation) : Prop :=
  ∀ rail ∈ railFor a, a.Connected ↔ rail.bucket.isSome

/-! ## One share -/

section Share

variable {a : WorkerAllocation} {rail : WorkerPayoutRail} {b : Bucket}

/-- A share with a rail is in the bucket of the rail, and in that of the held shares if
it is held. -/
theorem counts_iff_of_rail (hrail : railFor a = some rail) :
    b.Counts a ↔ rail.bucket = some b ∨ b = .held ∧ ¬ a.Connected := by
  cases b <;> cases rail <;> simp [Bucket.Counts, HasRail, hrail, WorkerPayoutRail.bucket]

theorem counts_iff_of_none (hrail : railFor a = none) :
    b.Counts a ↔ b = if a.Connected then .unassigned else .held := by
  by_cases hconn : a.Connected <;> cases b <;> simp [Bucket.Counts, HasRail, hrail, hconn]

/-- No rail has the bucket of the held shares. -/
theorem bucket_ne_held (rail : WorkerPayoutRail) : rail.bucket ≠ some .held := by
  cases rail <;> simp [WorkerPayoutRail.bucket]

/-- A share is counted in exactly one bucket where a worker's share has a bucket for its
rail and a held share has not. -/
theorem existsUnique_bucket_iff (a : WorkerAllocation) :
    (∃! b : Bucket, b.Counts a) ↔ a.Accountable := by
  cases hrail : railFor a with
  | none =>
      have hone : ∃! b : Bucket, b.Counts a := by
        simp only [counts_iff_of_none hrail]
        exact existsUnique_eq
      exact iff_of_true hone fun rail h => absurd (hrail ▸ h) (Option.not_mem_none rail)
  | some rail =>
      have haccountable : a.Accountable ↔ (a.Connected ↔ rail.bucket.isSome) := by
        simp [WorkerAllocation.Accountable, hrail]
      rw [haccountable]
      simp only [counts_iff_of_rail hrail]
      cases hbucket : rail.bucket with
      | none => by_cases hconn : a.Connected <;> simp [hconn]
      | some b₀ =>
          have hne : b₀ ≠ .held := fun h => bucket_ne_held rail (h ▸ hbucket)
          by_cases hconn : a.Connected
          · simp [hconn]
          · refine iff_of_false ?_ (by simp [hconn])
            rintro ⟨b, -, hunique⟩
            have hb₀ := hunique b₀ (.inl rfl)
            have hheld := hunique .held (.inr ⟨rfl, hconn⟩)
            exact hne (hb₀.trans hheld.symm)

/-- What a share that is counted once adds to the buckets. -/
theorem sum_of_existsUnique (h : ∃! b : Bucket, b.Counts a) (n : Int) :
    (Bucket.all.map fun b => if b.Counts a then n else 0).sum = n := by
  obtain ⟨b₀, hb₀, hunique⟩ := h
  have hiff (b : Bucket) : b.Counts a ↔ b = b₀ := ⟨hunique b, fun hb => hb ▸ hb₀⟩
  simp only [hiff]
  cases b₀ <;> simp [Bucket.all]

end Share

/-! ## A batch -/

theorem Bucket.sum_cons (b : Bucket) (a : WorkerAllocation) (as : List WorkerAllocation) :
    b.sum (a :: as) = (if b.Counts a then a.netAllocatedUsdCents else 0) + b.sum as := by
  by_cases h : b.Counts a <;> simp [Bucket.sum, totalUsdCents, h]

/-- The buckets of shares that are counted once add up. -/
theorem sum_buckets {allocations : List WorkerAllocation}
    (h : ∀ a ∈ allocations, ∃! b : Bucket, b.Counts a) :
    (Bucket.all.map fun b => b.sum allocations).sum = totalUsdCents allocations := by
  induction allocations with
  | nil => rfl
  | cons a as ih =>
      simp only [Bucket.sum_cons, List.sum_map_add]
      rw [sum_of_existsUnique (h a List.mem_cons_self),
        ih fun x hx => h x (List.mem_cons_of_mem a hx), totalUsdCents, totalUsdCents,
        List.map_cons, List.sum_cons]

/-- The shares that a close of the date is about. -/
def World.allocationsOn (w : World) (venueId : VenueId) (businessDate : String) :
    List WorkerAllocation :=
  (w.shares (w.batchOn venueId businessDate)).map Prod.fst

theorem total_closeOf {sourcePayoutRail : TipId → Option WorkerPayoutRail} {businessDate : String}
    {batch : Option AllocationBatch} {shares : List (WorkerAllocation × Option WalletStatus)}
    {cashTips : List TipEvidence} (b : Bucket) :
    (closeOf sourcePayoutRail businessDate batch shares cashTips).total b =
      b.sum (shares.map Prod.fst) := by
  cases b <;> rfl

section Close

variable (sourcePayoutRail : TipId → Option WorkerPayoutRail) (businessDate : String)
  {venueId : VenueId} {w : World}

/-- A close changes nothing, and its totals are those of the buckets. -/
theorem eval_settlementClose (hvenue : (w.db.venues.find venueId).isSome) :
    ∃ c, (settlementClose sourcePayoutRail businessDate venueId).eval Write.apply w = (.ok c, w) ∧
      ∀ b, c.total b = b.sum (w.allocationsOn venueId businessDate) := by
  obtain ⟨venue, hvenue⟩ := Option.isSome_iff_exists.mp hvenue
  refine ⟨closeOf sourcePayoutRail businessDate (w.batchOn venueId businessDate)
    (w.shares (w.batchOn venueId businessDate)) (w.cashTipsOn venueId businessDate), ?_,
    total_closeOf⟩
  rw [settlementClose, Prog.eval_get_bind, hvenue, Prog.eval_orThrow_bind]
  rfl

/-- The shares of the batch are counted in one bucket each, and the totals of the buckets
add up to the batch, exactly where a worker's share has a bucket for its rail and a held
share has not. -/
theorem settlementClose_accounts_iff (hvenue : (w.db.venues.find venueId).isSome) :
    ∃ c, (settlementClose sourcePayoutRail businessDate venueId).eval Write.apply w = (.ok c, w) ∧
      (∀ b, c.total b = b.sum (w.allocationsOn venueId businessDate)) ∧
      ((∀ a ∈ w.allocationsOn venueId businessDate, ∃! b : Bucket, b.Counts a) ∧
          (Bucket.all.map c.total).sum = totalUsdCents (w.allocationsOn venueId businessDate) ↔
        ∀ a ∈ w.allocationsOn venueId businessDate, a.Accountable) := by
  obtain ⟨c, heval, htotal⟩ := eval_settlementClose sourcePayoutRail businessDate hvenue
  refine ⟨c, heval, htotal, ?_⟩
  simp only [← existsUnique_bucket_iff]
  constructor
  · rintro ⟨honce, -⟩
    exact honce
  · intro honce
    refine ⟨honce, ?_⟩
    rw [← sum_buckets honce]
    exact congrArg List.sum (List.map_congr_left fun b _ => htotal b)

end Close

section Concrete

open Scenario

/-- A batch of a share that is held, allocation 1, and of one of the worker, allocation
2, each worth 250 cents. -/
def Scenario.heldAndOwn : World :=
  ((@calculate byCodePoint venue date none none 0).eval Write.apply
    (([.saveVenue ⟨venue, "Venue", some (.key venueKey)⟩,
        .addWallet ⟨1, .key workerKey, .active⟩,
        .saveWorker ⟨worker, "worker-user", "Worker", some 1⟩,
        .createVersion venue policy,
        .saveShift shift,
        .saveShift heldShift,
        .saveTip tip] : List RecordWrite).foldl (fun w c => (Write.record c).apply w)
      World.empty)).2

/-- The world once a manager has planned a rail for an allocation. -/
def Scenario.planned (allocationId : AllocationId) (rail : WorkerPayoutRail) : World :=
  ((setPlannedRail allocationId rail).eval RailWrite.apply heldAndOwn).2

/-- The totals of the close of a world, in the order of the buckets. -/
def Scenario.totals (w : World) : Option (List Int) :=
  ((settlementClose (fun _ => none) date venue).eval Write.apply w).1.toOption.map fun c =>
    Bucket.all.map c.total

/-- The share of the worker is planned for payroll. -/
theorem settlementClose_accounts_payroll :
    let w := planned 2 .payroll
    ∃ c, (settlementClose (fun _ => none) date venue).eval Write.apply w = (.ok c, w) ∧
      (∀ b, c.total b = b.sum (w.allocationsOn venue date)) ∧
      ((∀ a ∈ w.allocationsOn venue date, ∃! b : Bucket, b.Counts a) ∧
          (Bucket.all.map c.total).sum = totalUsdCents (w.allocationsOn venue date) ↔
        ∀ a ∈ w.allocationsOn venue date, a.Accountable) :=
  settlementClose_accounts_iff (fun _ => none) date (by decide +kernel)

/-- A share that is planned for a bank transfer is in no bucket, and a held share that is
planned for payroll is in two. -/
theorem settlementClose_loses_and_doubles :
    let lost := planned 2 .bankReference
    let doubled := planned 1 .payroll
    totals lost = some [0, 0, 0, 0, 250] ∧ totalUsdCents (lost.allocationsOn venue date) = 500 ∧
      (∃ a ∈ lost.allocationsOn venue date, ∀ b : Bucket, ¬ b.Counts a) ∧
      totals doubled = some [0, 250, 0, 250, 250] ∧
      totalUsdCents (doubled.allocationsOn venue date) = 500 ∧
      ∃ a ∈ doubled.allocationsOn venue date,
        Bucket.payroll.Counts a ∧ Bucket.held.Counts a := by
  have hlost : ∃ a ∈ (planned 2 .bankReference).allocationsOn venue date,
      ∀ b ∈ Bucket.all, ¬ b.Counts a := by decide +kernel
  obtain ⟨a, ha, hnone⟩ := hlost
  refine ⟨by decide +kernel, by decide +kernel, ⟨a, ha, fun b => hnone b ?_⟩, by decide +kernel,
    by decide +kernel, by decide +kernel⟩
  cases b <;> decide

end Concrete

/-! ## Planned rails -/

def World.Accountable (w : World) : Prop := ∀ a ∈ w.db.allocations.rows, a.Accountable

/-- The rail may be planned for the share: it has a bucket if a worker has the share, and
none if it is held. -/
def Fits (a : WorkerAllocation) (rail : WorkerPayoutRail) : Prop :=
  a.Connected ↔ rail.bucket.isSome

theorem accountable_plan {a : WorkerAllocation} {rail : WorkerPayoutRail} (ha : a.Accountable)
    (hfits : Fits a rail) : (a.plan rail).Accountable := by
  intro r hr
  cases hpaid : a.payoutRail with
  | none =>
      have hsame : rail = r := by
        simpa [railFor, WorkerAllocation.plan, hpaid] using hr
      exact hsame ▸ hfits
  | some paid =>
      refine ha r ?_
      simpa [railFor, WorkerAllocation.plan, hpaid] using hr

theorem mem_planOne {d : Db} {x : AllocationId × WorkerPayoutRail} {a : WorkerAllocation} :
    a ∈ (RailWrite.planOne d x).allocations.rows ↔
      (a ∈ d.allocations.rows ∧ a.id ≠ x.1) ∨
        ∃ b ∈ d.allocations.rows, b.id = x.1 ∧ b.plan x.2 = a :=
  d.allocations.mem_update (f := WorkerAllocation.plan x.2) fun _ => rfl

theorem accountable_foldl {assignments : List (AllocationId × WorkerPayoutRail)} {d : Db}
    (hd : ∀ a ∈ d.allocations.rows, a.Accountable)
    (hfits : ∀ x ∈ assignments, ∀ a ∈ d.allocations.rows, a.id = x.1 → Fits a x.2) :
    ∀ a ∈ (assignments.foldl RailWrite.planOne d).allocations.rows, a.Accountable := by
  induction assignments generalizing d with
  | nil => exact hd
  | cons x xs ih =>
      -- a plan changes neither the id of a share nor who has it
      refine ih (fun a ha => ?_) fun y hy a ha hid => ?_
      · rcases mem_planOne.mp ha with ⟨ha, -⟩ | ⟨b, hb, hid, rfl⟩
        · exact hd a ha
        · exact accountable_plan (hd b hb) (hfits x List.mem_cons_self b hb hid)
      · rcases mem_planOne.mp ha with ⟨ha, -⟩ | ⟨b, hb, -, rfl⟩
        · exact hfits y (List.mem_cons_of_mem x hy) a ha hid
        · exact hfits y (List.mem_cons_of_mem x hy) b hb hid

/-- Rails that fit their shares leave every share accountable. -/
theorem accountable_planned {assignments : List (AllocationId × WorkerPayoutRail)} {w : World}
    (hw : w.Accountable)
    (hfits : ∀ x ∈ assignments, ∀ a ∈ w.db.allocations.rows, a.id = x.1 → Fits a x.2) :
    (RailWrite.apply ⟨assignments⟩ w).Accountable := by
  unfold RailWrite.apply
  split
  case isFalse => exact hw
  case isTrue => exact accountable_foldl hw hfits

theorem eval_planRails (assignments : List (AllocationId × WorkerPayoutRail)) (w : World) :
    ((planRails assignments).eval RailWrite.apply w).2 = RailWrite.apply ⟨assignments⟩ w := by
  rw [planRails, Prog.eval_putGet_bind]
  unfold Prog.require
  split <;> rfl

/-- A rail is planned for a share that it fits. -/
theorem accountable_setPlannedRail {allocationId : AllocationId} {rail : WorkerPayoutRail}
    {w : World} (hw : w.Accountable)
    (hfits : ∀ a ∈ w.db.allocations.find allocationId, Fits a rail) :
    ((setPlannedRail allocationId rail).eval RailWrite.apply w).2.Accountable := by
  rw [setPlannedRail, Prog.eval_get_bind, Prog.eval_orThrow_bind]
  cases w.db.allocations.find allocationId with
  | none => exact hw
  | some allocation =>
      simp only
      rw [Prog.eval_require_bind]
      split
      case isFalse => exact hw
      case isTrue =>
          rw [eval_planRails]
          refine accountable_planned hw fun x hx a ha hid => ?_
          rw [List.mem_singleton.mp hx] at hid ⊢
          exact hfits a ((w.db.allocations.find_eq_some_iff).mpr ⟨ha, hid⟩)

/-- The rails that are assigned on their own fit their shares. -/
theorem accountable_autoAssignRails {batchId : BatchId} {w : World} (hw : w.Accountable) :
    ((autoAssignRails batchId).eval RailWrite.apply w).2.Accountable := by
  rw [autoAssignRails, Prog.eval_get_bind, Prog.eval_orThrow_bind]
  cases w.db.batches.find batchId with
  | none => exact hw
  | some batch =>
      simp only [Option.map_some]
      rw [Prog.eval_bind_pure]
      unfold Prog.when
      split
      case isFalse => exact hw
      case isTrue =>
          rw [eval_planRails]
          refine accountable_planned hw fun x hx a ha hid => ?_
          obtain ⟨b, hb, rfl⟩ := List.mem_map.mp hx
          obtain ⟨hb, hconn⟩ := List.mem_filter.mp hb
          obtain ⟨hb, -⟩ := BatchWrite.mem_rowsOf.mp hb
          obtain rfl : a = b := w.db.allocations.eq_of_key_eq ha hb hid
          have hconn := (of_decide_eq_true hconn).1
          refine iff_of_true hconn ?_
          simp only [World.autoRail]
          split <;> rfl

end ServeProof
