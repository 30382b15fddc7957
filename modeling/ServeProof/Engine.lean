import Mathlib.Data.List.Sort
import Mathlib.Data.Rat.Floor
import ServeProof.Schema

/-!
# ServeProof.Engine

The allocation engine, `computeAllocationBatch`: a tip pool is split over the
recipients of one business date in proportion to worked minutes times role
weight, to the cent, by largest remainders.

Arithmetic is exact.  A `Score` of `none` is `NaN`: the role weight is read by
a plain property read, which finds the members every object inherits
(`constructor`, `toString`, ..) when the policy has no weight of that name.

* `computeAllocationBatch_sum` -- a result without a blocking issue
  distributes exactly its pool.
-/

namespace ServeProof

/-- `localeCompare` in the locale of the host. -/
class Collation where
  localeCompare : String → String → Ordering

def TipType.text : TipType → String
  | .cashTip => "CASH_TIP"
  | .cardTip => "CARD_TIP"
  | .qrTip => "QR_TIP"
  | .automaticGratuity => "AUTOMATIC_GRATUITY"
  | .serviceCharge => "SERVICE_CHARGE"

/-! ## Input and result -/

structure AllocationTipInput where
  tipType : TipType
  grossAmountUsdCents : Int
  paymentStatus : PaymentStatus
  refundStatus : RefundStatus
  deriving DecidableEq, Repr

structure AllocationShiftInput where
  workerId : Option WorkerId
  externalWorkerId : String
  provider : String
  role : String
  workedMinutes : Int
  shiftStatus : ShiftStatus
  deriving DecidableEq, Repr

structure AllocationPolicyInput where
  roleWeights : List (String × ℚ)
  excludedRoles : List String
  poolInclusion : List (TipType × Bool)
  deriving DecidableEq, Repr

structure AllocationBatchResult where
  poolUsdCents : Int
  totalScore : ℚ
  allocations : List WorkerAllocationResult
  issues : List AllocationIssue
  deriving DecidableEq, Repr

/-- Some issue sends the batch to review. -/
def AllocationBatchResult.HasBlockingIssue (r : AllocationBatchResult) : Prop :=
  ∃ i ∈ r.issues, i.blocking = true

instance (r : AllocationBatchResult) : Decidable r.HasBlockingIssue :=
  inferInstanceAs (Decidable (∃ i ∈ _, _))

namespace Engine

/-! ## The pool -/

structure Pool where
  poolUsdCents : Int
  issues : List AllocationIssue

def tipDetail (tip : AllocationTipInput) : List (String × DetailValue) :=
  [("tipType", .text tip.tipType.text), ("amountUsdCents", .number tip.grossAmountUsdCents)]

/-- The body of the loop over the tips. -/
def addTip (policy : AllocationPolicyInput) (pool : Pool) (tip : AllocationTipInput) : Pool :=
  if (policy.poolInclusion.lookup tip.tipType).getD false = false then pool
  else if tip.refundStatus = .full then
    { pool with issues := pool.issues ++ [⟨.refundedPaymentExcluded, false, tipDetail tip⟩] }
  else if tip.paymentStatus = .canceled then
    { pool with issues := pool.issues ++ [⟨.canceledPaymentExcluded, false, tipDetail tip⟩] }
  else { pool with poolUsdCents := pool.poolUsdCents + tip.grossAmountUsdCents }

def poolOf (policy : AllocationPolicyInput) (tips : List AllocationTipInput) : Pool :=
  tips.foldl (addTip policy) ⟨0, []⟩

/-! ## Scores -/

/-- A number, or `NaN`. -/
abbrev Score := Option ℚ

def Score.add : Score → Score → Score
  | some a, some b => some (a + b)
  | _, _ => none

/-- The members every plain object inherits. -/
def objectPrototype : List String :=
  ["constructor", "toString", "toLocaleString", "valueOf", "hasOwnProperty", "isPrototypeOf",
    "propertyIsEnumerable", "__proto__", "__defineGetter__", "__defineSetter__",
    "__lookupGetter__", "__lookupSetter__"]

/-- `policy.roleWeights[role]`; `none` is `undefined`. -/
def roleWeight (policy : AllocationPolicyInput) (role : String) : Option Score :=
  match policy.roleWeights.lookup role with
  | some weight => some (some weight)
  | none => if role ∈ objectPrototype then some none else none

/-- The identity of a recipient and its score so far: an entry of
`identityByKey` and of `scoreByKey`, which always hold the same keys. -/
structure Recipient where
  key : String
  workerId : Option WorkerId
  provider : Option String
  externalWorkerId : Option String
  score : Score
  deriving DecidableEq, Repr

structure Scores where
  recipients : Table Recipient.key
  issues : List AllocationIssue

/-- A non-empty worker id; the empty string is falsy. -/
def truthyWorkerId (shift : AllocationShiftInput) : Option WorkerId :=
  shift.workerId.filter fun id => id ≠ ""

/-- The recipient a shift counts for, with the shift's own score. -/
def recipientOf (shift : AllocationShiftInput) (score : Score) : Recipient :=
  match truthyWorkerId shift with
  | some id => ⟨"worker:" ++ id, some id, none, none, score⟩
  | none =>
      ⟨"held:" ++ shift.provider ++ ":" ++ shift.externalWorkerId, none, some shift.provider,
        some shift.externalWorkerId, score⟩

def shiftLabel (shift : AllocationShiftInput) : String :=
  shift.workerId.getD (shift.provider ++ ":" ++ shift.externalWorkerId)

/-- `scoreByKey.set(key, (scoreByKey.get(key) ?? 0) + score)`, and the identity
with it. -/
def addScore (recipients : Table Recipient.key) (r : Recipient) : Table Recipient.key :=
  match recipients.find r.key with
  | some old => recipients.set { r with score := old.score.add r.score }
  | none => recipients.set { r with score := Score.add (some 0) r.score }

/-- The body of the loop over the shifts. -/
def addShift (policy : AllocationPolicyInput) (scores : Scores) (shift : AllocationShiftInput) :
    Scores :=
  if shift.shiftStatus ≠ .completed ∧ shift.shiftStatus ≠ .approved then scores
  else if shift.role ∈ policy.excludedRoles then scores
  else
    let unmapped : List AllocationIssue :=
      if shift.workerId = none then
        [⟨.unmappedWorker, false,
          [("externalWorkerId", .text shift.externalWorkerId), ("provider", .text shift.provider),
            ("role", .text shift.role)]⟩]
      else []
    if shift.workedMinutes ≤ 0 then
      { scores with
        issues := scores.issues ++ unmapped ++
          [⟨.nonPositiveMinutes, true,
            [("workerId", .text (shiftLabel shift)),
              ("workedMinutes", .number shift.workedMinutes)]⟩] }
    else
      match roleWeight policy shift.role with
      | none =>
          { scores with
            issues := scores.issues ++ unmapped ++
              [⟨.unknownRole, true,
                [("workerId", .text (shiftLabel shift)), ("role", .text shift.role)]⟩] }
      | some weight =>
          { recipients :=
              addScore scores.recipients
                (recipientOf shift (weight.map fun w => (shift.workedMinutes : ℚ) * w))
            issues := scores.issues ++ unmapped }

def scoresOf (policy : AllocationPolicyInput) (shifts : List AllocationShiftInput)
    (issues : List AllocationIssue) : Scores :=
  shifts.foldl (addShift policy) ⟨∅, issues⟩

def totalScore (recipients : List Recipient) : Score :=
  recipients.foldl (fun sum r => sum.add r.score) (some 0)

/-! ## The split -/

/-- A recipient with its exact share cut to whole cents. -/
structure RawShare where
  recipient : Recipient
  score : ℚ
  floor : Int
  remainder : ℚ

def rawShare (pool : Int) (total : ℚ) (r : Recipient) : RawShare :=
  -- the total is a number, so every score is one
  let score := r.score.getD 0
  let exact := (pool : ℚ) * score / total
  ⟨r, score, ⌊exact⌋, exact - ⌊exact⌋⟩

section Order

variable [Collation]

def KeyLe (a b : Recipient) : Prop := Collation.localeCompare a.key b.key ≠ .gt

instance : DecidableRel KeyLe := fun _ _ => inferInstanceAs (Decidable (_ ≠ _))

/-- Largest remainder first, ties by key. -/
def RemainderLe (a b : RawShare) : Prop :=
  b.remainder < a.remainder ∨ (a.remainder = b.remainder ∧ KeyLe a.recipient b.recipient)

instance : DecidableRel RemainderLe := fun _ _ => inferInstanceAs (Decidable (_ ∨ _))

end Order

/-- The keys that get one of the leftover cents. -/
def bumpedKeys (leftover : Int) : List RawShare → List String
  | [] => []
  | r :: rs => if leftover ≤ 0 then [] else r.recipient.key :: bumpedKeys (leftover - 1) rs

def share (bumped : List String) (r : RawShare) : WorkerAllocationResult :=
  let cents := r.floor + if r.recipient.key ∈ bumped then 1 else 0
  { workerId := r.recipient.workerId
    provider := r.recipient.provider
    externalWorkerId := r.recipient.externalWorkerId
    score := r.score
    pooledTipUsdCents := cents
    netAllocatedUsdCents := cents }

/-- The largest-remainder split of `pool`. -/
def split [Collation] (pool : Int) (total : ℚ) (recipients : List Recipient) :
    List WorkerAllocationResult :=
  let raw := (recipients.insertionSort KeyLe).map (rawShare pool total)
  let leftover := pool - (raw.map RawShare.floor).sum
  raw.map (share (bumpedKeys leftover (raw.insertionSort RemainderLe)))

end Engine

open Engine

def invariantViolated (allocated : String) (pool : Int) : String :=
  s!"Allocation invariant violated: allocated {allocated} != pool {pool}"

/-- The allocation of one business date. -/
def computeAllocationBatch [Collation] (tips : List AllocationTipInput)
    (shifts : List AllocationShiftInput) (policy : AllocationPolicyInput) :
    Except String AllocationBatchResult :=
  let pool := poolOf policy tips
  let scores := scoresOf policy shifts pool.issues
  let issues :=
    scores.issues ++ if pool.poolUsdCents = 0 then [⟨.emptyPool, false, []⟩] else []
  match totalScore scores.recipients.rows with
  | none =>
      -- every exact share is NaN, and so is the sum of the allocations
      .error (invariantViolated "NaN" pool.poolUsdCents)
  | some total =>
      if total = 0 then
        .ok
          { poolUsdCents := pool.poolUsdCents
            totalScore := total
            allocations := []
            issues := issues ++ [⟨.noEligibleShifts, decide (pool.poolUsdCents > 0), []⟩] }
      else
        let allocations := split pool.poolUsdCents total scores.recipients.rows
        let allocated := (allocations.map WorkerAllocationResult.pooledTipUsdCents).sum
        if allocated ≠ pool.poolUsdCents then
          .error (invariantViolated (toString allocated) pool.poolUsdCents)
        else
          .ok
            { poolUsdCents := pool.poolUsdCents
              totalScore := total
              allocations := allocations
              issues := issues }

namespace Engine

/-! ## What a result distributes -/

/-- A pool of non-negative tips is not negative. -/
theorem poolOf_nonneg {policy : AllocationPolicyInput} {tips : List AllocationTipInput}
    (htips : ∀ tip ∈ tips, 0 ≤ tip.grossAmountUsdCents) :
    0 ≤ (poolOf policy tips).poolUsdCents := by
  have hfold : ∀ (l : List AllocationTipInput) (pool : Pool), l ⊆ tips → 0 ≤ pool.poolUsdCents →
      0 ≤ (l.foldl (addTip policy) pool).poolUsdCents := by
    intro l
    induction l with
    | nil => exact fun _ _ h => h
    | cons tip l ih =>
        intro pool hl hpool
        have htip := htips tip (hl List.mem_cons_self)
        refine ih _ (fun x hx => hl (List.mem_cons_of_mem tip hx)) ?_
        unfold addTip
        split
        · exact hpool
        · split
          · exact hpool
          · split
            · exact hpool
            · exact add_nonneg hpool htip
  exact hfold tips ⟨0, []⟩ (List.Subset.refl tips) (le_refl 0)

/-- The net amount of a share is its pooled amount. -/
theorem split_net [Collation] {pool : Int} {total : ℚ} {recipients : List Recipient} :
    (split pool total recipients).map WorkerAllocationResult.netAllocatedUsdCents =
      (split pool total recipients).map WorkerAllocationResult.pooledTipUsdCents := by
  simp only [split, List.map_map]
  rfl

end Engine

/-- A result without a blocking issue, of non-negative tips, distributes
exactly its pool. -/
theorem computeAllocationBatch_sum [Collation] {tips : List AllocationTipInput}
    {shifts : List AllocationShiftInput} {policy : AllocationPolicyInput}
    {r : AllocationBatchResult} (htips : ∀ tip ∈ tips, 0 ≤ tip.grossAmountUsdCents)
    (h : computeAllocationBatch tips shifts policy = .ok r) (hr : ¬ r.HasBlockingIssue) :
    (r.allocations.map WorkerAllocationResult.netAllocatedUsdCents).sum = r.poolUsdCents := by
  have hpool : 0 ≤ (poolOf policy tips).poolUsdCents := poolOf_nonneg htips
  unfold computeAllocationBatch at h
  dsimp only at h
  split at h
  · contradiction
  · split at h
    · -- nobody has a score: a positive pool is a blocking issue
      cases h
      have hle : ¬ (poolOf policy tips).poolUsdCents > 0 := by
        intro hpos
        refine hr ⟨_, List.mem_append_right _ List.mem_cons_self, ?_⟩
        exact decide_eq_true hpos
      simp only [List.map_nil, List.sum_nil]
      omega
    · split at h
      · contradiction
      · next hsum =>
        cases h
        rw [split_net]
        exact not_not.mp hsum

end ServeProof
