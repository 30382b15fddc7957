import ServeProof.Apportion
import ServeProof.Engine
import ServeProof.Scenario

/-!
# ServeProof.Shares

The engine splits a pool by largest remainders: whenever somebody has a score it
distributes exactly its pool, each recipient gets its exact share rounded down
or up, and the cents that are left go where the remainders are largest.
-/

namespace ServeProof

open Apportion

namespace Engine

/-! ## Scores -/

/-- A total that is a number is the sum of scores that are. -/
theorem totalScore_eq_some {recipients : List Recipient} {total : ℚ}
    (h : totalScore recipients = some total) :
    (∀ r ∈ recipients, r.score = some (r.score.getD 0)) ∧
      total = (recipients.map fun r => r.score.getD 0).sum := by
  suffices hgen : ∀ (l : List Recipient) (start : Score),
      l.foldl (fun sum r => sum.add r.score) start = some total →
      ∃ q, start = some q ∧ (∀ r ∈ l, r.score = some (r.score.getD 0)) ∧
        total = q + (l.map fun r => r.score.getD 0).sum by
    obtain ⟨q, hq, hall, hsum⟩ := hgen recipients (some 0) h
    cases hq
    exact ⟨hall, by rw [hsum, zero_add]⟩
  intro l
  induction l with
  | nil => exact fun start h => ⟨total, h, by simp, by simp⟩
  | cons r l ih =>
      intro start h
      obtain ⟨q, hq, hall, hsum⟩ := ih (start.add r.score) h
      cases start with
      | none => cases hq
      | some a =>
          cases hs : r.score with
          | none => rw [hs] at hq; cases hq
          | some b =>
              rw [hs] at hq
              cases hq
              refine ⟨a, rfl, fun y hy => ?_, ?_⟩
              · cases List.mem_cons.mp hy with
                | inl h => rw [h, hs]; rfl
                | inr h => exact hall y h
              · rw [hsum, List.map_cons, List.sum_cons, hs, Option.getD_some, add_assoc]

/-! ## Shares -/

/-- The share of a score, before it is rounded. -/
def exactShare (pool : Int) (total score : ℚ) : ℚ := pool * score / total

variable {pool : Int} {total : ℚ} {recipients : List Recipient}

theorem sum_exactShare (htotal : total ≠ 0)
    (hsum : total = (recipients.map fun r => r.score.getD 0).sum) :
    (pool : ℚ) = (recipients.map fun r => exactShare pool total (r.score.getD 0)).sum := by
  have hmul (l : List Recipient) : (l.map fun r => exactShare pool total (r.score.getD 0)).sum =
      pool * (l.map fun r => r.score.getD 0).sum / total := by
    induction l with
    | nil => simp
    | cons r l ih =>
        rw [List.map_cons, List.sum_cons, ih, List.map_cons, List.sum_cons, exactShare]
        ring
  rw [hmul, ← hsum]
  field_simp

theorem bumpedKeys_eq (leftover : Int) (l : List RawShare) :
    bumpedKeys leftover l = (l.take leftover.toNat).map fun r => r.recipient.key := by
  induction l generalizing leftover with
  | nil => simp [bumpedKeys]
  | cons r l ih =>
      rw [bumpedKeys]
      split
      · next hle => rw [Int.toNat_of_nonpos hle]; rfl
      · next hpos =>
        have hsucc : leftover.toNat = (leftover - 1).toNat + 1 := by omega
        rw [ih, hsucc, List.take_succ_cons, List.map_cons]

/-! ## The split -/

section Split

variable [Collation]

variable (pool total recipients) in
/-- The recipients with their shares cut to whole cents, in the order of their
keys. -/
abbrev rawShares : List RawShare := (recipients.insertionSort KeyLe).map (rawShare pool total)

variable (pool total recipients) in
/-- Those who get one of the cents that are left. -/
abbrev bumped : List RawShare :=
  ((rawShares pool total recipients).insertionSort RemainderLe).take
    (pool - ((rawShares pool total recipients).map RawShare.floor).sum).toNat

theorem rawShares_eq {s : RawShare} (hs : s ∈ rawShares pool total recipients) :
    s.floor = ⌊exactShare pool total s.score⌋ ∧
      s.remainder = Int.fract (exactShare pool total s.score) := by
  obtain ⟨r, -, rfl⟩ := List.mem_map.mp hs
  exact ⟨rfl, rfl⟩

theorem sorted_remainder (l : List RawShare) :
    (l.insertionSort RemainderLe).Pairwise fun a b => b.remainder ≤ a.remainder := by
  refine pairwise_insertionSort (fun a b h => ?_) (fun a b h => ?_) l
  · exact h.elim le_of_lt fun h => h.1.ge
  · exact not_lt.mp fun hlt => h (.inl hlt)

/-- A recipient is known by its key. -/
theorem mem_bumpedKeys (hkeys : (recipients.map Recipient.key).Nodup) {s : RawShare}
    (hs : s ∈ rawShares pool total recipients) :
    s.recipient.key ∈ (bumped pool total recipients).map (fun r => r.recipient.key) ↔
      s ∈ bumped pool total recipients := by
  have hperm := (List.perm_insertionSort KeyLe recipients).map (rawShare pool total)
  have hnodup : ((rawShares pool total recipients).map fun r => r.recipient.key).Nodup := by
    refine ((hperm.map _).nodup_iff).mpr ?_
    rw [List.map_map]
    exact hkeys
  refine ⟨fun h => ?_, List.mem_map_of_mem⟩
  obtain ⟨t, ht, hkey⟩ := List.mem_map.mp h
  have ht' : t ∈ rawShares pool total recipients :=
    (List.mem_insertionSort RemainderLe).mp (List.mem_of_mem_take ht)
  rwa [List.inj_on_of_nodup_map hnodup hs ht' hkey.symm]

theorem split_eq (hkeys : (recipients.map Recipient.key).Nodup) [DecidableEq RawShare] :
    (split pool total recipients).map WorkerAllocationResult.pooledTipUsdCents =
      (rawShares pool total recipients).map fun s =>
        s.floor + if s ∈ bumped pool total recipients then 1 else 0 := by
  rw [split, bumpedKeys_eq, List.map_map]
  refine List.map_congr_left fun s hs => ?_
  simp only [Function.comp_apply, share, mem_bumpedKeys hkeys hs]

theorem nodup_rawShares (hkeys : (recipients.map Recipient.key).Nodup) :
    (rawShares pool total recipients).Nodup := by
  have hperm := (List.perm_insertionSort KeyLe recipients).map (rawShare pool total)
  refine hperm.nodup_iff.mpr (List.Nodup.of_map (fun s => s.recipient.key) ?_)
  rw [List.map_map]
  exact hkeys

theorem bumped_subset : bumped pool total recipients ⊆ rawShares pool total recipients :=
  fun _ hs => (List.mem_insertionSort RemainderLe).mp (List.mem_of_mem_take hs)

/-- There are cents left, and no more than there are positive remainders. -/
theorem leftover_rawShares (htotal : total ≠ 0)
    (hsum : total = (recipients.map fun r => r.score.getD 0).sum) :
    0 ≤ pool - ((rawShares pool total recipients).map RawShare.floor).sum ∧
      (pool - ((rawShares pool total recipients).map RawShare.floor).sum).toNat ≤
        (rawShares pool total recipients).countP fun s => decide (0 < s.remainder) := by
  have hperm := (List.perm_insertionSort KeyLe recipients).map (rawShare pool total)
  have hpool : (pool : ℚ) =
      ((rawShares pool total recipients).map fun s => exactShare pool total s.score).sum := by
    rw [(hperm.map _).sum_eq, List.map_map]
    exact sum_exactShare htotal hsum
  have hfloor : ((rawShares pool total recipients).map RawShare.floor) =
      (rawShares pool total recipients).map fun s => ⌊exactShare pool total s.score⌋ :=
    List.map_congr_left fun s hs => (rawShares_eq hs).1
  have hcount : ((rawShares pool total recipients).countP fun s => decide (0 < s.remainder)) =
      (rawShares pool total recipients).countP fun s =>
        decide (0 < Int.fract (exactShare pool total s.score)) :=
    List.countP_congr fun s hs => by rw [(rawShares_eq hs).2]
  have hnonneg := leftover_nonneg hpool
  have hle := leftover_le_countP hpool
  rw [leftover, ← hfloor] at hnonneg hle
  rw [← hcount] at hle
  exact ⟨hnonneg, by omega⟩

/-- Whoever gets a cent more has a positive remainder. -/
theorem bumped_pos (htotal : total ≠ 0)
    (hsum : total = (recipients.map fun r => r.score.getD 0).sum) {s : RawShare}
    (hs : s ∈ bumped pool total recipients) : 0 < s.remainder := by
  refine pos_of_take (sorted_remainder _) ?_ hs
  rw [(List.perm_insertionSort RemainderLe _).countP_eq]
  exact (leftover_rawShares htotal hsum).2

/-- The shares of a split add up to the pool. -/
theorem sum_split (hkeys : (recipients.map Recipient.key).Nodup) (htotal : total ≠ 0)
    (hsum : total = (recipients.map fun r => r.score.getD 0).sum) :
    ((split pool total recipients).map WorkerAllocationResult.pooledTipUsdCents).sum = pool := by
  classical
  have hnodup : (rawShares pool total recipients).Nodup := nodup_rawShares hkeys
  have hbumped : (bumped pool total recipients).Nodup :=
    (List.take_sublist _ _).nodup ((List.perm_insertionSort RemainderLe _).nodup_iff.mpr hnodup)
  obtain ⟨hnonneg, hle⟩ :
      0 ≤ pool - ((rawShares pool total recipients).map RawShare.floor).sum ∧ _ :=
    leftover_rawShares htotal hsum
  have hlength : (bumped pool total recipients).length =
      (pool - ((rawShares pool total recipients).map RawShare.floor).sum).toNat := by
    rw [List.length_take, List.length_insertionSort]
    exact Nat.min_eq_left (hle.trans List.countP_le_length)
  rw [split_eq hkeys, sum_bumped RawShare.floor hbumped hnodup bumped_subset, hlength]
  omega

end Split

/-! ## Largest remainders -/

/-- The share of an allocation, before it is rounded. -/
def exactOf (pool : Int) (total : ℚ) (a : WorkerAllocationResult) : ℚ :=
  exactShare pool total a.score

/-- `pool` is split over `allocations` by largest remainders. -/
structure LargestRemainder (pool : Int) (total : ℚ) (allocations : List WorkerAllocationResult) :
    Prop where
  sum : (allocations.map WorkerAllocationResult.pooledTipUsdCents).sum = pool
  rounded : ∀ a ∈ allocations, a.pooledTipUsdCents = ⌊exactOf pool total a⌋ ∨
    a.pooledTipUsdCents = ⌈exactOf pool total a⌉
  zero : ∀ a ∈ allocations, a.score = 0 → a.pooledTipUsdCents = 0
  /-- Who gets a cent more has no smaller a remainder than who does not. -/
  largest : ∀ a ∈ allocations, ∀ b ∈ allocations,
    a.pooledTipUsdCents = ⌊exactOf pool total a⌋ + 1 →
    b.pooledTipUsdCents = ⌊exactOf pool total b⌋ →
    Int.fract (exactOf pool total b) ≤ Int.fract (exactOf pool total a)

theorem largestRemainder_split [Collation] (hkeys : (recipients.map Recipient.key).Nodup)
    (htotal : total ≠ 0) (hsum : total = (recipients.map fun r => r.score.getD 0).sum) :
    LargestRemainder pool total (split pool total recipients) := by
  classical
  -- an allocation is the share of a recipient, bumped or not
  have hmem (a : WorkerAllocationResult) (ha : a ∈ split pool total recipients) :
      ∃ s ∈ rawShares pool total recipients, exactOf pool total a = exactShare pool total s.score ∧
        a.score = s.score ∧ a.pooledTipUsdCents = ⌊exactOf pool total a⌋ +
          if s ∈ bumped pool total recipients then 1 else 0 := by
    obtain ⟨s, hs, rfl⟩ := List.mem_map.mp ha
    refine ⟨s, hs, rfl, rfl, ?_⟩
    have hkey := mem_bumpedKeys hkeys hs
    rw [bumpedKeys_eq]
    simp only [share, hkey, (rawShares_eq hs).1]
    rfl
  refine ⟨sum_split hkeys htotal hsum, fun a ha => ?_, fun a ha hzero => ?_,
    fun a ha b hb hmore hless => ?_⟩
  · obtain ⟨s, hs, hexact, -, hcents⟩ := hmem a ha
    by_cases hbumped : s ∈ bumped pool total recipients
    · have hpos := bumped_pos htotal hsum hbumped
      rw [(rawShares_eq hs).2, ← hexact] at hpos
      rw [if_pos hbumped] at hcents
      exact .inr (hcents.trans (floor_add_one hpos))
    · rw [if_neg hbumped, add_zero] at hcents
      exact .inl hcents
  · obtain ⟨s, hs, hexact, hscore, hcents⟩ := hmem a ha
    have hnone : exactOf pool total a = 0 := by rw [exactOf, exactShare, hzero]; simp
    have hout : s ∉ bumped pool total recipients := by
      intro hbumped
      have hpos := bumped_pos htotal hsum hbumped
      rw [(rawShares_eq hs).2, ← hexact, hnone] at hpos
      simp at hpos
    rw [hcents, hnone, if_neg hout]
    simp
  · obtain ⟨s, hs, hexact, -, hcents⟩ := hmem a ha
    obtain ⟨t, ht, hexact', -, hcents'⟩ := hmem b hb
    have hin : s ∈ bumped pool total recipients := by
      by_contra hout
      rw [if_neg hout] at hcents
      omega
    have hout : t ∉ bumped pool total recipients := by
      intro hin
      rw [if_pos hin] at hcents'
      omega
    rw [hexact, hexact', ← (rawShares_eq hs).2, ← (rawShares_eq ht).2]
    exact le_of_take (sorted_remainder _) hin ((List.mem_insertionSort RemainderLe).mpr ht) hout

/-! ## What a run comes to -/

section Outcomes

variable [Collation] {tips : List AllocationTipInput} {shifts : List AllocationShiftInput}
  {policy : AllocationPolicyInput}

/-- What a run reports before it looks at the total. -/
def issuesOf (tips : List AllocationTipInput) (shifts : List AllocationShiftInput)
    (policy : AllocationPolicyInput) : List AllocationIssue :=
  (scoresOf policy shifts (poolOf policy tips).issues).issues ++
    if (poolOf policy tips).poolUsdCents = 0 then [⟨.emptyPool, false, []⟩] else []

/-- A total that is a number other than zero is split. -/
theorem computeAllocationBatch_some {total : ℚ}
    (htotal : totalScore (scoresOf policy shifts (poolOf policy tips).issues).recipients.rows =
      some total) (hne : total ≠ 0) :
    computeAllocationBatch tips shifts policy = .ok
      { poolUsdCents := (poolOf policy tips).poolUsdCents
        totalScore := total
        allocations := split (poolOf policy tips).poolUsdCents total
          (scoresOf policy shifts (poolOf policy tips).issues).recipients.rows
        issues := issuesOf tips shifts policy } := by
  have hkeys := (scoresOf policy shifts (poolOf policy tips).issues).recipients.nodup
  have hsum : ((split (poolOf policy tips).poolUsdCents total _).map
      WorkerAllocationResult.pooledTipUsdCents).sum = _ :=
    sum_split hkeys hne (totalScore_eq_some htotal).2
  simp only [computeAllocationBatch, htotal, if_neg hne, hsum, ne_eq, not_true_eq_false, if_false]
  rfl

/-- Without a total there is nothing to split. -/
theorem computeAllocationBatch_zero
    (htotal : totalScore (scoresOf policy shifts (poolOf policy tips).issues).recipients.rows =
      some 0) :
    computeAllocationBatch tips shifts policy = .ok
      { poolUsdCents := (poolOf policy tips).poolUsdCents
        totalScore := 0
        allocations := []
        issues := issuesOf tips shifts policy ++
          [⟨.noEligibleShifts, decide ((poolOf policy tips).poolUsdCents > 0), []⟩] } := by
  simp only [computeAllocationBatch, htotal, if_true]
  rfl

/-- A total that is `NaN` breaks the invariant of the split. -/
theorem computeAllocationBatch_none
    (htotal : totalScore (scoresOf policy shifts (poolOf policy tips).issues).recipients.rows =
      none) :
    computeAllocationBatch tips shifts policy =
      .error (invariantViolated "NaN" (poolOf policy tips).poolUsdCents) := by
  simp only [computeAllocationBatch, htotal]

end Outcomes

end Engine

open Engine

/-- **Largest remainders**: whenever the total score is positive the batch is
computed, each recipient has one allocation, and the pool is split by largest
remainders. -/
theorem computeAllocationBatch_largestRemainder [Collation] {tips : List AllocationTipInput}
    {shifts : List AllocationShiftInput} {policy : AllocationPolicyInput} {total : ℚ}
    (htotal : totalScore (scoresOf policy shifts (poolOf policy tips).issues).recipients.rows =
      some total) (hpos : 0 < total) :
    ∃ r, computeAllocationBatch tips shifts policy = .ok r ∧ r.totalScore = total ∧
      r.poolUsdCents = (poolOf policy tips).poolUsdCents ∧
      LargestRemainder r.poolUsdCents r.totalScore r.allocations ∧
      (r.allocations.map fun a => (a.workerId, a.provider, a.externalWorkerId, some a.score)).Perm
        ((scoresOf policy shifts (poolOf policy tips).issues).recipients.rows.map fun x =>
          (x.workerId, x.provider, x.externalWorkerId, x.score)) := by
  obtain ⟨hscores, hsum⟩ := totalScore_eq_some htotal
  have hne : total ≠ 0 := hpos.ne'
  have hkeys := (scoresOf policy shifts (poolOf policy tips).issues).recipients.nodup
  have hsplit : LargestRemainder (poolOf policy tips).poolUsdCents _ _ :=
    largestRemainder_split hkeys hne hsum
  refine ⟨_, computeAllocationBatch_some htotal hne, rfl, rfl, hsplit, ?_⟩
  rw [split, List.map_map, List.map_map]
  refine ((List.perm_insertionSort KeyLe _).map _).trans (List.Perm.of_eq ?_)
  refine List.map_congr_left fun x hx => ?_
  simp only [Function.comp_apply, share, rawShare, ← hscores x hx]

section Concrete

/-- A pool of one dollar. -/
abbrev Scenario.oneDollar : List AllocationTipInput := [⟨.cardTip, 100, .completed, .none⟩]

/-- Three shifts of the same length, one of them by somebody without an account. -/
abbrev Scenario.threeWaiters : List AllocationShiftInput :=
  [⟨some "ann", "1", "csv", "waiter", 60, .completed⟩,
    ⟨some "bob", "2", "csv", "waiter", 60, .completed⟩,
    ⟨none, "3", "csv", "waiter", 60, .completed⟩]

abbrev Scenario.waiters : AllocationPolicyInput := ⟨[("waiter", 1)], [], [(.cardTip, true)]⟩

open Scenario

theorem computeAllocationBatch_largestRemainder_of_three :
    ∃ r, @computeAllocationBatch byCodePoint oneDollar threeWaiters waiters = .ok r ∧
      r.totalScore = 180 ∧ r.poolUsdCents = (poolOf waiters oneDollar).poolUsdCents ∧
      LargestRemainder r.poolUsdCents r.totalScore r.allocations ∧
      (r.allocations.map fun a => (a.workerId, a.provider, a.externalWorkerId, some a.score)).Perm
        ((scoresOf waiters threeWaiters (poolOf waiters oneDollar).issues).recipients.rows.map
          fun x => (x.workerId, x.provider, x.externalWorkerId, x.score)) :=
  @computeAllocationBatch_largestRemainder byCodePoint oneDollar threeWaiters waiters 180
    (by decide +kernel) (by decide +kernel)

end Concrete

/-! ## Scores and shares -/

namespace Engine

section Fair

variable {pool : Int} {total : ℚ} {allocations : List WorkerAllocationResult}
  {a b : WorkerAllocationResult}

/-- As long as the pool is not negative, a larger score is not given less. -/
theorem LargestRemainder.le_of_score_lt (h : LargestRemainder pool total allocations)
    (hpool : 0 ≤ pool) (htotal : 0 < total) (ha : a ∈ allocations) (hb : b ∈ allocations)
    (hscore : b.score < a.score) : b.pooledTipUsdCents ≤ a.pooledTipUsdCents := by
  have hle : exactOf pool total b ≤ exactOf pool total a := by
    have hpool' : (0 : ℚ) ≤ pool := by exact_mod_cast hpool
    exact div_le_div_of_nonneg_right (mul_le_mul_of_nonneg_left hscore.le hpool') htotal.le
  obtain hlt | heq := hle.lt_or_eq
  · exact le_of_lt_share (h.rounded b hb) (h.rounded a ha) (h.largest b hb a ha) hlt
  · -- the shares agree only when there is nothing to share
    have hzero : (pool : ℚ) = 0 := by
      by_contra hne
      have hne' : total ≠ 0 := htotal.ne'
      rw [exactOf, exactOf, exactShare, exactShare, div_left_inj' hne'] at heq
      exact hscore.ne (mul_left_cancel₀ hne heq)
    have hnone (c : WorkerAllocationResult) (hc : c ∈ allocations) : c.pooledTipUsdCents = 0 := by
      have hrounded := h.rounded c hc
      rw [exactOf, exactShare, hzero, zero_mul, zero_div, Int.floor_zero, Int.ceil_zero] at hrounded
      exact hrounded.elim id id
    rw [hnone b hb, hnone a ha]

/-- Equal scores are given the same to the cent. -/
theorem LargestRemainder.abs_sub_le_one (h : LargestRemainder pool total allocations)
    (ha : a ∈ allocations) (hb : b ∈ allocations) (hscore : a.score = b.score) :
    |a.pooledTipUsdCents - b.pooledTipUsdCents| ≤ 1 := by
  have hexact : exactOf pool total b = exactOf pool total a := by rw [exactOf, exactOf, hscore]
  exact Apportion.abs_sub_le_one (h.rounded a ha) (hexact ▸ h.rounded b hb)

end Fair

end Engine

open Engine

/-- **Fairness**: whoever has a larger score is given at least as much of a pool that is
not negative, and equal scores are given the same to the cent. -/
theorem computeAllocationBatch_fair [Collation] {tips : List AllocationTipInput}
    {shifts : List AllocationShiftInput} {policy : AllocationPolicyInput} {total : ℚ}
    (htotal : totalScore (scoresOf policy shifts (poolOf policy tips).issues).recipients.rows =
      some total) (hpos : 0 < total) :
    ∃ r, computeAllocationBatch tips shifts policy = .ok r ∧ r.totalScore = total ∧
      ∀ a ∈ r.allocations, ∀ b ∈ r.allocations,
        (0 ≤ r.poolUsdCents → b.score < a.score → b.pooledTipUsdCents ≤ a.pooledTipUsdCents) ∧
        (a.score = b.score → |a.pooledTipUsdCents - b.pooledTipUsdCents| ≤ 1) := by
  have hkeys := (scoresOf policy shifts (poolOf policy tips).issues).recipients.nodup
  have hsplit : LargestRemainder (poolOf policy tips).poolUsdCents total _ :=
    largestRemainder_split hkeys hpos.ne' (totalScore_eq_some htotal).2
  refine ⟨_, computeAllocationBatch_some htotal hpos.ne', rfl, fun a ha b hb => ⟨?_, ?_⟩⟩
  · exact fun hpool hscore => hsplit.le_of_score_lt hpool hpos ha hb hscore
  · exact fun hscore => hsplit.abs_sub_le_one ha hb hscore

section Concrete

open Scenario

/-- A tip that was taken back, and two waiters, one of whom worked twice as long. -/
abbrev Scenario.takenBack : List AllocationTipInput := [⟨.cardTip, -100, .completed, .none⟩]

abbrev Scenario.twoWaiters : List AllocationShiftInput :=
  [⟨some "ann", "1", "csv", "waiter", 60, .completed⟩,
    ⟨some "bob", "2", "csv", "waiter", 120, .completed⟩]

theorem computeAllocationBatch_fair_of_two :
    ∃ r, @computeAllocationBatch byCodePoint oneDollar twoWaiters waiters = .ok r ∧
      r.totalScore = 180 ∧
      ∀ a ∈ r.allocations, ∀ b ∈ r.allocations,
        (0 ≤ r.poolUsdCents → b.score < a.score → b.pooledTipUsdCents ≤ a.pooledTipUsdCents) ∧
        (a.score = b.score → |a.pooledTipUsdCents - b.pooledTipUsdCents| ≤ 1) :=
  @computeAllocationBatch_fair byCodePoint oneDollar twoWaiters waiters 180
    (by decide +kernel) (by decide +kernel)

/-- Of a negative pool the larger score bears more. -/
theorem larger_score_of_negative_pool :
    ∃ r ∈ (@computeAllocationBatch byCodePoint takenBack twoWaiters waiters).toOption,
      0 < r.totalScore ∧ ∃ a ∈ r.allocations, ∃ b ∈ r.allocations,
        b.score < a.score ∧ a.pooledTipUsdCents < b.pooledTipUsdCents := by
  decide +kernel

end Concrete

end ServeProof
