import ServeProof.Contributions
import ServeProof.Shares

/-!
# ServeProof.Identities

Whom the allocations of a batch are for.  The engine knows a recipient by a text, and
the weight of a role by a plain property read: two external workers whose joined texts
agree share one allocation, and a role named like a member every object inherits has
a weight that is no number.  Otherwise each recipient has one allocation, with the score
of its shifts, and each role without a weight is reported (`nobodyLost_iff`).
-/

namespace ServeProof

open Engine

/-! ## Recipients and roles -/

/-- A worker, or an external worker of a provider. -/
abbrev RecipientId := Option WorkerId × Option String × Option String

def AllocationShiftInput.recipientId (shift : AllocationShiftInput) : RecipientId :=
  match shift.workerId with
  | some id => (some id, none, none)
  | none => (none, some shift.provider, some shift.externalWorkerId)

def WorkerAllocationResult.recipientId (a : WorkerAllocationResult) : RecipientId :=
  (a.workerId, a.provider, a.externalWorkerId)

namespace AllocationPolicyInput

/-- The weight the policy gives a role. -/
def weightOf (policy : AllocationPolicyInput) (role : String) : Option ℚ :=
  policy.roleWeights.lookup role

/-- A `COMPLETED` or `APPROVED` shift of a role that is not excluded. -/
def Eligible (policy : AllocationPolicyInput) (shift : AllocationShiftInput) : Prop :=
  (shift.shiftStatus = .completed ∨ shift.shiftStatus = .approved) ∧
    shift.role ∉ policy.excludedRoles

instance (policy : AllocationPolicyInput) : DecidablePred policy.Eligible :=
  fun _ => inferInstanceAs (Decidable (_ ∧ _))

def eligible (policy : AllocationPolicyInput) (shifts : List AllocationShiftInput) :
    List AllocationShiftInput := shifts.filter fun shift => decide (policy.Eligible shift)

def weighted (policy : AllocationPolicyInput) (shift : AllocationShiftInput) : ℚ :=
  shift.workedMinutes * (policy.weightOf shift.role).getD 0

/-- The eligible shifts whose role has no weight. -/
def unknown (policy : AllocationPolicyInput) (shifts : List AllocationShiftInput) :
    List AllocationShiftInput :=
  (policy.eligible shifts).filter fun shift => decide (policy.weightOf shift.role = none)

end AllocationPolicyInput

def unknownRoleIssue (shift : AllocationShiftInput) : AllocationIssue :=
  ⟨.unknownRole, true, [("workerId", .text (shiftLabel shift)), ("role", .text shift.role)]⟩

/-! ## Nobody is lost -/

section Statement

variable (policy : AllocationPolicyInput) (shifts : List AllocationShiftInput)

/-- The allocations are for the distinct recipients, each with the score of its
shifts. -/
structure OnePerRecipient (allocations : List WorkerAllocationResult) : Prop where
  distinct : (allocations.map WorkerAllocationResult.recipientId).Nodup
  found : ∀ shift ∈ policy.eligible shifts,
    shift.recipientId ∈ allocations.map WorkerAllocationResult.recipientId
  only : ∀ a ∈ allocations, ∃ shift ∈ policy.eligible shifts,
    shift.recipientId = a.recipientId
  score : ∀ a ∈ allocations, a.score = (((policy.eligible shifts).filter fun shift =>
    decide (shift.recipientId = a.recipientId)).map policy.weighted).sum

/-- Each shift whose role has no weight is reported by a blocking issue. -/
def RolesReported (result : Except String AllocationBatchResult) : Prop :=
  policy.unknown shifts ≠ [] → ∃ r ∈ result.toOption,
    (r.issues.filter fun i => decide (i.code = .unknownRole)) =
      (policy.unknown shifts).map unknownRoleIssue

/-- Nobody is merged, lost or silently dropped. -/
def NobodyLost [Collation] (tips : List AllocationTipInput) : Prop :=
  (∀ r, computeAllocationBatch tips shifts policy = .ok r → ¬ r.HasBlockingIssue →
    0 < r.totalScore → OnePerRecipient policy shifts r.allocations) ∧
  RolesReported policy shifts (computeAllocationBatch tips shifts policy)

/-- The roles without a weight are not named like a member of every object, and their
shifts have positive minutes. -/
def RolesPlain : Prop :=
  ∀ shift ∈ policy.unknown shifts, 0 < shift.workedMinutes ∧ shift.role ∉ objectPrototype

/-- All shifts can be counted, and count for something. -/
def Countable : Prop :=
  (∀ shift ∈ policy.eligible shifts,
    0 < shift.workedMinutes ∧ policy.weightOf shift.role ≠ none) ∧
  0 < ((policy.eligible shifts).map policy.weighted).sum

/-- The keys tell the recipients apart. -/
def KeysTellApart : Prop :=
  ∀ shift ∈ policy.eligible shifts, shift.workerId ≠ some "" ∧
    ∀ other ∈ policy.eligible shifts, shiftKey shift = shiftKey other →
      shift.recipientId = other.recipientId

end Statement

/-! ## Issues -/

section Issues

variable {policy : AllocationPolicyInput} {shifts : List AllocationShiftInput}
  {tips : List AllocationTipInput} {shift : AllocationShiftInput}

theorem roleWeight_eq_none : roleWeight policy shift.role = none ↔
    policy.weightOf shift.role = none ∧ shift.role ∉ objectPrototype := by
  unfold roleWeight AllocationPolicyInput.weightOf
  cases policy.roleWeights.lookup shift.role with
  | some w => simp
  | none => by_cases h : shift.role ∈ objectPrototype <;> simp [h]

/-- A role without a weight that is named like a member of every object weighs `NaN`. -/
theorem roleWeight_eq_nan : roleWeight policy shift.role = some none ↔
    policy.weightOf shift.role = none ∧ shift.role ∈ objectPrototype := by
  unfold roleWeight AllocationPolicyInput.weightOf
  cases policy.roleWeights.lookup shift.role with
  | some w => simp
  | none => by_cases h : shift.role ∈ objectPrototype <;> simp [h]

/-- The issues of a shift. -/
theorem shiftIssues_eq (policy : AllocationPolicyInput) (shift : AllocationShiftInput) :
    shiftIssues policy shift = if policy.Eligible shift then
      (if shift.workerId = none then
        [⟨.unmappedWorker, false,
          [("externalWorkerId", .text shift.externalWorkerId), ("provider", .text shift.provider),
            ("role", .text shift.role)]⟩] else []) ++
      (if shift.workedMinutes ≤ 0 then
        [⟨.nonPositiveMinutes, true, [("workerId", .text (shiftLabel shift)),
          ("workedMinutes", .number shift.workedMinutes)]⟩]
      else if roleWeight policy shift.role = none then [unknownRoleIssue shift] else [])
    else [] := by
  unfold shiftIssues addShift
  by_cases hel : policy.Eligible shift
  · rw [if_pos hel, if_neg fun h => hel.1.elim h.1 h.2, if_neg hel.2]
    by_cases hminutes : shift.workedMinutes ≤ 0
    · simp only [if_pos hminutes, List.nil_append]
    · simp only [if_neg hminutes]
      cases hweight : roleWeight policy shift.role <;> simp [unknownRoleIssue]
  · rw [if_neg hel]
    by_cases hstatus : shift.shiftStatus ≠ .completed ∧ shift.shiftStatus ≠ .approved
    · rw [if_pos hstatus]
    · rw [if_neg hstatus, if_pos]
      by_contra hrole
      exact hel ⟨by tauto, hrole⟩

theorem tipIssues_spec {i : AllocationIssue} {tip : AllocationTipInput}
    (h : i ∈ tipIssues policy tip) : i.blocking = false ∧ i.code ≠ .unknownRole := by
  unfold tipIssues at h
  split at h
  · cases h
  · split at h
    · obtain rfl := List.mem_singleton.mp h
      exact ⟨rfl, nofun⟩
    · split at h
      · obtain rfl := List.mem_singleton.mp h
        exact ⟨rfl, nofun⟩
      · cases h

theorem mem_eligible : shift ∈ policy.eligible shifts ↔ shift ∈ shifts ∧ policy.Eligible shift := by
  simp [AllocationPolicyInput.eligible]

/-- A run reports a blocking issue for a shift that cannot be counted. -/
theorem blocking_issuesOf : (∃ i ∈ issuesOf tips shifts policy, i.blocking = true) ↔
    ∃ shift ∈ policy.eligible shifts,
      shift.workedMinutes ≤ 0 ∨ roleWeight policy shift.role = none := by
  have hshift (s : AllocationShiftInput) : (∃ i ∈ shiftIssues policy s, i.blocking = true) ↔
      policy.Eligible s ∧ (s.workedMinutes ≤ 0 ∨ roleWeight policy s.role = none) := by
    rw [shiftIssues_eq]
    by_cases hel : policy.Eligible s
    · rw [if_pos hel]
      by_cases hminutes : s.workedMinutes ≤ 0
      · simp [hel, hminutes]
      · by_cases hweight : roleWeight policy s.role = none <;>
          by_cases hworker : s.workerId = none <;>
            simp [hel, hminutes, hweight, hworker, unknownRoleIssue]
    · simp [hel]
  have hempty : ¬ ∃ i ∈ (if (poolOf policy tips).poolUsdCents = 0 then
      [(⟨.emptyPool, false, []⟩ : AllocationIssue)] else []), i.blocking = true := by
    split <;> simp
  have htips : ¬ ∃ i ∈ tips.flatMap (tipIssues policy), i.blocking = true := by
    rintro ⟨i, hi, hblocking⟩
    obtain ⟨tip, -, hi⟩ := List.mem_flatMap.mp hi
    rw [(tipIssues_spec hi).1] at hblocking
    cases hblocking
  simp only [List.mem_flatMap] at htips
  simp only [issuesOf, issues_scoresOf, poolOf_eq] at hempty ⊢
  simp only [List.mem_append, or_and_right, exists_or, hempty, or_false, List.mem_flatMap, htips,
    false_or, mem_eligible]
  constructor
  · rintro ⟨i, ⟨s, hs, hi⟩, hblocking⟩
    obtain ⟨hel, hwhy⟩ := (hshift s).mp ⟨i, hi, hblocking⟩
    exact ⟨s, ⟨hs, hel⟩, hwhy⟩
  · rintro ⟨s, ⟨hs, hel⟩, hwhy⟩
    obtain ⟨i, hi, hblocking⟩ := (hshift s).mpr ⟨hel, hwhy⟩
    exact ⟨i, ⟨s, hs, hi⟩, hblocking⟩

/-- The roles that are reported. -/
theorem unknownRole_issuesOf : (issuesOf tips shifts policy).filter
      (fun i => decide (i.code = .unknownRole)) =
    ((policy.unknown shifts).filter fun shift =>
      decide (0 < shift.workedMinutes ∧ shift.role ∉ objectPrototype)).map unknownRoleIssue := by
  have htips : (tips.flatMap (tipIssues policy)).filter
      (fun i => decide (i.code = .unknownRole)) = [] := by
    refine List.filter_eq_nil_iff.mpr fun i hi => ?_
    obtain ⟨tip, -, hi⟩ := List.mem_flatMap.mp hi
    simpa using (tipIssues_spec hi).2
  have hempty : (if (poolOf policy tips).poolUsdCents = 0 then
      [(⟨.emptyPool, false, []⟩ : AllocationIssue)] else []).filter
        (fun i => decide (i.code = .unknownRole)) = [] := by
    split <;> rfl
  have hshift (s : AllocationShiftInput) : (shiftIssues policy s).filter
      (fun i => decide (i.code = .unknownRole)) =
      if policy.Eligible s ∧ policy.weightOf s.role = none ∧ 0 < s.workedMinutes ∧
        s.role ∉ objectPrototype then [unknownRoleIssue s] else [] := by
    rw [shiftIssues_eq]
    by_cases hel : policy.Eligible s
    · rw [if_pos hel, List.filter_append]
      have hunmapped : (if s.workerId = none then [(⟨.unmappedWorker, false,
          [("externalWorkerId", .text s.externalWorkerId), ("provider", .text s.provider),
            ("role", .text s.role)]⟩ : AllocationIssue)] else []).filter
            (fun i => decide (i.code = .unknownRole)) = [] := by
        split <;> rfl
      rw [hunmapped, List.nil_append]
      by_cases hminutes : s.workedMinutes ≤ 0
      · rw [if_pos hminutes, if_neg fun h => absurd h.2.2.1 (not_lt.mpr hminutes)]
        rfl
      · by_cases hweight : roleWeight policy s.role = none
        · obtain ⟨hnone, hplain⟩ := roleWeight_eq_none.mp hweight
          rw [if_neg hminutes, if_pos hweight, if_pos ⟨hel, hnone, not_le.mp hminutes, hplain⟩]
          rfl
        · rw [if_neg hminutes, if_neg hweight, if_neg]
          · rfl
          · exact fun h => hweight (roleWeight_eq_none.mpr ⟨h.2.1, h.2.2.2⟩)
    · rw [if_neg hel, if_neg fun h => hel h.1]
      rfl
  rw [issuesOf, issues_scoresOf, List.filter_append, List.filter_append, hempty, List.append_nil,
    poolOf_eq, htips, List.nil_append]
  simp only [List.filter_flatMap, hshift, AllocationPolicyInput.unknown,
    AllocationPolicyInput.eligible, List.filter_filter]
  induction shifts with
  | nil => rfl
  | cons s shifts ih =>
      rw [List.flatMap_cons, ih, List.filter_cons]
      by_cases hs : policy.Eligible s ∧ policy.weightOf s.role = none ∧ 0 < s.workedMinutes ∧
        s.role ∉ objectPrototype
      · rw [if_pos hs]
        simp [hs]
      · rw [if_neg hs, if_neg]
        · rfl
        · simp only [Bool.and_eq_true, decide_eq_true_eq]
          tauto

end Issues

/-! ## Scores -/

section Counted

variable {policy : AllocationPolicyInput} {shifts : List AllocationShiftInput}
  {tips : List AllocationTipInput}

theorem mem_counted_iff {p : AllocationShiftInput × Score} : p ∈ counted policy shifts ↔
    p.1 ∈ policy.eligible shifts ∧ 0 < p.1.workedMinutes ∧
      ∃ w, roleWeight policy p.1.role = some w ∧
        p.2 = w.map fun w => (p.1.workedMinutes : ℚ) * w := by
  obtain ⟨s, score⟩ := p
  have hscore : shiftScore policy s = some score ↔ policy.Eligible s ∧ 0 < s.workedMinutes ∧
      ∃ w, roleWeight policy s.role = some w ∧
        score = w.map fun w => (s.workedMinutes : ℚ) * w := by
    unfold shiftScore AllocationPolicyInput.Eligible
    by_cases hstatus : s.shiftStatus ≠ .completed ∧ s.shiftStatus ≠ .approved
    · simp [hstatus]
    · rw [if_neg hstatus]
      have hstatus' : s.shiftStatus = .completed ∨ s.shiftStatus = .approved := by tauto
      by_cases hrole : s.role ∈ policy.excludedRoles
      · simp [hrole]
      · by_cases hminutes : s.workedMinutes ≤ 0
        · simp [hrole, hminutes, not_lt.mpr hminutes]
        · rw [if_neg hrole, if_neg hminutes, Option.map_eq_some_iff]
          simp only [hstatus', hrole, not_le.mp hminutes, not_false_iff, true_and]
          exact exists_congr fun w => and_congr_right fun _ => eq_comm
  rw [counted, List.mem_filterMap, mem_eligible]
  constructor
  · rintro ⟨t, ht, hmap⟩
    obtain ⟨score', hscore', heq⟩ := Option.map_eq_some_iff.mp hmap
    cases heq
    obtain ⟨hel, hrest⟩ := hscore.mp hscore'
    exact ⟨⟨ht, hel⟩, hrest⟩
  · rintro ⟨⟨ht, hel⟩, hrest⟩
    exact ⟨s, ht, Option.map_eq_some_iff.mpr ⟨score, hscore.mpr ⟨hel, hrest⟩, rfl⟩⟩

/-- Shifts that can all be counted count with their weighted minutes. -/
theorem counted_eq (h : ∀ s ∈ policy.eligible shifts,
      0 < s.workedMinutes ∧ policy.weightOf s.role ≠ none) :
    counted policy shifts =
      (policy.eligible shifts).map fun s => (s, some (policy.weighted s)) := by
  have hscore (s : AllocationShiftInput) (hs : s ∈ shifts) : (shiftScore policy s).map
      (fun score => (s, score)) =
      if policy.Eligible s then some (s, some (policy.weighted s)) else none := by
    by_cases hel : policy.Eligible s
    · obtain ⟨hminutes, hweight⟩ := h s (mem_eligible.mpr ⟨hs, hel⟩)
      obtain ⟨w, hw⟩ := Option.ne_none_iff_exists'.mp hweight
      have hstatus : ¬ (s.shiftStatus ≠ .completed ∧ s.shiftStatus ≠ .approved) :=
        fun hnot => hel.1.elim hnot.1 hnot.2
      have hrole : roleWeight policy s.role = some (some w) := by
        rw [AllocationPolicyInput.weightOf] at hw
        simp only [roleWeight, hw]
      rw [shiftScore, if_neg hstatus, if_neg hel.2, if_neg (not_le.mpr hminutes), if_pos hel, hrole,
        AllocationPolicyInput.weighted, hw]
      rfl
    · rw [if_neg hel, shiftScore]
      by_cases hstatus : s.shiftStatus ≠ .completed ∧ s.shiftStatus ≠ .approved
      · rw [if_pos hstatus]
        rfl
      · rw [if_neg hstatus, if_pos]
        · rfl
        · by_contra hrole
          exact hel ⟨by tauto, hrole⟩
  rw [counted, List.filterMap_congr hscore, AllocationPolicyInput.eligible]
  clear h hscore
  induction shifts with
  | nil => rfl
  | cons s shifts ih => by_cases hel : policy.Eligible s <;> simp [hel, ih]

theorem totalScore_recipientsOf (policy : AllocationPolicyInput)
    (shifts : List AllocationShiftInput) : totalScore (recipientsOf policy shifts) =
      totalScore ((counted policy shifts).map fun p => recipientOf p.1 p.2) := by
  rw [recipientsOf_eq, totalScore_collect]
  rfl

/-- The total is a number when every score is. -/
theorem exists_totalScore {l : List Recipient} (h : ∀ r ∈ l, r.score ≠ none) :
    ∃ total, totalScore l = some total := by
  suffices hgen : ∀ q : ℚ, ∃ total, sumFrom (some q) l = some total from hgen 0
  induction l with
  | nil => exact fun q => ⟨q, rfl⟩
  | cons r l ih =>
      intro q
      obtain ⟨w, hw⟩ := Option.ne_none_iff_exists'.mp (h r List.mem_cons_self)
      obtain ⟨total, htotal⟩ := ih (fun x hx => h x (List.mem_cons_of_mem r hx)) (q + w)
      refine ⟨total, ?_⟩
      rw [← htotal]
      change sumFrom (Score.add (some q) r.score) l = _
      rw [hw]
      rfl

theorem scoreUnder_eq (h : ∀ s ∈ policy.eligible shifts,
      0 < s.workedMinutes ∧ policy.weightOf s.role ≠ none) (k : String) :
    scoreUnder (counted policy shifts) k = some
      (((policy.eligible shifts).filter fun s => decide (shiftKey s = k)).map
        policy.weighted).sum := by
  have hsum (l : List AllocationShiftInput) (q : ℚ) :
      l.foldl (fun (sum : Score) s => sum.add (some (policy.weighted s))) (some q) =
        some (q + (l.map policy.weighted).sum) := by
    induction l generalizing q with
    | nil => simp
    | cons s l ih =>
        rw [List.foldl_cons, List.map_cons, List.sum_cons, ← add_assoc]
        exact ih _
  rw [scoreUnder, counted_eq h, List.filter_map, List.foldl_map]
  exact (hsum _ 0).trans (congrArg some (zero_add _))

/-- The total of shifts that can all be counted. -/
theorem totalScore_of_countable (h : ∀ s ∈ policy.eligible shifts,
      0 < s.workedMinutes ∧ policy.weightOf s.role ≠ none) :
    totalScore (recipientsOf policy shifts) =
      some ((policy.eligible shifts).map policy.weighted).sum := by
  rw [totalScore_recipientsOf, counted_eq h, List.map_map]
  obtain ⟨total, htotal⟩ := exists_totalScore
    (l := (policy.eligible shifts).map ((fun p : AllocationShiftInput × Score =>
      recipientOf p.1 p.2) ∘ fun s => (s, some (policy.weighted s)))) fun r hr => by
    obtain ⟨s, -, rfl⟩ := List.mem_map.mp hr
    rw [Function.comp_apply, score_recipientOf]
    exact nofun
  rw [htotal, (totalScore_eq_some htotal).2, List.map_map]
  refine congrArg some (congrArg List.sum (List.map_congr_left fun s _ => ?_))
  simp only [Function.comp_apply, score_recipientOf, Option.getD_some]

end Counted

/-! ## What the batch is -/

section Batch

variable [Collation] {policy : AllocationPolicyInput} {shifts : List AllocationShiftInput}
  {tips : List AllocationTipInput} {r : AllocationBatchResult}

omit [Collation] in
theorem eq_ok_of_toOption {result : Except String AllocationBatchResult}
    (h : r ∈ result.toOption) : result = .ok r := by
  cases result with
  | error e => cases h
  | ok r' => cases h; rfl

/-- A batch that is computed has a total; with one that is not zero it is split. -/
theorem of_computed (h : computeAllocationBatch tips shifts policy = .ok r) :
    totalScore (recipientsOf policy shifts) = some r.totalScore ∧
      (r.issues.filter fun i => decide (i.code = .unknownRole)) =
        (issuesOf tips shifts policy).filter (fun i => decide (i.code = .unknownRole)) ∧
      (r.totalScore ≠ 0 → r.issues = issuesOf tips shifts policy ∧ r.allocations =
        split (poolOf policy tips).poolUsdCents r.totalScore (recipientsOf policy shifts)) := by
  have hscores := rows_scoresOf policy shifts (poolOf policy tips).issues
  cases htotal : totalScore (recipientsOf policy shifts) with
  | none =>
      rw [computeAllocationBatch_none (hscores.symm ▸ htotal)] at h
      cases h
  | some total =>
      by_cases hne : total = 0
      · subst hne
        rw [computeAllocationBatch_zero (hscores.symm ▸ htotal)] at h
        cases h
        refine ⟨rfl, ?_, fun hne => absurd rfl hne⟩
        rw [List.filter_append]
        exact List.append_nil _
      · rw [computeAllocationBatch_some (hscores.symm ▸ htotal) hne] at h
        cases h
        exact ⟨rfl, rfl, fun _ => ⟨rfl, by rw [hscores]⟩⟩

/-- A total that is a number is all it takes. -/
theorem computed_of_total (tips : List AllocationTipInput) {total : ℚ}
    (htotal : totalScore (recipientsOf policy shifts) = some total) :
    ∃ r, computeAllocationBatch tips shifts policy = .ok r := by
  have hscores := rows_scoresOf policy shifts (poolOf policy tips).issues
  by_cases hne : total = 0
  · subst hne
    exact ⟨_, computeAllocationBatch_zero (hscores.symm ▸ htotal)⟩
  · exact ⟨_, computeAllocationBatch_some (hscores.symm ▸ htotal) hne⟩

theorem rolesReported_iff :
    RolesReported policy shifts (computeAllocationBatch tips shifts policy) ↔
      RolesPlain policy shifts := by
  constructor
  · intro h shift hshift
    obtain ⟨r, hr, hissues⟩ := h (List.ne_nil_of_mem hshift)
    rw [(of_computed (eq_ok_of_toOption hr)).2.1, unknownRole_issuesOf] at hissues
    have hlength := congrArg List.length hissues
    rw [List.length_map, List.length_map] at hlength
    exact of_decide_eq_true (List.length_filter_eq_length_iff.mp hlength shift hshift)
  · intro h _
    have hscored : ∀ x ∈ (counted policy shifts).map (fun p => recipientOf p.1 p.2),
        x.score ≠ none := by
      intro x hx
      obtain ⟨p, hp, rfl⟩ := List.mem_map.mp hx
      obtain ⟨hel, -, w, hw, hscore⟩ := mem_counted_iff.mp hp
      rw [score_recipientOf, hscore]
      cases w with
      | some w => exact nofun
      | none =>
          have hweight := roleWeight_eq_nan.mp hw
          have hunknown : p.1 ∈ policy.unknown shifts :=
            List.mem_filter.mpr ⟨hel, decide_eq_true hweight.1⟩
          exact absurd hweight.2 (h p.1 hunknown).2
    obtain ⟨total, htotal⟩ := exists_totalScore hscored
    obtain ⟨r, hr⟩ := computed_of_total tips
      ((totalScore_recipientsOf policy shifts).trans htotal)
    refine ⟨r, by rw [hr]; rfl, ?_⟩
    rw [(of_computed hr).2.1, unknownRole_issuesOf, List.filter_eq_self.mpr]
    exact fun shift hshift => decide_eq_true (h shift hshift)

/-- A batch without a blocking issue whose total is positive is one of shifts that can
all be counted. -/
theorem countable_of_computed (h : computeAllocationBatch tips shifts policy = .ok r)
    (hclean : ¬ r.HasBlockingIssue) (hpos : 0 < r.totalScore) : Countable policy shifts := by
  obtain ⟨htotal, -, hsplit⟩ := of_computed h
  have hissues := (hsplit hpos.ne').1
  rw [AllocationBatchResult.HasBlockingIssue, hissues, blocking_issuesOf] at hclean
  have hscores := totalScore_eq_some ((totalScore_recipientsOf policy shifts).symm.trans htotal)
  have hcountable : ∀ s ∈ policy.eligible shifts,
      0 < s.workedMinutes ∧ policy.weightOf s.role ≠ none := by
    intro s hs
    have hminutes : 0 < s.workedMinutes := not_le.mp fun hle => hclean ⟨s, hs, .inl hle⟩
    refine ⟨hminutes, fun hnone => ?_⟩
    -- the weight is no number, and neither is the total
    have hnan : roleWeight policy s.role = some none := by
      refine roleWeight_eq_nan.mpr ⟨hnone, ?_⟩
      by_contra hplain
      exact hclean ⟨s, hs, .inr (roleWeight_eq_none.mpr ⟨hnone, hplain⟩)⟩
    have hmem : (s, none) ∈ counted policy shifts :=
      mem_counted_iff.mpr ⟨hs, hminutes, none, hnan, rfl⟩
    have hnumber := hscores.1 _ (List.mem_map_of_mem hmem)
    rw [score_recipientOf] at hnumber
    cases hnumber
  refine ⟨hcountable, ?_⟩
  rw [totalScore_of_countable hcountable, Option.some.injEq] at htotal
  rwa [htotal]

theorem computed_of_countable (tips : List AllocationTipInput) (h : Countable policy shifts) :
    ∃ r, computeAllocationBatch tips shifts policy = .ok r ∧ ¬ r.HasBlockingIssue ∧
      0 < r.totalScore := by
  have htotal := totalScore_of_countable h.1
  obtain ⟨r, hr⟩ := computed_of_total tips htotal
  obtain ⟨htotal', -, hsplit⟩ := of_computed hr
  have hpos : 0 < r.totalScore := by
    rw [htotal, Option.some.injEq] at htotal'
    exact htotal' ▸ h.2
  refine ⟨r, hr, ?_, hpos⟩
  rw [AllocationBatchResult.HasBlockingIssue, (hsplit hpos.ne').1, blocking_issuesOf]
  rintro ⟨s, hs, hminutes | hweight⟩
  · exact absurd (h.1 s hs).1 (not_lt.mpr hminutes)
  · exact (h.1 s hs).2 (roleWeight_eq_none.mp hweight).1

end Batch

/-! ## One allocation for each recipient -/

section OneToOne

variable [Collation] {policy : AllocationPolicyInput} {shifts : List AllocationShiftInput}
  {pool : Int} {total : ℚ}

/-- The allocations of a split are for the rows. -/
theorem recipientIds_split (pool : Int) (total : ℚ) (rows : List Recipient) :
    ((split pool total rows).map fun a => (a.recipientId, a.score)).Perm
      (rows.map fun x => (x.identity, x.score.getD 0)) := by
  rw [split, List.map_map, List.map_map]
  exact (List.perm_insertionSort KeyLe rows).map _

omit [Collation] in
theorem recipientId_eq {s : AllocationShiftInput} (h : s.workerId ≠ some "") :
    s.recipientId = shiftIdentity s := by
  unfold AllocationShiftInput.recipientId
  cases hworker : s.workerId with
  | some id =>
      have hid : truthyWorkerId s = some id := by
        rw [hworker, ne_eq, Option.some.injEq] at h
        simp [truthyWorkerId, hworker, h]
      rw [shiftIdentity_of_some hid]
  | none =>
      have hnone : truthyWorkerId s = none := by simp [truthyWorkerId, hworker]
      rw [shiftIdentity_of_none hnone]

omit [Collation] in
theorem shiftIdentity_ne_empty (s : AllocationShiftInput) :
    shiftIdentity s ≠ (some "", none, none) := by
  intro h
  cases hworker : truthyWorkerId s with
  | some id =>
      rw [shiftIdentity_of_some hworker] at h
      cases h
      simpa using (Option.filter_eq_some_iff.mp hworker).2
  | none =>
      rw [shiftIdentity_of_none hworker] at h
      cases h

theorem onePerRecipient_iff (h : ∀ s ∈ policy.eligible shifts,
      0 < s.workedMinutes ∧ policy.weightOf s.role ≠ none) :
    OnePerRecipient policy shifts (split pool total (recipientsOf policy shifts)) ↔
      KeysTellApart policy shifts := by
  have hperm := recipientIds_split pool total (recipientsOf policy shifts)
  have hids (who : RecipientId) : who ∈ (split pool total (recipientsOf policy shifts)).map
      WorkerAllocationResult.recipientId ↔ ∃ r ∈ recipientsOf policy shifts, r.identity = who := by
    have hmem := (hperm.map Prod.fst).mem_iff (a := who)
    rw [List.map_map, List.map_map] at hmem
    exact hmem.trans List.mem_map
  have hrow {s : AllocationShiftInput} (hs : s ∈ policy.eligible shifts) :
      ∃ r ∈ recipientsOf policy shifts, r.key = shiftKey s := by
    have hmem : (s, some (policy.weighted s)) ∈ counted policy shifts := by
      rw [counted_eq h]
      exact List.mem_map_of_mem hs
    exact exists_row hmem
  have hshift {r : Recipient} (hr : r ∈ recipientsOf policy shifts) :
      ∃ s ∈ policy.eligible shifts, r.key = shiftKey s ∧ r.identity = shiftIdentity s := by
    obtain ⟨p, hp, -, hkey, hidentity⟩ := mem_recipientsOf hr
    exact ⟨p.1, (mem_counted_iff.mp hp).1, hkey, hidentity⟩
  constructor
  · intro hone
    have hfound {s : AllocationShiftInput} (hs : s ∈ policy.eligible shifts) :
        s.workerId ≠ some "" ∧ ∃ r ∈ recipientsOf policy shifts,
          r.identity = s.recipientId ∧ r.key = shiftKey s := by
      obtain ⟨r, hr, hidentity⟩ := (hids _).mp (hone.found s hs)
      obtain ⟨t, -, hkey, hidentity'⟩ := hshift hr
      have hworker : s.workerId ≠ some "" := by
        intro hempty
        refine shiftIdentity_ne_empty t (hidentity'.symm.trans (hidentity.trans ?_))
        simp only [AllocationShiftInput.recipientId, hempty]
      refine ⟨hworker, r, hr, hidentity, hkey.trans (shiftKey_eq ?_)⟩
      exact hidentity'.symm.trans (hidentity.trans (recipientId_eq hworker))
    intro s hs
    obtain ⟨hworker, r, hr, hidentity, hkey⟩ := hfound hs
    refine ⟨hworker, fun t ht hsame => ?_⟩
    obtain ⟨-, x, hx, hidentity', hkey'⟩ := hfound ht
    obtain rfl := List.inj_on_of_nodup_map (nodup_recipientsOf policy shifts) hr hx
      (hkey.trans (hsame.trans hkey'.symm))
    exact hidentity.symm.trans hidentity'
  · intro hkeys
    have hidentity {r : Recipient} (hr : r ∈ recipientsOf policy shifts) :
        ∃ s ∈ policy.eligible shifts, r.key = shiftKey s ∧ r.identity = s.recipientId := by
      obtain ⟨s, hs, hkey, hidentity⟩ := hshift hr
      exact ⟨s, hs, hkey, hidentity.trans (recipientId_eq (hkeys s hs).1).symm⟩
    have hsame {s t : AllocationShiftInput} (hs : s ∈ policy.eligible shifts)
        (ht : t ∈ policy.eligible shifts) :
        shiftKey s = shiftKey t ↔ s.recipientId = t.recipientId := by
      refine ⟨(hkeys s hs).2 t ht, fun hid => shiftKey_eq ?_⟩
      rwa [recipientId_eq (hkeys s hs).1, recipientId_eq (hkeys t ht).1] at hid
    refine ⟨?_, fun s hs => ?_, fun a ha => ?_, fun a ha => ?_⟩
    · have hfst := hperm.map Prod.fst
      rw [List.map_map, List.map_map] at hfst
      refine hfst.nodup_iff.mpr (List.Nodup.map_on ?_ ?_)
      · exact fun r hr x hx hid => unique_recipientsOf hx hr hid
      · exact (nodup_recipientsOf policy shifts).of_map _
    · obtain ⟨r, hr, hkey⟩ := hrow hs
      obtain ⟨t, ht, hkey', hid⟩ := hidentity hr
      exact (hids _).mpr ⟨r, hr, hid.trans ((hsame ht hs).mp (hkey'.symm.trans hkey))⟩
    · obtain ⟨r, hr, hid⟩ := (hids _).mp (List.mem_map_of_mem ha)
      obtain ⟨s, hs, -, hid'⟩ := hidentity hr
      exact ⟨s, hs, hid'.symm.trans hid⟩
    · have hmem := hperm.subset (List.mem_map_of_mem ha)
      obtain ⟨x, hx, hpair⟩ := List.mem_map.mp hmem
      obtain ⟨hid, hscore⟩ := Prod.mk.inj hpair
      obtain ⟨p, -, hx', -, -⟩ := mem_recipientsOf hx
      obtain ⟨t, ht, hkey, hid'⟩ := hidentity hx
      have hxscore : x.score = scoreUnder (counted policy shifts) x.key := by
        rw [hx', score_recipientOf, ← hx']
      rw [← hscore, hxscore, scoreUnder_eq h, Option.getD_some]
      refine congrArg (fun l => (List.map policy.weighted l).sum) (List.filter_congr fun s hs => ?_)
      rw [decide_eq_decide, hkey, hsame hs ht, ← hid, hid']

end OneToOne

/-- Nobody is lost if and only if the roles without a weight are plain names, and the
keys tell the recipients apart whenever there is something to split among them. -/
theorem nobodyLost_iff [Collation] (policy : AllocationPolicyInput)
    (shifts : List AllocationShiftInput) (tips : List AllocationTipInput) :
    NobodyLost policy shifts tips ↔
      RolesPlain policy shifts ∧ (Countable policy shifts → KeysTellApart policy shifts) := by
  refine ⟨fun h => ⟨rolesReported_iff.mp h.2, fun hcountable => ?_⟩,
    fun h => ⟨fun r hr hclean hpos => ?_, rolesReported_iff.mpr h.1⟩⟩
  · obtain ⟨r, hr, hclean, hpos⟩ := computed_of_countable tips hcountable
    have hone := h.1 r hr hclean hpos
    rw [((of_computed hr).2.2 hpos.ne').2] at hone
    exact (onePerRecipient_iff hcountable.1).mp hone
  · have hcountable := countable_of_computed hr hclean hpos
    rw [((of_computed hr).2.2 hpos.ne').2]
    exact (onePerRecipient_iff hcountable.1).mpr (h.2 hcountable)

section Concrete

open Scenario

/-- Two external workers of two providers, whose joined texts agree. -/
abbrev Scenario.joined : List AllocationShiftInput :=
  [⟨none, "b:c", "a", "waiter", 60, .completed⟩, ⟨none, "c", "a:b", "waiter", 60, .completed⟩]

/-- A shift of a role the policy does not know. -/
abbrev Scenario.builder : List AllocationShiftInput :=
  [⟨some "ann", "1", "csv", "constructor", 60, .completed⟩]

/-- One of the two external workers has the share of both, and the unknown role is an
exception. -/
theorem two_recipients_in_one :
    (¬ @NobodyLost waiters joined byCodePoint oneDollar ∧
      ∃ r ∈ (@computeAllocationBatch byCodePoint oneDollar joined waiters).toOption,
        ¬ r.HasBlockingIssue ∧ 0 < r.totalScore ∧
          r.allocations.map (fun a => (a.recipientId, a.netAllocatedUsdCents)) =
            [((none, some "a:b", some "c"), 100)]) ∧
    ¬ @NobodyLost waiters builder byCodePoint oneDollar ∧
      @computeAllocationBatch byCodePoint oneDollar builder waiters =
        .error "Allocation invariant violated: allocated NaN != pool 100" := by
  have hjoined : ∃ r ∈ (@computeAllocationBatch byCodePoint oneDollar joined waiters).toOption,
      ¬ r.HasBlockingIssue ∧ 0 < r.totalScore ∧
        r.allocations.map (fun a => (a.recipientId, a.netAllocatedUsdCents)) =
          [((none, some "a:b", some "c"), 100)] := by
    decide +kernel
  have herror : @computeAllocationBatch byCodePoint oneDollar builder waiters =
      .error "Allocation invariant violated: allocated NaN != pool 100" := by
    decide +kernel
  refine ⟨⟨fun h => ?_, hjoined⟩, fun h => ?_, herror⟩
  · obtain ⟨r, hr, hclean, hpos, hallocations⟩ := hjoined
    have hfound := (h.1 r (eq_ok_of_toOption hr) hclean hpos).found joined[0] (by decide +kernel)
    have hids := congrArg (List.map Prod.fst) hallocations
    rw [List.map_map] at hids
    rw [show r.allocations.map WorkerAllocationResult.recipientId = _ from hids] at hfound
    revert hfound
    decide
  · obtain ⟨r, hr, -⟩ := h.2 (by decide +kernel)
    rw [herror] at hr
    cases hr

end Concrete

end ServeProof
