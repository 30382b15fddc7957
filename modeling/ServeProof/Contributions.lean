import ServeProof.Recipients

/-!
# ServeProof.Contributions

What each tip and each shift brings to a batch: cents of the pool, a score under
the key of a recipient, issues.  The loops of the engine add these up, and the row
of a recipient holds the sum of what came under its key (`find_collect`).
-/

namespace ServeProof
namespace Engine

/-! ## Tips -/

def tipCents (policy : AllocationPolicyInput) (tip : AllocationTipInput) : Int :=
  if (policy.poolInclusion.lookup tip.tipType).getD false = false then 0
  else if tip.refundStatus = .full then 0
  else if tip.paymentStatus = .canceled then 0
  else tip.grossAmountUsdCents

def tipIssues (policy : AllocationPolicyInput) (tip : AllocationTipInput) :
    List AllocationIssue :=
  if (policy.poolInclusion.lookup tip.tipType).getD false = false then []
  else if tip.refundStatus = .full then [⟨.refundedPaymentExcluded, false, tipDetail tip⟩]
  else if tip.paymentStatus = .canceled then [⟨.canceledPaymentExcluded, false, tipDetail tip⟩]
  else []

theorem addTip_eq (policy : AllocationPolicyInput) (pool : Pool) (tip : AllocationTipInput) :
    addTip policy pool tip =
      ⟨pool.poolUsdCents + tipCents policy tip, pool.issues ++ tipIssues policy tip⟩ := by
  unfold addTip tipCents tipIssues
  split
  · simp
  · split
    · simp
    · split <;> simp

theorem poolOf_eq (policy : AllocationPolicyInput) (tips : List AllocationTipInput) :
    poolOf policy tips = ⟨(tips.map (tipCents policy)).sum, tips.flatMap (tipIssues policy)⟩ := by
  suffices hgen : ∀ pool : Pool, tips.foldl (addTip policy) pool =
      ⟨pool.poolUsdCents + (tips.map (tipCents policy)).sum,
        pool.issues ++ tips.flatMap (tipIssues policy)⟩ by
    simpa [poolOf] using hgen ⟨0, []⟩
  induction tips with
  | nil => simp
  | cons tip tips ih =>
      intro pool
      rw [List.foldl_cons, ih, addTip_eq]
      simp [add_assoc]

/-! ## Shifts -/

/-- The issues of one shift. -/
def shiftIssues (policy : AllocationPolicyInput) (shift : AllocationShiftInput) :
    List AllocationIssue := (addShift policy ⟨∅, []⟩ shift).issues

theorem issues_addShift (policy : AllocationPolicyInput) (scores : Scores)
    (shift : AllocationShiftInput) : (addShift policy scores shift).issues =
      scores.issues ++ shiftIssues policy shift := by
  unfold shiftIssues addShift
  split
  · simp
  · split
    · simp
    · dsimp only
      split
      · simp
      · split <;> simp

theorem issues_scoresOf (policy : AllocationPolicyInput) (shifts : List AllocationShiftInput)
    (issues : List AllocationIssue) : (scoresOf policy shifts issues).issues =
      issues ++ shifts.flatMap (shiftIssues policy) := by
  suffices hgen : ∀ scores : Scores, (shifts.foldl (addShift policy) scores).issues =
      scores.issues ++ shifts.flatMap (shiftIssues policy) from hgen ⟨∅, issues⟩
  induction shifts with
  | nil => simp
  | cons shift shifts ih =>
      intro scores
      rw [List.foldl_cons, ih, issues_addShift, List.flatMap_cons, List.append_assoc]

/-! ## The row of a key -/

theorem find_addScore (t : Table Recipient.key) (r : Recipient) (k : String) :
    (addScore t r).find k = if r.key = k then
        some { r with score := Score.add ((t.find k).elim (some 0) Recipient.score) r.score }
      else t.find k := by
  rw [addScore]
  by_cases hk : r.key = k
  · subst hk
    cases hfind : t.find r.key <;> simp
  · cases hfind : t.find r.key <;> simp [Table.find_set, hk]

/-- A row has the sum of the scores under its key, and stands for whoever came last. -/
theorem find_collect (contributions : List Recipient) (k : String) :
    (collect contributions).find k =
      (contributions.filter fun r => decide (r.key = k)).getLast?.map fun r =>
        { r with
          score := sumFrom (some 0) (contributions.filter fun r => decide (r.key = k)) } := by
  induction contributions using List.reverseRecOn with
  | nil => rfl
  | append_singleton l r ih =>
      have hcollect : collect (l ++ [r]) = addScore (collect l) r := by
        rw [collect, List.foldl_append]
        rfl
      rw [hcollect, find_addScore, ih, List.filter_append]
      by_cases hk : r.key = k
      · simp only [hk, if_true, List.filter_cons, decide_true, List.filter_nil,
          List.getLast?_append, List.getLast?_singleton, Option.some_or, Option.map_some,
          Option.some.injEq, sumFrom, List.foldl_append, List.foldl_cons, List.foldl_nil]
        cases hlast : (l.filter fun r => decide (r.key = k)).getLast? with
        | none =>
            rw [List.getLast?_eq_none_iff.mp hlast]
            rfl
        | some old => rfl
      · simp [hk]

theorem key_recipientOf (s : AllocationShiftInput) (score : Score) :
    (recipientOf s score).key = shiftKey s := by
  rw [recipientOf_eq]
  rfl

theorem identity_recipientOf (s : AllocationShiftInput) (score : Score) :
    (recipientOf s score).identity = shiftIdentity s := by
  rw [recipientOf_eq]
  rfl

variable {policy : AllocationPolicyInput} {shifts : List AllocationShiftInput}

theorem mem_of_counted {p : AllocationShiftInput × Score} (hp : p ∈ counted policy shifts) :
    p.1 ∈ shifts := by
  obtain ⟨s, hs, hscore⟩ := List.mem_filterMap.mp hp
  obtain ⟨score, -, rfl⟩ := Option.map_eq_some_iff.mp hscore
  exact hs

theorem score_recipientOf (s : AllocationShiftInput) (score : Score) :
    (recipientOf s score).score = score := by
  rw [recipientOf_eq]

theorem recipientOf_with (s : AllocationShiftInput) (score score' : Score) :
    { recipientOf s score with score := score' } = recipientOf s score' := by
  unfold recipientOf
  cases truthyWorkerId s <;> rfl

/-- What the shifts of a list that count come to under a key. -/
def scoreUnder (contributions : List (AllocationShiftInput × Score)) (k : String) : Score :=
  (contributions.filter fun p => decide (shiftKey p.1 = k)).foldl
    (fun sum p => sum.add p.2) (some 0)

/-- The row of a key, from the shifts that count. -/
theorem find_collect_counted (contributions : List (AllocationShiftInput × Score)) (k : String) :
    (collect (contributions.map fun p => recipientOf p.1 p.2)).find k =
      (contributions.filter fun p => decide (shiftKey p.1 = k)).getLast?.map fun p =>
        recipientOf p.1 (scoreUnder contributions k) := by
  have hfilter : (contributions.map fun p => recipientOf p.1 p.2).filter
      (fun r => decide (r.key = k)) =
      (contributions.filter fun p => decide (shiftKey p.1 = k)).map
        fun p => recipientOf p.1 p.2 := by
    rw [List.filter_map]
    simp only [Function.comp_def, key_recipientOf]
  rw [find_collect, hfilter, List.getLast?_map, Option.map_map, sumFrom, List.foldl_map]
  simp only [score_recipientOf]
  exact congrArg (Option.map · _) (funext fun p => recipientOf_with p.1 p.2 _)

end Engine

open Engine

/-! ## The recipients of a business date -/

/-- The recipients of a business date, in the order of their first shifts. -/
def recipientsOf (policy : AllocationPolicyInput) (shifts : List AllocationShiftInput) :
    List Recipient := (scoresOf policy shifts []).recipients.rows

variable {policy : AllocationPolicyInput} {shifts : List AllocationShiftInput}

theorem rows_scoresOf (policy : AllocationPolicyInput) (shifts : List AllocationShiftInput)
    (issues : List AllocationIssue) :
    (scoresOf policy shifts issues).recipients.rows = recipientsOf policy shifts := by
  rw [recipientsOf, recipients_scoresOf, recipients_scoresOf]

theorem recipientsOf_eq (policy : AllocationPolicyInput) (shifts : List AllocationShiftInput) :
    recipientsOf policy shifts =
      (collect ((counted policy shifts).map fun p => recipientOf p.1 p.2)).rows := by
  rw [recipientsOf, recipients_scoresOf]

theorem nodup_recipientsOf (policy : AllocationPolicyInput) (shifts : List AllocationShiftInput) :
    ((recipientsOf policy shifts).map Recipient.key).Nodup :=
  (scoresOf policy shifts []).recipients.nodup

/-- The row of a key holds what the shifts under it come to, for one of them. -/
theorem mem_recipientsOf_iff {r : Recipient} : r ∈ recipientsOf policy shifts ↔
    ∃ p, ((counted policy shifts).filter fun p => decide (shiftKey p.1 = r.key)).getLast? = some p ∧
      r = recipientOf p.1 (scoreUnder (counted policy shifts) r.key) := by
  rw [recipientsOf_eq]
  refine (Iff.intro Table.find_key Table.mem_of_find).trans ?_
  rw [find_collect_counted, Option.map_eq_some_iff]
  exact exists_congr fun p => and_congr_right fun _ => eq_comm

/-- A row is that of a shift that counts. -/
theorem mem_recipientsOf {r : Recipient} (hr : r ∈ recipientsOf policy shifts) :
    ∃ p ∈ counted policy shifts, r = recipientOf p.1 (scoreUnder (counted policy shifts) r.key) ∧
      r.key = shiftKey p.1 ∧ r.identity = shiftIdentity p.1 := by
  obtain ⟨p, hlast, hr⟩ := mem_recipientsOf_iff.mp hr
  have hp := List.mem_filter.mp (List.mem_of_getLast? hlast)
  have hkey : shiftKey p.1 = r.key := of_decide_eq_true hp.2
  refine ⟨p, hp.1, hr, hkey.symm, ?_⟩
  rw [hr, identity_recipientOf]

/-- A shift that counts has a row under its key. -/
theorem exists_row {p : AllocationShiftInput × Score} (hp : p ∈ counted policy shifts) :
    ∃ r ∈ recipientsOf policy shifts, r.key = shiftKey p.1 := by
  have hmem : p ∈ (counted policy shifts).filter fun q => decide (shiftKey q.1 = shiftKey p.1) :=
    List.mem_filter.mpr ⟨hp, decide_eq_true rfl⟩
  obtain ⟨q, hq⟩ :=
    List.getLast?_isSome.mpr (List.ne_nil_of_mem hmem) |> Option.isSome_iff_exists.mp
  have hkey : shiftKey q.1 = shiftKey p.1 :=
    of_decide_eq_true (List.mem_filter.mp (List.mem_of_getLast? hq)).2
  have hrow : (recipientOf q.1 (scoreUnder (counted policy shifts) (shiftKey p.1))).key =
      shiftKey p.1 := (key_recipientOf q.1 _).trans hkey
  refine ⟨_, mem_recipientsOf_iff.mpr ⟨q, ?_, ?_⟩, hrow⟩
  · rw [hrow]
    exact hq
  · rw [hrow]

/-- Its identity determines a row. -/
theorem unique_recipientsOf {r x : Recipient} (hr : r ∈ recipientsOf policy shifts)
    (hx : x ∈ recipientsOf policy shifts) (h : x.identity = r.identity) : x = r := by
  obtain ⟨p, -, -, hkey, hidentity⟩ := mem_recipientsOf hr
  obtain ⟨q, -, -, hkey', hidentity'⟩ := mem_recipientsOf hx
  have hsame : shiftKey q.1 = shiftKey p.1 :=
    shiftKey_eq (hidentity'.symm.trans (h.trans hidentity))
  exact List.inj_on_of_nodup_map (nodup_recipientsOf policy shifts) hx hr
    (hkey'.trans (hsame.trans hkey.symm))

end ServeProof
