import ServeProof.Contributions
import ServeProof.Services.Allocations
import ServeProof.Shares

/-!
# ServeProof.RowOrder

The database returns the tips and shifts of a business date in no particular order.
The engine adds up what each row brings and sorts the recipients before it splits,
so a permutation of the rows changes nothing but the order of the issues.
-/

namespace ServeProof

open Apportion
open Engine

/-- The results agree up to the order of the issues. -/
def SameUpToOrder :
    Except String AllocationBatchResult → Except String AllocationBatchResult → Prop
  | .ok r, .ok r' => r.poolUsdCents = r'.poolUsdCents ∧ r.totalScore = r'.totalScore ∧
      r.allocations = r'.allocations ∧ r.issues.Perm r'.issues
  | .error e, .error e' => e = e'
  | .ok _, .error _ | .error _, .ok _ => False

/-- `localeCompare` is a strict total order on the keys. -/
structure ComparesStrictly [Collation] (keys : List String) : Prop where
  eq : ∀ a ∈ keys, ∀ b ∈ keys, Collation.localeCompare a b = .eq → a = b
  swap : ∀ a ∈ keys, ∀ b ∈ keys,
    Collation.localeCompare b a = (Collation.localeCompare a b).swap
  trans : ∀ a ∈ keys, ∀ b ∈ keys, ∀ c ∈ keys, Collation.localeCompare a b = .lt →
    Collation.localeCompare b c = .lt → Collation.localeCompare a c = .lt

/-- The keys under which the shifts count. -/
def keysOf (policy : AllocationPolicyInput) (shifts : List AllocationShiftInput) : List String :=
  (counted policy shifts).map fun p => shiftKey p.1

/-- Distinct recipients have distinct keys. -/
def KeysDistinct (policy : AllocationPolicyInput) (shifts : List AllocationShiftInput) : Prop :=
  ∀ p ∈ counted policy shifts, ∀ q ∈ counted policy shifts, shiftKey p.1 = shiftKey q.1 →
    shiftIdentity p.1 = shiftIdentity q.1

theorem ComparesStrictly.ordersOn [Collation] {keys : List String} (h : ComparesStrictly keys)
    {rows : List Recipient} (hrows : ∀ r ∈ rows, r.key ∈ keys)
    (hnodup : (rows.map Recipient.key).Nodup) : OrdersOn KeyLe rows where
  total a ha b hb := by
    have hswap := h.swap a.key (hrows a ha) b.key (hrows b hb)
    unfold KeyLe
    rw [hswap]
    cases Collation.localeCompare a.key b.key <;> simp
  trans a ha b hb c hc hab hbc := by
    have hka := hrows a ha
    have hkb := hrows b hb
    have hkc := hrows c hc
    unfold KeyLe at hab hbc ⊢
    cases hxy : Collation.localeCompare a.key b.key with
    | gt => exact absurd hxy hab
    | eq => rwa [h.eq _ hka _ hkb hxy]
    | lt =>
        cases hyz : Collation.localeCompare b.key c.key with
        | gt => exact absurd hyz hbc
        | eq => rw [← h.eq _ hkb _ hkc hyz, hxy]; exact nofun
        | lt => rw [h.trans _ hka _ hkb _ hkc hxy hyz]; exact nofun
  antisymm a ha b hb hab hba := by
    have hswap := h.swap a.key (hrows a ha) b.key (hrows b hb)
    unfold KeyLe at hab hba
    cases hxy : Collation.localeCompare a.key b.key with
    | gt => exact absurd hxy hab
    | eq => exact List.inj_on_of_nodup_map hnodup ha hb (h.eq _ (hrows a ha) _ (hrows b hb) hxy)
    | lt =>
        rw [hxy] at hswap
        exact absurd hswap hba

/-! ## The rows of the recipients -/

section Rows

variable {policy : AllocationPolicyInput} {shifts shifts' : List AllocationShiftInput}

theorem counted_perm (policy : AllocationPolicyInput) (h : shifts.Perm shifts') :
    (counted policy shifts).Perm (counted policy shifts') := h.filterMap _

theorem scoreUnder_perm {l l' : List (AllocationShiftInput × Score)} (h : l.Perm l')
    (k : String) : scoreUnder l k = scoreUnder l' k := by
  have hcomm : RightCommutative fun (sum : Score) (p : AllocationShiftInput × Score) =>
      sum.add p.2 := ⟨fun a b c => Score.add_right_comm a b.2 c.2⟩
  exact (h.filter _).foldl_eq (some 0)

theorem KeysDistinct.perm (h : KeysDistinct policy shifts) (hp : shifts.Perm shifts') :
    KeysDistinct policy shifts' := fun p hmem q hmem' =>
  h p ((counted_perm policy hp).symm.subset hmem) q ((counted_perm policy hp).symm.subset hmem')

theorem mem_recipientsOf_perm (h : shifts.Perm shifts') (hkeys : KeysDistinct policy shifts)
    {r : Recipient} (hr : r ∈ recipientsOf policy shifts) : r ∈ recipientsOf policy shifts' := by
  have hcounted := counted_perm policy h
  obtain ⟨p, hp, hrow, hkey, -⟩ := mem_recipientsOf hr
  obtain ⟨r', hr', hkey'⟩ := exists_row (hcounted.subset hp)
  obtain ⟨q, hq, hrow', hqkey, -⟩ := mem_recipientsOf hr'
  have hid : shiftIdentity q.1 = shiftIdentity p.1 :=
    hkeys q (hcounted.symm.subset hq) p hp (hqkey.symm.trans hkey')
  have hsame : r' = r := by
    rw [hrow', hrow, recipientOf_congr hid, hkey', hkey, scoreUnder_perm hcounted]
  exact hsame ▸ hr'

/-- Every order of the shifts makes the same rows. -/
theorem recipientsOf_perm (h : shifts.Perm shifts') (hkeys : KeysDistinct policy shifts) :
    (recipientsOf policy shifts).Perm (recipientsOf policy shifts') := by
  refine (List.perm_ext_iff_of_nodup ((nodup_recipientsOf policy shifts).of_map _)
    ((nodup_recipientsOf policy shifts').of_map _)).mpr fun r => ?_
  exact ⟨mem_recipientsOf_perm h hkeys, mem_recipientsOf_perm h.symm (hkeys.perm h)⟩

theorem totalScore_perm {rows rows' : List Recipient} (h : rows.Perm rows') :
    totalScore rows = totalScore rows' := by
  have hcomm : RightCommutative fun (sum : Score) (r : Recipient) => sum.add r.score :=
    ⟨fun a b c => Score.add_right_comm a b.score c.score⟩
  exact h.foldl_eq (some 0)

theorem split_perm [Collation] {rows rows' : List Recipient} (h : rows.Perm rows')
    (horder : OrdersOn KeyLe rows) (pool : Int) (total : ℚ) :
    split pool total rows = split pool total rows' := by
  rw [split, split, horder.insertionSort_eq h]

end Rows

/-! ## The result -/

section Result

variable {policy : AllocationPolicyInput} {tips tips' : List AllocationTipInput}
  {shifts shifts' : List AllocationShiftInput}

theorem poolOf_perm (policy : AllocationPolicyInput) (h : tips.Perm tips') :
    (poolOf policy tips).poolUsdCents = (poolOf policy tips').poolUsdCents ∧
      (poolOf policy tips).issues.Perm (poolOf policy tips').issues := by
  rw [poolOf_eq, poolOf_eq]
  exact ⟨(h.map _).sum_eq, h.flatMap_right _⟩

theorem issuesOf_perm (policy : AllocationPolicyInput) (htips : tips.Perm tips')
    (hshifts : shifts.Perm shifts') :
    (issuesOf tips shifts policy).Perm (issuesOf tips' shifts' policy) := by
  obtain ⟨hpool, hissues⟩ := poolOf_perm policy htips
  rw [issuesOf, issuesOf, issues_scoresOf, issues_scoresOf, hpool]
  exact (hissues.append (hshifts.flatMap_right _)).append_right _

theorem sameUpToOrder_perm [Collation] (htips : tips.Perm tips') (hshifts : shifts.Perm shifts')
    (hkeys : KeysDistinct policy shifts) (hcompare : ComparesStrictly (keysOf policy shifts)) :
    SameUpToOrder (computeAllocationBatch tips shifts policy)
      (computeAllocationBatch tips' shifts' policy) := by
  have hpool := (poolOf_perm policy htips).1
  have hissues := issuesOf_perm policy htips hshifts
  have hrows := recipientsOf_perm hshifts hkeys
  have htotals := totalScore_perm hrows
  have hscores := rows_scoresOf policy shifts (poolOf policy tips).issues
  have hscores' := rows_scoresOf policy shifts' (poolOf policy tips').issues
  cases htotal : totalScore (recipientsOf policy shifts) with
  | none =>
      rw [computeAllocationBatch_none (hscores.symm ▸ htotal),
        computeAllocationBatch_none (hscores'.symm ▸ htotals.symm.trans htotal), hpool]
      exact rfl
  | some total =>
      by_cases hne : total = 0
      · subst hne
        rw [computeAllocationBatch_zero (hscores.symm ▸ htotal),
          computeAllocationBatch_zero (hscores'.symm ▸ htotals.symm.trans htotal)]
        exact ⟨hpool, rfl, rfl, by rw [hpool]; exact hissues.append_right _⟩
      · rw [computeAllocationBatch_some (hscores.symm ▸ htotal) hne,
          computeAllocationBatch_some (hscores'.symm ▸ htotals.symm.trans htotal) hne]
        refine ⟨hpool, rfl, ?_, hissues⟩
        have horder : OrdersOn KeyLe (recipientsOf policy shifts) := by
          refine hcompare.ordersOn (fun r hr => ?_) (nodup_recipientsOf policy shifts)
          obtain ⟨p, hp, -, hkey, -⟩ := mem_recipientsOf hr
          exact List.mem_map.mpr ⟨p, hp, hkey.symm⟩
        simp only [hscores, hscores', hpool]
        exact split_perm hrows horder _ total

end Result

/-- The calculation does not depend on the order of the rows, and neither do the hashes
of the batch. -/
theorem computeAllocationBatch_perm [Collation] {policy : AllocationPolicyInput}
    {tips tips' : List AllocationTipInput} {shifts shifts' : List AllocationShiftInput}
    (htips : tips.Perm tips') (hshifts : shifts.Perm shifts')
    (hkeys : KeysDistinct policy shifts) (hcompare : ComparesStrictly (keysOf policy shifts)) :
    SameUpToOrder (computeAllocationBatch tips shifts policy)
        (computeAllocationBatch tips' shifts' policy) ∧
      ∀ c c' : Calculation, c.batchId = c'.batchId → c.tipHashes.Perm c'.tipHashes →
        c.shiftHashes.Perm c'.shiftHashes →
        computeAllocationBatch tips shifts policy = .ok c.result →
        computeAllocationBatch tips' shifts' policy = .ok c'.result →
        c.evidenceHash = c'.evidenceHash ∧ c.allocationHash = c'.allocationHash := by
  have hsame := sameUpToOrder_perm htips hshifts hkeys hcompare
  refine ⟨hsame, fun c c' hid htipHashes hshiftHashes hc hc' => ?_⟩
  rw [hc, hc'] at hsame
  obtain ⟨hpool, -, hallocations, -⟩ := hsame
  have hsort {l l' : List Nat} (h : l.Perm l') :
      l.insertionSort (· ≤ ·) = l'.insertionSort (· ≤ ·) := by
    have horder : OrdersOn (· ≤ ·) l :=
      ⟨fun a _ b _ => le_total a b, fun a _ b _ c _ => le_trans, fun a _ b _ => le_antisymm⟩
    exact horder.insertionSort_eq h
  constructor
  · rw [Calculation.evidenceHash, Calculation.evidenceHash, hsort htipHashes, hsort hshiftHashes]
  · rw [Calculation.allocationHash, Calculation.allocationHash, hid, hpool, hallocations]

/-- A tip and a refunded one. -/
abbrev Scenario.refundedTip : List AllocationTipInput :=
  [⟨.cardTip, 100, .completed, .none⟩, ⟨.cardTip, 50, .completed, .full⟩]

open Scenario

theorem computeAllocationBatch_perm_of_reversed :
    SameUpToOrder (@computeAllocationBatch byCodePoint refundedTip threeWaiters waiters)
        (@computeAllocationBatch byCodePoint refundedTip.reverse threeWaiters.reverse waiters) ∧
      ∀ c c' : Calculation, c.batchId = c'.batchId → c.tipHashes.Perm c'.tipHashes →
        c.shiftHashes.Perm c'.shiftHashes →
        @computeAllocationBatch byCodePoint refundedTip threeWaiters waiters = .ok c.result →
        @computeAllocationBatch byCodePoint refundedTip.reverse threeWaiters.reverse waiters =
          .ok c'.result →
        c.evidenceHash = c'.evidenceHash ∧ c.allocationHash = c'.allocationHash :=
  @computeAllocationBatch_perm byCodePoint waiters refundedTip refundedTip.reverse threeWaiters
    threeWaiters.reverse (List.reverse_perm _).symm (List.reverse_perm _).symm
    (show ∀ p ∈ _, ∀ q ∈ _, _ from by decide +kernel)
    (@ComparesStrictly.mk byCodePoint _ (by decide +kernel) (by decide +kernel)
      (by decide +kernel))

end ServeProof
