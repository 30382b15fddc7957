import Mathlib.Data.List.Induction
import ServeProof.Disclosure.Snapshot
import ServeProof.Query

/-!
# ServeProof.Disclosure.Tally

Records that are added up in a loop over rows, as `monthlyBreakdown` and
`verificationGrades` are: each key once, in the order it is first met, with the
amounts of its rows.
-/

namespace ServeProof

variable {α κ : Type} [DecidableEq κ]

/-! ## One row -/

theorem sum_addTo (key : κ) (amount : Int) (record : List (κ × Int)) :
    ((addTo key amount record).map Prod.snd).sum = (record.map Prod.snd).sum + amount := by
  induction record with
  | nil => simp [addTo]
  | cons p record ih =>
      simp only [addTo]
      split
      · simp only [List.map_cons, List.sum_cons]
        omega
      · simp only [List.map_cons, List.sum_cons, ih]
        omega

/-- A key that is there stays where it is, another is added at the end. -/
theorem keys_addTo (key : κ) (amount : Int) (record : List (κ × Int)) :
    (addTo key amount record).map Prod.fst =
      if key ∈ record.map Prod.fst then record.map Prod.fst
      else record.map Prod.fst ++ [key] := by
  induction record with
  | nil => simp [addTo]
  | cons p record ih =>
      simp only [addTo]
      by_cases hk : p.1 = key
      · simp [hk]
      · have hk' : key ≠ p.1 := Ne.symm hk
        rw [if_neg hk, List.map_cons, List.map_cons, ih]
        by_cases hmem : key ∈ record.map Prod.fst
        · rw [if_pos hmem, if_pos (List.mem_cons_of_mem _ hmem)]
        · rw [if_neg hmem, if_neg, List.cons_append]
          rw [List.mem_cons, not_or]
          exact ⟨hk', hmem⟩

theorem lookup_addTo (key : κ) (amount : Int) (record : List (κ × Int)) (k : κ) :
    (addTo key amount record).lookup k =
      if k = key then some ((record.lookup k).getD 0 + amount) else record.lookup k := by
  induction record with
  | nil =>
      by_cases hk : k = key
      · simp [addTo, hk]
      · have hne : (k == key) = false := beq_false_of_ne hk
        simp [addTo, hk, hne, List.lookup_cons]
  | cons p record ih =>
      simp only [addTo]
      by_cases hp : p.1 = key
      · rw [if_pos hp, List.lookup_cons, List.lookup_cons]
        by_cases hk : k = key
        · simp [hk, hp]
        · have hne : (k == p.1) = false := beq_false_of_ne fun h => hk (h.trans hp)
          simp [hk, hne]
      · rw [if_neg hp, List.lookup_cons, List.lookup_cons, ih]
        by_cases hk : k = p.1
        · have hne : p.1 ≠ key := hp
          simp [hk, hne]
        · have hne : (k == p.1) = false := beq_false_of_ne hk
          simp [hne]

/-! ## All rows -/

/-- The amounts of rows, added up by a key. -/
def tally (key : α → κ) (amount : α → Int) (rows : List α) : List (κ × Int) :=
  rows.foldl (fun record a => addTo (key a) (amount a) record) []

variable (key : α → κ) (amount : α → Int)

theorem tally_concat (rows : List α) (a : α) :
    tally key amount (rows ++ [a]) = addTo (key a) (amount a) (tally key amount rows) := by
  rw [tally, List.foldl_append]
  rfl

/-- Nothing is lost. -/
theorem sum_tally (rows : List α) :
    ((tally key amount rows).map Prod.snd).sum = (rows.map amount).sum := by
  induction rows using List.reverseRecOn with
  | nil => rfl
  | append_singleton rows a ih =>
      rw [tally_concat, sum_addTo, ih, List.map_append, List.sum_append, List.map_singleton,
        List.sum_singleton]

theorem nodup_tally (rows : List α) : ((tally key amount rows).map Prod.fst).Nodup := by
  induction rows using List.reverseRecOn with
  | nil => exact List.nodup_nil
  | append_singleton rows a ih =>
      rw [tally_concat, keys_addTo]
      split
      · exact ih
      · next hnot => exact List.concat_eq_append ▸ ih.concat hnot

/-- The keys are those of the rows. -/
theorem mem_tally {rows : List α} {k : κ} :
    k ∈ (tally key amount rows).map Prod.fst ↔ k ∈ rows.map key := by
  induction rows using List.reverseRecOn with
  | nil => rfl
  | append_singleton rows a ih =>
      rw [tally_concat, keys_addTo, List.map_append, List.mem_append, List.map_singleton,
        List.mem_singleton, ← ih]
      split
      · next hmem =>
        refine ⟨.inl, fun h => h.elim id ?_⟩
        rintro rfl
        exact hmem
      · rw [List.mem_append, List.mem_singleton]

/-- There are as many keys as there are different ones among the rows. -/
theorem length_tally (rows : List α) :
    (tally key amount rows).length = (rows.map key).dedup.length := by
  have hperm : ((tally key amount rows).map Prod.fst).Perm (rows.map key).dedup := by
    refine (List.perm_ext_iff_of_nodup (nodup_tally key amount rows) (List.nodup_dedup _)).mpr ?_
    intro k
    rw [mem_tally, List.mem_dedup]
  rw [← hperm.length_eq, List.length_map]

/-- Rows that are counted one by one are counted as by a query. -/
theorem lookup_tally_one (rows : List α) (k : κ) :
    (tally key (fun _ => 1) rows).lookup k = (Query.groupCounts key rows).lookup k := by
  rw [Query.lookup_groupCounts]
  induction rows using List.reverseRecOn with
  | nil => rfl
  | append_singleton rows a ih =>
      rw [tally_concat, lookup_addTo, ih, List.map_append, List.countP_append]
      by_cases hk : k = key a
      · subst hk
        by_cases hmem : key a ∈ rows.map key
        · simp [hmem]
        · have hzero : (rows.countP fun x => decide (key x = key a)) = 0 := by
            simpa [List.countP_eq_zero] using hmem
          simp [hmem, hzero]
      · have hk' : key a ≠ k := Ne.symm hk
        simp [hk, hk']

end ServeProof
