import ServeProof.Apportion
import ServeProof.Income.Projector

/-!
# ServeProof.Income.Slices

`splitProportionally` makes one slice for each weight and loses no cent: the
slices sum to the total, whatever the total and the weights are
(`sum_splitProportionally`).  Each slice is the whole part of its exact slice,
and a cent more where fewer slices are ahead of it than there are cents left
over (`getD_splitProportionally`).  Such a slice has a fraction, as there is
one for each cent (`fract_pos_of_slicesAhead_lt`).
-/

namespace ServeProof

open Apportion

/-! ## handOut -/

theorem sum_modify_succ {l : List Int} {i : Nat} (h : i < l.length) :
    (l.modify i (· + 1)).sum = l.sum + 1 := by
  induction l generalizing i with
  | nil => exact absurd h (Nat.not_lt_zero i)
  | cons x l ih =>
      cases i with
      | zero =>
          simp only [List.modify_zero_cons, List.sum_cons]
          omega
      | succ i =>
          simp only [List.modify_succ_cons, List.sum_cons]
          rw [ih (Nat.lt_of_succ_lt_succ h)]
          omega

theorem length_handOut (order : List Nat) (n cursor : Nat) (slices : List Int) :
    (handOut order n cursor slices).length = slices.length := by
  induction n generalizing cursor slices with
  | zero => rfl
  | succ n ih => rw [handOut, ih, List.length_modify]

/-- Each cent that is handed out is added to one slice. -/
theorem sum_handOut {order : List Nat} {slices : List Int}
    (horder : ∀ i ∈ order, i < slices.length) (n : Nat) {cursor : Nat}
    (hc : cursor < order.length) : (handOut order n cursor slices).sum = slices.sum + n := by
  induction n generalizing cursor slices with
  | zero => simp [handOut]
  | succ n ih =>
      have hlt : order.getD cursor 0 < slices.length := by
        rw [List.getD_eq_getElem?_getD, List.getElem?_eq_getElem hc, Option.getD_some]
        exact horder _ (List.getElem_mem hc)
      rw [handOut, ih (by simpa using horder) (Nat.mod_lt _ (by omega)), sum_modify_succ hlt]
      push_cast
      omega

/-! ## splitProportionally -/

/-- The weights that count: even ones when the weights sum to nothing. -/
def effectiveWeights (weights : List Int) : List Int :=
  if 0 < weights.sum then weights else weights.map fun _ => 1

/-- The slice of a weight, before it is rounded. -/
def exactSlice (totalCents : Int) (weights : List Int) (weight : Int) : ℚ :=
  totalCents * weight / (effectiveWeights weights).sum

/-- The indices of the weights in the order in which they get the cents left
over. -/
def sliceOrder (totalCents : Int) (weights : List Int) : List Nat :=
  ((((effectiveWeights weights).map (exactSlice totalCents weights)).mapIdx
    fun index (r : ℚ) => (r - ⌊r⌋, index)).insertionSort FractionFirst).map Prod.snd

variable {totalCents : Int} {weights : List Int}

theorem length_effectiveWeights : (effectiveWeights weights).length = weights.length := by
  unfold effectiveWeights
  split <;> simp

theorem sum_effectiveWeights (h : weights ≠ []) : 0 < (effectiveWeights weights).sum := by
  unfold effectiveWeights
  split
  · assumption
  · have hlen := List.length_pos_of_ne_nil h
    simp
    omega

theorem splitProportionally_eq (h : weights ≠ []) : splitProportionally totalCents weights =
    handOut (sliceOrder totalCents weights)
      (leftover (exactSlice totalCents weights) totalCents (effectiveWeights weights)).toNat 0
      ((effectiveWeights weights).map fun weight => ⌊exactSlice totalCents weights weight⌋) := by
  rw [splitProportionally, if_neg h, sliceOrder, leftover]
  simp only [bind_pure_comp, List.map_eq_map, List.map_map]
  rfl

theorem sum_exactSlice (totalCents : Int) (h : weights ≠ []) :
    (totalCents : ℚ) = ((effectiveWeights weights).map (exactSlice totalCents weights)).sum := by
  have hpos : ((effectiveWeights weights).sum : ℚ) ≠ 0 := by
    have := sum_effectiveWeights h
    exact_mod_cast this.ne'
  have hsum (l : List Int) : (l.map (exactSlice totalCents weights)).sum =
      totalCents * (l.sum : Int) / (effectiveWeights weights).sum := by
    induction l with
    | nil => simp
    | cons w l ih =>
        rw [List.map_cons, List.sum_cons, ih, exactSlice, List.sum_cons]
        push_cast
        ring
  rw [hsum]
  field_simp

theorem length_sliceOrder : (sliceOrder totalCents weights).length = weights.length := by
  simp [sliceOrder, length_effectiveWeights]

theorem mem_sliceOrder {i : Nat} (h : i ∈ sliceOrder totalCents weights) : i < weights.length := by
  simp only [sliceOrder, List.mem_map, List.mem_insertionSort, List.mem_mapIdx] at h
  obtain ⟨p, ⟨j, hj, rfl⟩, rfl⟩ := h
  simpa [length_effectiveWeights] using hj

/-- There is a slice for each weight. -/
theorem length_splitProportionally (totalCents : Int) (weights : List Int) :
    (splitProportionally totalCents weights).length = weights.length := by
  by_cases h : weights = []
  · subst h
    rfl
  · rw [splitProportionally_eq h, length_handOut, List.length_map, length_effectiveWeights]

/-- **No cent is lost**: the slices sum to the total. -/
theorem sum_splitProportionally (totalCents : Int) (h : weights ≠ []) :
    (splitProportionally totalCents weights).sum = totalCents := by
  have hnonneg := leftover_nonneg (sum_exactSlice totalCents h)
  rw [splitProportionally_eq h, sum_handOut]
  · rw [Int.toNat_of_nonneg hnonneg, leftover]
    omega
  · intro i hi
    rw [List.length_map, length_effectiveWeights]
    exact mem_sliceOrder hi
  · rw [length_sliceOrder]
    exact List.length_pos_of_ne_nil h

/-! ## Each slice -/

/-- What the whole parts of the exact slices leave. -/
def sliceLeftover (totalCents : Int) (weights : List Int) : Int :=
  leftover (exactSlice totalCents weights) totalCents (effectiveWeights weights)

/-- The exact slice of the weight at an index. -/
def sliceAt (totalCents : Int) (weights : List Int) (i : Nat) : ℚ :=
  exactSlice totalCents weights ((effectiveWeights weights).getD i 0)

/-- A slice comes before another when a cent is left over. -/
def SliceBefore (totalCents : Int) (weights : List Int) (i j : Nat) : Prop :=
  Int.fract (sliceAt totalCents weights j) < Int.fract (sliceAt totalCents weights i) ∨
    Int.fract (sliceAt totalCents weights i) = Int.fract (sliceAt totalCents weights j) ∧ i < j

instance : DecidableRel (SliceBefore totalCents weights) :=
  fun _ _ => inferInstanceAs (Decidable (_ ∨ _))

/-- The slices that come before one. -/
def slicesAhead (totalCents : Int) (weights : List Int) (i : Nat) : Nat :=
  (List.range weights.length).countP fun j => decide (SliceBefore totalCents weights j i)

instance : Std.Total FractionFirst :=
  ⟨fun a b => by
    unfold FractionFirst
    obtain h | h | h := lt_trichotomy a.1 b.1
    · exact .inr (.inl h)
    · obtain hle | hle := Nat.le_total a.2 b.2
      · exact .inl (.inr ⟨h, hle⟩)
      · exact .inr (.inr ⟨h.symm, hle⟩)
    · exact .inl (.inl h)⟩

instance : IsTrans (ℚ × Nat) FractionFirst :=
  ⟨fun a b c hab hbc => by
    unfold FractionFirst at *
    obtain hab | ⟨hab, hab'⟩ := hab
    · obtain hbc | ⟨hbc, -⟩ := hbc
      · exact .inl (hbc.trans hab)
      · exact .inl (hbc ▸ hab)
    · obtain hbc | ⟨hbc, hbc'⟩ := hbc
      · exact .inl (hab ▸ hbc)
      · exact .inr ⟨hab.trans hbc, hab'.trans hbc'⟩⟩

/-- In a list that is ordered by `r`, an element comes after those that `r` puts
before it. -/
theorem idxOf_eq_countP {α : Type} [DecidableEq α] {r : α → α → Prop} [DecidableRel r]
    (hasymm : ∀ a b, r a b → ¬ r b a) {l : List α} (hl : l.Pairwise r) {a : α} (ha : a ∈ l) :
    l.idxOf a = l.countP fun b => decide (r b a) := by
  have hirrefl (a : α) : ¬ r a a := fun h => hasymm a a h h
  induction l with
  | nil => cases ha
  | cons b l ih =>
      obtain ⟨hb, hl⟩ := List.pairwise_cons.mp hl
      by_cases hba : b = a
      · subst hba
        have hzero : l.countP (fun c => decide (r c b)) = 0 :=
          List.countP_eq_zero.mpr fun c hc => by simpa using hasymm b c (hb c hc)
        simp [hzero, hirrefl]
      · have hmem : a ∈ l := (List.mem_cons.mp ha).resolve_left (Ne.symm hba)
        rw [List.idxOf_cons_ne l hba, ih hl hmem, List.countP_cons]
        simp [hb a hmem]

theorem perm_sliceOrder (totalCents : Int) (weights : List Int) :
    (sliceOrder totalCents weights).Perm (List.range weights.length) := by
  refine ((List.perm_insertionSort FractionFirst _).map Prod.snd).trans ?_
  refine List.Perm.of_eq (List.ext_getElem (by simp [length_effectiveWeights]) fun i h₁ h₂ => ?_)
  simp

theorem pairwise_sliceOrder :
    (sliceOrder totalCents weights).Pairwise (SliceBefore totalCents weights) := by
  have hsorted := List.pairwise_insertionSort FractionFirst
    (((effectiveWeights weights).map (exactSlice totalCents weights)).mapIdx
      fun index (r : ℚ) => (r - ⌊r⌋, index))
  have hnodup := perm_sliceOrder totalCents weights
  have hpairs := hsorted.and (List.pairwise_map.mp (hnodup.nodup_iff.mpr List.nodup_range))
  refine List.pairwise_map.mpr (hpairs.imp_of_mem fun {p q} hp hq hpq => ?_)
  have hfraction {p : ℚ × Nat} (hp : p ∈ (((effectiveWeights weights).map
      (exactSlice totalCents weights)).mapIdx fun index (r : ℚ) => (r - ⌊r⌋, index)).insertionSort
        FractionFirst) : p.1 = Int.fract (sliceAt totalCents weights p.2) := by
    rw [List.mem_insertionSort, List.mem_mapIdx] at hp
    obtain ⟨j, hj, rfl⟩ := hp
    have hj' : j < (effectiveWeights weights).length := by simpa using hj
    simp [sliceAt, List.getD_eq_getElem?_getD, List.getElem?_eq_getElem hj']
  obtain ⟨hle, hne⟩ := hpq
  rw [SliceBefore, ← hfraction hp, ← hfraction hq]
  obtain hlt | ⟨heq, hle⟩ := hle
  · exact .inl hlt
  · exact .inr ⟨heq, lt_of_le_of_ne hle hne⟩

theorem idxOf_sliceOrder {i : Nat} (hi : i < weights.length) :
    (sliceOrder totalCents weights).idxOf i = slicesAhead totalCents weights i := by
  have hmem : i ∈ sliceOrder totalCents weights :=
    (perm_sliceOrder totalCents weights).mem_iff.mpr (List.mem_range.mpr hi)
  rw [idxOf_eq_countP (r := SliceBefore totalCents weights) ?_ pairwise_sliceOrder hmem,
    slicesAhead, (perm_sliceOrder totalCents weights).countP_eq]
  rintro a b (h | ⟨h, hlt⟩) (h' | ⟨h', hlt'⟩)
  · exact absurd h' h.le.not_gt
  · exact h.ne h'.symm.symm
  · exact h'.ne h.symm.symm
  · exact absurd hlt' hlt.le.not_gt

/-- As long as there are slices left that have no cent more, the next one gets
it. -/
theorem getD_handOut {order : List Nat} (hnodup : order.Nodup) {n cursor : Nat}
    (hn : cursor + n ≤ order.length) {slices : List Int} {i : Nat} (hi : i < slices.length) :
    (handOut order n cursor slices).getD i 0 =
      slices.getD i 0 + if i ∈ (order.drop cursor).take n then 1 else 0 := by
  induction n generalizing cursor slices with
  | zero => simp [handOut]
  | succ n ih =>
      have hc : cursor < order.length := by omega
      have hdrop : order.drop cursor = order.getD cursor 0 :: order.drop (cursor + 1) := by
        rw [List.getD_eq_getElem?_getD, List.getElem?_eq_getElem hc, Option.getD_some]
        exact List.drop_eq_getElem_cons hc
      have hfresh : order.getD cursor 0 ∉ order.drop (cursor + 1) := by
        have hdropped := hdrop ▸ (List.drop_sublist cursor order).nodup hnodup
        exact (List.nodup_cons.mp hdropped).1
      generalize hk : order.getD cursor 0 = k at hdrop hfresh
      have hmodify : (slices.modify k (· + 1)).getD i 0 =
          slices.getD i 0 + if i = k then 1 else 0 := by
        rw [List.getD_eq_getElem?_getD, List.getElem?_modify, List.getD_eq_getElem?_getD,
          List.getElem?_eq_getElem hi]
        by_cases h : i = k
        · simp [h]
        · simp [h, Ne.symm h]
      rw [handOut, hdrop, List.take_succ_cons, hk]
      by_cases hnext : cursor + 1 < order.length
      · rw [Nat.mod_eq_of_lt hnext, ih (by omega) (by simpa using hi), hmodify]
        by_cases h : i = k
        · have hnot : k ∉ (order.drop (cursor + 1)).take n :=
            fun hmem => hfresh (List.mem_of_mem_take hmem)
          simp [h, hnot]
        · simp [h]
      · have hzero : n = 0 := by omega
        subst hzero
        simp only [handOut, hmodify, List.take_zero, List.mem_singleton]

/-- **Each slice**: the whole part of the exact slice, and a cent more where
fewer slices are ahead than cents are left over. -/
theorem getD_splitProportionally {i : Nat} (hi : i < weights.length) :
    (splitProportionally totalCents weights).getD i 0 = ⌊sliceAt totalCents weights i⌋ +
      if (slicesAhead totalCents weights i : Int) < sliceLeftover totalCents weights then 1
      else 0 := by
  have hne : weights ≠ [] := List.length_pos_iff.mp (Nat.zero_lt_of_lt hi)
  have hsum := sum_exactSlice totalCents hne
  have hnonneg : 0 ≤ sliceLeftover totalCents weights := leftover_nonneg hsum
  have hle : sliceLeftover totalCents weights ≤ weights.length := by
    have hcount := leftover_le_countP hsum
    have hlength := List.countP_le_length (l := effectiveWeights weights)
      (p := fun w => decide (0 < Int.fract (exactSlice totalCents weights w)))
    rw [length_effectiveWeights] at hlength
    rw [sliceLeftover]
    omega
  have hi' : i < (effectiveWeights weights).length := by rwa [length_effectiveWeights]
  have horder : (sliceOrder totalCents weights).Nodup :=
    (perm_sliceOrder totalCents weights).nodup_iff.mpr List.nodup_range
  have hmem : i ∈ sliceOrder totalCents weights :=
    (perm_sliceOrder totalCents weights).mem_iff.mpr (List.mem_range.mpr hi)
  rw [splitProportionally_eq hne, getD_handOut horder]
  · have hextra : i ∈ ((sliceOrder totalCents weights).drop 0).take
        (sliceLeftover totalCents weights).toNat ↔
          (slicesAhead totalCents weights i : Int) < sliceLeftover totalCents weights := by
      rw [List.drop_zero, List.mem_take_iff_idxOf_lt hmem, idxOf_sliceOrder hi]
      omega
    have hfloor : ((effectiveWeights weights).map fun w =>
        ⌊exactSlice totalCents weights w⌋).getD i 0 = ⌊sliceAt totalCents weights i⌋ := by
      simp [sliceAt, List.getD_eq_getElem?_getD, List.getElem?_eq_getElem hi']
    rw [hfloor]
    exact congrArg _ (if_congr hextra rfl rfl)
  · rw [length_sliceOrder]
    rw [sliceLeftover] at hle hnonneg
    omega
  · simpa using hi'

/-- A slice that gets a cent more has a fraction: those that have one are ahead. -/
theorem fract_pos_of_slicesAhead_lt {i : Nat} (hne : weights ≠ [])
    (h : (slicesAhead totalCents weights i : Int) < sliceLeftover totalCents weights) :
    0 < Int.fract (sliceAt totalCents weights i) := by
  by_contra hpos
  have hzero : Int.fract (sliceAt totalCents weights i) = 0 :=
    le_antisymm (not_lt.mp hpos) (Int.fract_nonneg _)
  have hrange : effectiveWeights weights =
      (List.range weights.length).map fun j => (effectiveWeights weights).getD j 0 := by
    refine List.ext_getElem (by simp [length_effectiveWeights]) fun j h₁ h₂ => ?_
    simp [List.getD_eq_getElem?_getD, List.getElem?_eq_getElem h₁]
  have hahead : ((effectiveWeights weights).countP fun w =>
      decide (0 < Int.fract (exactSlice totalCents weights w))) ≤
        slicesAhead totalCents weights i := by
    conv_lhs => arg 2; rw [hrange]
    rw [List.countP_map]
    refine List.countP_mono_left fun j _ hj => ?_
    rw [Function.comp_apply, decide_eq_true_eq] at hj
    exact decide_eq_true (.inl (hzero ▸ hj))
  have hleft := leftover_le_countP (sum_exactSlice totalCents hne)
  rw [sliceLeftover] at h
  omega

/-! ## The split as a whole -/

/-- The part of the total that is due to a weight: by its part of the sum, or evenly when
there is no weight. -/
def dueSlice (totalCents : Int) (weights : List Int) (i : Nat) : ℚ :=
  if 0 < weights.sum then totalCents * (weights.getD i 0 : Int) / weights.sum
  else totalCents / weights.length

/-- The slice of a weight, in whole cents. -/
abbrev slice (totalCents : Int) (weights : List Int) (i : Nat) : Int :=
  (splitProportionally totalCents weights).getD i 0

theorem sliceAt_eq_dueSlice {i : Nat} (hi : i < weights.length) :
    sliceAt totalCents weights i = dueSlice totalCents weights i := by
  rw [sliceAt, dueSlice, exactSlice, effectiveWeights]
  split
  · rfl
  · simp [List.getD_eq_getElem?_getD, hi]

/-- A cent more than the whole part is what the slices that are ahead get. -/
theorem slice_eq_floor_add_one_iff {i : Nat} (hi : i < weights.length) :
    slice totalCents weights i = ⌊dueSlice totalCents weights i⌋ + 1 ↔
      (slicesAhead totalCents weights i : Int) < sliceLeftover totalCents weights := by
  rw [slice, getD_splitProportionally hi, sliceAt_eq_dueSlice hi]
  split
  case isTrue h => simp [h]
  case isFalse h => simp [h]

/-- Who is before has fewer slices ahead. -/
theorem slicesAhead_le {i j : Nat} (h : SliceBefore totalCents weights i j) :
    slicesAhead totalCents weights i ≤ slicesAhead totalCents weights j := by
  refine List.countP_mono_left fun k _ hk => ?_
  have hki := of_decide_eq_true hk
  refine decide_eq_true ?_
  rw [SliceBefore] at h hki ⊢
  obtain hki | ⟨hki, hlt⟩ := hki
  · obtain h | ⟨h, -⟩ := h
    · exact .inl (h.trans hki)
    · exact .inl (h ▸ hki)
  · obtain h | ⟨h, hlt'⟩ := h
    · exact .inl (hki ▸ h)
    · exact .inr ⟨hki.trans h, hlt.trans hlt'⟩

/-- A slice is its due, rounded down or up. -/
theorem slice_eq_floor_or_ceil {i : Nat} (hne : weights ≠ []) (hi : i < weights.length) :
    slice totalCents weights i = ⌊dueSlice totalCents weights i⌋ ∨
      slice totalCents weights i = ⌈dueSlice totalCents weights i⌉ := by
  by_cases hahead : (slicesAhead totalCents weights i : Int) < sliceLeftover totalCents weights
  · have hfract := fract_pos_of_slicesAhead_lt hne hahead
    rw [sliceAt_eq_dueSlice hi] at hfract
    rw [(slice_eq_floor_add_one_iff hi).mpr hahead]
    exact .inr (floor_add_one hfract)
  · rw [slice, getD_splitProportionally hi, if_neg hahead, sliceAt_eq_dueSlice hi, add_zero]
    exact .inl rfl

/-- Nothing is due to a weight of nothing. -/
theorem dueSlice_eq_zero {i : Nat} (hsum : 0 < weights.sum) (hzero : weights.getD i 0 = 0) :
    dueSlice totalCents weights i = 0 := by
  rw [dueSlice, if_pos hsum, hzero]
  simp

/-- A slice that has been given a cent comes before one that has not. -/
theorem sliceBefore_of_cent {i j : Nat} (hi : i < weights.length) (hj : j < weights.length)
    (hcent : slice totalCents weights i = ⌊dueSlice totalCents weights i⌋ + 1)
    (hnone : slice totalCents weights j = ⌊dueSlice totalCents weights j⌋) :
    SliceBefore totalCents weights i j := by
  rw [slice_eq_floor_add_one_iff hi] at hcent
  have hlast : ¬ (slicesAhead totalCents weights j : Int) < sliceLeftover totalCents weights := by
    rw [← slice_eq_floor_add_one_iff hj, hnone]
    omega
  by_contra hbefore
  have hij : i ≠ j := by
    rintro rfl
    exact hlast hcent
  have hji : SliceBefore totalCents weights j i := by
    rw [SliceBefore, not_or, not_lt, not_and] at hbefore
    obtain hlt | heq := lt_or_eq_of_le hbefore.1
    · exact .inl hlt
    · have hle := not_lt.mp (hbefore.2 heq)
      exact .inr ⟨heq.symm, lt_of_le_of_ne hle (Ne.symm hij)⟩
  have hle := slicesAhead_le hji
  omega

/-- **The total is split in proportion, to the cent**: for every total and all weights that
are not negative. -/
theorem split_proportionally_exact (totalCents : Int) {weights : List Int} (hne : weights ≠ [])
    (hweights : ∀ w ∈ weights, 0 ≤ w) :
    (splitProportionally totalCents weights).length = weights.length ∧
      (splitProportionally totalCents weights).sum = totalCents ∧
      (∀ i < weights.length,
        slice totalCents weights i = ⌊dueSlice totalCents weights i⌋ ∨
          slice totalCents weights i = ⌈dueSlice totalCents weights i⌉) ∧
      ((∃ w ∈ weights, 0 < w) → ∀ i < weights.length, weights.getD i 0 = 0 →
        slice totalCents weights i = 0) ∧
      ∀ i < weights.length, ∀ j < weights.length,
        slice totalCents weights i = ⌊dueSlice totalCents weights i⌋ + 1 →
        slice totalCents weights j = ⌊dueSlice totalCents weights j⌋ →
          Int.fract (dueSlice totalCents weights j) < Int.fract (dueSlice totalCents weights i) ∨
            Int.fract (dueSlice totalCents weights i) = Int.fract (dueSlice totalCents weights j) ∧
              i < j := by
  refine ⟨length_splitProportionally totalCents weights, sum_splitProportionally totalCents hne,
    fun i hi => slice_eq_floor_or_ceil hne hi, ?_, ?_⟩
  · rintro ⟨w, hw, hpos⟩ i hi hzero
    have hsum : 0 < weights.sum := hpos.trans_le (List.single_le_sum hweights w hw)
    have hslice := @slice_eq_floor_or_ceil totalCents weights i hne hi
    rw [dueSlice_eq_zero hsum hzero, Int.floor_zero, Int.ceil_zero, or_self] at hslice
    exact hslice
  · intro i hi j hj hcent hnone
    rw [← sliceAt_eq_dueSlice hi, ← sliceAt_eq_dueSlice hj]
    exact sliceBefore_of_cent hi hj hcent hnone

/-- A dollar over three weights, and one that is nothing. -/
theorem split_proportionally_exact_dollar :
    let weights : List Int := [60, 0, 60, 60]
    (splitProportionally 100 weights).length = 4 ∧ (splitProportionally 100 weights).sum = 100 ∧
      slice 100 weights 1 = 0 := by
  intro weights
  obtain ⟨hlength, hsum, -, hzero, -⟩ :=
    split_proportionally_exact 100 (by decide : weights ≠ []) (by decide)
  exact ⟨hlength, hsum, hzero ⟨60, by decide, by decide⟩ 1 (by decide) (by decide)⟩

example : splitProportionally 100 [60, 0, 60, 60] = [34, 0, 33, 33] := by decide +kernel

end ServeProof
