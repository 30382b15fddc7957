import Mathlib.Algebra.Order.BigOperators.Group.List
import Mathlib.Algebra.Order.Floor.Ring
import Mathlib.Data.List.Sort
import Mathlib.Data.Rat.Floor
import Mathlib.Tactic.Linarith

/-!
# ServeProof.Apportion

Largest remainders, for items of any kind: every item has an exact share
`x a : ℚ`, the shares add up to a whole `pool`, each item gets the whole part
of its share, and the units that are left go to the items with the largest
remainders.

* `leftover_eq_sum_fract` -- what is left is the sum of the remainders;
* `leftover_le_countP` -- there is an item with a positive remainder for each
  unit that is left;
* `mem_take_insertionSort` -- who gets one of them;
* `sum_bumped` -- the shares add up again.
-/

namespace Apportion

variable {α : Type} (x : α → ℚ)

/-- What is left of the pool when every item has the whole part of its share. -/
def leftover (pool : Int) (l : List α) : Int := pool - (l.map fun a => ⌊x a⌋).sum

variable {x} {pool : Int} {l : List α}

theorem leftover_eq_sum_fract (h : (pool : ℚ) = (l.map x).sum) :
    (leftover x pool l : ℚ) = (l.map fun a => Int.fract (x a)).sum := by
  have hsum (l : List α) : (l.map x).sum =
      ((l.map fun a => ⌊x a⌋).sum : Int) + (l.map fun a => Int.fract (x a)).sum := by
    induction l with
    | nil => simp
    | cons a l ih =>
        simp only [List.map_cons, List.sum_cons, ih, Int.cast_add]
        linarith [Int.floor_add_fract (x a)]
  rw [leftover, Int.cast_sub, h, hsum]
  ring

theorem leftover_nonneg (h : (pool : ℚ) = (l.map x).sum) : 0 ≤ leftover x pool l := by
  have hsum : (0 : ℚ) ≤ (l.map fun a => Int.fract (x a)).sum := by
    refine List.sum_nonneg fun q hq => ?_
    obtain ⟨a, -, rfl⟩ := List.mem_map.mp hq
    exact Int.fract_nonneg (x a)
  rw [← leftover_eq_sum_fract h] at hsum
  exact_mod_cast hsum

/-- An item has a positive remainder for each unit that is left. -/
theorem leftover_le_countP (h : (pool : ℚ) = (l.map x).sum) :
    leftover x pool l ≤ l.countP fun a => decide (0 < Int.fract (x a)) := by
  have hsum (l : List α) : (l.map fun a => Int.fract (x a)).sum ≤
      (l.countP fun a => decide (0 < Int.fract (x a)) : ℚ) := by
    induction l with
    | nil => simp
    | cons a l ih =>
        rw [List.map_cons, List.sum_cons, List.countP_cons]
        by_cases ha : 0 < Int.fract (x a)
        · simp only [ha, decide_true, if_true, Nat.cast_add, Nat.cast_one]
          linarith [Int.fract_lt_one (x a)]
        · simp only [ha, decide_false, Bool.false_eq_true, if_false, Nat.add_zero]
          linarith
  have hle := hsum l
  rw [← leftover_eq_sum_fract h] at hle
  exact_mod_cast hle

/-- A unit more than the whole part is the share rounded up. -/
theorem floor_add_one {q : ℚ} (h : 0 < Int.fract q) : ⌊q⌋ + 1 = ⌈q⌉ := by
  refine (Int.ceil_eq_iff.mpr ⟨?_, ?_⟩).symm
  · rw [Int.cast_add, Int.cast_one]
    linarith [Int.floor_add_fract q]
  · rw [Int.cast_add, Int.cast_one]
    linarith [Int.floor_add_fract q, Int.fract_lt_one q]

/-! ## Who gets one of the units that are left -/

/-- A sort that never puts a smaller value of `f` first leaves them in order. -/
theorem pairwise_insertionSort {r : α → α → Prop} [DecidableRel r] {f : α → ℚ}
    (hr : ∀ a b, r a b → f b ≤ f a) (hn : ∀ a b, ¬ r a b → f a ≤ f b) (l : List α) :
    (l.insertionSort r).Pairwise fun a b => f b ≤ f a := by
  have hinsert (a : α) (l : List α) (hl : l.Pairwise fun a b => f b ≤ f a) :
      (l.orderedInsert r a).Pairwise fun a b => f b ≤ f a := by
    induction l with
    | nil => simp
    | cons b l ih =>
        obtain ⟨hb, hl'⟩ := List.pairwise_cons.mp hl
        rw [List.orderedInsert_cons]
        split
        · next hab =>
          refine List.pairwise_cons.mpr ⟨fun c hc => ?_, hl⟩
          cases List.mem_cons.mp hc with
          | inl h => exact h ▸ hr a b hab
          | inr h => exact (hb c h).trans (hr a b hab)
        · next hab =>
          refine List.pairwise_cons.mpr ⟨fun c hc => ?_, ih hl'⟩
          cases (List.mem_orderedInsert r).mp hc with
          | inl h => exact h ▸ hn a b hab
          | inr h => exact hb c h
  induction l with
  | nil => simp
  | cons a l ih => exact hinsert a _ ih

variable {f : α → ℚ} {n : Nat}

/-- Those who are first have no smaller a value than the others. -/
theorem le_of_take (hl : l.Pairwise fun a b => f b ≤ f a) {a b : α} (ha : a ∈ l.take n)
    (hb : b ∈ l) (hbn : b ∉ l.take n) : f b ≤ f a := by
  rw [← List.take_append_drop n l] at hl hb
  refine (List.pairwise_append.mp hl).2.2 a ha b ?_
  exact (List.mem_append.mp hb).resolve_left hbn

/-- As long as there are enough positive values, those who are first have one. -/
theorem pos_of_take (hl : l.Pairwise fun a b => f b ≤ f a)
    (hn : n ≤ l.countP fun a => decide (0 < f a)) {a : α} (ha : a ∈ l.take n) : 0 < f a := by
  by_contra hpos
  have hlate : (l.drop n).countP (fun a => decide (0 < f a)) = 0 := by
    refine List.countP_eq_zero.mpr fun b hb => ?_
    rw [← List.take_append_drop n l] at hl
    have hle := (List.pairwise_append.mp hl).2.2 a ha b hb
    simp only [decide_eq_true_eq]
    exact fun hb => hpos (hb.trans_le hle)
  have hearly : (l.take n).countP (fun a => decide (0 < f a)) < (l.take n).length := by
    refine lt_of_le_of_ne List.countP_le_length fun heq => hpos ?_
    exact of_decide_eq_true (List.countP_eq_length.mp heq a ha)
  have hcount := congrArg (List.countP fun a => decide (0 < f a)) (List.take_append_drop n l)
  rw [List.countP_append, hlate] at hcount
  have hlen := List.length_take_le n l
  omega

/-! ## The order the items come in -/

/-- `r` is a linear order on the members of the list. -/
structure OrdersOn (r : α → α → Prop) (l : List α) : Prop where
  total : ∀ a ∈ l, ∀ b ∈ l, r a b ∨ r b a
  trans : ∀ a ∈ l, ∀ b ∈ l, ∀ c ∈ l, r a b → r b c → r a c
  antisymm : ∀ a ∈ l, ∀ b ∈ l, r a b → r b a → a = b

namespace OrdersOn

variable {r : α → α → Prop} {l' : List α}

theorem subset (h : OrdersOn r l) (hsub : l' ⊆ l) : OrdersOn r l' where
  total a ha b hb := h.total a (hsub ha) b (hsub hb)
  trans a ha b hb c hc := h.trans a (hsub ha) b (hsub hb) c (hsub hc)
  antisymm a ha b hb := h.antisymm a (hsub ha) b (hsub hb)

variable [DecidableRel r]

theorem pairwise_insertionSort (h : OrdersOn r l) : (l.insertionSort r).Pairwise r := by
  let s (a b : { x // x ∈ l }) : Prop := r a.1 b.1
  have : DecidableRel s := fun a b => inferInstanceAs (Decidable (r a.1 b.1))
  have : Std.Total s := ⟨fun a b => h.total a.1 a.2 b.1 b.2⟩
  have : IsTrans _ s := ⟨fun a b c => h.trans a.1 a.2 b.1 b.2 c.1 c.2⟩
  have hsorted := List.pairwise_insertionSort s l.attach
  have hmap := List.map_insertionSort s r Subtype.val l.attach fun _ _ _ _ => Iff.rfl
  rw [List.attach_map_subtype_val] at hmap
  rw [← hmap]
  exact hsorted.map Subtype.val fun _ _ hab => hab

/-- The order the members come in does not matter to the sort. -/
theorem insertionSort_eq (h : OrdersOn r l) (hp : l.Perm l') :
    l.insertionSort r = l'.insertionSort r := by
  have h' : OrdersOn r l' := h.subset hp.symm.subset
  have hperm : (l.insertionSort r).Perm (l'.insertionSort r) :=
    (List.perm_insertionSort r l).trans (hp.trans (List.perm_insertionSort r l').symm)
  refine hperm.eq_of_pairwise (fun a b ha hb hab hba => ?_) h.pairwise_insertionSort
    h'.pairwise_insertionSort
  exact h.antisymm a ((List.mem_insertionSort r).mp ha) b
    (hp.symm.subset ((List.mem_insertionSort r).mp hb)) hab hba

end OrdersOn

/-! ## Larger shares -/

/-- A larger share is never rounded to fewer units: where the whole parts agree the
larger remainder comes first. -/
theorem le_of_lt_share {a b : ℚ} {m n : Int} (hm : m = ⌊a⌋ ∨ m = ⌈a⌉) (hn : n = ⌊b⌋ ∨ n = ⌈b⌉)
    (hlargest : m = ⌊a⌋ + 1 → n = ⌊b⌋ → Int.fract b ≤ Int.fract a) (h : a < b) : m ≤ n := by
  have hfloor : ⌊a⌋ ≤ ⌊b⌋ := Int.floor_le_floor h.le
  have hceil : ⌈a⌉ ≤ ⌊a⌋ + 1 := Int.ceil_le_floor_add_one a
  have hn' : ⌊b⌋ ≤ n := hn.elim Eq.ge fun hn => hn ▸ Int.floor_le_ceil b
  by_cases hless : ⌊a⌋ < ⌊b⌋
  · have hm' : m ≤ ⌊a⌋ + 1 := hm.elim (fun hm => by omega) fun hm => hm ▸ hceil
    omega
  · have heq : ⌊a⌋ = ⌊b⌋ := by omega
    by_contra hlt
    have hfract := hlargest (by omega) (by omega)
    have ha := Int.floor_add_fract a
    have hb := Int.floor_add_fract b
    rw [heq] at ha
    linarith

/-- Equal shares differ by at most one unit. -/
theorem abs_sub_le_one {a : ℚ} {m n : Int} (hm : m = ⌊a⌋ ∨ m = ⌈a⌉) (hn : n = ⌊a⌋ ∨ n = ⌈a⌉) :
    |m - n| ≤ 1 := by
  have hfloor := Int.floor_le_ceil a
  have hceil := Int.ceil_le_floor_add_one a
  rw [abs_le]
  omega

/-! ## The place of an item -/

/-- In descending order of `f` an item comes after those with a larger value, and
after those with the same value that stand before it. -/
theorem idxOf_of_pairwise [DecidableEq α] (hl : l.Pairwise fun a b => f b ≤ f a) {a : α}
    (ha : a ∈ l) : l.idxOf a = (l.countP fun b => decide (f a < f b)) +
      (l.filter fun b => decide (f b = f a)).idxOf a := by
  induction l with
  | nil => cases ha
  | cons b l ih =>
      obtain ⟨hb, hl⟩ := List.pairwise_cons.mp hl
      by_cases hba : b = a
      · subst hba
        have hzero : l.countP (fun c => decide (f b < f c)) = 0 :=
          List.countP_eq_zero.mpr fun c hc => by simpa using hb c hc
        simp [hzero]
      · have hmem : a ∈ l := (List.mem_cons.mp ha).resolve_left (Ne.symm hba)
        have hrest := ih hl hmem
        have hne : ¬ a = b := Ne.symm hba
        rw [List.idxOf_cons_ne l hba, List.countP_cons, List.filter_cons]
        obtain heq | hlt := (hb a hmem).eq_or_lt
        · simp only [heq, decide_true, if_true, lt_irrefl, decide_false, Bool.false_eq_true,
            if_false, List.idxOf_cons_ne _ hba]
          rw [heq] at hrest
          omega
        · simp only [hlt, hlt.ne', decide_true, if_true, decide_false, Bool.false_eq_true, if_false]
          omega

/-- The first `n` when the items are sorted by `f`, descending, and by `k` where `f`
is the same. -/
theorem mem_take_insertionSort [DecidableEq α] {r k : α → α → Prop} [DecidableRel r]
    (hr : ∀ a b, r a b ↔ f b < f a ∨ (f a = f b ∧ k a b)) (hk : l.Pairwise k) {a : α}
    (ha : a ∈ l) : a ∈ (l.insertionSort r).take n ↔
      (l.countP fun b => decide (f a < f b)) +
        (l.filter fun b => decide (f b = f a)).idxOf a < n := by
  have hsorted : (l.insertionSort r).Pairwise fun a b => f b ≤ f a := by
    refine pairwise_insertionSort (fun b c hbc => ?_) (fun b c hbc => ?_) l
    · exact ((hr b c).mp hbc).elim le_of_lt fun h => h.1.ge
    · exact not_lt.mp fun hlt => hbc ((hr b c).mpr (.inl hlt))
  have hperm := List.perm_insertionSort r l
  -- the sort is stable: it leaves those of one value as they stand
  have htied : (l.insertionSort r).filter (fun b => decide (f b = f a)) =
      l.filter fun b => decide (f b = f a) := by
    have hpairwise : (l.filter fun b => decide (f b = f a)).Pairwise r := by
      refine (hk.filter _).imp_of_mem fun {b c} hb hc hbc => (hr b c).mpr (.inr ⟨?_, hbc⟩)
      exact (of_decide_eq_true (List.mem_filter.mp hb).2).trans
        (of_decide_eq_true (List.mem_filter.mp hc).2).symm
    have hsub := (List.sublist_insertionSort hpairwise List.filter_sublist).filter
      fun b => decide (f b = f a)
    rw [List.filter_filter] at hsub
    simp only [Bool.and_self] at hsub
    exact (hsub.eq_of_length (hperm.filter _).length_eq.symm).symm
  have hmem : a ∈ l.insertionSort r := (List.mem_insertionSort r).mpr ha
  rw [List.mem_take_iff_idxOf_lt hmem, idxOf_of_pairwise hsorted hmem, htied, hperm.countP_eq]

/-- One unit for each of `n` items. -/
theorem sum_bumped [DecidableEq α] (g : α → Int) {bumped : List α} (hb : bumped.Nodup)
    (hl : l.Nodup) (hsub : bumped ⊆ l) :
    (l.map fun a => g a + if a ∈ bumped then 1 else 0).sum = (l.map g).sum + bumped.length := by
  have hsum (l : List α) : (l.map fun a => g a + if a ∈ bumped then 1 else 0).sum =
      (l.map g).sum + (l.filter fun a => decide (a ∈ bumped)).length := by
    induction l with
    | nil => simp
    | cons a l ih =>
        rw [List.map_cons, List.sum_cons, ih, List.map_cons, List.sum_cons, List.filter_cons]
        by_cases ha : a ∈ bumped <;> simp [ha] <;> ring
  have hperm : (l.filter fun a => decide (a ∈ bumped)).Perm bumped := by
    refine (List.perm_ext_iff_of_nodup (hl.filter _) hb).mpr fun a => ?_
    simp only [List.mem_filter, decide_eq_true_eq]
    exact ⟨fun h => h.2, fun h => ⟨hsub h, h⟩⟩
  rw [hsum, hperm.length_eq]

end Apportion
