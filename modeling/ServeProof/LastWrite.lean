import Mathlib.Algebra.BigOperators.Group.List.Basic
import Mathlib.Algebra.Ring.Int.Defs

/-!
# ServeProof.LastWrite

A map that many writers fill, one after another: each writes a value to every
key it covers, and of the values written to a key the last one stays.

* `last` -- the value that stays;
* `lost` -- what is written to keys that a later writer covers too;
* `sum_last` -- what stays and what is lost is what was written.
-/

namespace LastWrite

variable {α β : Type} (covers : β → α → Prop) [∀ b a, Decidable (covers b a)] (value : β → α → Int)

/-- The value of a key after the writers `l`. -/
def last (l : List β) (a : α) : Int :=
  l.foldl (fun v b => if covers b a then value b a else v) 0

/-- What the writers `l` write to keys that a later one covers too. -/
def lost (keys : List α) : List β → Int
  | [] => 0
  | b :: later =>
      ((keys.filter fun a => decide (covers b a ∧ ∃ b' ∈ later, covers b' a)).map (value b)).sum +
        lost keys later

/-- No key is covered by two writers. -/
def Disjoint (keys : List α) (l : List β) : Prop :=
  l.Pairwise fun b b' => ∀ a ∈ keys, ¬ (covers b a ∧ covers b' a)

instance (keys : List α) (l : List β) : Decidable (Disjoint covers keys l) :=
  inferInstanceAs (Decidable (List.Pairwise _ _))

variable {covers value} {keys : List α} {l : List β} {a : α}

theorem sum_filter (p : α → Prop) [DecidablePred p] (f : α → Int) (keys : List α) :
    ((keys.filter fun a => decide (p a)).map f).sum =
      (keys.map fun a => if p a then f a else 0).sum := by
  induction keys with
  | nil => rfl
  | cons a keys ih =>
      by_cases ha : p a
      · simp [ha, ih]
      · simp [ha, ih]

theorem foldl_of_covered (h : ∃ b ∈ l, covers b a) (v v' : Int) :
    l.foldl (fun v b => if covers b a then value b a else v) v =
      l.foldl (fun v b => if covers b a then value b a else v) v' := by
  induction l generalizing v v' with
  | nil =>
      obtain ⟨b, hb, -⟩ := h
      exact absurd hb List.not_mem_nil
  | cons b l ih =>
      simp only [List.foldl_cons]
      by_cases hb : covers b a
      · rw [if_pos hb, if_pos hb]
      · obtain ⟨b', hb', hcov⟩ := h
        have hl : b' ∈ l := (List.mem_cons.mp hb').resolve_left fun heq => hb (heq ▸ hcov)
        rw [if_neg hb, if_neg hb, ih ⟨b', hl, hcov⟩ v v']

theorem foldl_of_not_covered (h : ∀ b ∈ l, ¬ covers b a) (v : Int) :
    l.foldl (fun v b => if covers b a then value b a else v) v = v := by
  induction l generalizing v with
  | nil => rfl
  | cons b l ih =>
      rw [List.foldl_cons, if_neg (h b List.mem_cons_self),
        ih fun b' hb' => h b' (List.mem_cons_of_mem b hb')]

theorem last_of_not_covered (h : ∀ b ∈ l, ¬ covers b a) : last covers value l a = 0 :=
  foldl_of_not_covered h 0

/-- The first writer adds its value where no later one covers the key. -/
theorem last_cons (b : β) (l : List β) (a : α) :
    last covers value (b :: l) a +
        (if covers b a ∧ ∃ b' ∈ l, covers b' a then value b a else 0) =
      last covers value l a + if covers b a then value b a else 0 := by
  rw [last, List.foldl_cons, last]
  by_cases hl : ∃ b' ∈ l, covers b' a
  · rw [foldl_of_covered hl _ 0]
    simp [hl]
  · have hnone : ∀ b' ∈ l, ¬ covers b' a := fun b' hb' hcov => hl ⟨b', hb', hcov⟩
    have hneg : ¬ (covers b a ∧ ∃ b' ∈ l, covers b' a) := fun h => hl h.2
    rw [foldl_of_not_covered hnone, foldl_of_not_covered hnone, if_neg hneg]
    omega

/-- What stays and what is lost is what was written. -/
theorem sum_last (keys : List α) (l : List β) :
    (keys.map (last covers value l)).sum + lost covers value keys l =
      (l.map fun b => ((keys.filter fun a => decide (covers b a)).map (value b)).sum).sum := by
  induction l with
  | nil =>
      have hzero : keys.map (last covers value []) = keys.map fun _ => 0 := rfl
      simp [lost, hzero]
  | cons b l ih =>
      have hkeys : (keys.map (last covers value (b :: l))).sum +
          (keys.map fun a =>
            if covers b a ∧ ∃ b' ∈ l, covers b' a then value b a else 0).sum =
          (keys.map (last covers value l)).sum +
            (keys.map fun a => if covers b a then value b a else 0).sum := by
        rw [← List.sum_map_add, ← List.sum_map_add]
        exact congrArg List.sum (List.map_congr_left fun a _ => last_cons b l a)
      rw [lost, List.map_cons, List.sum_cons, sum_filter, sum_filter, ← ih]
      omega

/-- Where no key is covered twice, nothing is lost. -/
theorem lost_eq_zero (h : Disjoint covers keys l) : lost covers value keys l = 0 := by
  induction l with
  | nil => rfl
  | cons b l ih =>
      obtain ⟨hb, hl⟩ := List.pairwise_cons.mp h
      have hnone : (keys.filter fun a => decide (covers b a ∧ ∃ b' ∈ l, covers b' a)) = [] := by
        refine List.filter_eq_nil_iff.mpr fun a ha => ?_
        simp only [decide_eq_true_eq]
        rintro ⟨hcov, b', hb', hcov'⟩
        exact hb b' hb' a ha ⟨hcov, hcov'⟩
      rw [lost, hnone, ih hl]
      rfl

end LastWrite
