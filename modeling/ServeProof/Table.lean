import Mathlib.Algebra.BigOperators.Group.List.Basic
import Mathlib.Data.List.Nodup
import Mathlib.Tactic.Abel

/-!
# ServeProof.Table

A database table with a primary key: a list of rows in which no two rows have
the same key, which is a field of the structure.

* `find` -- the row with a key;
* `set` -- write a row, in place of the one with its key if there is one;
* `update` -- change the row with a key;
* `mapRows` -- change every row, keys kept;
* `erase` -- delete the rows that satisfy a predicate;
* `sum` -- add a number up over all rows;
* `count` -- count the rows that satisfy a predicate.

Each operation has one lemma about `find` and one about `sum`.
-/

/-- Rows `ρ` with the key `key`. -/
structure Table {κ ρ : Type} (key : ρ → κ) where
  rows : List ρ
  nodup : (rows.map key).Nodup

namespace Table

variable {κ ρ : Type} {key : ρ → κ}

/-- The table with no rows. -/
def empty : Table key := ⟨[], List.nodup_nil⟩

instance : EmptyCollection (Table key) := ⟨empty⟩

@[simp] theorem rows_empty : (∅ : Table key).rows = [] := rfl

/-- Rows with one key are one row. -/
theorem eq_of_key_eq (t : Table key) {r s : ρ} (hr : r ∈ t.rows) (hs : s ∈ t.rows)
    (h : key r = key s) : r = s :=
  List.inj_on_of_nodup_map t.nodup hr hs h

section Keyed

variable [DecidableEq κ]

/-! ## Reading -/

def find (t : Table key) (k : κ) : Option ρ := t.rows.find? fun r => decide (key r = k)

@[simp] theorem find_empty (k : κ) : (∅ : Table key).find k = none := rfl

theorem find_eq_some_iff (t : Table key) {k : κ} {r : ρ} :
    t.find k = some r ↔ r ∈ t.rows ∧ key r = k := by
  constructor
  · intro h
    exact ⟨List.mem_of_find?_eq_some h, by simpa using List.find?_some h⟩
  · rintro ⟨hr, rfl⟩
    cases hf : t.find (key r) with
    | none => simpa using List.find?_eq_none.mp hf r hr
    | some s =>
        have hs : s ∈ t.rows := List.mem_of_find?_eq_some hf
        have hk : key s = key r := by simpa using List.find?_some hf
        rw [t.eq_of_key_eq hs hr hk]

theorem mem_of_find {t : Table key} {k : κ} {r : ρ} (h : t.find k = some r) : r ∈ t.rows :=
  (t.find_eq_some_iff.mp h).1

theorem key_of_find {t : Table key} {k : κ} {r : ρ} (h : t.find k = some r) : key r = k :=
  (t.find_eq_some_iff.mp h).2

theorem find_key {t : Table key} {r : ρ} (h : r ∈ t.rows) : t.find (key r) = some r :=
  t.find_eq_some_iff.mpr ⟨h, rfl⟩

theorem find_eq_none_iff (t : Table key) {k : κ} :
    t.find k = none ↔ ∀ r ∈ t.rows, key r ≠ k := by
  simp [find]

/-- The rows with a key are the row with that key. -/
theorem filter_key (t : Table key) (k : κ) :
    (t.rows.filter fun r => decide (key r = k)) = (t.find k).toList := by
  have hnodup : t.rows.Nodup := t.nodup.of_map key
  cases hfind : t.find k with
  | none =>
      have hnone := t.find_eq_none_iff.mp hfind
      simpa using hnone
  | some r =>
      obtain ⟨hr, hk⟩ := t.find_eq_some_iff.mp hfind
      refine List.perm_singleton.mp
        ((List.perm_ext_iff_of_nodup (hnodup.filter _) ?_).mpr fun x => ?_)
      · exact List.nodup_singleton r
      · simp only [List.mem_filter, decide_eq_true_eq, List.mem_singleton]
        constructor
        · rintro ⟨hx, hxk⟩
          exact t.eq_of_key_eq hx hr (hxk.trans hk.symm)
        · rintro rfl
          exact ⟨hr, hk⟩

/-! ## Writing -/

/-- Write `r` in place of the first row with its key, or at the end. -/
def setRow (key : ρ → κ) (r : ρ) : List ρ → List ρ
  | [] => [r]
  | x :: xs => if key x = key r then r :: xs else x :: setRow key r xs

theorem mem_setRow_of {r x : ρ} {l : List ρ} (h : x ∈ setRow key r l) : x = r ∨ x ∈ l := by
  induction l with
  | nil => exact .inl (List.mem_singleton.mp h)
  | cons y ys ih =>
      rw [setRow] at h
      split at h
      · cases List.mem_cons.mp h with
        | inl h => exact .inl h
        | inr h => exact .inr (List.mem_cons_of_mem y h)
      · cases List.mem_cons.mp h with
        | inl h => exact .inr (h ▸ List.mem_cons_self)
        | inr h => exact (ih h).imp id (List.mem_cons_of_mem y)

theorem nodup_setRow {r : ρ} {l : List ρ} (h : (l.map key).Nodup) :
    ((setRow key r l).map key).Nodup := by
  induction l with
  | nil => simp [setRow]
  | cons y ys ih =>
      rw [List.map_cons, List.nodup_cons] at h
      rw [setRow]
      split
      · next hy => rwa [List.map_cons, ← hy, List.nodup_cons]
      · next hy =>
        rw [List.map_cons, List.nodup_cons]
        refine ⟨fun hmem => ?_, ih h.2⟩
        obtain ⟨z, hz, hzk⟩ := List.mem_map.mp hmem
        cases mem_setRow_of hz with
        | inl hz => exact hy (hzk ▸ hz ▸ rfl)
        | inr hz => exact h.1 (hzk ▸ List.mem_map_of_mem hz)

def set (t : Table key) (r : ρ) : Table key := ⟨setRow key r t.rows, nodup_setRow t.nodup⟩

/-- Change the row with key `k`; nothing happens when there is none. -/
def update (t : Table key) (k : κ) (f : ρ → ρ) : Table key :=
  match t.find k with
  | some r => t.set (f r)
  | none => t

/-- Write several rows, one after the other. -/
def setAll (t : Table key) (rs : List ρ) : Table key := rs.foldl set t

theorem find_setRow (r : ρ) (k : κ) (l : List ρ) :
    (setRow key r l).find? (fun x => decide (key x = k)) =
      if key r = k then some r else l.find? fun x => decide (key x = k) := by
  induction l with
  | nil => by_cases h : key r = k <;> simp [setRow, h]
  | cons y ys ih =>
      rw [setRow]
      by_cases hy : key y = key r
      · by_cases h : key r = k <;> simp [hy, h]
      · rw [if_neg hy, List.find?_cons, ih, List.find?_cons]
        by_cases hyk : key y = k
        · simp [hyk, show key r ≠ k from fun h => hy (hyk.trans h.symm)]
        · simp [hyk]

theorem find_set (t : Table key) (r : ρ) (k : κ) :
    (t.set r).find k = if key r = k then some r else t.find k :=
  find_setRow r k t.rows

@[simp] theorem find_set_self (t : Table key) (r : ρ) : (t.set r).find (key r) = some r := by
  simp [find_set]

theorem find_update (t : Table key) {k : κ} {f : ρ → ρ} (hf : ∀ r, key (f r) = key r) (k' : κ) :
    (t.update k f).find k' = if k = k' then (t.find k).map f else t.find k' := by
  rw [update]
  cases h : t.find k with
  | none =>
      by_cases hk : k = k'
      · subst hk; simp [h]
      · simp [hk]
  | some r =>
      have hr : key (f r) = k := (hf r).trans (key_of_find h)
      simp [find_set, hr]

theorem mem_set (t : Table key) {r x : ρ} :
    x ∈ (t.set r).rows ↔ x = r ∨ x ∈ t.rows ∧ key x ≠ key r := by
  rw [← and_true (x ∈ (t.set r).rows), ← eq_self (key x), ← find_eq_some_iff, find_set]
  by_cases h : key r = key x
  · rw [if_pos h]
    simp only [Option.some.injEq, h, ne_eq, not_true_eq_false, and_false, or_false]
    exact eq_comm
  · rw [if_neg h, find_eq_some_iff]
    have hx : x ≠ r := fun e => h (e ▸ rfl)
    simp [hx, Ne.symm h]

theorem mem_update (t : Table key) {k : κ} {f : ρ → ρ} (hf : ∀ r, key (f r) = key r) {x : ρ} :
    x ∈ (t.update k f).rows ↔
      (x ∈ t.rows ∧ key x ≠ k) ∨ ∃ r ∈ t.rows, key r = k ∧ f r = x := by
  rw [← and_true (x ∈ (t.update k f).rows), ← eq_self (key x), ← find_eq_some_iff,
    find_update t hf]
  by_cases h : k = key x
  · subst h
    simp only [↓reduceIte, Option.map_eq_some_iff, ne_eq, not_true_eq_false, and_false, false_or,
      find_eq_some_iff, and_assoc]
  · rw [if_neg h, find_eq_some_iff]
    have hno : ¬ ∃ r ∈ t.rows, key r = k ∧ f r = x := by
      rintro ⟨r, -, rfl, rfl⟩
      exact h (hf r).symm
    simp [hno, Ne.symm h]

/-- An update changes rows in place. -/
theorem rows_update (t : Table key) {k : κ} {f : ρ → ρ} (hf : ∀ r, key (f r) = key r) :
    (t.update k f).rows = t.rows.map fun r => if key r = k then f r else r := by
  rw [update]
  cases h : t.find k with
  | none =>
      have hne : ∀ r ∈ t.rows, (if key r = k then f r else r) = r := fun r hr =>
        if_neg (t.find_eq_none_iff.mp h r hr)
      rw [List.map_congr_left hne, List.map_id']
  | some old =>
      obtain ⟨l, hl⟩ := t
      simp only [set]
      simp only [find] at h
      induction l with
      | nil => simp at h
      | cons y ys ih =>
          rw [List.map_cons, List.nodup_cons] at hl
          by_cases hy : key y = k
          · have hold : y = old := by simpa [hy] using h
            subst hold
            have hrest : ∀ r ∈ ys, (if key r = k then f r else r) = r := by
              intro r hr
              refine if_neg fun hrk => hl.1 ?_
              rw [hy, ← hrk]
              exact List.mem_map_of_mem hr
            rw [setRow, if_pos (hf y).symm, List.map_cons, if_pos hy,
              List.map_congr_left hrest, List.map_id']
          · simp only [List.find?_cons, hy, decide_false] at h
            have hk : key old = k := by simpa using List.find?_some h
            have hne : key y ≠ key (f old) := by rw [hf, hk]; exact hy
            rw [setRow, if_neg hne, ih hl.2 h, List.map_cons, if_neg hy]

/-- A row with a new key goes to the end. -/
theorem rows_set_of_not_mem (t : Table key) {r : ρ} (h : t.find (key r) = none) :
    (t.set r).rows = t.rows ++ [r] := by
  obtain ⟨l, hl⟩ := t
  simp only [find, set] at h ⊢
  clear hl
  induction l with
  | nil => rfl
  | cons y ys ih =>
      simp only [List.find?_eq_none, decide_eq_true_eq, List.mem_cons, forall_eq_or_imp] at h ih
      rw [setRow, if_neg h.1, ih h.2, List.cons_append]

end Keyed

/-- Change every row, keys kept. -/
def mapRows (t : Table key) (f : ρ → ρ) (hf : ∀ r, key (f r) = key r) : Table key where
  rows := t.rows.map f
  nodup := by
    have h : key ∘ f = key := funext hf
    rw [List.map_map, h]
    exact t.nodup

/-- Delete the rows that satisfy `p`. -/
def erase (t : Table key) (p : ρ → Bool) : Table key where
  rows := t.rows.filter fun r => !p r
  nodup := (List.filter_sublist.map key).nodup t.nodup

theorem mem_erase (t : Table key) {p : ρ → Bool} {x : ρ} :
    x ∈ (t.erase p).rows ↔ x ∈ t.rows ∧ p x = false := by
  simp [erase]

section Erase

variable [DecidableEq κ]

theorem find_erase (t : Table key) (p : ρ → Bool) (k : κ) :
    (t.erase p).find k = (t.find k).filter fun r => !p r := by
  ext r
  rw [find_eq_some_iff, mem_erase, Option.filter_eq_some_iff, find_eq_some_iff]
  simp [and_right_comm]

theorem find_erase_key (t : Table key) (k k' : κ) :
    (t.erase fun r => decide (key r = k)).find k' = if k = k' then none else t.find k' := by
  rw [find_erase]
  by_cases hk : k = k'
  · rw [if_pos hk, Option.filter_eq_none_iff]
    intro r hr
    simp [key_of_find hr, hk]
  · rw [if_neg hk]
    cases h : t.find k' with
    | none => rfl
    | some r => simp [key_of_find h, Ne.symm hk]

theorem find_mapRows (t : Table key) (f : ρ → ρ) (hf : ∀ r, key (f r) = key r) (k : κ) :
    (t.mapRows f hf).find k = (t.find k).map f := by
  have h : (fun r => decide (key r = k)) ∘ f = fun r => decide (key r = k) :=
    funext fun r => by rw [Function.comp_apply, hf]
  rw [find, mapRows, List.find?_map, h]
  rfl

end Erase

/-! ## Sums over the rows -/

section Sum

variable {M : Type} [AddCommMonoid M]

/-- Add `g` up over all rows. -/
def sum (t : Table key) (g : ρ → M) : M := (t.rows.map g).sum

@[simp] theorem sum_empty (g : ρ → M) : (∅ : Table key).sum g = 0 := rfl

variable [DecidableEq κ]

/-- A new row adds its number. -/
theorem sum_set_of_not_mem (t : Table key) {r : ρ} (h : t.find (key r) = none) (g : ρ → M) :
    (t.set r).sum g = t.sum g + g r := by
  simp [sum, t.rows_set_of_not_mem h]

/-- A replaced row takes its number away and puts the new one in. -/
theorem sum_set_of_find (t : Table key) {r old : ρ} (h : t.find (key r) = some old) (g : ρ → M) :
    (t.set r).sum g + g old = t.sum g + g r := by
  obtain ⟨l, hl⟩ := t
  simp only [sum, set, find] at h ⊢
  clear hl
  induction l with
  | nil => simp at h
  | cons y ys ih =>
      rw [setRow]
      by_cases hy : key y = key r
      · simp only [List.find?_cons, hy, decide_true, Option.some.injEq] at h
        subst h
        simp [hy]; abel
      · simp only [List.find?_cons, hy, decide_false] at h
        rw [if_neg hy, List.map_cons, List.sum_cons, List.map_cons, List.sum_cons, add_assoc,
          ih h, add_assoc]

/-- A row that is deleted takes its number away. -/
theorem sum_erase_key (t : Table key) {k : κ} {r : ρ} (h : t.find k = some r) (g : ρ → M) :
    (t.erase fun x => decide (key x = k)).sum g + g r = t.sum g := by
  obtain ⟨l, hl⟩ := t
  simp only [sum, erase, find] at h ⊢
  induction l with
  | nil => simp at h
  | cons y ys ih =>
      rw [List.map_cons, List.nodup_cons] at hl
      by_cases hy : key y = k
      · have hrest : ys.filter (fun x => !decide (key x = k)) = ys := by
          rw [List.filter_eq_self]
          intro x hx
          have hne : key x ≠ k := fun hxk => hl.1 (hy.trans hxk.symm ▸ List.mem_map_of_mem hx)
          simp [hne]
        simp only [List.find?_cons, hy, decide_true, Option.some.injEq] at h
        subst h
        simp only [List.filter_cons, hy, decide_true, Bool.not_true, Bool.false_eq_true, if_false,
          hrest, List.map_cons, List.sum_cons]
        exact add_comm _ _
      · simp only [List.find?_cons, hy, decide_false] at h
        simp only [List.filter_cons, hy, decide_false, Bool.not_false, if_true, List.map_cons,
          List.sum_cons, add_assoc, ih hl.2 h]

theorem sum_update (t : Table key) {k : κ} {f : ρ → ρ} (hf : ∀ r, key (f r) = key r) {old : ρ}
    (h : t.find k = some old) (g : ρ → M) :
    (t.update k f).sum g + g old = t.sum g + g (f old) := by
  have hk : key (f old) = k := (hf old).trans (key_of_find h)
  rw [update, h]
  exact t.sum_set_of_find (hk ▸ h) g

/-- A change that keeps the number of every row keeps the sum. -/
theorem sum_update_of_eq (t : Table key) {k : κ} {f : ρ → ρ} (hf : ∀ r, key (f r) = key r)
    {g : ρ → M} [IsCancelAdd M] (hg : ∀ r, g (f r) = g r) : (t.update k f).sum g = t.sum g := by
  cases h : t.find k with
  | none => rw [update, h]
  | some old => exact add_right_cancel ((t.sum_update hf h g).trans (by rw [hg]))

/-- Items that each have a row of their own, with at least their number, sum up to no
more than the rows. -/
theorem sum_le_sum_of_find {β : Type} {items : List β} {f : β → Nat} {k : β → κ} {g : ρ → Nat}
    (t : Table key) (hdistinct : items.Pairwise fun x y => f x ≠ 0 → f y ≠ 0 → k x ≠ k y)
    (hrow : ∀ x ∈ items, f x ≠ 0 → ∃ r, t.find (k x) = some r ∧ f x ≤ g r) :
    (items.map f).sum ≤ t.sum g := by
  induction items generalizing t with
  | nil => exact Nat.zero_le _
  | cons x items ih =>
      obtain ⟨hx, hrest⟩ := List.pairwise_cons.mp hdistinct
      rw [List.map_cons, List.sum_cons]
      by_cases hzero : f x = 0
      · rw [hzero, Nat.zero_add]
        exact ih t hrest fun y hy => hrow y (List.mem_cons_of_mem x hy)
      · -- the row of `x` is of no other item
        obtain ⟨r, hr, hle⟩ := hrow x List.mem_cons_self hzero
        have hothers := ih (t.erase fun y => decide (key y = k x)) hrest fun y hy hy0 => by
          rw [find_erase_key, if_neg (hx y hy hzero hy0)]
          exact hrow y (List.mem_cons_of_mem x hy) hy0
        have hsum := t.sum_erase_key hr g
        omega

end Sum

/-! ## Counting rows -/

section Count

/-- How many rows satisfy `p`. -/
def count (t : Table key) (p : ρ → Bool) : Nat := t.rows.countP p

/-- A key is the key of one row at most. -/
theorem count_key_le_one [DecidableEq κ] (t : Table key) (k : κ) :
    (t.count fun r => decide (key r = k)) ≤ 1 := by
  have h := List.nodup_iff_count_le_one.mp t.nodup k
  rw [List.count, List.countP_map] at h
  refine le_trans (List.countP_mono_left fun r _ hr => ?_) h
  simpa using hr

variable [DecidableEq κ]

end Count

end Table
