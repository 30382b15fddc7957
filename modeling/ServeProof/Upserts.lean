import Mathlib.Data.List.Induction
import ServeProof.Table

/-!
# ServeProof.Upserts

A loop of upserts into a table.  An upsert may keep columns of the row that is
there; what it keeps, an earlier upsert of the key has kept before it, so the last
upsert of a key decides on its row.
-/

namespace Table

variable {κ ρ β : Type} [DecidableEq κ] {key : ρ → κ}

/-- Upsert every item: `row x old` is the row of `x` in place of the old one. -/
def upsertAll (id : β → κ) (row : β → Option ρ → ρ) (items : List β) (t : Table key) : Table key :=
  items.foldl (fun t x => t.set (row x (t.find (id x)))) t

/-- The last item with a key. -/
def lastOf (id : β → κ) (items : List β) (k : κ) : Option β :=
  items.reverse.find? fun x => decide (id x = k)

/-- What an upsert writes has the key of its item, and does not depend on an
upsert of the same key before it. -/
structure Absorbs (id : β → κ) (key : ρ → κ) (row : β → Option ρ → ρ) : Prop where
  key_row : ∀ x old, key (row x old) = id x
  row_row : ∀ x y old, row x (some (row y old)) = row x old

variable {id : β → κ} {row : β → Option ρ → ρ} {items : List β} {t : Table key} {k : κ}

theorem lastOf_eq_none : lastOf id items k = none ↔ ∀ x ∈ items, id x ≠ k := by
  simp [lastOf, List.find?_eq_none]

theorem id_of_lastOf {x : β} (h : lastOf id items k = some x) : id x = k :=
  of_decide_eq_true (List.find?_some h :)

theorem mem_of_lastOf {x : β} (h : lastOf id items k = some x) : x ∈ items :=
  List.mem_reverse.mp (List.mem_of_find?_eq_some h)

theorem lastOf_concat (items : List β) (x : β) :
    lastOf id (items ++ [x]) k = if id x = k then some x else lastOf id items k := by
  rw [lastOf, List.reverse_append, List.reverse_singleton, List.singleton_append, List.find?_cons]
  by_cases h : id x = k <;> simp [h, lastOf]

/-- The row of a key after the loop. -/
theorem find_upsertAll (h : Absorbs id key row) :
    (upsertAll id row items t).find k =
      match lastOf id items k with
      | some x => some (row x (t.find k))
      | none => t.find k := by
  induction items using List.reverseRecOn with
  | nil => rfl
  | append_singleton items x ih =>
      have hstep : upsertAll id row (items ++ [x]) t =
          (upsertAll id row items t).set (row x ((upsertAll id row items t).find (id x))) := by
        rw [upsertAll, List.foldl_append]
        rfl
      rw [hstep, find_set, h.key_row, lastOf_concat]
      by_cases hx : id x = k
      · rw [if_pos hx, if_pos hx, hx, ih]
        cases lastOf id items k with
        | none => rfl
        | some y => simp only [h.row_row]
      · rw [if_neg hx, if_neg hx, ih]

/-- A second loop over a key decides on its row alone. -/
theorem find_upsertAll_upsertAll (h : Absorbs id key row) {items' : List β}
    (hk : lastOf id items' k ≠ none) :
    (upsertAll id row items' (upsertAll id row items t)).find k =
      (upsertAll id row items' t).find k := by
  rw [find_upsertAll h, find_upsertAll h, find_upsertAll h]
  cases hlast : lastOf id items' k with
  | none => exact absurd hlast hk
  | some x =>
      cases lastOf id items k with
      | none => rfl
      | some y => simp only [h.row_row]

end Table
