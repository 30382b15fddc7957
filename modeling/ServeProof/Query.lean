import Mathlib.Data.List.Dedup
import Mathlib.Data.List.Induction
import ServeProof.Table

/-!
# ServeProof.Query

The rows of a query, and what it aggregates of them.

* `leftJoin` -- each row with what it matches, or once with nothing;
* `countDistinct` -- the number of values in a column, in which NULL is none;
* `groupCounts` -- how many rows have each value of a column;
* `follow_lookAhead` -- pages that are cut with one row of look-ahead are all the rows.
-/

namespace Query

/-- `LEFT(text, n)`. -/
def left (text : String) (n : Nat) : String := String.ofList (text.toList.take n)

example : left "2026-07-01" 7 = "2026-07" := by decide +kernel

variable {α β κ : Type}

/-! ## Joins -/

/-- `LEFT JOIN`: a row that matches nothing appears once, with NULL. -/
def leftJoin (on : α → β → Bool) (rows : List α) (others : List β) : List (α × Option β) :=
  rows.flatMap fun a =>
    match others.filter (on a) with
    | [] => [(a, none)]
    | matched => matched.map fun b => (a, some b)

example : leftJoin (fun n m : Nat => n == m) [1, 2] [2, 3] = [(1, none), (2, some 2)] := by decide

/-- When each row matches one other row at most, the join adds a column. -/
theorem leftJoin_eq_map {on : α → β → Bool} {rows : List α} {others : List β} {f : α → Option β}
    (h : ∀ a, others.filter (on a) = (f a).toList) :
    leftJoin on rows others = rows.map fun a => (a, f a) := by
  induction rows with
  | nil => rfl
  | cons a rows ih =>
      have hrow : (match others.filter (on a) with
          | [] => [(a, none)]
          | matched => matched.map fun b => (a, some b)) = [(a, f a)] := by
        rw [h a]
        cases f a <;> rfl
      simp only [leftJoin, List.flatMap_cons, hrow, List.map_cons] at ih ⊢
      rw [ih, List.singleton_append]

/-- A join on the key of a table looks the key up. -/
theorem leftJoin_find [DecidableEq κ] {key : β → κ} (t : Table key) (column : α → Option κ)
    (rows : List α) :
    leftJoin (fun a b => decide (some (key b) = column a)) rows t.rows =
      rows.map fun a => (a, (column a).bind t.find) := by
  refine leftJoin_eq_map fun a => ?_
  cases hcolumn : column a with
  | none => simp
  | some k =>
      simp only [Option.some.injEq, Option.bind_some]
      exact t.filter_key k

/-! ## Aggregates -/

/-- `COUNT(DISTINCT column)`. -/
def countDistinct [DecidableEq κ] (column : α → Option κ) (rows : List α) : Nat :=
  (rows.filterMap column).dedup.length

theorem countDistinct_map [DecidableEq κ] (column : β → Option κ) (f : α → β) (rows : List α) :
    countDistinct column (rows.map f) = countDistinct (fun a => column (f a)) rows := by
  rw [countDistinct, List.filterMap_map]
  rfl

theorem countDistinct_eq [DecidableEq κ] {column : α → Option κ} {f : α → κ} {rows : List α}
    (h : ∀ a ∈ rows, column a = some (f a)) :
    countDistinct column rows = (rows.map f).dedup.length := by
  rw [countDistinct, List.filterMap_congr h, List.filterMap_eq_map']

/-- `GROUP BY key`, with the number of rows of each group. -/
def groupCounts [DecidableEq κ] (key : α → κ) (rows : List α) : List (κ × Int) :=
  (rows.map key).dedup.map fun k => (k, (rows.countP fun a => decide (key a = k) : Nat))

theorem groupCounts_map [DecidableEq κ] (key : β → κ) (f : α → β) (rows : List α) :
    groupCounts key (rows.map f) = groupCounts (fun a => key (f a)) rows := by
  simp only [groupCounts, List.map_map, List.countP_map, Function.comp_def]

theorem lookup_map_self [DecidableEq κ] (keys : List κ) (f : κ → β) (k : κ) :
    (keys.map fun k => (k, f k)).lookup k = if k ∈ keys then some (f k) else none := by
  induction keys with
  | nil => rfl
  | cons k' keys ih =>
      rw [List.map_cons, List.lookup_cons, ih]
      by_cases hk : k = k'
      · simp [hk]
      · have hne : (k == k') = false := beq_false_of_ne hk
        simp [hne, hk]

/-- A group is there when a row is in it. -/
theorem lookup_groupCounts [DecidableEq κ] (key : α → κ) (rows : List α) (k : κ) :
    (groupCounts key rows).lookup k =
      if k ∈ rows.map key then some ((rows.countP fun a => decide (key a = k) : Nat) : Int)
      else none := by
  simp only [groupCounts, lookup_map_self, List.mem_dedup]

/-! ## Pages -/

/-- `cursor`, `skip` and `take` of `findMany`: the rows from the one of the cursor on. -/
def findMany [DecidableEq κ] (key : α → κ) (cursor : Option κ) (skip take : Nat)
    (rows : List α) : List α :=
  let found := match cursor with
    | some k => rows.dropWhile fun a => decide (key a ≠ k)
    | none => rows
  (found.drop skip).take take

/-- Some rows, and the cursor of the next page if there is one. -/
structure Page (α κ : Type) where
  items : List α
  nextCursor : Option κ
  deriving DecidableEq, Repr

/-- A page of the rows that are found, of which there is one more than the limit when there
is a next page. -/
def lookAhead (key : α → κ) (limit : Nat) (found : List α) : Page α κ :=
  let hasMore := limit < found.length
  let page := if hasMore then found.take limit else found
  ⟨page, if hasMore then page.getLast?.map key else none⟩

/-- Read a page, and follow `nextCursor` until there is none: what has been read, if that
takes at most the given number of pages. -/
def follow (page : Option κ → Page α κ) : Nat → Option κ → Option (List α)
  | 0, _ => none
  | n + 1, cursor =>
      match (page cursor).nextCursor with
      | none => some (page cursor).items
      | some next => (follow page n (some next)).map ((page cursor).items ++ ·)

/-- Pages of other columns. -/
theorem follow_map {γ : Type} (f : α → γ) (page : Option κ → Page α κ) (n : Nat)
    (cursor : Option κ) :
    follow (fun c => ⟨(page c).items.map f, (page c).nextCursor⟩) n cursor =
      (follow page n cursor).map (List.map f) := by
  induction n generalizing cursor with
  | zero => rfl
  | succ n ih =>
      rw [follow, follow]
      cases hnext : (page cursor).nextCursor with
      | none => rfl
      | some next =>
          simp only
          rw [ih, Option.map_map, Option.map_map]
          congr 1
          funext rest
          simp

section LookAhead

variable [DecidableEq κ] {key : α → κ} {limit : Nat}

/-- The rows from a row of the list on. -/
theorem dropWhile_key {before rest : List α} {x : α}
    (hnodup : ((before ++ x :: rest).map key).Nodup) :
    (before ++ x :: rest).dropWhile (fun a => decide (key a ≠ key x)) = x :: rest := by
  rw [List.dropWhile_append_of_pos, List.dropWhile_cons_of_neg]
  · simp
  · intro a ha
    rw [List.map_append, List.nodup_append] at hnodup
    have hne := hnodup.2.2 (key a) (List.mem_map_of_mem ha) (key x) (by simp)
    exact decide_eq_true hne

/-- The cursor after the rows that have been read. -/
def cursorAfter (key : α → κ) (before : List α) : Option κ := before.getLast?.map key

/-- The rows after the ones that have been read. -/
theorem findMany_cursorAfter {before rest : List α} (hnodup : ((before ++ rest).map key).Nodup)
    (take : Nat) :
    findMany key (cursorAfter key before) (if (cursorAfter key before).isSome then 1 else 0) take
      (before ++ rest) = rest.take take := by
  cases before using List.reverseRecOn with
  | nil => rfl
  | append_singleton before x =>
      rw [List.append_assoc, List.singleton_append] at hnodup ⊢
      have hcursor : cursorAfter key (before ++ [x]) = some (key x) := by simp [cursorAfter]
      rw [hcursor]
      simp only [findMany, Option.isSome_some, if_true]
      rw [dropWhile_key hnodup, List.drop_one, List.tail_cons]

/-- The page after the rows that have been read. -/
def pageAfter (key : α → κ) (limit : Nat) (rows : List α) (cursor : Option κ) : Page α κ :=
  lookAhead key limit (findMany key cursor (if cursor.isSome then 1 else 0) (limit + 1) rows)

theorem pageAfter_cursorAfter {before rest : List α}
    (hnodup : ((before ++ rest).map key).Nodup) :
    pageAfter key limit (before ++ rest) (cursorAfter key before) =
      if limit < rest.length then ⟨rest.take limit, cursorAfter key (rest.take limit)⟩
      else ⟨rest, none⟩ := by
  rw [pageAfter, findMany_cursorAfter hnodup]
  simp only [lookAhead, List.length_take]
  split
  · next hmore =>
    have hmore' : limit < rest.length := by omega
    rw [if_pos hmore', List.take_take, Nat.min_eq_left (Nat.le_succ limit)]
    rfl
  · next hlast =>
    have hlast' : ¬ limit < rest.length := by omega
    rw [if_neg hlast', List.take_of_length_le (by omega)]

/-- **The pages are all the rows, each once and in their order**, and there are no more
pages than rows, and one. -/
theorem follow_lookAhead (hlimit : 1 ≤ limit) {before rest : List α}
    (hnodup : ((before ++ rest).map key).Nodup) {n : Nat} (hn : rest.length < n) :
    follow (pageAfter key limit (before ++ rest)) n (cursorAfter key before) = some rest := by
  induction n generalizing before rest with
  | zero => omega
  | succ n ih =>
      rw [follow, pageAfter_cursorAfter hnodup]
      by_cases hmore : limit < rest.length
      · have htake : rest.take limit ≠ [] := by
          rw [← List.length_pos_iff, List.length_take]
          omega
        obtain ⟨x, hx⟩ : ∃ x, (rest.take limit).getLast? = some x :=
          Option.isSome_iff_exists.mp (List.getLast?_isSome.mpr htake)
        have hcursor : cursorAfter key (rest.take limit) = some (key x) := by
          rw [cursorAfter, hx, Option.map_some]
        have hcursor' : cursorAfter key (before ++ rest.take limit) = some (key x) := by
          rw [cursorAfter, List.getLast?_append_of_ne_nil _ htake, hx, Option.map_some]
        -- the rest of the rows is shorter
        have hrows : before ++ rest = (before ++ rest.take limit) ++ rest.drop limit := by
          rw [List.append_assoc, List.take_append_drop]
        have hrest : follow (pageAfter key limit ((before ++ rest.take limit) ++ rest.drop limit)) n
            (cursorAfter key (before ++ rest.take limit)) = some (rest.drop limit) :=
          ih (hrows ▸ hnodup) (by rw [List.length_drop]; omega)
        rw [← hrows, hcursor'] at hrest
        simp only [if_pos hmore, hcursor, hrest, Option.map_some, List.take_append_drop]
      · simp only [if_neg hmore]

end LookAhead

end Query
