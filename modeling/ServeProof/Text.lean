import Mathlib.Data.List.TakeWhile

/-!
# ServeProof.Text

What the source does to texts: the blanks at their ends are taken off, numbers are read and
written in decimal.
-/

namespace ServeProof

/-- What stands before a rest that starts otherwise. -/
theorem takeWhile_before {α : Type} {p : α → Bool} {before rest : List α}
    (hbefore : ∀ a ∈ before, p a = true) (hrest : ∀ a ∈ rest.head?, p a = false) :
    (before ++ rest).takeWhile p = before ∧ (before ++ rest).dropWhile p = rest := by
  rw [List.takeWhile_append_of_pos hbefore, List.dropWhile_append_of_pos hbefore]
  cases rest with
  | nil => simp
  | cons a rest => simp [hrest a (by simp)]

/-! ## trim -/

/-- White space, as `trim` takes it off. -/
def IsSpace (c : Char) : Bool :=
  let n := c.toNat
  (9 ≤ n && n ≤ 13) || n = 0x20 || n = 0xA0 || n = 0x1680 || (0x2000 ≤ n && n ≤ 0x200A) ||
    n = 0x2028 || n = 0x2029 || n = 0x202F || n = 0x205F || n = 0x3000 || n = 0xFEFF

def trim (text : String) : String :=
  .ofList ((text.toList.dropWhile IsSpace).reverse.dropWhile IsSpace).reverse

/-- A text without blanks is left as it is. -/
theorem trim_eq_self {text : String} (h : ∀ c ∈ text.toList, IsSpace c = false) :
    trim text = text := by
  have hdrop : ∀ cs : List Char, (∀ c ∈ cs, IsSpace c = false) → cs.dropWhile IsSpace = cs := by
    intro cs hcs
    cases cs with
    | nil => rfl
    | cons c cs => simp [hcs c (by simp)]
  rw [trim, hdrop _ h, hdrop _ (by simpa using h), List.reverse_reverse, String.ofList_toList]

/-! ## Decimal digits -/

/-- The number that a text of decimal digits denotes. -/
def digits (text : List Char) : Option Nat :=
  if text.all Char.isDigit then some (text.foldl (fun n c => 10 * n + (c.toNat - '0'.toNat)) 0)
  else none

theorem digits_isSome (text : List Char) :
    (digits text).isSome ↔ ∀ c ∈ text, c.isDigit = true := by
  simp [digits, Option.isSome_ite]

/-- What is written in decimal is read back. -/
theorem digits_toDigits (n : Nat) : digits (Nat.toDigits 10 n) = some n := by
  have hall : (Nat.toDigits 10 n).all Char.isDigit = true := by
    rw [List.all_eq_true]
    exact fun c hc => Nat.isDigit_of_mem_toDigits (by decide) (by decide) hc
  rw [digits, if_pos hall, ← Nat.ofDigitChars_eq_foldl, Nat.ofDigitChars_ten_toDigits]

theorem isSpace_of_isDigit {c : Char} (hc : c.isDigit = true) : IsSpace c = false := by
  have hrange : 48 ≤ c.toNat ∧ c.toNat ≤ 57 := by
    simpa [Char.isDigit, UInt32.le_iff_toNat_le] using hc
  simp only [IsSpace, Bool.or_eq_false_iff, Bool.and_eq_false_iff, decide_eq_false_iff_not]
  omega

/-- `padStart` -/
def padStart (width : Nat) (fill : Char) (text : String) : String :=
  .ofList (List.replicate (width - text.length) fill ++ text.toList)

end ServeProof
