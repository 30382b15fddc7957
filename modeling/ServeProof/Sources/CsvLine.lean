import Mathlib.Data.List.Basic

/-!
# ServeProof.Sources.CsvLine

A line of a CSV, as the payroll export writes it and as `normalizeCsv` splits it: what is
split is what has been written (`scan_joinCsv`).

A text is the list of its UTF-16 code units, which the scanner looks at one by one; half
of a surrogate pair is a unit like any other.
-/

namespace ServeProof.CsvLine

abbrev Text := List UInt16

/-- `"` -/
def quote : UInt16 := 0x22

/-- `,` -/
def comma : UInt16 := 0x2c

/-! ## splitCsvLine -/

/-- The loop over the rest of the line.  The index moves on by two after a doubled
quote. -/
def scan (fields : List Text) (current : Text) (inQuotes : Bool) : Text → List Text
  | [] => fields ++ [current]
  | ch :: rest =>
      if inQuotes then
        if ch = quote then
          match rest with
          | next :: rest' =>
              if next = quote then scan fields (current ++ [quote]) inQuotes rest'
              else scan fields current false (next :: rest')
          | [] => scan fields current false []
        else scan fields (current ++ [ch]) inQuotes rest
      else if ch = quote then scan fields current true rest
      else if ch = comma then scan (fields ++ [current]) [] inQuotes rest
      else scan fields (current ++ [ch]) inQuotes rest

def splitCsvLine (line : Text) : List Text := scan [] [] false line

/-! ## The export -/

/-- `value.replaceAll('"', '""')` -/
def doubleQuotes (value : Text) : Text :=
  value.flatMap fun ch => if ch = quote then [quote, quote] else [ch]

def escape (value : Text) : Text := [quote] ++ doubleQuotes value ++ [quote]

/-- A row, joined with commas. -/
def joinCsv (row : List Text) : Text := [comma].intercalate (row.map escape)

/-! ## The scanner on what the export writes -/

variable {fields : List Text} {current rest : Text} {ch : UInt16}

/-- A character of a quoted field. -/
theorem scan_quoted (hch : ch ≠ quote) :
    scan fields current true (ch :: rest) = scan fields (current ++ [ch]) true rest := by
  rw [scan.eq_def]
  simp only [if_true, if_neg hch]

theorem scan_doubled :
    scan fields current true (quote :: quote :: rest) =
      scan fields (current ++ [quote]) true rest := by
  rw [scan.eq_def]
  simp only [if_true]

theorem scan_open :
    scan fields current false (quote :: rest) = scan fields current true rest := by
  rw [scan.eq_def]
  simp only [if_neg Bool.false_ne_true, if_true]

theorem scan_comma :
    scan fields current false (comma :: rest) = scan (fields ++ [current]) [] false rest := by
  have hne : comma ≠ quote := by decide
  rw [scan.eq_def]
  simp only [if_neg Bool.false_ne_true, if_neg hne, if_true]

/-- The text after a field: the line ends, or another field comes. -/
def EndsField (rest : Text) : Prop := rest = [] ∨ ∃ tail, rest = comma :: tail

/-- The closing quote of a field. -/
theorem scan_close (hrest : EndsField rest) :
    scan fields current true (quote :: rest) = scan fields current false rest := by
  obtain rfl | ⟨tail, rfl⟩ := hrest
  · rfl
  · have hne : comma ≠ quote := by decide
    rw [scan, if_pos rfl, if_pos rfl]
    simp only [if_neg hne]

/-- Inside the quotes, a quote is read as the two that were written. -/
theorem scan_doubleQuotes (hrest : EndsField rest) (value : Text) :
    scan fields current true (doubleQuotes value ++ quote :: rest) =
      scan fields (current ++ value) false rest := by
  induction value generalizing current with
  | nil =>
      rw [List.append_nil]
      exact scan_close hrest
  | cons ch value ih =>
      have hsnoc : current ++ ch :: value = (current ++ [ch]) ++ value := by simp
      rw [hsnoc, ← ih, doubleQuotes, List.flatMap_cons, List.append_assoc, ← doubleQuotes]
      by_cases hch : ch = quote
      · subst hch
        rw [if_pos rfl, List.cons_append, List.singleton_append, scan_doubled]
      · rw [if_neg hch, List.singleton_append, scan_quoted hch]

theorem scan_escape (hrest : EndsField rest) (value : Text) :
    scan fields [] false (escape value ++ rest) = scan fields value false rest := by
  have hopen : escape value ++ rest = quote :: (doubleQuotes value ++ quote :: rest) := by
    simp [escape]
  rw [hopen, scan_open, scan_doubleQuotes hrest, List.nil_append]

/-- **What is split is what has been written**: a row of any fields, if it has one. -/
theorem scan_joinCsv (value : Text) (row : List Text) :
    scan fields [] false (joinCsv (value :: row)) = fields ++ value :: row := by
  induction row generalizing fields value with
  | nil =>
      have hline : joinCsv [value] = escape value ++ [] := by simp [joinCsv]
      rw [hline, scan_escape (.inl rfl)]
      rfl
  | cons next row ih =>
      have hline : joinCsv (value :: next :: row) =
          escape value ++ comma :: joinCsv (next :: row) := by
        simp [joinCsv, List.intercalate]
      rw [hline, scan_escape (.inr ⟨_, rfl⟩), scan_comma, ih, List.append_assoc,
        List.singleton_append]

/-- Splitting a line gives back the fields that were escaped and joined. -/
theorem split_csv_line_of_escaped (row : List Text) (hrow : row ≠ []) :
    splitCsvLine (joinCsv row) = row := by
  cases row with
  | nil => exact absurd rfl hrow
  | cons value row => exact (scan_joinCsv value row).trans (List.nil_append _)

/-- An empty field, one of a quote and a comma, and one of two quotes and a letter. -/
theorem split_csv_line_of_escaped_three :
    ([[], [quote, comma], [quote, quote, 0x61]] : List Text) ≠ [] ∧
      splitCsvLine (joinCsv [[], [quote, comma], [quote, quote, 0x61]]) =
        [[], [quote, comma], [quote, quote, 0x61]] :=
  ⟨by decide, split_csv_line_of_escaped _ (by decide)⟩

end ServeProof.CsvLine
