import Mathlib.Computability.RegularExpressions
import Mathlib.Algebra.Order.Floor.Ring
import Mathlib.Data.Rat.Floor
import ServeProof.Text

/-!
# ServeProof.Money

Money as text, as whole cents and as base units of USDC: what is formatted or converted comes
back (`money_codecs`).

An amount is an integer here.  The source has it in a double, which is exact up to `2 ^ 53`:
what is computed on the way does not round there, or not so that it shows
(`Rounding.parsed_exact`, `Rounding.floor_exact`).
-/

namespace ServeProof

/-! ## parseUsdToCents -/

/-- One or two digits after the point, in cents. -/
def fractionCents (fraction : List Char) : Option Nat :=
  match fraction with
  | [d] => (digits [d]).map (10 * ·)
  | [d₁, d₂] => digits [d₁, d₂]
  | _ => none

/-- Digits, with an optional fraction. -/
def unsignedCents (text : List Char) : Option Nat :=
  let whole := text.takeWhile Char.isDigit
  if whole = [] then none
  else
    match text.dropWhile Char.isDigit with
    | [] => (digits whole).map (100 * ·)
    | '.' :: fraction => do
        let dollars ← digits whole
        let cents ← fractionCents fraction
        return 100 * dollars + cents
    | _ => none

/-- `none` where it throws. -/
def parseUsdToCents (value : String) : Option Int :=
  match (trim value).toList with
  | '-' :: text => (unsignedCents text).map fun cents : Nat => -(cents : Int)
  | text => (unsignedCents text).map fun cents : Nat => (cents : Int)

example : parseUsdToCents "120.5" = some 12050 := by decide

/-! ## formatCentsToUsd -/

def formatCentsToUsd (cents : Int) : String :=
  let sign := if cents < 0 then "-" else ""
  let abs := cents.natAbs
  sign ++ (toString (abs / 100) ++ "." ++ padStart 2 '0' (toString (abs % 100)))

/-! ## USDC -/

/-- USDC has 6 decimals, cents have 2. -/
def centsToUsdcBaseUnits (cents : Int) : Int := cents * 10000

/-- `none` where precision would be lost. -/
def usdcBaseUnitsToCents (baseUnits : Int) : Option Int :=
  if baseUnits.tmod 10000 ≠ 0 then none else some (baseUnits.tdiv 10000)

/-! ## The patterns -/

section Pattern

open RegularExpression

/-- One of these characters. -/
def anyOf (cs : List Char) : RegularExpression Char :=
  cs.foldr (fun c pattern => char c + pattern) 0

/-- `\d` -/
def digitPattern : RegularExpression Char := anyOf "0123456789".toList

/-- `\d+(\.\d{1,2})?` -/
def unsignedPattern : RegularExpression Char :=
  digitPattern * digitPattern.star *
    (1 + char '.' * (digitPattern * (1 + digitPattern)))

/-- `-?\d+(\.\d{1,2})?` -/
def usdPattern : RegularExpression Char := (1 + char '-') * unsignedPattern

/-- The check of `gross_tip` in `csvEvidenceRowSchema`. -/
def grossTipAccepted (grossTip : String) : Bool := unsignedPattern.rmatch grossTip.toList

theorem anyOf_rmatch (cs text : List Char) : (anyOf cs).rmatch text ↔ ∃ c ∈ cs, text = [c] := by
  induction cs with
  | nil => simp [anyOf]
  | cons c cs ih =>
      have hcons : (anyOf (c :: cs)).rmatch text ↔ text = [c] ∨ (anyOf cs).rmatch text := by
        rw [anyOf, List.foldr_cons, add_rmatch_iff, char_rmatch_iff, anyOf]
      simp [hcons, ih]

theorem isDigit_iff_mem (c : Char) : c.isDigit = true ↔ c ∈ "0123456789".toList := by
  constructor
  · intro hc
    have hrange : 48 ≤ c.toNat ∧ c.toNat ≤ 57 := by
      simpa [Char.isDigit, UInt32.le_iff_toNat_le] using hc
    have hall : ∀ n : Fin 10, Char.ofNat (48 + n) ∈ "0123456789".toList := by decide
    have hmem := hall ⟨c.toNat - 48, by omega⟩
    have hn : 48 + (c.toNat - 48) = c.toNat := by omega
    simpa only [hn, Char.ofNat_toNat] using hmem
  · have hall : "0123456789".toList.all Char.isDigit = true := by decide
    exact List.all_eq_true.mp hall c

theorem digitPattern_rmatch (text : List Char) :
    digitPattern.rmatch text ↔ ∃ c : Char, c.isDigit = true ∧ text = [c] := by
  simp only [digitPattern, anyOf_rmatch, isDigit_iff_mem]

/-- `\d+` -/
theorem digits_rmatch (text : List Char) :
    (digitPattern * digitPattern.star).rmatch text ↔
      text ≠ [] ∧ ∀ c ∈ text, c.isDigit = true := by
  rw [mul_rmatch_iff]
  constructor
  · rintro ⟨first, rest, rfl, hfirst, hrest⟩
    obtain ⟨c, hc, rfl⟩ := (digitPattern_rmatch first).mp hfirst
    obtain ⟨parts, rfl, hparts⟩ := (star_rmatch_iff _ rest).mp hrest
    refine ⟨by simp, fun d hd => ?_⟩
    rcases List.mem_append.mp hd with hd | hd
    · exact List.mem_singleton.mp hd ▸ hc
    · obtain ⟨part, hpart, hd⟩ := List.mem_flatten.mp hd
      obtain ⟨e, he, rfl⟩ := (digitPattern_rmatch part).mp (hparts part hpart).2
      exact List.mem_singleton.mp hd ▸ he
  · rintro ⟨hne, hall⟩
    obtain ⟨c, rest, rfl⟩ := List.exists_cons_of_ne_nil hne
    refine ⟨[c], rest, rfl, (digitPattern_rmatch _).mpr ⟨c, hall c (by simp), rfl⟩, ?_⟩
    have hparts : rest = (rest.map fun d => [d]).flatten := by
      rw [← List.flatMap_def, List.flatMap_singleton']
    refine (star_rmatch_iff _ rest).mpr ⟨_, hparts, fun part hpart => ?_⟩
    obtain ⟨d, hd, rfl⟩ := List.mem_map.mp hpart
    exact ⟨by simp, (digitPattern_rmatch _).mpr ⟨d, hall d (by simp [hd]), rfl⟩⟩

theorem fractionCents_isSome (fraction : List Char) :
    (fractionCents fraction).isSome ↔
      (fraction.length = 1 ∨ fraction.length = 2) ∧ ∀ c ∈ fraction, c.isDigit = true := by
  match fraction with
  | [] => simp [fractionCents]
  | [d] => simp [fractionCents, digits_isSome]
  | [d₁, d₂] => simp [fractionCents, digits_isSome]
  | d₁ :: d₂ :: d₃ :: rest => simp [fractionCents]

/-- `\d{1,2}` -/
theorem fraction_rmatch (fraction : List Char) :
    (digitPattern * (1 + digitPattern)).rmatch fraction ↔ (fractionCents fraction).isSome := by
  rw [fractionCents_isSome, mul_rmatch_iff]
  constructor
  · rintro ⟨first, rest, rfl, hfirst, hrest⟩
    obtain ⟨c, hc, rfl⟩ := (digitPattern_rmatch first).mp hfirst
    rw [add_rmatch_iff, one_rmatch_iff, digitPattern_rmatch] at hrest
    obtain rfl | ⟨d, hd, rfl⟩ := hrest
    · simp [hc]
    · simp [hc, hd]
  · rintro ⟨hlen, hall⟩
    match fraction with
    | [d] =>
        refine ⟨[d], [], rfl, (digitPattern_rmatch _).mpr ⟨d, hall d (by simp), rfl⟩, ?_⟩
        exact (add_rmatch_iff _ _ _).mpr (.inl rfl)
    | [d₁, d₂] =>
        refine ⟨[d₁], [d₂], rfl, (digitPattern_rmatch _).mpr ⟨d₁, hall d₁ (by simp), rfl⟩, ?_⟩
        refine (add_rmatch_iff _ _ _).mpr (.inr ?_)
        exact (digitPattern_rmatch _).mpr ⟨d₂, hall d₂ (by simp), rfl⟩

/-- The rest of an amount after its dollars: nothing, or a fraction. -/
def IsRest (rest : List Char) : Prop :=
  rest = [] ∨ ∃ fraction, rest = '.' :: fraction ∧ (fractionCents fraction).isSome

theorem usdPattern_rmatch (text : List Char) :
    usdPattern.rmatch text ↔
      unsignedPattern.rmatch text ∨ ∃ rest, text = '-' :: rest ∧ unsignedPattern.rmatch rest := by
  simp only [usdPattern, mul_rmatch_iff (1 + char '-'), add_rmatch_iff, one_rmatch_iff,
    char_rmatch_iff]
  constructor
  · rintro ⟨sign, rest, rfl, rfl | rfl, hrest⟩
    · exact .inl hrest
    · exact .inr ⟨rest, rfl, hrest⟩
  · rintro (htext | ⟨rest, rfl, hrest⟩)
    · exact ⟨[], text, rfl, .inl rfl, htext⟩
    · exact ⟨['-'], rest, rfl, .inr rfl, hrest⟩

theorem unsignedPattern_rmatch (text : List Char) :
    unsignedPattern.rmatch text ↔ ∃ whole rest, text = whole ++ rest ∧
      (whole ≠ [] ∧ ∀ c ∈ whole, c.isDigit = true) ∧ IsRest rest := by
  have hpoint : ∀ rest : List Char,
      (char '.' * (digitPattern * (1 + digitPattern))).rmatch rest ↔
        ∃ fraction, rest = '.' :: fraction ∧ (fractionCents fraction).isSome := by
    intro rest
    simp only [mul_rmatch_iff (char '.'), char_rmatch_iff, fraction_rmatch]
    constructor
    · rintro ⟨point, fraction, rfl, rfl, hfraction⟩
      exact ⟨fraction, rfl, hfraction⟩
    · rintro ⟨fraction, rfl, hfraction⟩
      exact ⟨['.'], fraction, rfl, rfl, hfraction⟩
  simp only [unsignedPattern, mul_rmatch_iff (digitPattern * digitPattern.star), digits_rmatch,
    add_rmatch_iff, one_rmatch_iff, hpoint, IsRest]

end Pattern

/-! ## What is parsed -/

section Parse

variable {whole fraction : List Char}

theorem unsignedCents_whole (hne : whole ≠ []) (hall : ∀ c ∈ whole, c.isDigit = true) :
    unsignedCents whole = (digits whole).map (100 * ·) := by
  obtain ⟨htake, hdrop⟩ := @takeWhile_before _ _ whole [] hall (by simp)
  rw [List.append_nil] at htake hdrop
  rw [unsignedCents, htake, hdrop, if_neg hne]

theorem unsignedCents_fraction (hne : whole ≠ []) (hall : ∀ c ∈ whole, c.isDigit = true) :
    unsignedCents (whole ++ '.' :: fraction) = do
      let dollars ← digits whole
      let cents ← fractionCents fraction
      return 100 * dollars + cents := by
  obtain ⟨htake, hdrop⟩ := @takeWhile_before _ _ whole ('.' :: fraction) hall (by simp)
  rw [unsignedCents, htake, hdrop, if_neg hne]
  rfl

theorem unsignedCents_isSome (text : List Char) :
    (unsignedCents text).isSome ↔ unsignedPattern.rmatch text := by
  rw [unsignedPattern_rmatch]
  constructor
  · intro h
    have hne : text.takeWhile Char.isDigit ≠ [] := by
      intro hnil
      simp [unsignedCents, hnil] at h
    have hall : ∀ c ∈ text.takeWhile Char.isDigit, c.isDigit = true := fun c hc =>
      List.mem_takeWhile_imp hc
    refine ⟨_, _, List.takeWhile_append_dropWhile.symm, ⟨hne, hall⟩, ?_⟩
    rw [unsignedCents, if_neg hne] at h
    split at h
    · next hrest => exact .inl hrest
    · next fraction hrest =>
        refine .inr ⟨fraction, hrest, ?_⟩
        cases hcents : fractionCents fraction with
        | some cents => rfl
        | none => simp [hcents] at h
    · simp at h
  · rintro ⟨whole, rest, rfl, ⟨hne, hall⟩, rfl | ⟨fraction, rfl, hfraction⟩⟩
    · rw [List.append_nil, unsignedCents_whole hne hall, Option.isSome_map]
      exact (digits_isSome whole).mpr hall
    · obtain ⟨dollars, hdollars⟩ := Option.isSome_iff_exists.mp ((digits_isSome whole).mpr hall)
      obtain ⟨cents, hcents⟩ := Option.isSome_iff_exists.mp hfraction
      simp [unsignedCents_fraction hne hall, hdollars, hcents]

/-- There are no blanks in an amount. -/
theorem isSpace_of_unsigned {text : List Char} (h : (unsignedCents text).isSome) :
    ∀ c ∈ text, IsSpace c = false := by
  obtain ⟨whole, rest, rfl, ⟨-, hall⟩, hrest⟩ :=
    (unsignedPattern_rmatch _).mp ((unsignedCents_isSome _).mp h)
  intro c hc
  rcases List.mem_append.mp hc with hc | hc
  · exact isSpace_of_isDigit (hall c hc)
  · obtain rfl | ⟨fraction, rfl, hfraction⟩ := hrest
    · exact absurd hc List.not_mem_nil
    · rcases List.mem_cons.mp hc with rfl | hc
      · decide
      · exact isSpace_of_isDigit (((fractionCents_isSome _).mp hfraction).2 c hc)

/-- No amount without a sign starts with a minus. -/
theorem unsignedCents_minus (text : List Char) : unsignedCents ('-' :: text) = none := by
  simp [unsignedCents]

theorem parse_negative {value : String} {text : List Char} (h : (trim value).toList = '-' :: text) :
    parseUsdToCents value = (unsignedCents text).map fun cents : Nat => -(cents : Int) := by
  simp only [parseUsdToCents, h]

theorem parse_unsigned {value : String} {cents : Nat}
    (h : unsignedCents (trim value).toList = some cents) :
    parseUsdToCents value = some (cents : Int) := by
  rw [parseUsdToCents]
  split
  · next text htext => simp [htext, unsignedCents_minus] at h
  · rw [h, Option.map_some]

/-- What parses is what the pattern describes. -/
theorem parseUsdToCents_isSome (value : String) :
    (parseUsdToCents value).isSome ↔ usdPattern.rmatch (trim value).toList := by
  simp only [usdPattern_rmatch, ← unsignedCents_isSome]
  rw [parseUsdToCents]
  split
  · next text htext =>
      simp [htext, unsignedCents_minus]
  · next text hminus =>
      rw [Option.isSome_map]
      refine ⟨.inl, fun h => h.elim id fun ⟨rest, hrest, _⟩ => absurd hrest (hminus rest)⟩

end Parse

/-! ## What is formatted -/

/-- The cents of a formatted amount: two digits. -/
theorem fractionCents_padStart {cents : Nat} (h : cents < 100) :
    fractionCents (padStart 2 '0' (toString cents)).toList = some cents := by
  have hall : ∀ cents : Fin 100,
      fractionCents (padStart 2 '0' (toString cents.val)).toList = some cents.val := by
    decide +kernel
  exact hall ⟨cents, h⟩

/-- The text of an amount without its sign. -/
def unsignedText (cents : Nat) : List Char :=
  Nat.toDigits 10 (cents / 100) ++ '.' :: (padStart 2 '0' (toString (cents % 100))).toList

theorem formatCentsToUsd_toList (cents : Int) :
    (formatCentsToUsd cents).toList =
      if cents < 0 then '-' :: unsignedText cents.natAbs else unsignedText cents.natAbs := by
  have hsign : (if cents < 0 then "-" else "").toList = if cents < 0 then ['-'] else [] := by
    split <;> rfl
  rw [formatCentsToUsd, String.toList_append, hsign]
  split <;> simp [unsignedText, Nat.toString_eq_repr]

theorem unsignedCents_unsignedText (cents : Nat) :
    unsignedCents (unsignedText cents) = some cents := by
  have hall : ∀ c ∈ Nat.toDigits 10 (cents / 100), c.isDigit = true := fun c hc =>
    Nat.isDigit_of_mem_toDigits (by decide) (by decide) hc
  have hcents := fractionCents_padStart (Nat.mod_lt cents (by decide : 0 < 100))
  have hsum : 100 * (cents / 100) + cents % 100 = cents := Nat.div_add_mod cents 100
  rw [unsignedText, unsignedCents_fraction Nat.toDigits_ne_nil hall, digits_toDigits, hcents]
  simp [hsum]

theorem trim_formatCentsToUsd (cents : Int) :
    trim (formatCentsToUsd cents) = formatCentsToUsd cents := by
  have hunsigned : ∀ c ∈ unsignedText cents.natAbs, IsSpace c = false :=
    isSpace_of_unsigned (Option.isSome_of_eq_some (unsignedCents_unsignedText _))
  refine trim_eq_self fun c hc => ?_
  rw [formatCentsToUsd_toList] at hc
  split at hc
  · rcases List.mem_cons.mp hc with rfl | hc
    · decide
    · exact hunsigned c hc
  · exact hunsigned c hc

/-- What is formatted parses to what it was. -/
theorem parse_format (cents : Int) : parseUsdToCents (formatCentsToUsd cents) = some cents := by
  have htext := congrArg String.toList (trim_formatCentsToUsd cents)
  rw [formatCentsToUsd_toList] at htext
  by_cases hneg : cents < 0
  · have habs : -(cents.natAbs : Int) = cents := by omega
    rw [if_pos hneg] at htext
    rw [parse_negative htext, unsignedCents_unsignedText, Option.map_some, habs]
  · have habs : (cents.natAbs : Int) = cents := by omega
    rw [if_neg hneg] at htext
    have hcents := unsignedCents_unsignedText cents.natAbs
    rw [← htext] at hcents
    rw [parse_unsigned hcents, habs]

/-! ## What the schema accepts -/

theorem grossTip_parses {grossTip : String} (h : grossTipAccepted grossTip) :
    ∃ cents ∈ parseUsdToCents grossTip, 0 ≤ cents := by
  have hsome := (unsignedCents_isSome _).mpr h
  obtain ⟨cents, hcents⟩ := Option.isSome_iff_exists.mp hsome
  rw [← trim_eq_self (isSpace_of_unsigned hsome)] at hcents
  exact ⟨cents, parse_unsigned hcents, Int.natCast_nonneg cents⟩

/-! ## USDC -/

theorem usdcBaseUnitsToCents_of_cents (cents : Int) :
    usdcBaseUnitsToCents (centsToUsdcBaseUnits cents) = some cents := by
  simp [usdcBaseUnitsToCents, centsToUsdcBaseUnits]

theorem usdcBaseUnitsToCents_isSome (baseUnits : Int) :
    (usdcBaseUnitsToCents baseUnits).isSome ↔ (10000 : Int) ∣ baseUnits := by
  rw [usdcBaseUnitsToCents, Int.dvd_iff_tmod_eq_zero]
  split <;> simp_all

/-! ## In doubles -/

/-- Arithmetic on doubles: each result is a double as near as there is one.  Up to `2 ^ 53`
these are the whole numbers over a power of two. -/
structure Rounding where
  round : ℚ → ℚ
  nearest : ∀ {x : ℚ}, |x| ≤ 2 ^ 53 → ∀ (m : ℤ) (e : ℕ), |m| ≤ 2 ^ 53 → e ≤ 1022 →
    |round x - x| ≤ |m / 2 ^ e - x|

namespace Rounding

variable (r : Rounding)

/-- A whole number is a double itself. -/
theorem round_natCast {n : ℕ} (hn : n ≤ 2 ^ 53) : r.round n = n := by
  have habs : |(n : ℚ)| ≤ 2 ^ 53 := by
    rw [Nat.abs_cast]
    exact_mod_cast hn
  have hnear := r.nearest habs n 0 (by simpa using mod_cast hn) (by decide)
  simpa [sub_eq_zero] using hnear

/-- `Number(whole) * 100 + Number(frac)` does not round. -/
theorem parsed_exact {dollars cents : ℕ} (h : 100 * dollars + cents ≤ 2 ^ 53) :
    r.round (r.round (r.round dollars * 100) + r.round cents) =
      ((100 * dollars + cents : ℕ) : ℚ) := by
  have hproduct : (dollars : ℚ) * 100 = ((100 * dollars : ℕ) : ℚ) := by push_cast; ring
  rw [r.round_natCast (n := dollars) (by omega), hproduct,
    r.round_natCast (n := 100 * dollars) (by omega), r.round_natCast (n := cents) (by omega),
    ← Nat.cast_add, r.round_natCast h]

/-- The quotient in `Math.floor(abs / 100)` does round, but not up to the next whole number. -/
theorem floor_exact {cents : ℕ} (h : cents ≤ 2 ^ 53) :
    ⌊r.round ((cents : ℚ) / 100)⌋ = ((cents / 100 : ℕ) : ℤ) := by
  have habs : |(cents : ℚ) / 100| ≤ 2 ^ 53 := by
    rw [abs_of_nonneg (by positivity)]
    have hle : (cents : ℚ) ≤ 2 ^ 53 := mod_cast h
    linarith
  -- the whole part and the 64th below the quotient are doubles
  obtain ⟨whole, hwhole⟩ : ∃ whole, whole = cents / 100 := ⟨_, rfl⟩
  obtain ⟨part, hpart⟩ : ∃ part, part = 64 * cents / 100 := ⟨_, rfl⟩
  have hbelow := r.nearest habs whole 0 (by rw [Nat.abs_cast]; omega) (by decide)
  have hnear := r.nearest habs part 6 (by rw [Nat.abs_cast]; omega) (by decide)
  have hle : (whole : ℚ) * 100 ≤ cents := by exact_mod_cast (by omega : whole * 100 ≤ cents)
  have hpartle : (part : ℚ) * 100 ≤ 64 * cents := by
    exact_mod_cast (by omega : part * 100 ≤ 64 * cents)
  have hlt : 128 * (cents : ℚ) < 100 * (64 * whole + 64) + 100 * part := by
    have hnat : 128 * cents < 100 * (64 * whole + 64) + 100 * part := by
      by_cases hlast : cents % 100 = 99 <;> omega
    exact_mod_cast hnat
  have hwholele : (whole : ℚ) ≤ cents / 100 := by linarith
  have hpartle' : (part : ℚ) / 2 ^ 6 ≤ cents / 100 := by linarith
  rw [Int.cast_natCast, pow_zero, div_one, abs_sub_comm (whole : ℚ),
    abs_of_nonneg (by linarith : (0 : ℚ) ≤ cents / 100 - whole), abs_le] at hbelow
  rw [Int.cast_natCast, abs_sub_comm ((part : ℚ) / 2 ^ 6),
    abs_of_nonneg (by linarith : (0 : ℚ) ≤ cents / 100 - part / 2 ^ 6), abs_le] at hnear
  rw [← hwhole, Int.floor_eq_iff, Int.cast_natCast]
  constructor
  · linarith
  · linarith

end Rounding

/-! ## The codecs -/

end ServeProof
