import Mathlib.Data.List.Basic
import Mathlib.Data.List.Induction
import Mathlib.Data.Nat.Digits.Lemmas
import ServeProof.Text

/-!
# ServeProof.Base58

`encodeBase58`, and the decoder of the same alphabet: one zero byte for each leading `1`,
and the rest the bytes of a number in base 58.

The digits of the encoder start as a single 0, which the first byte that is not zero writes
over.  Where there is no such byte the 0 stays, and the text has a `1` too many
(`decodeBase58_encodeBase58`).
-/

namespace ServeProof.Base58

/-! ## encodeBase58 -/

def alphabet : List Char :=
  "123456789ABCDEFGHJKLMNPQRSTUVWXYZabcdefghijkmnopqrstuvwxyz".toList

/-- The loop over the digits, the lowest one first: the digits it leaves, and the carry. -/
def carryThrough : List Nat → Nat → List Nat × Nat
  | [], carry => ([], carry)
  | digit :: digits, carry =>
      let value := digit * 256 + carry
      let next := carryThrough digits (value / 58)
      (value % 58 :: next.1, next.2)

/-- `while (carry > 0)` -/
def pushCarry (digits : List Nat) (carry : Nat) : List Nat :=
  if carry = 0 then digits else pushCarry (digits ++ [carry % 58]) (carry / 58)
termination_by carry
decreasing_by omega

def addByte (digits : List Nat) (byte : UInt8) : List Nat :=
  let next := carryThrough digits byte.toNat
  pushCarry next.1 next.2

def digitsOf (bytes : List UInt8) : List Nat := bytes.foldl addByte [0]

/-- The zero bytes at the start. -/
def zeros (bytes : List UInt8) : Nat := (bytes.takeWhile (· = 0)).length

/-- Digits as text, the highest one first. -/
def textOf (digits : List Nat) : List Char := digits.reverse.filterMap (alphabet[·]?)

def encodeBase58 (bytes : List UInt8) : String :=
  .ofList (List.replicate (zeros bytes) '1' ++ textOf (digitsOf bytes))

/-! ## The decoder -/

/-- The bytes of a number, the highest one first and not zero. -/
def bytesOf (value : Nat) : List UInt8 := (Nat.digits 256 value).reverse.map UInt8.ofNat

/-- `none` at a character that is not of the alphabet. -/
def decodeBase58 (text : String) : Option (List UInt8) := do
  let ones := text.toList.takeWhile (· = '1')
  let digits ← (text.toList.dropWhile (· = '1')).mapM (alphabet.idxOf? ·)
  return List.replicate ones.length 0 ++ bytesOf (Nat.ofDigits 58 digits.reverse)

/-! ## The number in the digits -/

/-- The number that the bytes are, the highest one first. -/
def valueOf (bytes : List UInt8) : Nat := bytes.foldl (fun value byte => value * 256 + byte.toNat) 0

/-- The digits of a number in the loop: 0 has one. -/
def loopDigits (value : Nat) : List Nat := if value = 0 then [0] else Nat.digits 58 value

theorem pushCarry_eq (digits : List Nat) (carry : Nat) :
    pushCarry digits carry = digits ++ Nat.digits 58 carry := by
  induction digits, carry using pushCarry.induct with
  | case1 digits => simp [pushCarry]
  | case2 digits carry hcarry ih =>
      rw [pushCarry, if_neg hcarry, ih, List.append_assoc, List.singleton_append,
        ← Nat.digits_def' (by decide) (Nat.pos_of_ne_zero hcarry)]

/-- One pass multiplies by 256 and adds the carry. -/
theorem carryThrough_digits (value carry : Nat) :
    (carryThrough (Nat.digits 58 value) carry).1 ++
        Nat.digits 58 (carryThrough (Nat.digits 58 value) carry).2 =
      Nat.digits 58 (value * 256 + carry) := by
  induction value using Nat.strongRecOn generalizing carry with
  | ind value ih =>
      rcases Nat.eq_zero_or_pos value with rfl | hpos
      · simp [carryThrough]
      · have hmod : (value % 58 * 256 + carry) % 58 = (value * 256 + carry) % 58 := by omega
        have hdiv : value / 58 * 256 + (value % 58 * 256 + carry) / 58 =
            (value * 256 + carry) / 58 := by omega
        rw [Nat.digits_def' (by decide) hpos, carryThrough, List.cons_append,
          ih (value / 58) (by omega), hmod, hdiv,
          ← Nat.digits_def' (by decide) (by omega)]

theorem addByte_loopDigits (value : Nat) (byte : UInt8) :
    addByte (loopDigits value) byte = loopDigits (value * 256 + byte.toNat) := by
  rw [addByte, pushCarry_eq]
  by_cases hvalue : value = 0
  · subst hvalue
    by_cases hbyte : byte.toNat = 0
    · simp [loopDigits, carryThrough, hbyte]
    · simp [loopDigits, carryThrough, hbyte,
        Nat.digits_def' (b := 58) (by decide) (Nat.pos_of_ne_zero hbyte)]
  · rw [loopDigits, if_neg hvalue, carryThrough_digits, loopDigits, if_neg (by omega)]

/-- The digits at the end are those of the number. -/
theorem digitsOf_eq (bytes : List UInt8) : digitsOf bytes = loopDigits (valueOf bytes) := by
  have hfold : ∀ value, bytes.foldl addByte (loopDigits value) =
      loopDigits (bytes.foldl (fun value byte => value * 256 + byte.toNat) value) := by
    induction bytes with
    | nil => exact fun value => rfl
    | cons byte bytes ih =>
        intro value
        rw [List.foldl_cons, List.foldl_cons, addByte_loopDigits, ih]
  exact hfold 0

/-! ## The characters of the digits -/

theorem alphabet_get (digit : Nat) (hdigit : digit < 58) :
    ∃ ch, alphabet[digit]? = some ch ∧ alphabet.idxOf? ch = some digit ∧
      (ch = '1' → digit = 0) := by
  have hall : ∀ digit : Fin 58, ∃ h : digit.val < alphabet.length,
      alphabet.idxOf? (alphabet.get ⟨digit, h⟩) = some digit.val ∧
        (alphabet.get ⟨digit, h⟩ = '1' → digit.val = 0) := by decide +kernel
  obtain ⟨h, hidx, hone⟩ := hall ⟨digit, hdigit⟩
  exact ⟨_, List.getElem?_eq_getElem h, hidx, hone⟩

/-- The decoder reads the digits that the encoder wrote. -/
theorem mapM_idxOf (digits : List Nat) (hdigits : ∀ digit ∈ digits, digit < 58) :
    (digits.filterMap (alphabet[·]?)).mapM (alphabet.idxOf? ·) = some digits := by
  induction digits with
  | nil => rfl
  | cons digit digits ih =>
      obtain ⟨ch, hget, hidx, -⟩ := alphabet_get digit (hdigits digit (by simp))
      have hrest := ih fun digit h => hdigits digit (by simp [h])
      rw [List.filterMap_cons_some hget, List.mapM_cons, hidx, hrest]
      rfl

/-- The text of a number starts with no `1`. -/
theorem textOf_digits_head (value : Nat) :
    ∀ ch ∈ (textOf (Nat.digits 58 value)).head?, ch ≠ '1' := by
  intro ch hch
  rcases hrev : (Nat.digits 58 value).reverse with - | ⟨digit, digits⟩
  · simp [textOf, hrev] at hch
  · have hne : value ≠ 0 := by rintro rfl; simp at hrev
    have hlast : (Nat.digits 58 value).getLast? = some digit := by
      rw [← List.head?_reverse, hrev, List.head?_cons]
    obtain ⟨hnil, hget⟩ := List.mem_getLast?_eq_getLast hlast
    have hzero : digit ≠ 0 := hget ▸ Nat.getLast_digit_ne_zero 58 hne
    have hlt : digit < 58 := Nat.digits_lt_base (by decide) (hget ▸ List.getLast_mem hnil)
    obtain ⟨ch', hch', -, hone⟩ := alphabet_get digit hlt
    rw [textOf, hrev, List.filterMap_cons_some hch', List.head?_cons] at hch
    obtain rfl := Option.mem_some.mp hch
    exact fun heq => hzero (hone heq)

/-- The decoder on the ones and the digits of a number. -/
theorem decodeBase58_ones (count value : Nat) :
    decodeBase58 (.ofList (List.replicate count '1' ++ textOf (Nat.digits 58 value))) =
      some (List.replicate count 0 ++ bytesOf value) := by
  have hones : ∀ ch ∈ List.replicate count '1', decide (ch = '1') = true := by simp
  obtain ⟨htake, hdrop⟩ := takeWhile_before hones fun ch hch =>
    decide_eq_false (textOf_digits_head value ch hch)
  have hlt : ∀ digit ∈ (Nat.digits 58 value).reverse, digit < 58 := by
    intro digit hdigit
    exact Nat.digits_lt_base (by decide) (List.mem_reverse.mp hdigit)
  rw [decodeBase58, String.toList_ofList, htake, hdrop, textOf, mapM_idxOf _ hlt]
  simp [Nat.ofDigits_digits]

/-! ## The bytes of the number -/

theorem valueOf_concat (bytes : List UInt8) (byte : UInt8) :
    valueOf (bytes ++ [byte]) = valueOf bytes * 256 + byte.toNat := by
  simp [valueOf]

theorem bytesOf_concat (value : Nat) (byte : UInt8) (hpos : 0 < value * 256 + byte.toNat) :
    bytesOf (value * 256 + byte.toNat) = bytesOf value ++ [byte] := by
  have hbyte := byte.toNat_lt
  have hmod : (value * 256 + byte.toNat) % 256 = byte.toNat := by omega
  have hdiv : (value * 256 + byte.toNat) / 256 = value := by omega
  rw [bytesOf, Nat.digits_def' (by decide) hpos, hmod, hdiv]
  simp [bytesOf]

/-- The number keeps the bytes but for the zeros at the start. -/
theorem bytesOf_valueOf (bytes : List UInt8) :
    bytesOf (valueOf bytes) = bytes.dropWhile (· = 0) := by
  induction bytes using List.reverseRecOn with
  | nil => simp [valueOf, bytesOf]
  | append_singleton bytes byte ih =>
      rw [valueOf_concat, List.dropWhile_append, ← ih]
      rcases Nat.eq_zero_or_pos (valueOf bytes * 256 + byte.toNat) with hzero | hpos
      · have hvalue : valueOf bytes = 0 := by omega
        have hbyte : byte = 0 := UInt8.toNat_inj.mp (by simpa using by omega)
        simp [hvalue, hbyte, bytesOf]
      · rw [bytesOf_concat _ _ hpos]
        by_cases hvalue : valueOf bytes = 0
        · have hbyte : byte ≠ 0 := by
            rintro rfl
            simp [hvalue] at hpos
          simp [hvalue, hbyte, bytesOf]
        · have hne : bytesOf (valueOf bytes) ≠ [] := by
            simpa [bytesOf, Nat.digits_eq_nil_iff_eq_zero] using hvalue
          simp [hne]

theorem replicate_zeros (bytes : List UInt8) :
    List.replicate (zeros bytes) 0 ++ bytes.dropWhile (· = 0) = bytes := by
  have htake : bytes.takeWhile (· = 0) = List.replicate (zeros bytes) 0 := by
    refine List.eq_replicate_iff.mpr ⟨rfl, fun byte hbyte => ?_⟩
    simpa using List.mem_takeWhile_imp hbyte
  rw [← htake, List.takeWhile_append_dropWhile]

/-- There is a number in the digits unless every byte is 0. -/
theorem valueOf_eq_zero (bytes : List UInt8) : valueOf bytes = 0 ↔ ∀ byte ∈ bytes, byte = 0 := by
  have hdrop : bytes.dropWhile (· = 0) = [] ↔ ∀ byte ∈ bytes, byte = 0 := by
    simp [List.dropWhile_eq_nil_iff]
  rw [← hdrop, ← bytesOf_valueOf]
  simp [bytesOf, Nat.digits_eq_nil_iff_eq_zero]

/-- **What the decoder gives back**: the bytes, with one zero more where there are only
zeros. -/
theorem decodeBase58_encodeBase58 (bytes : List UInt8) :
    decodeBase58 (encodeBase58 bytes) =
      some (if valueOf bytes = 0 then 0 :: bytes else bytes) := by
  have hbytes := replicate_zeros bytes
  rw [← bytesOf_valueOf] at hbytes
  rw [encodeBase58, digitsOf_eq, loopDigits]
  by_cases hvalue : valueOf bytes = 0
  · have hone : List.replicate (zeros bytes) '1' ++ textOf [0] =
        List.replicate (zeros bytes + 1) '1' ++ textOf (Nat.digits 58 0) := by
      rw [List.replicate_succ']
      simp [textOf]
      decide
    rw [hvalue] at hbytes
    rw [if_pos hvalue, if_pos hvalue, hone, decodeBase58_ones, List.replicate_succ,
      List.cons_append, hbytes]
  · rw [if_neg hvalue, if_neg hvalue, decodeBase58_ones, hbytes]

/-- Base58 decoding undoes `encodeBase58` exactly where some byte is not zero. -/
theorem base58_round_trip_iff (bytes : List UInt8) :
    decodeBase58 (encodeBase58 bytes) = some bytes ↔ ∃ byte ∈ bytes, byte ≠ 0 := by
  have hsome : (∃ byte ∈ bytes, byte ≠ 0) ↔ valueOf bytes ≠ 0 := by
    rw [Ne, valueOf_eq_zero]
    simp
  rw [decodeBase58_encodeBase58, Option.some_inj, hsome]
  by_cases hvalue : valueOf bytes = 0
  · have hlen : 0 :: bytes ≠ bytes := fun h => by simpa using congrArg List.length h
    rw [if_pos hvalue]
    exact iff_of_false hlen (not_not_intro hvalue)
  · rw [if_neg hvalue]
    exact iff_of_true rfl hvalue

/-- No bytes at all are written as `1`, which is one zero byte. -/
theorem base58_of_nothing :
    encodeBase58 [] = "1" ∧ decodeBase58 "1" = some [0] ∧
      ¬ decodeBase58 (encodeBase58 []) = some [] := by
  decide +kernel

/-- The zeros at the start are kept where another byte follows. -/
example : encodeBase58 [0, 0, 255] = "115Q" := by decide +kernel

end ServeProof.Base58
