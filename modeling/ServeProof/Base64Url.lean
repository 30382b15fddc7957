import Mathlib.Data.List.Basic
import Mathlib.Data.List.TakeWhile

/-!
# ServeProof.Base64Url

Base64 with the URL alphabet and no padding: three bytes are four digits of six bits, and
what is left over of the bytes is two or three digits.

The decoder takes either alphabet, ends at a `=` and passes over what is no digit.

* `decode_encode` -- what is encoded is read back;
* `mem_encode` -- what is encoded is digits of the alphabet.
-/

namespace Base64Url

/-! ## Digits -/

def alphabet : List Char :=
  "ABCDEFGHIJKLMNOPQRSTUVWXYZabcdefghijklmnopqrstuvwxyz0123456789-_".toList

/-- The character of a digit. -/
def digit (n : Nat) : Char := alphabet.getD n 'A'

/-- The digit that a character stands for, in either alphabet. -/
def value? (ch : Char) : Option Nat :=
  if ch = '+' then some 62 else if ch = '/' then some 63 else alphabet.idxOf? ch

theorem value?_digit {n : Nat} (h : n < 64) : value? (digit n) = some n := by
  have hall : ∀ n : Fin 64, value? (digit n) = some n.val := by decide +kernel
  exact hall ⟨n, h⟩

theorem digit_mem_alphabet {n : Nat} (h : n < 64) : digit n ∈ alphabet := by
  have hall : ∀ n : Fin 64, digit n ∈ alphabet := by decide +kernel
  exact hall ⟨n, h⟩

/-! ## Bytes as digits -/

/-- The digits of bytes, the highest bits first. -/
def sextets : List UInt8 → List Nat
  | [] => []
  | [a] => [a.toNat / 4, a.toNat % 4 * 16]
  | [a, b] => [a.toNat / 4, a.toNat % 4 * 16 + b.toNat / 16, b.toNat % 16 * 4]
  | a :: b :: c :: rest =>
      a.toNat / 4 :: (a.toNat % 4 * 16 + b.toNat / 16) :: (b.toNat % 16 * 4 + c.toNat / 64) ::
        c.toNat % 64 :: sextets rest

/-- The bytes of digits; bits that are left over are dropped. -/
def octets : List Nat → List UInt8
  | w :: x :: y :: z :: rest =>
      .ofNat (w * 4 + x / 16) :: .ofNat (x % 16 * 16 + y / 4) :: .ofNat (y % 4 * 64 + z) ::
        octets rest
  | [w, x, y] => [.ofNat (w * 4 + x / 16), .ofNat (x % 16 * 16 + y / 4)]
  | [w, x] => [.ofNat (w * 4 + x / 16)]
  | [_] | [] => []

/-- Bits that are split and put together again. -/
theorem ofNat_eq {a : UInt8} {n : Nat} (h : n = a.toNat) : UInt8.ofNat n = a := by
  rw [h, UInt8.ofNat_toNat]

theorem octets_sextets (bytes : List UInt8) : octets (sextets bytes) = bytes := by
  induction bytes using sextets.induct with
  | case1 => rfl
  | case2 a =>
      have ha := a.toNat_lt
      rw [sextets, octets, ofNat_eq (a := a) (by omega)]
  | case3 a b =>
      have ha := a.toNat_lt
      have hb := b.toNat_lt
      rw [sextets, octets, ofNat_eq (a := a) (by omega), ofNat_eq (a := b) (by omega)]
  | case4 a b c rest ih =>
      have ha := a.toNat_lt
      have hb := b.toNat_lt
      have hc := c.toNat_lt
      rw [sextets, octets, ih, ofNat_eq (a := a) (by omega), ofNat_eq (a := b) (by omega),
        ofNat_eq (a := c) (by omega)]

theorem lt_of_mem_sextets {bytes : List UInt8} {n : Nat} (h : n ∈ sextets bytes) : n < 64 := by
  induction bytes using sextets.induct with
  | case1 => cases h
  | case2 a =>
      have ha := a.toNat_lt
      simp only [sextets, List.mem_cons, List.not_mem_nil, or_false] at h
      omega
  | case3 a b =>
      have ha := a.toNat_lt
      have hb := b.toNat_lt
      simp only [sextets, List.mem_cons, List.not_mem_nil, or_false] at h
      omega
  | case4 a b c rest ih =>
      have ha := a.toNat_lt
      have hb := b.toNat_lt
      have hc := c.toNat_lt
      simp only [sextets, List.mem_cons] at h
      rcases h with h | h | h | h | h
      · omega
      · omega
      · omega
      · omega
      · exact ih h

/-! ## Text -/

def encode (bytes : List UInt8) : List Char := (sextets bytes).map digit

def decode (text : List Char) : List UInt8 :=
  octets ((text.takeWhile (· ≠ '=')).filterMap value?)

theorem mem_encode {bytes : List UInt8} {ch : Char} (h : ch ∈ encode bytes) : ch ∈ alphabet := by
  obtain ⟨n, hn, rfl⟩ := List.mem_map.mp h
  exact digit_mem_alphabet (lt_of_mem_sextets hn)

theorem encode_eq_nil {bytes : List UInt8} : encode bytes = [] ↔ bytes = [] := by
  rw [encode, List.map_eq_nil_iff]
  constructor
  · intro h
    rw [← octets_sextets bytes, h, octets]
  · rintro rfl
    rfl

/-- What is encoded is read back. -/
theorem decode_encode (bytes : List UInt8) : decode (encode bytes) = bytes := by
  have hdigits : (encode bytes).takeWhile (· ≠ '=') = encode bytes := by
    refine List.takeWhile_eq_self_iff.mpr fun ch hch => ?_
    have hpadding : '=' ∉ alphabet := by decide
    exact decide_eq_true (ne_of_mem_of_not_mem (mem_encode hch) hpadding)
  have hvalues : (encode bytes).filterMap value? = sextets bytes := by
    rw [encode, List.filterMap_map]
    have hvalue : ∀ n ∈ sextets bytes, (value? ∘ digit) n = some n := fun n hn =>
      value?_digit (lt_of_mem_sextets hn)
    rw [List.filterMap_congr hvalue, List.filterMap_some]
  rw [decode, hdigits, hvalues, octets_sextets]

end Base64Url
