import Mathlib.Data.List.Basic

/-!
# ServeProof.Utf8

UTF-8: a character is one to four bytes.

The decoder never fails: bytes that are no character give the replacement character,
and the byte that did not fit is where the next one begins.

* `decode_encode` -- what is encoded is read back.
-/

namespace Utf8

/-! ## Characters as bytes -/

/-- A byte after the first, with the lowest six bits. -/
def tail (n : Nat) : UInt8 := .ofNat (0x80 + n % 64)

def encodeChar (ch : Char) : List UInt8 :=
  let n := ch.toNat
  if n < 0x80 then [.ofNat n]
  else if n < 0x800 then [.ofNat (0xC0 + n / 64), tail n]
  else if n < 0x10000 then [.ofNat (0xE0 + n / 4096), tail (n / 64), tail n]
  else [.ofNat (0xF0 + n / 262144), tail (n / 4096), tail (n / 64), tail n]

def encode (text : List Char) : List UInt8 := text.flatMap encodeChar

/-! ## Bytes as characters -/

/-- A character that has begun: its bits so far, how many bytes are owed after the next
one, and the bounds of the next one. -/
structure Begun where
  value : Nat
  owed : Nat
  lower : Nat
  upper : Nat

def replacement : Char := '\uFFFD'

/-- A byte where a character begins. -/
def first (b : Nat) : Char ⊕ Begun :=
  if b < 0x80 then .inl (.ofNat b)
  else if 0xC2 ≤ b ∧ b < 0xE0 then .inr ⟨b % 0x20, 0, 0x80, 0xC0⟩
  else if 0xE0 ≤ b ∧ b < 0xF0 then
    -- no overlong forms and no surrogates
    .inr ⟨b % 0x10, 1, if b = 0xE0 then 0xA0 else 0x80, if b = 0xED then 0xA0 else 0xC0⟩
  else if 0xF0 ≤ b ∧ b < 0xF5 then
    .inr ⟨b % 0x08, 2, if b = 0xF0 then 0x90 else 0x80, if b = 0xF4 then 0x90 else 0xC0⟩
  else .inl replacement

/-- A byte of a character that has begun. -/
def Begun.next (p : Begun) (b : Nat) : Char ⊕ Begun :=
  let value := p.value * 64 + b % 64
  match p.owed with
  | 0 => .inl (.ofNat value)
  | owed + 1 => .inr ⟨value, owed, 0x80, 0xC0⟩

/-- A character that is complete is given; else the scan goes on. -/
def proceed (r : Char ⊕ Begun) (go : Option Begun → List Char) : List Char :=
  match r with
  | .inl ch => ch :: go none
  | .inr p => go (some p)

def scan : Option Begun → List UInt8 → List Char
  | none, [] => []
  | some _, [] => [replacement]
  | none, b :: rest => proceed (first b.toNat) fun p => scan p rest
  | some p, b :: rest =>
      if p.lower ≤ b.toNat ∧ b.toNat < p.upper then
        proceed (p.next b.toNat) fun p => scan p rest
      else replacement :: proceed (first b.toNat) fun p => scan p rest

def decode (bytes : List UInt8) : List Char := scan none bytes

/-! ## What is encoded is read back -/

theorem toNat_ofNat {n : Nat} (h : n < 256) : (UInt8.ofNat n).toNat = n :=
  UInt8.toNat_ofNat_of_lt h

theorem toNat_tail (n : Nat) : (tail n).toNat = 0x80 + n % 64 := toNat_ofNat (by omega)

section Scan

variable {n value lower upper : Nat} {rest : List UInt8}

theorem scan_first (h : n < 256) : scan none (.ofNat n :: rest) =
    proceed (first n) fun p => scan p rest := by
  rw [scan, toNat_ofNat h]

theorem scan_last (hlower : lower ≤ 0x80 + n % 64) (hupper : 0x80 + n % 64 < upper) :
    scan (some ⟨value, 0, lower, upper⟩) (tail n :: rest) =
      .ofNat (value * 64 + n % 64) :: scan none rest := by
  have hbits : (0x80 + n % 64) % 64 = n % 64 := by omega
  rw [scan, toNat_tail, if_pos ⟨hlower, hupper⟩, Begun.next, hbits, proceed]

theorem scan_tail {owed : Nat} (hlower : lower ≤ 0x80 + n % 64) (hupper : 0x80 + n % 64 < upper) :
    scan (some ⟨value, owed + 1, lower, upper⟩) (tail n :: rest) =
      scan (some ⟨value * 64 + n % 64, owed, 0x80, 0xC0⟩) rest := by
  have hbits : (0x80 + n % 64) % 64 = n % 64 := by omega
  rw [scan, toNat_tail, if_pos ⟨hlower, hupper⟩, Begun.next, hbits, proceed]

end Scan

theorem scan_encodeChar (ch : Char) (rest : List UInt8) :
    scan none (encodeChar ch ++ rest) = ch :: scan none rest := by
  have hchar : Char.ofNat ch.toNat = ch := Char.ofNat_toNat ch
  have hvalid : ch.toNat < 0xD800 ∨ 0xDFFF < ch.toNat ∧ ch.toNat < 0x110000 := ch.valid
  unfold encodeChar
  generalize ch.toNat = n at *
  dsimp only
  by_cases h1 : n < 0x80
  · rw [if_pos h1, List.singleton_append, scan_first (by omega), first, if_pos h1, proceed, hchar]
  by_cases h2 : n < 0x800
  · have hvalue : (0xC0 + n / 64) % 0x20 * 64 + n % 64 = n := by omega
    rw [if_neg h1, if_pos h2, List.cons_append, List.singleton_append, scan_first (by omega),
      first, if_neg (by omega), if_pos ⟨by omega, by omega⟩, proceed,
      scan_last (by omega) (by omega), hvalue, hchar]
  by_cases h3 : n < 0x10000
  · have hvalue : ((0xE0 + n / 4096) % 0x10 * 64 + n / 64 % 64) * 64 + n % 64 = n := by omega
    rw [if_neg h1, if_neg h2, if_pos h3, List.cons_append, List.cons_append,
      List.singleton_append, scan_first (by omega), first, if_neg (by omega), if_neg (by omega),
      if_pos ⟨by omega, by omega⟩, proceed, scan_tail (by split <;> omega) (by split <;> omega),
      scan_last (by omega) (by omega), hvalue, hchar]
  · have hvalue : (((0xF0 + n / 262144) % 0x08 * 64 + n / 4096 % 64) * 64 + n / 64 % 64) * 64 +
        n % 64 = n := by omega
    rw [if_neg h1, if_neg h2, if_neg h3, List.cons_append, List.cons_append, List.cons_append,
      List.singleton_append, scan_first (by omega), first, if_neg (by omega), if_neg (by omega),
      if_neg (by omega), if_pos ⟨by omega, by omega⟩, proceed,
      scan_tail (by split <;> omega) (by split <;> omega), scan_tail (by omega) (by omega),
      scan_last (by omega) (by omega), hvalue, hchar]

/-- What is encoded is read back. -/
theorem decode_encode (text : List Char) : decode (encode text) = text := by
  induction text with
  | nil => rfl
  | cons ch text ih =>
      rw [decode, encode] at ih
      rw [decode, encode, List.flatMap_cons, scan_encodeChar, ih]

theorem encodeChar_ne_nil (ch : Char) : encodeChar ch ≠ [] := by
  unfold encodeChar
  dsimp only
  split_ifs <;> exact List.cons_ne_nil _ _

theorem encode_eq_nil {text : List Char} : encode text = [] ↔ text = [] := by
  rw [encode, List.flatMap_eq_nil_iff]
  constructor
  · intro h
    exact List.eq_nil_iff_forall_not_mem.mpr fun ch hch => encodeChar_ne_nil ch (h ch hch)
  · rintro rfl ch hch
    cases hch

/-- A byte that begins no character, and the byte after it. -/
example : decode [0xE2, 0x28, 0xC3, 0xA9] = [replacement, '(', 'é'] := by decide +kernel

end Utf8
