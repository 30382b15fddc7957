import Mathlib.Algebra.Ring.Nat
import ServeProof.Base64Url
import ServeProof.Utf8

/-!
# ServeProof.Accounts.TokenCrypto

How the tokens of a provider are stored: an envelope of four parts, the version, the
initialization vector, the tag and the ciphertext, with a dot between them.

The cipher and the hash lie outside (`Gcm`).  An envelope gives back the text that it was made
of (`decryptProviderToken_encryptProviderToken`), but for the empty text: its ciphertext is
empty, and no part of an envelope may be.
-/

namespace ServeProof

/-! ## split -/

/-- `split`, at one character. -/
def splitOn (separator : Char) : List Char → List (List Char)
  | [] => [[]]
  | ch :: rest =>
      if ch = separator then [] :: splitOn separator rest
      else (splitOn separator rest).modifyHead (ch :: ·)

section SplitOn

variable {separator : Char} {part : List Char}

theorem splitOn_separator (rest : List Char) :
    splitOn separator (separator :: rest) = [] :: splitOn separator rest := by
  rw [splitOn, if_pos rfl]

theorem splitOn_append (hpart : separator ∉ part) (rest : List Char) :
    splitOn separator (part ++ rest) = (splitOn separator rest).modifyHead (part ++ ·) := by
  induction part with
  | nil => cases h : splitOn separator rest <;> simp [h]
  | cons ch part ih =>
      have hch : ch ≠ separator := fun h => hpart (h ▸ List.mem_cons_self)
      have hrest := ih fun h => hpart (List.mem_cons_of_mem ch h)
      rw [List.cons_append, splitOn, if_neg hch, hrest, List.modifyHead_modifyHead]
      rfl

end SplitOn

/-! ## The envelope -/

/-- AES-256-GCM and SHA-256, of `node:crypto`.  What is encrypted is the ciphertext and the tag. -/
structure Gcm where
  sha256 : List UInt8 → List UInt8
  encrypt : (key iv plaintext : List UInt8) → List UInt8 × List UInt8
  decrypt : (key iv ciphertext tag : List UInt8) → Except String (List UInt8)

/-- What is encrypted is decrypted with the same key; the ciphertext is as long as the text, and
the tag has sixteen bytes. -/
structure Gcm.Lawful (gcm : Gcm) : Prop where
  decrypt_encrypt : ∀ key iv plaintext, iv ≠ [] →
    gcm.decrypt key iv (gcm.encrypt key iv plaintext).1 (gcm.encrypt key iv plaintext).2 = .ok plaintext
  length_ciphertext : ∀ key iv plaintext, (gcm.encrypt key iv plaintext).1.length = plaintext.length
  length_tag : ∀ key iv plaintext, (gcm.encrypt key iv plaintext).2.length = 16

/-- The length of a string is that of its UTF-16 code units. -/
def utf16Length (text : String) : Nat :=
  (text.toList.map fun ch => if ch.toNat < 0x10000 then 1 else 2).sum

def shortSecret : String := "Provider encryption secret must be at least 16 characters"

def invalidEnvelope : String := "Invalid token envelope"

section Envelope

variable (gcm : Gcm)

def encryptionKey (secret : String) : Except String (List UInt8) :=
  if utf16Length secret < 16 then .error shortSecret
  else .ok (gcm.sha256 (Utf8.encode ("serveproof:provider-token:v1:".toList ++ secret.toList)))

/-- The vector is twelve random bytes. -/
def encryptProviderToken (iv : List UInt8) (plaintext secret : String) : Except String String := do
  let key ← encryptionKey gcm secret
  let sealed := gcm.encrypt key iv (Utf8.encode plaintext.toList)
  return .ofList (['.'].intercalate
    ["v1".toList, Base64Url.encode iv, Base64Url.encode sealed.2, Base64Url.encode sealed.1])

/-- What comes after the fourth part is not looked at. -/
def decryptProviderToken (envelope secret : String) : Except String String :=
  match splitOn '.' envelope.toList with
  | version :: iv :: tag :: ciphertext :: _ =>
      if version ≠ "v1".toList ∨ iv = [] ∨ tag = [] ∨ ciphertext = [] then
        .error invalidEnvelope
      else do
        let key ← encryptionKey gcm secret
        let plaintext ← gcm.decrypt key (Base64Url.decode iv) (Base64Url.decode ciphertext)
          (Base64Url.decode tag)
        return .ofList (Utf8.decode plaintext)
  | _ => .error invalidEnvelope

end Envelope

/-! ## An envelope gives back its text -/

section RoundTrip

variable {gcm : Gcm} {iv : List UInt8} {plaintext secret envelope : String}

theorem not_mem_encode (bytes : List UInt8) : '.' ∉ Base64Url.encode bytes := by
  intro h
  have halphabet : '.' ∉ Base64Url.alphabet := by decide
  exact halphabet (Base64Url.mem_encode h)

/-- An envelope is made with a key, of four parts. -/
theorem encryptProviderToken_eq_ok
    (h : encryptProviderToken gcm iv plaintext secret = .ok envelope) :
    ∃ key, encryptionKey gcm secret = .ok key ∧ envelope.toList = ['.'].intercalate
      ["v1".toList, Base64Url.encode iv,
        Base64Url.encode (gcm.encrypt key iv (Utf8.encode plaintext.toList)).2,
        Base64Url.encode (gcm.encrypt key iv (Utf8.encode plaintext.toList)).1] := by
  unfold encryptProviderToken at h
  cases hkey : encryptionKey gcm secret with
  | error e =>
      rw [hkey] at h
      cases h
  | ok key =>
      rw [hkey] at h
      cases h
      exact ⟨key, rfl, by rw [String.toList_ofList]⟩

/-- What is written after an envelope is no part of it. -/
theorem splitOn_envelope (h : encryptProviderToken gcm iv plaintext secret = .ok envelope)
    {more : List Char} (hmore : ∀ ch ∈ more.head?, ch = '.') :
    ∃ key rest, encryptionKey gcm secret = .ok key ∧
      splitOn '.' (envelope.toList ++ more) =
        "v1".toList :: Base64Url.encode iv ::
          Base64Url.encode (gcm.encrypt key iv (Utf8.encode plaintext.toList)).2 ::
          Base64Url.encode (gcm.encrypt key iv (Utf8.encode plaintext.toList)).1 :: rest := by
  obtain ⟨key, hkey, henvelope⟩ := encryptProviderToken_eq_ok h
  have hversion : '.' ∉ "v1".toList := by decide
  have htext : envelope.toList ++ more = "v1".toList ++ '.' :: (Base64Url.encode iv ++ '.' ::
      (Base64Url.encode (gcm.encrypt key iv (Utf8.encode plaintext.toList)).2 ++ '.' ::
        (Base64Url.encode (gcm.encrypt key iv (Utf8.encode plaintext.toList)).1 ++ more))) := by
    rw [henvelope]
    simp [List.intercalate]
  rw [htext, splitOn_append hversion, splitOn_separator, splitOn_append (not_mem_encode _),
    splitOn_separator, splitOn_append (not_mem_encode _), splitOn_separator,
    splitOn_append (not_mem_encode _)]
  cases more with
  | nil => exact ⟨key, [], hkey, by simp [splitOn]⟩
  | cons ch rest =>
      obtain rfl := hmore ch rfl
      exact ⟨key, splitOn '.' rest, hkey, by simp [splitOn_separator]⟩

/-- An envelope is read back, whatever follows it after a further dot; only the empty text is
refused. -/
theorem decryptProviderToken_encryptProviderToken (hgcm : gcm.Lawful) (hiv : iv.length = 12)
    (h : encryptProviderToken gcm iv plaintext secret = .ok envelope) {more : String}
    (hmore : ∀ ch ∈ more.toList.head?, ch = '.') :
    decryptProviderToken gcm (envelope ++ more) secret =
      if plaintext = "" then .error invalidEnvelope else .ok plaintext := by
  obtain ⟨key, rest, hkey, hsplit⟩ := splitOn_envelope h hmore
  have hne : iv ≠ [] := by
    rintro rfl
    cases hiv
  have htag : (gcm.encrypt key iv (Utf8.encode plaintext.toList)).2 ≠ [] := by
    intro hnil
    have hlength := hgcm.length_tag key iv (Utf8.encode plaintext.toList)
    rw [hnil] at hlength
    cases hlength
  have hciphertext :
      (gcm.encrypt key iv (Utf8.encode plaintext.toList)).1 = [] ↔ plaintext = "" := by
    rw [← List.length_eq_zero_iff, hgcm.length_ciphertext, List.length_eq_zero_iff,
      Utf8.encode_eq_nil, String.toList_eq_nil_iff]
  rw [decryptProviderToken, String.toList_append, hsplit]
  simp only [ne_eq, not_true_eq_false, Base64Url.encode_eq_nil, hne, htag, hciphertext, false_or]
  split
  · rfl
  · rw [hkey, Base64Url.decode_encode, Base64Url.decode_encode, Base64Url.decode_encode]
    simp only [bind, Except.bind, hgcm.decrypt_encrypt key iv _ hne, Utf8.decode_encode,
      String.ofList_toList, pure, Except.pure]

/-- Without a secret of sixteen characters there is no key, and nothing is decrypted. -/
theorem decryptProviderToken_short (gcm : Gcm) (hshort : utf16Length secret < 16)
    (envelope : String) :
    decryptProviderToken gcm envelope secret = .error invalidEnvelope ∨
      decryptProviderToken gcm envelope secret = .error shortSecret := by
  have hkey : encryptionKey gcm secret = .error shortSecret := if_pos hshort
  unfold decryptProviderToken
  split
  · split
    · exact .inl rfl
    · rw [hkey]
      exact .inr rfl
  · exact .inl rfl

variable (iv plaintext) in
/-- With a secret of sixteen characters any text has an envelope. -/
theorem exists_envelope (gcm : Gcm) (hlong : 16 ≤ utf16Length secret) :
    ∃ envelope, encryptProviderToken gcm iv plaintext secret = .ok envelope := by
  unfold encryptProviderToken encryptionKey
  rw [if_neg (Nat.not_lt.mpr hlong)]
  exact ⟨_, rfl⟩

variable (plaintext) in
/-- **Tokens are read back.**  With a secret of sixteen characters a text is encrypted, and its
envelope, whatever follows it after a further dot, gives the text; the empty text is refused
when it is read back.  With a shorter secret nothing is encrypted or decrypted. -/
theorem provider_token_round_trip (hgcm : gcm.Lawful) (hiv : iv.length = 12) :
    (16 ≤ utf16Length secret → ∃ envelope,
      encryptProviderToken gcm iv plaintext secret = .ok envelope ∧
        ∀ more : String, (∀ ch ∈ more.toList.head?, ch = '.') →
          decryptProviderToken gcm (envelope ++ more) secret =
            if plaintext = "" then .error invalidEnvelope else .ok plaintext) ∧
    (utf16Length secret < 16 →
      encryptProviderToken gcm iv plaintext secret = .error shortSecret ∧
        ∀ envelope, decryptProviderToken gcm envelope secret = .error invalidEnvelope ∨
          decryptProviderToken gcm envelope secret = .error shortSecret) := by
  constructor
  · intro hlong
    obtain ⟨envelope, henvelope⟩ := exists_envelope iv plaintext gcm hlong
    exact ⟨envelope, henvelope, fun more hmore =>
      decryptProviderToken_encryptProviderToken hgcm hiv henvelope hmore⟩
  · intro hshort
    have hkey : encryptionKey gcm secret = .error shortSecret := if_pos hshort
    refine ⟨?_, decryptProviderToken_short gcm hshort⟩
    unfold encryptProviderToken
    rw [hkey]
    rfl

end RoundTrip

/-! ### A token in its envelope -/

namespace TokenSample

def secret : String := "development-only"

def key : List UInt8 :=
  [145, 106, 127, 50, 205, 77, 239, 145, 125, 235, 230, 220, 31, 36, 212, 163, 100, 131, 185,
    102, 213, 170, 106, 77, 121, 213, 72, 99, 177, 209, 93, 194]

def iv : List UInt8 := [1, 2, 3, 4, 5, 6, 7, 8, 9, 10, 11, 12]

def plaintext : List UInt8 := [99, 97, 102, 195, 169]

def ciphertext : List UInt8 := [100, 177, 236, 235, 213]

def tag : List UInt8 := [239, 83, 155, 238, 60, 107, 89, 208, 72, 131, 133, 147, 50, 244, 92, 167]

def noTag : List UInt8 := List.replicate 16 0

/-- What the cipher and the hash give for one text; other texts are left as they are. -/
def gcm : Gcm where
  sha256 bytes :=
    if bytes = Utf8.encode ("serveproof:provider-token:v1:".toList ++ secret.toList) then key
    else bytes
  encrypt k v p := if (k, v, p) = (key, iv, plaintext) then (ciphertext, tag) else (p, noTag)
  decrypt k v c t :=
    if (k, v, c, t) = (key, iv, ciphertext, tag) then .ok plaintext
    else if t = noTag then .ok c
    else .error "Unsupported state or unable to authenticate data"

theorem lawful : gcm.Lawful := by
  have hcases (k v p : List UInt8) : (k, v, p) = (key, iv, plaintext) ∧
      gcm.encrypt k v p = (ciphertext, tag) ∨ gcm.encrypt k v p = (p, noTag) := by
    by_cases h : (k, v, p) = (key, iv, plaintext)
    · exact .inl ⟨h, if_pos h⟩
    · exact .inr (if_neg h)
  constructor
  · intro k v p _
    obtain ⟨h, hencrypt⟩ | hencrypt := hcases k v p
    · cases h
      rw [hencrypt]
      rfl
    · have hne : (k, v, p, noTag) ≠ (key, iv, ciphertext, tag) := by
        have htag : noTag ≠ tag := by decide
        simp [htag]
      rw [hencrypt]
      exact (if_neg hne).trans (if_pos rfl)
  · intro k v p
    obtain ⟨h, hencrypt⟩ | hencrypt := hcases k v p
    · cases h
      rw [hencrypt]
      rfl
    · rw [hencrypt]
  · intro k v p
    obtain ⟨-, hencrypt⟩ | hencrypt := hcases k v p <;> rw [hencrypt] <;> rfl

/-- The envelope of a text of five bytes. -/
theorem provider_token_round_trip_envelope :
    encryptProviderToken gcm iv "café" secret =
        .ok "v1.AQIDBAUGBwgJCgsM.71Ob7jxrWdBIg4WTMvRcpw.ZLHs69U" ∧
      decryptProviderToken gcm "v1.AQIDBAUGBwgJCgsM.71Ob7jxrWdBIg4WTMvRcpw.ZLHs69U.more" secret =
        .ok "café" := by
  obtain ⟨envelope, henvelope, hread⟩ :=
    (@provider_token_round_trip gcm iv "café" secret lawful rfl).1 (by decide)
  have hconcrete : encryptProviderToken gcm iv "café" secret =
      .ok "v1.AQIDBAUGBwgJCgsM.71Ob7jxrWdBIg4WTMvRcpw.ZLHs69U" := by decide +kernel
  cases hconcrete.symm.trans henvelope
  exact ⟨hconcrete, hread ".more" (by simp)⟩

end TokenSample

end ServeProof
