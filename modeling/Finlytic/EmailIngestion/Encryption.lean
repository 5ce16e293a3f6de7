import Finlytic.EmailIngestion.Accounts
import Finlytic.Lib.Base64
import Finlytic.Lib.Jws

/-! `EncryptionService`: tokens in envelopes of four parts, under AES-256-GCM with
the purpose as additional data. An envelope of version 1 has none. -/

namespace Finlytic.EmailIngestion

open Lib Jws

/-- AES-256-GCM under the configured key, and `toString('utf8')`. Counter mode undoes itself and
keeps the length; `accepts` is whether Node opens such a text with such a tag. -/
structure Gcm where
  crypt : List UInt8 → List UInt8 → List UInt8
  tag : List UInt8 → List UInt8 → List UInt8 → List UInt8
  accepts : List UInt8 → List UInt8 → List UInt8 → List UInt8 → Bool
  utf8 : List UInt8 → List Char
  crypt_crypt : ∀ nonce text, crypt nonce (crypt nonce text) = text
  length_crypt : ∀ nonce text, (crypt nonce text).length = text.length
  tag_ne : ∀ nonce aad cipherText, tag nonce aad cipherText ≠ []
  utf8_octets : ∀ text, utf8 (utf8Octets text) = text

/-- Decryption undoes encryption: the tag of a text is accepted. -/
def Gcm.Correct (gcm : Gcm) : Prop :=
  ∀ nonce aad cipherText, gcm.accepts nonce aad cipherText (gcm.tag nonce aad cipherText) = true

/-- Twelve octets of `randomBytes`. -/
def Nonce := { octets : List UInt8 // octets.length = 12 }

def CipherPurpose.text : CipherPurpose → List Char
  | .access => "access".toList
  | .refresh => "refresh".toList
  | .probe => "probe".toList

/-- The additional data of version 2. -/
def CipherPurpose.aad (purpose : CipherPurpose) : List UInt8 := utf8Octets purpose.text

def version : List Char := "v2".toList

def legacyVersion : List Char := "v1".toList

variable (gcm : Gcm)

/-- What a tag is made for. -/
structure Sealed where
  nonce : List UInt8
  aad : List UInt8
  cipherText : List UInt8

/-- What `encrypt` hands to the cipher, and gets back from it. -/
def sealText (plainText : List Char) (purpose : CipherPurpose) (nonce : Nonce) : Sealed :=
  ⟨nonce.1, purpose.aad, gcm.crypt nonce.1 (utf8Octets plainText)⟩

def Sealed.tag (s : Sealed) : List UInt8 := gcm.tag s.nonce s.aad s.cipherText

def encrypt (plainText : List Char) (purpose : CipherPurpose) (nonce : Nonce) : List Char :=
  let s := sealText gcm plainText purpose nonce
  ['.'].intercalate
    [version, Base64.encode s.nonce, Base64.encode (s.tag gcm), Base64.encode s.cipherText]

inductive DecryptError where
  | malformed
  | unsupported (version : List Char)
  | unauthenticated
  deriving DecidableEq

def DecryptError.message : DecryptError → String
  | .malformed => "Malformed ciphertext envelope"
  | .unsupported version => "Unsupported ciphertext version: " ++ String.ofList version
  | .unauthenticated => "Unsupported state or unable to authenticate data"

/-- The part of that index; one that is missing is as falsy as an empty one. -/
def part (envelope : List Char) (i : ℕ) : List Char := (envelope.splitOn '.').getD i []

/-- `decrypt`; parts after the fourth are not looked at. -/
def decrypt (envelope : List Char) (purpose : CipherPurpose) : Except DecryptError (List Char) :=
  let noncePart := part envelope 1
  let tagPart := part envelope 2
  let cipherTextPart := part envelope 3
  if noncePart = [] || tagPart = [] || cipherTextPart = [] then .error .malformed
  else if part envelope 0 ≠ legacyVersion ∧ part envelope 0 ≠ version then
    .error (.unsupported (part envelope 0))
  else
    let nonce := Base64.decode noncePart
    let aad := if part envelope 0 = version then purpose.aad else []
    let cipherText := Base64.decode cipherTextPart
    if gcm.accepts nonce aad cipherText (Base64.decode tagPart) then
      .ok (gcm.utf8 (gcm.crypt nonce cipherText))
    else .error .unauthenticated

/-! ### Envelopes that were written -/

variable {gcm}

theorem purpose_aad_ne (purpose : CipherPurpose) : purpose.aad ≠ [] := by
  cases purpose <;> decide

theorem purpose_aad_inj {p q : CipherPurpose} (h : p.aad = q.aad) : p = q := by
  cases p <;> cases q <;> first | rfl | exact absurd h (by decide)

/-- What a text that was not empty leaves in the envelope. -/
theorem part_encrypt (plainText : List Char) (purpose : CipherPurpose) (nonce : Nonce) :
    (encrypt gcm plainText purpose nonce).splitOn '.' = [version, Base64.encode nonce.1,
      Base64.encode (gcm.tag nonce.1 purpose.aad (gcm.crypt nonce.1 (utf8Octets plainText))),
      Base64.encode (gcm.crypt nonce.1 (utf8Octets plainText))] := by
  refine List.splitOn_intercalate _ ?_ (List.cons_ne_nil _ _)
  intro l hl
  simp only [List.mem_cons, List.not_mem_nil, or_false] at hl
  rcases hl with rfl | rfl | rfl | rfl
  · decide
  · exact Base64.dot_not_mem_encode _
  · exact Base64.dot_not_mem_encode _
  · exact Base64.dot_not_mem_encode _

theorem crypt_eq_nil {nonce text : List UInt8} : gcm.crypt nonce text = [] ↔ text = [] := by
  rw [← List.length_eq_zero_iff, gcm.length_crypt, List.length_eq_zero_iff]

/-- An envelope of either version opens, unless it was made from the empty text. -/
theorem decrypt_of_parts (hgcm : gcm.Correct) {envelope v : List Char}
    (hv : v = legacyVersion ∨ v = version) (plainText : List Char) (purpose : CipherPurpose)
    (nonce : Nonce)
    (hparts : envelope.splitOn '.' =
      [v, Base64.encode nonce.1,
      Base64.encode
      (gcm.tag nonce.1 (if v = version then purpose.aad else [])
      (gcm.crypt nonce.1 (utf8Octets plainText))),
      Base64.encode (gcm.crypt nonce.1 (utf8Octets plainText))]) :
    decrypt gcm envelope purpose = if plainText = [] then .error .malformed else .ok plainText := by
  have hnonce : Base64.encode nonce.1 ≠ [] := by
    rw [Ne, Base64.encode_eq_nil]
    intro hnil
    have hlen := nonce.2
    rw [hnil] at hlen
    cases hlen
  have htag : Base64.encode (gcm.tag nonce.1 (if v = version then purpose.aad else [])
      (gcm.crypt nonce.1 (utf8Octets plainText))) ≠ [] := by
    rw [Ne, Base64.encode_eq_nil]
    exact gcm.tag_ne _ _ _
  have hversion : ¬ (v ≠ legacyVersion ∧ v ≠ version) := fun h => hv.elim h.1 h.2
  unfold decrypt part
  rw [hparts]
  simp only [List.getD_cons_zero, List.getD_cons_succ, hnonce, htag, decide_false, Bool.false_or,
    decide_eq_true_eq,
    Base64.encode_eq_nil, crypt_eq_nil, utf8Octets_eq_nil, if_neg hversion, Base64.decode_encode]
  by_cases hempty : plainText = []
  · rw [if_pos hempty, if_pos hempty]
  · rw [if_neg hempty, if_neg hempty, if_pos (hgcm _ _ _), gcm.crypt_crypt, gcm.utf8_octets]

/-- An envelope opens for its purpose, unless it was made from the empty text. -/
theorem decrypt_encrypt (hgcm : gcm.Correct) (plainText : List Char) (purpose : CipherPurpose)
    (nonce : Nonce) :
    decrypt gcm (encrypt gcm plainText purpose nonce) purpose = if plainText = [] then
      .error .malformed else .ok plainText := by
  refine decrypt_of_parts hgcm (.inr rfl) plainText purpose nonce ?_
  rw [if_pos rfl]
  exact part_encrypt plainText purpose nonce

end Finlytic.EmailIngestion
