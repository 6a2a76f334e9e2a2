import Mathlib.Data.Vector.Basic

/-! Authenticated ciphers as a pair of functions, and the ideal one: after some encryptions it decrypts
their results and nothing else. The tag is at the end of what is encrypted. -/

/-- Encryption and decryption under a key and an initialisation vector. -/
structure AeadCipher where
  encrypt : (key iv plaintext : List UInt8) → List UInt8
  decrypt : (key iv ctWithTag : List UInt8) → Option (List UInt8)

/-- An ideal cipher with the record of the encryptions that have been made. -/
structure IdealAead extends AeadCipher where
  Made : (key iv plaintext : List UInt8) → Prop
  length_encrypt : ∀ key iv plaintext, (encrypt key iv plaintext).length = plaintext.length + 16
  decrypt_iff : ∀ key iv ctWithTag plaintext, decrypt key iv ctWithTag = some plaintext ↔
    Made key iv plaintext ∧ encrypt key iv plaintext = ctWithTag

namespace IdealAead

variable {aead : IdealAead} {key iv ctWithTag plaintext : List UInt8}

theorem decrypt_encrypt (h : aead.Made key iv plaintext) :
    aead.decrypt key iv (aead.encrypt key iv plaintext) = some plaintext :=
  (aead.decrypt_iff _ _ _ _).mpr ⟨h, rfl⟩

/-- What is decrypted has been encrypted under the same key and the same vector. -/
theorem made_of_decrypt (h : aead.decrypt key iv ctWithTag = some plaintext) :
    aead.Made key iv plaintext ∧ aead.encrypt key iv plaintext = ctWithTag :=
  (aead.decrypt_iff _ _ _ _).mp h

/-- An ideal cipher from one that decrypts what it encrypts: a decryption is let through where the
encryption has been made. -/
def ofRecord (cipher : AeadCipher) (made : (key iv plaintext : List UInt8) → Bool)
    (hlength : ∀ key iv plaintext, (cipher.encrypt key iv plaintext).length = plaintext.length + 16)
    (hdecrypt : ∀ key iv plaintext, cipher.decrypt key iv (cipher.encrypt key iv plaintext) = some plaintext) :
    IdealAead where
  encrypt := cipher.encrypt
  decrypt key iv ctWithTag := (cipher.decrypt key iv ctWithTag).filter fun plaintext =>
    made key iv plaintext && cipher.encrypt key iv plaintext == ctWithTag
  Made key iv plaintext := made key iv plaintext = true
  length_encrypt := hlength
  decrypt_iff key iv ctWithTag plaintext := by
    rw [Option.filter_eq_some_iff, Bool.and_eq_true, beq_iff_eq, and_iff_right_iff_imp]
    rintro ⟨-, rfl⟩
    exact hdecrypt key iv plaintext

end IdealAead
