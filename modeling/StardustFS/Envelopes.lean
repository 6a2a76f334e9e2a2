import Mathlib.Logic.Equiv.List
import StardustFS.IdealAead
import StardustFS.KeyRecovery

/-! What the three encrypted formats accept: files, the backup of the master key and the snapshots of the
metadata. The formats are over any cipher; under an ideal one a decoder returns what its encoder was
given, and refuses everything that is no output of the encoder, but for the version and the mode in the
header of a file. -/

namespace StardustFS

/-- The functions of a cipher that decrypts all it encrypts. -/
def Aesgcm.toCipher (aesgcm : Aesgcm) : AeadCipher where
  encrypt := aesgcm.encrypt
  decrypt := aesgcm.decrypt

namespace Envelopes

/-! ### The formats -/

inductive FileError where
  | tooShort
  | badMagic
  | integrity
  deriving DecidableEq, Repr

/-- `EncryptionEngine.encrypt` under its key: header, initialisation vector, tag, ciphertext. -/
def encrypt (cipher : AeadCipher) (key : List.Vector UInt8 32) (iv : List.Vector UInt8 16)
    (plaintext : Bytes) : Bytes :=
  let (ciphertext, tag) := splitTag (cipher.encrypt key.toList iv.toList plaintext)
  fileHeader ++ iv.toList ++ tag ++ ciphertext

/-- `EncryptionEngine.decrypt`. The bytes of the version and of the mode are passed over. -/
def decrypt (cipher : AeadCipher) (key : List.Vector UInt8 32) (encryptedData : Bytes) :
    Except FileError Bytes :=
  if encryptedData.length < 38 then .error .tooShort
  else if encryptedData.take 4 ≠ fileHeader.take 4 then .error .badMagic
  else
    let iv := (encryptedData.drop 6).take 16
    let tag := (encryptedData.drop 22).take 16
    match cipher.decrypt key.toList iv (encryptedData.drop 38 ++ tag) with
    | none => .error .integrity
    | some plaintext => .ok plaintext

/-- A call of `encrypt_for_backup`, with the salt and the vector it draws. -/
structure BackupCall where
  masterKey : Bytes
  password : Text
  salt : List.Vector UInt8 16
  iv : List.Vector UInt8 12

section Backup

variable (cipher : AeadCipher) (deriveKey : Text → Bytes → Bytes)

/-- `encrypt_for_backup`: salt, initialisation vector, tag, ciphertext. -/
def encryptForBackup (c : BackupCall) : Bytes :=
  let derivedKey := deriveKey c.password c.salt.toList
  let (ciphertext, tag) := splitTag (cipher.encrypt derivedKey c.iv.toList c.masterKey)
  c.salt.toList ++ c.iv.toList ++ tag ++ ciphertext

/-- `decrypt_from_backup`. -/
def decryptFromBackup (blob : Bytes) (password : Text) : Except BackupError Bytes :=
  if blob.length < 44 then .error .tooShort
  else
    let salt := blob.take 16
    let iv := (blob.drop 16).take 12
    let tag := (blob.drop 28).take 16
    let ciphertext := blob.drop 44
    match cipher.decrypt (deriveKey password salt) iv (ciphertext ++ tag) with
    | none => .error .invalidTag
    | some masterKey => .ok masterKey

end Backup

section Blob

variable (cipher : AeadCipher) (encryptionKey : Bytes)

/-- `_encrypt_blob` with a key: initialisation vector, tag, ciphertext. -/
def encryptBlob (iv : List.Vector UInt8 12) (plaintext : Bytes) : Bytes :=
  let (ciphertext, tag) := splitTag (cipher.encrypt encryptionKey iv.toList plaintext)
  iv.toList ++ tag ++ ciphertext

/-- `_decrypt_blob` with a key. -/
def decryptBlob (encrypted : Bytes) : Except KeySyncError Bytes :=
  if encrypted.length < 28 then .error .keyMismatch
  else
    let iv := encrypted.take 12
    let tag := (encrypted.drop 12).take 16
    match cipher.decrypt encryptionKey iv (encrypted.drop 28 ++ tag) with
    | none => .error .keyMismatch
    | some plaintext => .ok plaintext

end Blob

/-! ### The formats of the key's recovery are these -/

theorem encryptFile_eq (aesgcm : Aesgcm) (key : List.Vector UInt8 32) (iv : List.Vector UInt8 16)
    (plaintext : Bytes) :
    encryptFile aesgcm key.toList iv plaintext = encrypt aesgcm.toCipher key iv plaintext := rfl

theorem decryptFile_eq (aesgcm : Aesgcm) (key : List.Vector UInt8 32) (encrypted : Bytes) :
    decryptFile aesgcm key.toList encrypted = (decrypt aesgcm.toCipher key encrypted).toOption := by
  unfold decryptFile decrypt
  simp only [key.toList_length, ne_eq, not_true_eq_false, false_or]
  by_cases hshort : encrypted.length < 38
  · rw [if_pos (Or.inl hshort), if_pos hshort]
    rfl
  · by_cases hmagic : encrypted.take 4 = fileHeader.take 4
    · rw [if_neg (by simp [hshort, hmagic]), if_neg hshort, if_neg (not_not_intro hmagic)]
      cases hcipher : aesgcm.toCipher.decrypt key.toList ((encrypted.drop 6).take 16)
          (encrypted.drop 38 ++ (encrypted.drop 22).take 16) with
      | none => exact hcipher
      | some plaintext => exact hcipher
    · rw [if_pos (Or.inr hmagic), if_neg hshort, if_pos hmagic]
      rfl

theorem encryptForBackup_eq (engine : KeyBackupEngine) (c : BackupCall) :
    engine.encryptForBackup c.salt c.iv c.masterKey c.password =
      encryptForBackup engine.aesgcm.toCipher engine.deriveKey c := rfl

theorem decryptFromBackup_eq (engine : KeyBackupEngine) (blob : Bytes) (password : Text) :
    engine.decryptFromBackup blob password =
      decryptFromBackup engine.aesgcm.toCipher engine.deriveKey blob password := rfl

theorem encryptBlob_eq (sys : KeySystem) (key : Bytes) (iv : List.Vector UInt8 12) (plaintext : Bytes) :
    sys.encryptBlob key iv plaintext = encryptBlob sys.engine.aesgcm.toCipher key iv plaintext := rfl

theorem decryptBlob_eq (sys : KeySystem) (key encrypted : Bytes) :
    sys.decryptBlob (some key) encrypted = decryptBlob sys.engine.aesgcm.toCipher key encrypted := rfl

/-! ### Cutting a blob, and putting it together -/

section Fields

variable {data ct tag : Bytes} {i j k : Nat}

theorem splitTag_of_append (h : tag.length = 16) : splitTag (ct ++ tag) = (ct, tag) := by
  have hcut : (ct ++ tag).length - 16 = ct.length := by
    rw [List.length_append, h, Nat.add_sub_cancel]
  rw [splitTag, hcut, List.take_left, List.drop_left]

/-- A blob is its fields and the rest, whatever they hold. -/
theorem append_fields (data : Bytes) (i j k : Nat) :
    data = data.take i ++ (data.drop i).take j ++ (data.drop (i + j)).take k ++ data.drop (i + j + k) := by
  have hcut : ∀ n m, (data.drop n).take m ++ data.drop (n + m) = data.drop n := by
    intro n m
    rw [← List.drop_drop, List.take_append_drop]
  calc data = data.take i ++ data.drop i := (List.take_append_drop i data).symm
    _ = data.take i ++ ((data.drop i).take j ++
          ((data.drop (i + j)).take k ++ data.drop (i + j + k))) := by rw [hcut (i + j) k, hcut i j]
    _ = _ := by simp only [List.append_assoc]

theorem length_field (h : i + j ≤ data.length) : ((data.drop i).take j).length = j := by
  rw [List.length_take, List.length_drop]
  omega

theorem exists_vector (data : Bytes) {n : Nat} (h : n ≤ data.length) :
    ∃ v : List.Vector UInt8 n, v.toList = data.take n :=
  ⟨⟨data.take n, List.length_take_of_le h⟩, rfl⟩

end Fields

/-! ### Files -/

section File

variable {aead : IdealAead} {key : List.Vector UInt8 32} {iv : List.Vector UInt8 16}
  {plaintext data : Bytes}

theorem length_splitTag_ideal (aead : IdealAead) (key iv plaintext : Bytes) :
    (splitTag (aead.encrypt key iv plaintext)).2.length = 16 := by
  refine length_splitTag ?_
  rw [aead.length_encrypt]
  omega

/-- A file with any two bytes in place of the version and the mode. -/
def withVersion (versionMode : Bytes) (file : Bytes) : Bytes :=
  fileHeader.take 4 ++ versionMode ++ file.drop 6

theorem withVersion_encrypt (versionMode : Bytes) :
    withVersion versionMode (encrypt aead.toAeadCipher key iv plaintext) =
      fileHeader.take 4 ++ versionMode ++ iv.toList ++
          (splitTag (aead.encrypt key.toList iv.toList plaintext)).2 ++
        (splitTag (aead.encrypt key.toList iv.toList plaintext)).1 := by
  have hbody : (encrypt aead.toAeadCipher key iv plaintext).drop 6 =
      iv.toList ++ (splitTag (aead.encrypt key.toList iv.toList plaintext)).2 ++
        (splitTag (aead.encrypt key.toList iv.toList plaintext)).1 := by
    simp only [encrypt, List.append_assoc]
    rw [List.drop_left' (show fileHeader.length = 6 from rfl)]
  rw [withVersion, hbody]
  simp only [List.append_assoc]

/-- What the engine has encrypted is decrypted, whatever its version and mode are said to be. -/
theorem decrypt_withVersion (hmade : aead.Made key.toList iv.toList plaintext) {versionMode : Bytes}
    (hlength : versionMode.length = 2) :
    decrypt aead.toAeadCipher key
      (withVersion versionMode (encrypt aead.toAeadCipher key iv plaintext)) = .ok plaintext := by
  rw [withVersion_encrypt]
  have hheader : (fileHeader.take 4 ++ versionMode).length = 6 := by
    rw [List.length_append, hlength]
    rfl
  obtain ⟨hfirst, hiv, htag, hcipher, hlong⟩ := fields_append
    (d := (splitTag (aead.encrypt key.toList iv.toList plaintext)).1) hheader iv.toList_length
    (length_splitTag_ideal aead key.toList iv.toList plaintext)
  have hmagic : ∀ rest : Bytes, (fileHeader.take 4 ++ rest).take 4 = fileHeader.take 4 := fun _ => rfl
  rw [decrypt, if_neg (Nat.not_lt.mpr hlong), if_neg (by simp only [List.append_assoc, hmagic]; simp)]
  simp only [hiv, htag, hcipher, splitTag_append, IdealAead.decrypt_encrypt hmade]

/-- What is decrypted has been encrypted, but for the version and the mode. -/
theorem withVersion_of_decrypt (h : decrypt aead.toAeadCipher key data = .ok plaintext) :
    ∃ (iv : List.Vector UInt8 16) (versionMode : Bytes),
      aead.Made key.toList iv.toList plaintext ∧ versionMode.length = 2 ∧
        data = withVersion versionMode (encrypt aead.toAeadCipher key iv plaintext) := by
  unfold decrypt at h
  by_cases hshort : data.length < 38
  · rw [if_pos hshort] at h
    cases h
  · rw [if_neg hshort] at h
    by_cases hmagic : data.take 4 = fileHeader.take 4
    · rw [if_neg (not_not_intro hmagic)] at h
      cases hcipher : aead.decrypt key.toList ((data.drop 6).take 16)
          (data.drop 38 ++ (data.drop 22).take 16) with
      | none =>
          simp only [hcipher] at h
          cases h
      | some p =>
          simp only [hcipher] at h
          obtain rfl : p = plaintext := Except.ok.inj h
          obtain ⟨hmade, hencrypt⟩ := IdealAead.made_of_decrypt hcipher
          obtain ⟨iv, hiv⟩ := exists_vector (data.drop 6) (n := 16) (by rw [List.length_drop]; omega)
          have htag : ((data.drop 22).take 16).length = 16 := length_field (by omega)
          rw [← hiv] at hmade hencrypt
          refine ⟨iv, (data.drop 4).take 2, hmade, length_field (by omega), ?_⟩
          rw [withVersion_encrypt, hencrypt, splitTag_of_append htag, hiv, ← hmagic]
          have hback := append_fields (data.drop 6) 16 16 0
          simp only [List.drop_drop, List.take_zero, List.append_nil, Nat.reduceAdd] at hback
          calc data = data.take 4 ++ (data.drop 4).take 2 ++ data.drop 6 := by
                simpa using append_fields data 4 2 0
            _ = _ := by
                simp only [List.append_assoc] at hback ⊢
                rw [← hback]
    · rw [if_pos hmagic] at h
      cases h

/-- At a byte string, the file format accepts only what it produced: an output of `encrypt` is decrypted
to what was encrypted, and any other string raises. -/
def AcceptsOnlyOutputs (aead : IdealAead) (key : List.Vector UInt8 32) (data : Bytes) : Prop :=
  (∀ (iv : List.Vector UInt8 16) plaintext, aead.Made key.toList iv.toList plaintext →
      data = encrypt aead.toAeadCipher key iv plaintext →
        decrypt aead.toAeadCipher key data = .ok plaintext) ∧
    ((∀ (iv : List.Vector UInt8 16) plaintext, aead.Made key.toList iv.toList plaintext →
        data ≠ encrypt aead.toAeadCipher key iv plaintext) →
      ∃ e, decrypt aead.toAeadCipher key data = .error e)

/-- An output of `encrypt` with another version or another mode. -/
def OtherVersion (aead : IdealAead) (key : List.Vector UInt8 32) (data : Bytes) : Prop :=
  ∃ (iv : List.Vector UInt8 16) (plaintext versionMode : Bytes),
    aead.Made key.toList iv.toList plaintext ∧ versionMode.length = 2 ∧
      versionMode ≠ fileHeader.drop 4 ∧
        data = withVersion versionMode (encrypt aead.toAeadCipher key iv plaintext)

theorem withVersion_own : withVersion (fileHeader.drop 4) (encrypt aead.toAeadCipher key iv plaintext) =
    encrypt aead.toAeadCipher key iv plaintext := by
  rw [withVersion_encrypt, List.take_append_drop]
  simp only [encrypt]

/-- The version and the mode of an output are the engine's. -/
theorem versionMode_of_encrypt (aead : IdealAead) (key : List.Vector UInt8 32)
    (iv : List.Vector UInt8 16) (plaintext : Bytes) :
    ((encrypt aead.toAeadCipher key iv plaintext).drop 4).take 2 = fileHeader.drop 4 := by
  simp only [encrypt, List.append_assoc]
  rfl

theorem versionMode_of_withVersion {versionMode file : Bytes} (h : versionMode.length = 2) :
    ((withVersion versionMode file).drop 4).take 2 = versionMode := by
  rw [withVersion, List.append_assoc, List.drop_left' (show (fileHeader.take 4).length = 4 from rfl),
    List.take_left' h]

/-- **The file format** accepts only what it produced, but for outputs whose version or mode was
changed: these two bytes are neither checked nor authenticated. -/
theorem acceptsOnlyOutputs_iff (aead : IdealAead) (key : List.Vector UInt8 32) (data : Bytes) :
    AcceptsOnlyOutputs aead key data ↔ ¬ OtherVersion aead key data := by
  constructor
  · rintro ⟨-, hrefuses⟩ ⟨iv, plaintext, versionMode, hmade, hlength, hother, rfl⟩
    obtain ⟨e, herror⟩ := hrefuses fun iv' plaintext' _ heq => by
      apply hother
      rw [← versionMode_of_withVersion hlength, heq]
      exact versionMode_of_encrypt aead key iv' plaintext'
    rw [decrypt_withVersion hmade hlength] at herror
    cases herror
  · intro hversion
    constructor
    · rintro iv plaintext hmade rfl
      rw [← withVersion_own]
      exact decrypt_withVersion hmade rfl
    · intro hnone
      cases hdecrypt : decrypt aead.toAeadCipher key data with
      | error e => exact ⟨e, rfl⟩
      | ok plaintext =>
          exfalso
          obtain ⟨iv, versionMode, hmade, hlength, hdata⟩ := withVersion_of_decrypt hdecrypt
          by_cases hown : versionMode = fileHeader.drop 4
          · apply hnone iv plaintext hmade
            rw [hdata, hown]
            exact withVersion_own
          · exact hversion ⟨iv, plaintext, versionMode, hmade, hlength, hown, hdata⟩

/-- An engine that has encrypted the one byte 7 under the key and the vector of zeros. -/
def oneFile : IdealAead :=
  .ofRecord KeyBackupState.plainCipher.toCipher
    (fun key iv plaintext =>
      decide (key = List.replicate 32 0 ∧ iv = List.replicate 16 0 ∧ plaintext = [7]))
    KeyBackupState.plainCipher.length_encrypt KeyBackupState.plainCipher.decrypt_encrypt

/-- Its file with the version 2. -/
def versionTwo : Bytes := withVersion [2, 1] (encrypt oneFile.toAeadCipher (.replicate 32 0) (.replicate 16 0) [7])

/-- The file with the changed version is no output, and is decrypted all the same. -/
theorem version_two_is_accepted : decrypt oneFile.toAeadCipher (.replicate 32 0) versionTwo = .ok [7] ∧
    ¬ AcceptsOnlyOutputs oneFile (.replicate 32 0) versionTwo := by
  have hmade : oneFile.Made (List.Vector.replicate 32 0).toList (List.Vector.replicate 16 0).toList [7] :=
    decide_eq_true ⟨rfl, rfl, rfl⟩
  have haccepted : decrypt oneFile.toAeadCipher (.replicate 32 0) versionTwo = .ok [7] :=
    decrypt_withVersion hmade rfl
  refine ⟨haccepted, fun h => ?_⟩
  obtain ⟨e, herror⟩ := h.2 fun iv plaintext _ heq => by
    have hversion := versionMode_of_encrypt oneFile (.replicate 32 0) iv plaintext
    rw [← heq, versionTwo, versionMode_of_withVersion rfl] at hversion
    exact absurd hversion (by decide)
  rw [haccepted] at herror
  cases herror

end File

/-! ### The backup of the key, and the snapshots -/

section Exact

variable {aead : IdealAead} {deriveKey : Text → Bytes → Bytes} {calls : Set BackupCall}

/-- The cipher has encrypted what the calls of `encrypt_for_backup` had it encrypt, and nothing else. -/
def RecordsCalls (aead : IdealAead) (deriveKey : Text → Bytes → Bytes) (calls : Set BackupCall) : Prop :=
  ∀ key iv plaintext, aead.Made key iv plaintext ↔ ∃ c ∈ calls,
    deriveKey c.password c.salt.toList = key ∧ c.iv.toList = iv ∧ c.masterKey = plaintext

/-- PBKDF2 without collisions: a derived key is that of one password and one salt. -/
def CollisionFree (deriveKey : Text → Bytes → Bytes) : Prop :=
  ∀ password salt password' salt', salt.length = 16 → salt'.length = 16 →
    deriveKey password salt = deriveKey password' salt' → password = password' ∧ salt = salt'

theorem decryptFromBackup_of_mem (hcalls : RecordsCalls aead deriveKey calls) {c : BackupCall}
    (hc : c ∈ calls) :
    decryptFromBackup aead.toAeadCipher deriveKey (encryptForBackup aead.toAeadCipher deriveKey c)
      c.password = .ok c.masterKey := by
  have hmade : aead.Made (deriveKey c.password c.salt.toList) c.iv.toList c.masterKey :=
    (hcalls _ _ _).mpr ⟨c, hc, rfl, rfl, rfl⟩
  obtain ⟨hsalt, hiv, htag, hcipher, hlong⟩ := fields_append
    (d := (splitTag (aead.encrypt (deriveKey c.password c.salt.toList) c.iv.toList c.masterKey)).1)
    c.salt.toList_length c.iv.toList_length
    (length_splitTag_ideal aead (deriveKey c.password c.salt.toList) c.iv.toList c.masterKey)
  rw [decryptFromBackup, encryptForBackup, if_neg (Nat.not_lt.mpr hlong)]
  simp only [hsalt, hiv, htag, hcipher, splitTag_append, IdealAead.decrypt_encrypt hmade]

/-- What the backup decodes to was encoded with the same password: no other password and no other salt
gives the key under which it was encrypted. -/
theorem mem_of_decryptFromBackup (hcalls : RecordsCalls aead deriveKey calls)
    (hderive : CollisionFree deriveKey) {blob masterKey : Bytes} {password : Text}
    (h : decryptFromBackup aead.toAeadCipher deriveKey blob password = .ok masterKey) :
    ∃ c ∈ calls, c.password = password ∧ c.masterKey = masterKey ∧
      blob = encryptForBackup aead.toAeadCipher deriveKey c := by
  unfold decryptFromBackup at h
  by_cases hshort : blob.length < 44
  · rw [if_pos hshort] at h
    cases h
  · rw [if_neg hshort] at h
    cases hcipher : aead.decrypt (deriveKey password (blob.take 16)) ((blob.drop 16).take 12)
        (blob.drop 44 ++ (blob.drop 28).take 16) with
    | none =>
        simp only [hcipher] at h
        cases h
    | some p =>
        simp only [hcipher] at h
        obtain rfl : p = masterKey := Except.ok.inj h
        obtain ⟨hmade, hencrypt⟩ := IdealAead.made_of_decrypt hcipher
        obtain ⟨c, hc, hkey, hiv, rfl⟩ := (hcalls _ _ _).mp hmade
        obtain ⟨hpassword, hsalt⟩ := hderive _ _ _ _ c.salt.toList_length
          (List.length_take_of_le (by omega)) hkey
        have htag : ((blob.drop 28).take 16).length = 16 := length_field (by omega)
        refine ⟨c, hc, hpassword, rfl, ?_⟩
        rw [encryptForBackup, hkey, hiv, hencrypt, splitTag_of_append htag, hsalt]
        exact append_fields blob 16 12 16

theorem decryptBlob_of_made {key plaintext : Bytes} {iv : List.Vector UInt8 12}
    (hmade : aead.Made key iv.toList plaintext) :
    decryptBlob aead.toAeadCipher key (encryptBlob aead.toAeadCipher key iv plaintext) = .ok plaintext := by
  obtain ⟨-, hiv, htag, hcipher, hlong⟩ := fields_append (a := []) (i := 0)
    (d := (splitTag (aead.encrypt key iv.toList plaintext)).1) rfl iv.toList_length
    (length_splitTag_ideal aead key iv.toList plaintext)
  simp only [List.nil_append, Nat.zero_add, List.drop_zero] at hiv htag hcipher hlong
  rw [decryptBlob, encryptBlob, if_neg (Nat.not_lt.mpr hlong)]
  simp only [hiv, htag, hcipher, splitTag_append, IdealAead.decrypt_encrypt hmade]

theorem made_of_decryptBlob {key blob plaintext : Bytes}
    (h : decryptBlob aead.toAeadCipher key blob = .ok plaintext) :
    ∃ iv : List.Vector UInt8 12, aead.Made key iv.toList plaintext ∧
      blob = encryptBlob aead.toAeadCipher key iv plaintext := by
  unfold decryptBlob at h
  by_cases hshort : blob.length < 28
  · rw [if_pos hshort] at h
    cases h
  · rw [if_neg hshort] at h
    cases hcipher : aead.decrypt key (blob.take 12) (blob.drop 28 ++ (blob.drop 12).take 16) with
    | none =>
        simp only [hcipher] at h
        cases h
    | some p =>
        simp only [hcipher] at h
        obtain rfl : p = plaintext := Except.ok.inj h
        obtain ⟨hmade, hencrypt⟩ := IdealAead.made_of_decrypt hcipher
        obtain ⟨iv, hiv⟩ := exists_vector blob (n := 12) (by omega)
        have htag : ((blob.drop 12).take 16).length = 16 := length_field (by omega)
        rw [← hiv] at hmade hencrypt
        refine ⟨iv, hmade, ?_⟩
        rw [encryptBlob, hencrypt, splitTag_of_append htag, hiv]
        simpa using append_fields blob 12 16 0

/-- A derived key that spells out the password and the salt. -/
def spelledKey (password : Text) (salt : Bytes) : Bytes :=
  List.replicate (Encodable.encode (password.map Char.toNat, salt.map UInt8.toNat)) 0

/-- One backup of a short key. -/
def oneBackup : BackupCall where
  masterKey := [7]
  password := "secret".toList
  salt := .replicate 16 0
  iv := .replicate 12 0

/-- The cipher after that backup. -/
def oneBackupMade : IdealAead :=
  .ofRecord KeyBackupState.plainCipher.toCipher
    (fun key iv plaintext => decide (key = spelledKey oneBackup.password oneBackup.salt.toList ∧
      iv = oneBackup.iv.toList ∧ plaintext = oneBackup.masterKey))
    KeyBackupState.plainCipher.length_encrypt KeyBackupState.plainCipher.decrypt_encrypt

/-- The backup with another first byte of the salt. -/
def otherSalt : Bytes := 1 :: (encryptForBackup oneBackupMade.toAeadCipher spelledKey oneBackup).tail

end Exact

end Envelopes

end StardustFS
