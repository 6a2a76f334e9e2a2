import StardustFS.KeyBackup

/-! The master key at start-up. A missing key file is restored from the backup on the server; and where
the first synchronisation finds a snapshot it cannot read, the key file is overwritten with the key of
the backup and the core is built once more. What the server answers and whether the rest of the
start-up succeeds are arguments; local reads and writes succeed. -/

namespace StardustFS

/-- The header of an encrypted file: `SDFS`, the version and the mode. -/
def fileHeader : Bytes := [83, 68, 70, 83, 1, 1]

/-- `EncryptionEngine.encrypt` under a key. -/
def encryptFile (aesgcm : Aesgcm) (key : Bytes) (iv : List.Vector UInt8 16) (plaintext : Bytes) :
    Bytes :=
  let (ciphertext, tag) := splitTag (aesgcm.encrypt key iv.toList plaintext)
  fileHeader ++ iv.toList ++ tag ++ ciphertext

/-- `EncryptionEngine.decrypt`; an engine is made for keys of 32 bytes alone. -/
def decryptFile (aesgcm : Aesgcm) (key encrypted : Bytes) : Option Bytes :=
  if key.length ≠ 32 ∨ encrypted.length < 38 ∨ encrypted.take 4 ≠ fileHeader.take 4 then none
  else
    let iv := (encrypted.drop 6).take 16
    let tag := (encrypted.drop 22).take 16
    aesgcm.decrypt key iv (encrypted.drop 38 ++ tag)

/-- The engine reads back what it has written under a key of 32 bytes. -/
theorem decryptFile_encryptFile (aesgcm : Aesgcm) {key : Bytes} (hkey : key.length = 32)
    (iv : List.Vector UInt8 16) (plaintext : Bytes) :
    decryptFile aesgcm key (encryptFile aesgcm key iv plaintext) = some plaintext := by
  obtain ⟨hheader, hiv, htag, hcipher, hlength⟩ := fields_append (a := fileHeader) (i := 6)
    (d := (splitTag (aesgcm.encrypt key iv.toList plaintext)).1) rfl iv.toList_length
    (length_splitTag_encrypt aesgcm key iv.toList plaintext)
  have hmagic : (encryptFile aesgcm key iv plaintext).take 4 = fileHeader.take 4 := rfl
  have hvalid : ¬ (key.length ≠ 32 ∨ (encryptFile aesgcm key iv plaintext).length < 38 ∨
      (encryptFile aesgcm key iv plaintext).take 4 ≠ fileHeader.take 4) := by
    rw [not_or, not_or, not_not, not_not, not_lt]
    exact ⟨hkey, hlength, hmagic⟩
  rw [decryptFile, if_neg hvalid]
  simp only [encryptFile, hiv, htag, hcipher, splitTag_append, aesgcm.decrypt_encrypt]

inductive KeySyncError where
  /-- The snapshot cannot be read under the key. -/
  | keyMismatch
  | other
  deriving DecidableEq, Repr

inductive KeyRestoreError where
  | noPassword
  | request
  | keyNotFound
  | http (status : Nat)
  | backup (e : BackupError)
  /-- No path of a key file is configured. -/
  | noPath
  deriving DecidableEq, Repr

/-- What the start-up takes from libraries: the ciphers, the derivation of the database key, and
whether a snapshot opens under that key and its rows are merged. -/
structure KeySystem where
  engine : KeyBackupEngine
  hkdf : Bytes → Bytes
  opens : (dbKey db : Bytes) → Bool
  merges : (db : Bytes) → Bool

/-- The key material of the device, and the ciphertexts of its files. -/
structure LocalKeys where
  keyFileNamed : Bool := true
  keyFile : Option Bytes
  keyVariable : Option Bytes := none
  files : List Bytes

/-- The answers a start-up gets, `none` for an exception of the token or the request, and how its other
parts end. -/
structure StartAnswers where
  /-- The stored credentials give a valid token. -/
  credentials : Bool := true
  keyPassword : Text
  keyBackup : Option (Nat × Bytes) := none
  /-- `_build_core` succeeds with a key of 32 bytes. -/
  coreReady : Bytes → Bool := fun _ => true
  backsUp : Bool := true
  registers : Bool := true
  snapshot : Option (Nat × Bytes)
  recoveryBackup : Option (Nat × Bytes)
  coreReadyAgain : Bytes → Bool := fun _ => true

inductive StartOutcome where
  | raised
  | exited
  | offline
  | online
  deriving DecidableEq, Repr

namespace LocalKeys

def key (l : LocalKeys) : Option Bytes := if l.keyFileNamed then l.keyFile else l.keyVariable

/-- The file as the device reads it with its key material. -/
def decrypts (l : LocalKeys) (aesgcm : Aesgcm) (encrypted : Bytes) : Option Bytes :=
  l.key.bind fun key => decryptFile aesgcm key encrypted

end LocalKeys

namespace KeySystem

open KeyBackupState (plainCipher)

/-- `_decrypt_blob`: without a key the blob is taken as it is. -/
def decryptBlob (sys : KeySystem) (encryptionKey : Option Bytes) (encrypted : Bytes) :
    Except KeySyncError Bytes :=
  match encryptionKey with
  | none => .ok encrypted
  | some key =>
      if encrypted.length < 28 then .error .keyMismatch
      else
        let iv := encrypted.take 12
        let tag := (encrypted.drop 12).take 16
        match sys.engine.aesgcm.decrypt key iv (encrypted.drop 28 ++ tag) with
        | none => .error .keyMismatch
        | some db => .ok db

/-- `_encrypt_blob` under a key. -/
def encryptBlob (sys : KeySystem) (key : Bytes) (iv : List.Vector UInt8 12) (plaintext : Bytes) :
    Bytes :=
  let (ciphertext, tag) := splitTag (sys.engine.aesgcm.encrypt key iv.toList plaintext)
  iv.toList ++ tag ++ ciphertext

/-- A snapshot is read back with the key it was encrypted under. -/
theorem decryptBlob_encryptBlob (sys : KeySystem) (key : Bytes) (iv : List.Vector UInt8 12)
    (plaintext : Bytes) :
    sys.decryptBlob (some key) (sys.encryptBlob key iv plaintext) = .ok plaintext := by
  obtain ⟨-, hiv, htag, hcipher, hlength⟩ := fields_append (a := []) (i := 0)
    (d := (splitTag (sys.engine.aesgcm.encrypt key iv.toList plaintext)).1) rfl iv.toList_length
    (length_splitTag_encrypt sys.engine.aesgcm key iv.toList plaintext)
  simp only [List.nil_append, Nat.zero_add, List.drop_zero] at hiv htag hcipher hlength
  have hlong : ¬ (sys.encryptBlob key iv plaintext).length < 28 := by
    rw [not_lt]
    exact hlength
  simp only [decryptBlob, if_neg hlong]
  simp only [encryptBlob, hiv, htag, hcipher, splitTag_append, sys.engine.aesgcm.decrypt_encrypt]

/-- `_merge_server_metadata`, as far as it raises. -/
def mergeServerMetadata (sys : KeySystem) (dbKey blob : Bytes) : Except KeySyncError Unit := do
  let db ← sys.decryptBlob (some dbKey) blob
  if !sys.opens dbKey db then .error .keyMismatch
  else if !sys.merges db then .error .other
  else .ok ()

/-- `initial_sync`, by itself or at the end of `reconcile_if_stale`. Only the merge raises. -/
def initialSync (sys : KeySystem) (dbKey : Bytes) : Option (Nat × Bytes) → Except KeySyncError Unit
  | none => .ok ()
  | some (status, content) =>
      if status = 404 then .ok ()
      else if 400 ≤ status then .ok ()
      else sys.mergeServerMetadata dbKey content

/-- `_restore_key_from_server`. -/
def restoreKeyFromServer (sys : KeySystem) (keyPassword : Text) (answer : Option (Nat × Bytes))
    (l : LocalKeys) : Except KeyRestoreError LocalKeys :=
  if keyPassword = [] then .error .noPassword
  else match answer with
    | none => .error .request
    | some (status, content) =>
        if status = 404 then .error .keyNotFound
        else if 400 ≤ status then .error (.http status)
        else match sys.engine.decryptFromBackup content keyPassword with
          | .error e => .error (.backup e)
          | .ok masterKey =>
              if l.keyFileNamed then .ok { l with keyFile := some masterKey } else .error .noPath

/-- `_build_core`, which answers the key. -/
def buildCore (ready : Bytes → Bool) (l : LocalKeys) : Option Bytes :=
  l.key.bind fun key => if key.length = 32 ∧ ready key then some key else none

/-- A missing key file is restored where there is a server to ask. -/
def restoreMissing (sys : KeySystem) (a : StartAnswers) (l : LocalKeys) :
    Except KeyRestoreError LocalKeys :=
  if a.credentials && l.keyFileNamed && l.keyFile.isNone then
    sys.restoreKeyFromServer a.keyPassword a.keyBackup l
  else .ok l

/-- From the core to the synchronisation: the key it runs under, or where the start-up ends before. -/
def untilSync (a : StartAnswers) (l : LocalKeys) : Except StartOutcome Bytes :=
  match buildCore a.coreReady l with
  | none => .error .exited
  | some key =>
      if !a.credentials then .error .offline
      else if l.keyFileNamed && !a.backsUp then .error .raised
      else if !a.registers then .error .offline
      else .ok key

/-- The synchronisation with its recovery. Of the second synchronisation every exception is caught,
but not the exit of a core that cannot be built. -/
def synchronise (sys : KeySystem) (a : StartAnswers) (key : Bytes) (l : LocalKeys) :
    StartOutcome × LocalKeys :=
  match sys.initialSync (sys.hkdf key) a.snapshot with
  | .ok _ => (.online, l)
  | .error .other => (.online, l)
  | .error .keyMismatch =>
      match sys.restoreKeyFromServer a.keyPassword a.recoveryBackup l with
      | .error _ => (.online, l)
      | .ok l =>
          match buildCore a.coreReadyAgain l with
          | none => (.exited, l)
          | some _ => (.online, l)

def startup (sys : KeySystem) (a : StartAnswers) (l : LocalKeys) : StartOutcome × LocalKeys :=
  match sys.restoreMissing a l with
  | .error _ => (.raised, l)
  | .ok l =>
      match untilSync a l with
      | .error outcome => (outcome, l)
      | .ok key => sys.synchronise a key l

/-- The restored key replaces the key file, and nothing else changes. -/
theorem restoreKeyFromServer_cases {sys : KeySystem} {keyPassword : Text}
    {answer : Option (Nat × Bytes)} {l l' : LocalKeys}
    (h : sys.restoreKeyFromServer keyPassword answer l = .ok l') :
    l.keyFileNamed = true ∧ ∃ masterKey, l' = { l with keyFile := some masterKey } := by
  unfold restoreKeyFromServer at h
  by_cases hpassword : keyPassword = []
  · rw [if_pos hpassword] at h
    cases h
  rw [if_neg hpassword] at h
  cases answer with
  | none => cases h
  | some answer =>
      obtain ⟨status, content⟩ := answer
      dsimp only at h
      by_cases hnotFound : status = 404
      · rw [if_pos hnotFound] at h
        cases h
      rw [if_neg hnotFound] at h
      by_cases hhttp : 400 ≤ status
      · rw [if_pos hhttp] at h
        cases h
      rw [if_neg hhttp] at h
      cases hdecrypt : sys.engine.decryptFromBackup content keyPassword with
      | error e =>
          rw [hdecrypt] at h
          cases h
      | ok masterKey =>
          rw [hdecrypt] at h
          dsimp only at h
          split_ifs at h with hnamed
          exact ⟨hnamed, masterKey, (Except.ok.inj h).symm⟩

/-- After the first step the keys are as they were, or the key file was missing. -/
theorem restoreMissing_cases {sys : KeySystem} {a : StartAnswers} {l l' : LocalKeys}
    (h : sys.restoreMissing a l = .ok l') :
    l' = l ∨ l.keyFileNamed = true ∧ l.keyFile = none := by
  unfold restoreMissing at h
  split_ifs at h with hmissing
  · simp only [Bool.and_eq_true, Option.isNone_iff_eq_none] at hmissing
    exact Or.inr ⟨hmissing.1.2, hmissing.2⟩
  · exact Or.inl (Except.ok.inj h).symm

/-- What becomes of the key file in the synchronisation. -/
theorem synchronise_snd (sys : KeySystem) (a : StartAnswers) (key : Bytes) (l : LocalKeys) :
    (sys.synchronise a key l).2 =
      if sys.initialSync (sys.hkdf key) a.snapshot = .error .keyMismatch then
        match sys.restoreKeyFromServer a.keyPassword a.recoveryBackup l with
        | .error _ => l
        | .ok l' => l'
      else l := by
  unfold synchronise
  cases hsync : sys.initialSync (sys.hkdf key) a.snapshot with
  | ok _ => rfl
  | error e =>
      cases e with
      | other => rfl
      | keyMismatch =>
          rw [if_pos rfl]
          dsimp only
          cases hrestore : sys.restoreKeyFromServer a.keyPassword a.recoveryBackup l with
          | error _ => rfl
          | ok l' =>
              dsimp only
              cases buildCore a.coreReadyAgain l' with
              | none => rfl
              | some _ => rfl

/-- The snapshot cannot be read under any key: it is damaged, not another device's. -/
def Damaged (sys : KeySystem) (content : Bytes) : Prop :=
  ∀ masterKey db, sys.decryptBlob (some (sys.hkdf masterKey)) content = .ok db →
    sys.opens (sys.hkdf masterKey) db = false

/-- The synchronisation is reached, with these keys. -/
def Reaches (sys : KeySystem) (a : StartAnswers) (l : LocalKeys) (key : Bytes) (l' : LocalKeys) :
    Prop :=
  sys.restoreMissing a l = .ok l' ∧ untilSync a l' = .ok key

/-- The first synchronisation cannot read the snapshot, and the recovery restores a key. -/
def Recovers (sys : KeySystem) (a : StartAnswers) (key : Bytes) (l l' : LocalKeys) : Prop :=
  sys.initialSync (sys.hkdf key) a.snapshot = .error .keyMismatch ∧
    sys.restoreKeyFromServer a.keyPassword a.recoveryBackup l = .ok l'

/-- What a start-up keeps. A file that was read with the key material before is read with that kept
after it; the key file is replaced only where no file depends on it; and a damaged snapshot does not
change the key. -/
structure KeepsFiles (sys : KeySystem) (a : StartAnswers) (l : LocalKeys) : Prop where
  decryptable : ∀ encrypted ∈ l.files, ∀ plaintext,
    l.decrypts sys.engine.aesgcm encrypted = some plaintext →
    (sys.startup a l).2.decrypts sys.engine.aesgcm encrypted = some plaintext
  replaced : (sys.startup a l).2.keyFile ≠ l.keyFile →
    ∀ encrypted ∈ l.files, l.decrypts sys.engine.aesgcm encrypted = none
  damaged : ∀ key l' status content, sys.Reaches a l key l' → a.snapshot = some (status, content) →
    sys.Damaged content → (sys.startup a l).2.keyFile = l'.keyFile

/-- A recovery restores the key that is there already; or no file depends on that key, and the snapshot
is one of another key. -/
def HarmlessRecovery (sys : KeySystem) (a : StartAnswers) (l : LocalKeys) : Prop :=
  ∀ key l₁ l₂ status content, sys.Reaches a l key l₁ → a.snapshot = some (status, content) →
    sys.Recovers a key l₁ l₂ →
    l₂.keyFile = l₁.keyFile ∨
      (∀ encrypted ∈ l.files, l.decrypts sys.engine.aesgcm encrypted = none) ∧ ¬ sys.Damaged content

theorem startup_of_reaches {sys : KeySystem} {a : StartAnswers} {l l' : LocalKeys} {key : Bytes}
    (h : sys.Reaches a l key l') : sys.startup a l = sys.synchronise a key l' := by
  obtain ⟨hmissing, huntil⟩ := h
  simp only [startup, hmissing, huntil]

theorem startup_of_recovers {sys : KeySystem} {a : StartAnswers} {l l₁ l₂ : LocalKeys} {key : Bytes}
    (h : sys.Reaches a l key l₁) (hrecovers : sys.Recovers a key l₁ l₂) :
    (sys.startup a l).2 = l₂ := by
  rw [startup_of_reaches h, synchronise_snd, if_pos hrecovers.1, hrecovers.2]

/-- Without the key file there is nothing to read. -/
theorem decrypts_of_missing {l : LocalKeys} (hnamed : l.keyFileNamed = true)
    (hmissing : l.keyFile = none) (aesgcm : Aesgcm) (encrypted : Bytes) :
    l.decrypts aesgcm encrypted = none := by
  rw [LocalKeys.decrypts, LocalKeys.key, if_pos hnamed, hmissing, Option.bind_none]

theorem snapshot_of_mismatch {sys : KeySystem} {dbKey : Bytes} {snapshot : Option (Nat × Bytes)}
    (h : sys.initialSync dbKey snapshot = .error .keyMismatch) :
    ∃ status content, snapshot = some (status, content) := by
  cases snapshot with
  | none => cases h
  | some x => exact ⟨x.1, x.2, rfl⟩

/-- Where the synchronisation is reached, the keys after it are those before it, or recovered ones. -/
theorem startup_snd_of_reaches {sys : KeySystem} {a : StartAnswers} {l l₁ : LocalKeys} {key : Bytes}
    (h : sys.Reaches a l key l₁) :
    (sys.startup a l).2 = l₁ ∨ ∃ l₂, sys.Recovers a key l₁ l₂ ∧ (sys.startup a l).2 = l₂ := by
  rw [startup_of_reaches h, synchronise_snd]
  split_ifs with hmismatch
  · cases hrestore : sys.restoreKeyFromServer a.keyPassword a.recoveryBackup l₁ with
    | error _ => exact Or.inl rfl
    | ok l₂ => exact Or.inr ⟨l₂, ⟨hmismatch, hrestore⟩, rfl⟩
  · exact Or.inl rfl

/-- The keys after a start-up: those before it, unless the key file was missing, or recovered ones. -/
theorem startup_snd_cases (sys : KeySystem) (a : StartAnswers) (l : LocalKeys) :
    (sys.startup a l).2 = l ∨ (l.keyFileNamed = true ∧ l.keyFile = none) ∨
      ∃ key l₂, sys.Reaches a l key l ∧ sys.Recovers a key l l₂ ∧ (sys.startup a l).2 = l₂ := by
  cases hmissing : sys.restoreMissing a l with
  | error e =>
      left
      simp only [startup, hmissing]
  | ok l₁ =>
      obtain rfl | hlost := restoreMissing_cases hmissing
      · cases huntil : untilSync a l₁ with
        | error outcome =>
            left
            simp only [startup, hmissing, huntil]
        | ok key =>
            have hreaches : sys.Reaches a l₁ key l₁ := ⟨hmissing, huntil⟩
            obtain hsame | ⟨l₂, hrecovers, hafter⟩ := startup_snd_of_reaches hreaches
            · exact Or.inl hsame
            · exact Or.inr (Or.inr ⟨key, l₂, hreaches, hrecovers, hafter⟩)
      · exact Or.inr (Or.inl hlost)

/-- Recovered keys with the same key file are the same keys. -/
theorem eq_of_recovers {sys : KeySystem} {a : StartAnswers} {l₁ l₂ : LocalKeys} {key : Bytes}
    (h : sys.Recovers a key l₁ l₂) (hkey : l₂.keyFile = l₁.keyFile) : l₂ = l₁ := by
  obtain ⟨-, masterKey, rfl⟩ := restoreKeyFromServer_cases h.2
  dsimp only at hkey
  rw [hkey]

/-- A snapshot of another device that opens under its key is not damaged. -/
theorem not_damaged_encryptBlob {sys : KeySystem} {masterKey db : Bytes} (iv : List.Vector UInt8 12)
    (hopens : sys.opens (sys.hkdf masterKey) db = true) :
    ¬ sys.Damaged (sys.encryptBlob (sys.hkdf masterKey) iv db) := by
  intro hdamaged
  have hclosed := hdamaged masterKey db (sys.decryptBlob_encryptBlob (sys.hkdf masterKey) iv db)
  rw [hopens] at hclosed
  cases hclosed

/-- The database key is the master key, and every database opens. -/
def plainSystem : KeySystem where
  engine := KeyBackupState.twoDevices.engine
  hkdf := id
  opens _ _ := true
  merges _ := true

def ownKey : Bytes := List.replicate 32 1

def backupKey : Bytes := List.replicate 32 2

/-- A device with one file, under its own key. -/
def deviceWithFile : LocalKeys where
  keyFile := some ownKey
  files := [encryptFile plainCipher ownKey (.replicate 16 0) [7]]

/-- Of the snapshot three bytes arrive, and the backup holds another device's key. -/
def cutSnapshot : StartAnswers where
  keyPassword := "first".toList
  snapshot := some (200, [1, 2, 3])
  recoveryBackup := some (200, plainSystem.engine.encryptForBackup (.replicate 16 0) (.replicate 12 0)
    backupKey "first".toList)

end KeySystem

end StardustFS
