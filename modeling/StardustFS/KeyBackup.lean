import Mathlib.Data.Vector.Basic
import StardustFS.MetadataStore
import StardustFS.Transitions

/-! The backup of the master key on the server. The key is encrypted under the user's password; a
device asks whether a backup is there and sends its own where the answer does not say so. Question and
upload are two requests, and several devices may be at it. The cipher and the derivation of keys from
passwords are parameters; salts and initialisation vectors are arguments. -/

namespace StardustFS

/-- AES-GCM: what is encrypted is followed by a tag of 16 bytes, and decryption takes encryption
back. -/
structure Aesgcm where
  encrypt : (key iv plaintext : Bytes) → Bytes
  decrypt : (key iv ctWithTag : Bytes) → Option Bytes
  decrypt_encrypt : ∀ key iv plaintext, decrypt key iv (encrypt key iv plaintext) = some plaintext
  length_encrypt : ∀ key iv plaintext, (encrypt key iv plaintext).length = plaintext.length + 16

/-- `blob[:-16]` and `blob[-16:]`. -/
def splitTag (ctWithTag : Bytes) : Bytes × Bytes :=
  (ctWithTag.take (ctWithTag.length - 16), ctWithTag.drop (ctWithTag.length - 16))

theorem splitTag_append (ctWithTag : Bytes) :
    (splitTag ctWithTag).1 ++ (splitTag ctWithTag).2 = ctWithTag :=
  List.take_append_drop ..

theorem length_splitTag {ctWithTag : Bytes} (h : 16 ≤ ctWithTag.length) :
    (splitTag ctWithTag).2.length = 16 := by
  rw [splitTag, List.length_drop]
  omega

/-- A blob of three fields of known lengths and a rest is cut where its fields meet. -/
theorem fields_append {a b c d : Bytes} {i j k : Nat} (ha : a.length = i) (hb : b.length = j)
    (hc : c.length = k) :
    (a ++ b ++ c ++ d).take i = a ∧ ((a ++ b ++ c ++ d).drop i).take j = b ∧
      ((a ++ b ++ c ++ d).drop (i + j)).take k = c ∧ (a ++ b ++ c ++ d).drop (i + j + k) = d ∧
      i + j + k ≤ (a ++ b ++ c ++ d).length := by
  have hfirst : (a ++ b ++ c ++ d).drop i = b ++ (c ++ d) := by
    rw [List.append_assoc, List.append_assoc, List.drop_left' ha]
  have hsecond : (a ++ b ++ c ++ d).drop (i + j) = c ++ d := by
    rw [← List.drop_drop, hfirst, List.drop_left' hb]
  have hthird : (a ++ b ++ c ++ d).drop (i + j + k) = d := by
    rw [← List.drop_drop, hsecond, List.drop_left' hc]
  refine ⟨?_, ?_, ?_, hthird, ?_⟩
  · rw [List.append_assoc, List.append_assoc, List.take_left' ha]
  · rw [hfirst, List.take_left' hb]
  · rw [hsecond, List.take_left' hc]
  · simp only [List.length_append, ha, hb, hc]
    omega

theorem length_splitTag_encrypt (aesgcm : Aesgcm) (key iv plaintext : Bytes) :
    (splitTag (aesgcm.encrypt key iv plaintext)).2.length = 16 := by
  refine length_splitTag ?_
  rw [aesgcm.length_encrypt]
  omega

inductive BackupError where
  | tooShort
  /-- The password is another one, or the blob has been altered. -/
  | invalidTag
  deriving DecidableEq, Repr

structure KeyBackupEngine where
  aesgcm : Aesgcm
  /-- PBKDF2 over the password and the salt. -/
  deriveKey : Text → Bytes → Bytes

namespace KeyBackupEngine

/-- The blob: salt, initialisation vector, tag, ciphertext. -/
def encryptForBackup (engine : KeyBackupEngine) (salt : List.Vector UInt8 16)
    (iv : List.Vector UInt8 12) (masterKey : Bytes) (password : Text) : Bytes :=
  let derivedKey := engine.deriveKey password salt.toList
  let (ciphertext, tag) := splitTag (engine.aesgcm.encrypt derivedKey iv.toList masterKey)
  salt.toList ++ iv.toList ++ tag ++ ciphertext

def decryptFromBackup (engine : KeyBackupEngine) (blob : Bytes) (password : Text) :
    Except BackupError Bytes :=
  if blob.length < 44 then .error .tooShort
  else
    let salt := blob.take 16
    let iv := (blob.drop 16).take 12
    let tag := (blob.drop 28).take 16
    let ciphertext := blob.drop 44
    match engine.aesgcm.decrypt (engine.deriveKey password salt) iv (ciphertext ++ tag) with
    | none => .error .invalidTag
    | some masterKey => .ok masterKey

/-- **A backup is taken back with its password.** -/
theorem decryptFromBackup_encryptForBackup (engine : KeyBackupEngine) (salt : List.Vector UInt8 16)
    (iv : List.Vector UInt8 12) (masterKey : Bytes) (password : Text) :
    engine.decryptFromBackup (engine.encryptForBackup salt iv masterKey password) password =
      .ok masterKey := by
  obtain ⟨hsalt, hiv, htag, hcipher, hlength⟩ := fields_append
    (d := (splitTag (engine.aesgcm.encrypt (engine.deriveKey password salt.toList) iv.toList
      masterKey)).1) salt.toList_length iv.toList_length
    (length_splitTag_encrypt engine.aesgcm (engine.deriveKey password salt.toList) iv.toList masterKey)
  have hlong : ¬ (engine.encryptForBackup salt iv masterKey password).length < 44 := by
    rw [not_lt]
    exact hlength
  rw [decryptFromBackup, if_neg hlong]
  simp only [encryptForBackup, hsalt, hiv, htag, hcipher, splitTag_append,
    engine.aesgcm.decrypt_encrypt]

end KeyBackupEngine

/-- The calls of `_backup_key_to_server`: the key file and the password each one finds. -/
structure KeyBackupCalls (δ : Type*) where
  engine : KeyBackupEngine
  key : δ → Bytes
  /-- Empty where none is set. -/
  keyPassword : δ → Text

inductive BackupPhase where
  | begun
  /-- The server has been asked, and its answer was not that a backup is there. -/
  | asked
  | ended
  deriving DecidableEq, Repr

/-- The blob the server stores, and where the calls are. -/
structure KeyBackupState (δ : Type*) where
  stored : Option Bytes
  phase : δ → BackupPhase

/-- The two parts of a call. The answer to the question is a status, or an exception of the token or
the request; the upload says whether the server has stored what it was sent. -/
inductive BackupEvent (δ : Type*) where
  | check (d : δ) (answer : Option Nat)
  | upload (d : δ) (salt : List.Vector UInt8 16) (iv : List.Vector UInt8 12) (accepted : Bool)

namespace KeyBackupState

variable {δ : Type*} [DecidableEq δ]

def setPhase (s : KeyBackupState δ) (d : δ) (phase : BackupPhase) : KeyBackupState δ :=
  { s with phase := Function.update s.phase d phase }

def step (c : KeyBackupCalls δ) (s : KeyBackupState δ) : BackupEvent δ → Option (KeyBackupState δ)
  | .check d answer =>
      if s.phase d = .begun then
        if c.keyPassword d = [] then some (s.setPhase d .ended)
        else match answer with
          | none => some (s.setPhase d .ended)
          | some status => some (s.setPhase d (if status = 200 then .ended else .asked))
      else none
  | .upload d salt iv accepted =>
      if s.phase d = .asked then
        let blob := c.engine.encryptForBackup salt iv (c.key d) (c.keyPassword d)
        some { s.setPhase d .ended with stored := if accepted then some blob else s.stored }
      else none

/-- A step leaves the stored blob alone, or it is an upload the server accepts, of a call that had
asked. -/
theorem stored_cases {c : KeyBackupCalls δ} {s s' : KeyBackupState δ} {e : BackupEvent δ}
    (h : step c s e = some s') :
    ((∀ d salt iv, e ≠ .upload d salt iv true) ∧ s'.stored = s.stored) ∨
      ∃ d salt iv, e = .upload d salt iv true ∧ s.phase d = .asked ∧
        s'.stored = some (c.engine.encryptForBackup salt iv (c.key d) (c.keyPassword d)) := by
  cases e with
  | check d answer =>
      refine Or.inl ⟨nofun, ?_⟩
      simp only [step, Option.ite_none_right_eq_some] at h
      obtain ⟨-, h⟩ := h
      split_ifs at h
      · obtain rfl := Option.some_inj.mp h
        rfl
      · cases answer with
        | none =>
            obtain rfl := Option.some_inj.mp h
            rfl
        | some status =>
            obtain rfl := Option.some_inj.mp h
            rfl
  | upload d salt iv accepted =>
      simp only [step, Option.ite_none_right_eq_some, Option.some_inj] at h
      obtain ⟨hasked, rfl⟩ := h
      cases accepted with
      | true => exact Or.inr ⟨d, salt, iv, rfl, hasked, rfl⟩
      | false => exact Or.inl ⟨nofun, rfl⟩

/-- A call asks the server before it uploads. -/
theorem check_of_asked {c : KeyBackupCalls δ} {s s' : KeyBackupState δ} {e : BackupEvent δ} {d : δ}
    (h : step c s e = some s') (hbefore : s.phase d ≠ .asked) (hafter : s'.phase d = .asked) :
    ∃ answer, e = .check d answer := by
  cases e with
  | check d' answer =>
      simp only [step, Option.ite_none_right_eq_some] at h
      obtain ⟨-, h⟩ := h
      by_cases hd : d = d'
      · exact ⟨answer, by rw [hd]⟩
      · have hsame : ∀ phase, (s.setPhase d' phase).phase d = s.phase d := fun phase =>
          Function.update_of_ne hd _ _
        split_ifs at h
        · obtain rfl := Option.some_inj.mp h
          exact absurd ((hsame _).symm.trans hafter) hbefore
        · cases answer with
          | none =>
              obtain rfl := Option.some_inj.mp h
              exact absurd ((hsame _).symm.trans hafter) hbefore
          | some status =>
              obtain rfl := Option.some_inj.mp h
              exact absurd ((hsame _).symm.trans hafter) hbefore
  | upload d' salt iv accepted =>
      simp only [step, Option.ite_none_right_eq_some, Option.some_inj] at h
      obtain ⟨-, rfl⟩ := h
      by_cases hd : d = d'
      · subst hd
        have hended : (s.setPhase d .ended).phase d = .ended := Function.update_self ..
        exact absurd (hended.symm.trans hafter) (by decide)
      · exact absurd ((Function.update_of_ne hd _ _).symm.trans hafter) hbefore

/-- What the server stores stays there in some form. -/
theorem stored_run {c : KeyBackupCalls δ} {s s' : KeyBackupState δ} {es : List (BackupEvent δ)}
    (hstored : s.stored ≠ none) (hrun : Transitions.run (step c) s es = some s') :
    s'.stored ≠ none := by
  refine Transitions.run_preserves (P := fun s => s.stored ≠ none) ?_ hstored hrun
  intro s e s' hs h
  obtain ⟨-, hsame⟩ | ⟨d, salt, iv, -, -, hnew⟩ := stored_cases h
  · rwa [hsame]
  · rw [hnew]
    exact Option.some_ne_none _

/-- Without an accepted upload the stored blob is as it was. -/
theorem stored_of_no_upload {c : KeyBackupCalls δ} {s s' : KeyBackupState δ}
    {es : List (BackupEvent δ)} (hnone : ∀ d salt iv, .upload d salt iv true ∉ es)
    (hrun : Transitions.run (step c) s es = some s') : s'.stored = s.stored := by
  have hmeet : Transitions.StepsMeet (step c)
      (fun _ e => ∀ d salt iv, e ≠ BackupEvent.upload d salt iv true) s es := by
    refine Transitions.stepsMeet_of_mem (fun e he d salt iv heq => ?_) s
    subst heq
    exact hnone d salt iv he
  refine Transitions.run_invariant (P := fun m => m.stored = s.stored) ?_ rfl hmeet hrun
  intro m e m' hm hok h
  obtain ⟨-, hsame⟩ | ⟨d, salt, iv, hupload, -, -⟩ := stored_cases h
  · rw [hsame, hm]
  · exact absurd hupload (hok d salt iv)

/-- Nothing has been stored by the calls, which are about to begin. -/
def begin (stored : Option Bytes) : KeyBackupState δ := ⟨stored, fun _ => .begun⟩

/-- What a run of the calls keeps: no upload is accepted where a backup is stored, a stored blob stays
to the end, and the key of the call that stored it is taken back from it with its password. -/
structure KeepsBackup (c : KeyBackupCalls δ) (stored : Option Bytes) (es : List (BackupEvent δ)) :
    Prop where
  notReplaced : ∀ pre d salt iv post m, es = pre ++ .upload d salt iv true :: post →
    Transitions.run (step c) (begin stored) pre = some m → m.stored = none
  stays : ∀ pre post m s blob, es = pre ++ post →
    Transitions.run (step c) (begin stored) pre = some m → m.stored = some blob →
    Transitions.run (step c) m post = some s → s.stored = some blob
  recoverable : ∀ pre d salt iv post s, es = pre ++ .upload d salt iv true :: post →
    Transitions.run (step c) (begin stored) es = some s →
    ∃ blob, s.stored = some blob ∧
      c.engine.decryptFromBackup blob (c.keyPassword d) = .ok (c.key d)

/-- Every upload that is accepted follows a question that was put while nothing was stored, and no
other upload has been accepted since. -/
def AsksInTime (c : KeyBackupCalls δ) (stored : Option Bytes) (es : List (BackupEvent δ)) : Prop :=
  ∀ pre d answer mid salt iv post m,
    es = pre ++ .check d answer :: (mid ++ .upload d salt iv true :: post) →
    Transitions.run (step c) (begin stored) pre = some m →
    m.stored = none ∧ ∀ d' salt' iv', .upload d' salt' iv' true ∉ mid

/-- An upload belongs to a question of its call. -/
theorem exists_check {c : KeyBackupCalls δ} {stored : Option Bytes} {pre : List (BackupEvent δ)}
    {m m' : KeyBackupState δ} {d : δ} {salt : List.Vector UInt8 16} {iv : List.Vector UInt8 12}
    {accepted : Bool} (hrun : Transitions.run (step c) (begin stored) pre = some m)
    (hupload : step c m (.upload d salt iv accepted) = some m') :
    ∃ first answer mid m₁ m₂, pre = first ++ .check d answer :: mid ∧
      Transitions.run (step c) (begin stored) first = some m₁ ∧
      step c m₁ (.check d answer) = some m₂ ∧ Transitions.run (step c) m₂ mid = some m := by
  have hasked : m.phase d = .asked := by
    simp only [step, Option.ite_none_right_eq_some] at hupload
    exact hupload.1
  obtain ⟨first, e, mid, m₁, m₂, rfl, hfirst, hstep, hbefore, hafter⟩ :=
    Transitions.exists_step_of_run (P := fun s => s.phase d = .asked) BackupPhase.noConfusion hrun
      hasked
  obtain ⟨answer, rfl⟩ := check_of_asked hstep hbefore hafter
  obtain ⟨n₂, hn₂, hmid⟩ := Transitions.run_cons_eq_some.mp (Transitions.run_suffix hrun hfirst)
  obtain rfl : m₂ = n₂ := Option.some_inj.mp (hstep.symm.trans hn₂)
  exact ⟨first, answer, mid, m₁, m₂, rfl, hfirst, hstep, hmid⟩

theorem stored_check {c : KeyBackupCalls δ} {s s' : KeyBackupState δ} {d : δ} {answer : Option Nat}
    (h : step c s (.check d answer) = some s') : s'.stored = s.stored := by
  obtain ⟨-, hsame⟩ | ⟨_, _, _, hupload, -, -⟩ := stored_cases h
  · exact hsame
  · cases hupload

/-- **A key backup is never overwritten** just where every upload that is accepted was asked for in
time. -/
theorem keepsBackup_iff {c : KeyBackupCalls δ} {stored : Option Bytes} {es : List (BackupEvent δ)}
    {s : KeyBackupState δ} (hrun : Transitions.run (step c) (begin stored) es = some s) :
    KeepsBackup c stored es ↔ AsksInTime c stored es := by
  constructor
  · rintro h pre d answer mid salt iv post m rfl hpre
    obtain ⟨m₁, hcheck, hrest⟩ := Transitions.run_cons_eq_some.mp (Transitions.run_suffix hrun hpre)
    obtain ⟨m₂, hmid, -⟩ := Transitions.run_append_eq_some.mp hrest
    have hbefore : Transitions.run (step c) (begin stored) (pre ++ .check d answer :: mid) =
        some m₂ :=
      Transitions.run_append_eq_some.mpr ⟨m, hpre, Transitions.run_cons_eq_some.mpr ⟨m₁, hcheck, hmid⟩⟩
    have hfree : m₂.stored = none :=
      h.notReplaced (pre ++ .check d answer :: mid) d salt iv post m₂ (by simp) hbefore
    refine ⟨?_, fun d' salt' iv' hother => ?_⟩
    · by_contra hstored
      rw [← stored_check hcheck] at hstored
      exact stored_run hstored hmid hfree
    · obtain ⟨a, b, rfl⟩ := List.append_of_mem hother
      obtain ⟨n₁, -, hrest⟩ := Transitions.run_append_eq_some.mp hmid
      obtain ⟨n₂, hupload, hb⟩ := Transitions.run_cons_eq_some.mp hrest
      have hstored : n₂.stored ≠ none := by
        obtain ⟨hno, -⟩ | ⟨_, _, _, -, -, hnew⟩ := stored_cases hupload
        · exact absurd rfl (hno d' salt' iv')
        · rw [hnew]
          exact Option.some_ne_none _
      exact stored_run hstored hb hfree
  · intro h
    have hfree : ∀ pre d salt iv post m, es = pre ++ .upload d salt iv true :: post →
        Transitions.run (step c) (begin stored) pre = some m → m.stored = none := by
      rintro pre d salt iv post m rfl hpre
      obtain ⟨m', hupload, -⟩ := Transitions.run_cons_eq_some.mp (Transitions.run_suffix hrun hpre)
      obtain ⟨first, answer, mid, m₁, m₂, rfl, hfirst, hcheck, hmid⟩ := exists_check hpre hupload
      obtain ⟨hnone, hothers⟩ := h first d answer mid salt iv post m₁ (by simp) hfirst
      rw [stored_of_no_upload hothers hmid, stored_check hcheck, hnone]
    have hstays : ∀ pre post m s blob, es = pre ++ post →
        Transitions.run (step c) (begin stored) pre = some m → m.stored = some blob →
        Transitions.run (step c) m post = some s → s.stored = some blob := by
      rintro pre post m s blob rfl hpre hblob hpost
      refine (stored_of_no_upload (fun d salt iv hmem => ?_) hpost).trans hblob
      obtain ⟨a, b, rfl⟩ := List.append_of_mem hmem
      obtain ⟨n, hn, -⟩ := Transitions.run_append_eq_some.mp hpost
      have hstored : n.stored ≠ none :=
        stored_run (by rw [hblob]; exact Option.some_ne_none _) hn
      exact hstored (hfree (pre ++ a) d salt iv b n (by simp)
        (Transitions.run_append_eq_some.mpr ⟨m, hpre, hn⟩))
    refine ⟨hfree, hstays, ?_⟩
    rintro pre d salt iv post s' rfl hs'
    obtain ⟨m, hm, hrest⟩ := Transitions.run_append_eq_some.mp hs'
    obtain ⟨m', hupload, hpost⟩ := Transitions.run_cons_eq_some.mp hrest
    have hnew : m'.stored = some (c.engine.encryptForBackup salt iv (c.key d) (c.keyPassword d)) := by
      obtain ⟨hno, -⟩ | ⟨d', salt', iv', heq, -, hnew⟩ := stored_cases hupload
      · exact absurd rfl (hno d salt iv)
      · obtain ⟨rfl, rfl, rfl, -⟩ := BackupEvent.upload.inj heq
        exact hnew
    have hstart : Transitions.run (step c) (begin stored) (pre ++ [.upload d salt iv true]) = some m' :=
      Transitions.run_append_eq_some.mpr ⟨m, hm, Transitions.run_cons_eq_some.mpr ⟨m', hupload, rfl⟩⟩
    exact ⟨_, hstays (pre ++ [.upload d salt iv true]) post m' s' _ (by simp) hstart hnew hpost,
      c.engine.decryptFromBackup_encryptForBackup salt iv (c.key d) (c.keyPassword d)⟩

/-- The tag is the key in 16 bytes, and the text is not hidden. -/
def plainCipher : Aesgcm where
  encrypt key _ plaintext := plaintext ++ (key ++ List.replicate 16 0).take 16
  decrypt key _ ctWithTag :=
    if (splitTag ctWithTag).2 = (key ++ List.replicate 16 0).take 16 then some (splitTag ctWithTag).1
    else none
  decrypt_encrypt key _ plaintext := by
    have htag : ((key ++ List.replicate 16 (0 : UInt8)).take 16).length = 16 := by simp
    have hcut : (plaintext ++ (key ++ List.replicate 16 0).take 16).length - 16 = plaintext.length := by
      rw [List.length_append, htag, Nat.add_sub_cancel]
    simp only [splitTag, hcut, List.drop_left, List.take_left, if_true]
  length_encrypt key _ plaintext := by simp

/-- Two devices with a key and a password each. -/
def twoDevices : KeyBackupCalls Bool where
  engine := { aesgcm := plainCipher, deriveKey := fun password _ => password.map fun ch => ch.toNat.toUInt8 }
  key second := if second then [2] else [1]
  keyPassword second := if second then "other".toList else "first".toList

/-- The first device finds nothing and uploads; the second finds the backup. -/
def inTurn : List (BackupEvent Bool) :=
  [.check false (some 404), .upload false (.replicate 16 0) (.replicate 12 0) true,
    .check true (some 200)]

/-- The question of the second device meets an error of the server. -/
def serverError : List (BackupEvent Bool) :=
  [.check false (some 404), .upload false (.replicate 16 0) (.replicate 12 0) true,
    .check true (some 500), .upload true (.replicate 16 0) (.replicate 12 0) true]

/-- Both devices ask before either has uploaded. -/
def askedTogether : List (BackupEvent Bool) :=
  [.check false (some 404), .check true (some 404),
    .upload false (.replicate 16 0) (.replicate 12 0) true,
    .upload true (.replicate 16 0) (.replicate 12 0) true]

theorem inTurn_keepsBackup : ∃ s, Transitions.run (step twoDevices) (begin none) inTurn = some s ∧
    KeepsBackup twoDevices none inTurn := by
  refine ⟨_, rfl, (keepsBackup_iff rfl).mpr ?_⟩
  intro pre d answer mid salt iv post m hes hpre
  cases pre with
  | nil =>
      obtain rfl := Option.some_inj.mp hpre
      refine ⟨rfl, fun d' salt' iv' hmem => ?_⟩
      cases mid with
      | nil => cases hmem
      | cons y mid => cases mid <;> simp [inTurn] at hes
  | cons x pre =>
      cases pre with
      | nil => simp [inTurn] at hes
      | cons y pre => cases pre <;> simp [inTurn] at hes

/-- In the run the blob comes to be one that the first password does not open. -/
def LosesFirst (es : List (BackupEvent Bool)) : Prop :=
  (∃ s blob, Transitions.run (step twoDevices) (begin none) es = some s ∧ s.stored = some blob ∧
    twoDevices.engine.decryptFromBackup blob "first".toList = .error .invalidTag) ∧
  ¬ KeepsBackup twoDevices none es

/-- After an error of the server, or when two devices ask at once, the key of the first is lost. -/
theorem backup_replaced : LosesFirst serverError ∧ LosesFirst askedTogether := by
  refine ⟨⟨⟨_, _, rfl, rfl, by decide⟩, fun h => ?_⟩, ⟨⟨_, _, rfl, rfl, by decide⟩, fun h => ?_⟩⟩
  · have hfree := h.notReplaced (serverError.take 3) true _ _ [] _ rfl rfl
    cases hfree
  · have hfree := h.notReplaced (askedTogether.take 3) true _ _ [] _ rfl rfl
    cases hfree

end KeyBackupState

end StardustFS
