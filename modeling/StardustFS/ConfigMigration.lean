import StardustFS.ConfigLoader
import StardustFS.JsonText
import StardustFS.MetadataStore

/-! `migrate_v1_to_v2`: the configuration file is copied to a backup name that is free, and the object
of version 2 is written in its place. What the system answers to the calls is a parameter. The section
`server` that the migration adds has no `device_name`, and the checks of version 2 ask for one. -/

namespace StardustFS

open FsEncoding

namespace JsonWriter

/-- A character of a string, as a writer without `ensure_ascii` puts it down. -/
def escape (c : CodePoint) : ConfigText :=
  match JsonText.shortEscape c.val with
  | some letter => [92, Fin.ofNat _ letter.toNat]
  | none =>
      if c.val < 32 then
        codePoints "\\u00" ++ [Fin.ofNat _ (JsonText.hexDigit (c.val / 16)).toNat,
          Fin.ofNat _ (JsonText.hexDigit (c.val % 16)).toNat]
      else [c]

def quote (s : ConfigText) : ConfigText := codePoints "\"" ++ s.flatMap escape ++ codePoints "\""

/-- A new line, indented by two blanks for each level. -/
def newline (level : Nat) : ConfigText := 10 :: List.replicate (2 * level) 32

variable (floatRepr : PyFloat → ConfigText)

mutual

/-- The text of a value inside so many brackets. -/
def text (level : Nat) : ConfigValue → ConfigText
  | .null => codePoints "null"
  | .bool b => codePoints (toString b)
  | .int n => codePoints (toString n)
  | .float x => floatRepr x
  | .str s => quote s
  | .list items =>
      if items.isEmpty then codePoints "[]"
      else codePoints "[" ++ newline (level + 1) ++ itemTexts (level + 1) items ++ newline level ++
        codePoints "]"
  | .dict members =>
      if members.isEmpty then codePoints "\x7b\x7d"
      else codePoints "\x7b" ++ newline (level + 1) ++ memberTexts (level + 1) members ++
        newline level ++ codePoints "\x7d"

def itemTexts (level : Nat) : List ConfigValue → ConfigText
  | [] => []
  | x :: rest =>
      text level x ++ (if rest.isEmpty then [] else codePoints "," ++ newline level) ++
        itemTexts level rest

def memberTexts (level : Nat) : List (ConfigText × ConfigValue) → ConfigText
  | [] => []
  | (key, x) :: rest =>
      quote key ++ codePoints ": " ++ text level x ++
        (if rest.isEmpty then [] else codePoints "," ++ newline level) ++ memberTexts level rest

end

/-- `json.dumps(data, indent=2, ensure_ascii=False)`. -/
def dumps (data : ConfigObject) : ConfigText := text floatRepr 0 (.dict data)

/-- UTF-8 without an error handler: no surrogate has an encoding. -/
def encodeUtf8 (s : ConfigText) : Option Bytes :=
  (s.mapM fun c => if 0xD800 ≤ c.val ∧ c.val < 0xE000 then none else encodeChar c).map List.flatten

end JsonWriter

namespace ConfigObject

/-- `data.pop(key, None)`. -/
def pop (data : ConfigObject) (key : String) : ConfigObject :=
  data.filter fun m => m.1 ≠ codePoints key

/-- `data[key] = value`: a new key comes last. -/
def setItem (data : ConfigObject) (key : String) (value : ConfigValue) : ConfigObject :=
  if data.contains key then data.map fun m => if m.1 = codePoints key then (m.1, value) else m
  else data ++ [(codePoints key, value)]

theorem lookup_pop (data : ConfigObject) (key : String) (k : ConfigText) :
    Json.lookup k (data.pop key) = if k = codePoints key then none else Json.lookup k data := by
  induction data with
  | nil => simp [pop]
  | cons m data ih =>
      unfold pop at ih ⊢
      rw [List.filter_cons, Json.lookup_cons]
      by_cases hm : m.1 = codePoints key
      · rw [if_neg (by simpa using hm), ih]
        by_cases hk : k = codePoints key
        · rw [if_pos hk, if_pos hk]
        · rw [if_neg hk, if_neg hk, if_neg fun h => hk (h.symm.trans hm)]
      · rw [if_pos (by simpa using hm), Json.lookup_cons, ih]
        by_cases hk : m.1 = k
        · rw [if_pos hk, if_pos hk, if_neg fun h => hm (hk.trans h)]
        · rw [if_neg hk, if_neg hk]

theorem lookup_map_setItem (data : ConfigObject) (key k : ConfigText) (value : ConfigValue) :
    Json.lookup k (data.map fun m => if m.1 = key then (m.1, value) else m) =
      if k = key then (Json.lookup k data).map fun _ => value else Json.lookup k data := by
  induction data with
  | nil => simp
  | cons m data ih =>
      rw [List.map_cons, Json.lookup_cons, Json.lookup_cons, ih]
      by_cases hm : m.1 = key
      · rw [if_pos hm]
        by_cases hk : m.1 = k
        · rw [if_pos hk, if_pos hk, if_pos (hk.symm.trans hm), Option.map_some]
        · rw [if_neg hk, if_neg hk]
      · rw [if_neg hm]
        by_cases hk : m.1 = k
        · rw [if_pos hk, if_pos hk, if_neg fun h => hm (hk.trans h)]
        · rw [if_neg hk, if_neg hk]

theorem lookup_concat (data : ConfigObject) (key k : ConfigText) (value : ConfigValue)
    (hnew : Json.lookup key data = none) :
    Json.lookup k (data ++ [(key, value)]) = if k = key then some value else Json.lookup k data := by
  induction data with
  | nil => simp [Json.lookup_cons, eq_comm]
  | cons m data ih =>
      rw [Json.lookup_cons] at hnew
      split_ifs at hnew with hm
      rw [List.cons_append, Json.lookup_cons, Json.lookup_cons, ih hnew]
      by_cases hk : m.1 = k
      · rw [if_pos hk, if_pos hk, if_neg fun h => hm (hk.trans h)]
      · rw [if_neg hk, if_neg hk]

theorem lookup_setItem (data : ConfigObject) (key : String) (value : ConfigValue) (k : ConfigText) :
    Json.lookup k (data.setItem key value) =
      if k = codePoints key then some value else Json.lookup k data := by
  unfold setItem
  by_cases hcontains : data.contains key
  · rw [if_pos hcontains, lookup_map_setItem]
    by_cases hk : k = codePoints key
    · obtain ⟨x, hx⟩ := Option.isSome_iff_exists.mp hcontains
      rw [if_pos hk, if_pos hk, hk, hx, Option.map_some]
    · rw [if_neg hk, if_neg hk]
  · rw [if_neg hcontains]
    exact lookup_concat data _ k value (Option.not_isSome_iff_eq_none.mp hcontains)

end ConfigObject

/-- What a name of the directory stands for. -/
inductive Entry where
  | file (data : Bytes)
  /-- A directory, or anything else that is no regular file. -/
  | other
  deriving DecidableEq

/-- The names beside the configuration file, by the text of their paths. -/
abbrev ConfigDir := Table ConfigText Entry

/-- What the system answers to `shutil.copy2`. -/
inductive CopyAnswer where
  | done
  /-- An error before the copy was created. -/
  | refused
  /-- An error after the first bytes were written. -/
  | broken (copied : Nat)
  deriving DecidableEq

/-- What the system answers to `write_text`. -/
inductive WriteAnswer where
  | done
  /-- The file cannot be opened. -/
  | refused
  /-- An error after the first bytes were written. -/
  | broken (written : Nat)
  deriving DecidableEq

/-- The answers to the calls of one migration, and how a floating point number is spelled. -/
structure MigrationCalls where
  /-- `Path.exists` passes on an error about this path. -/
  probeFails : ConfigText → Bool
  copy : CopyAnswer
  write : WriteAnswer
  floatRepr : PyFloat → ConfigText

namespace ConfigLoader

variable (calls : MigrationCalls) (configPath : ConfigText)

/-- `".v1.bak"` after the path, and from the second name on a number. -/
def backupName (n : Nat) : ConfigText :=
  if n = 0 then configPath ++ codePoints ".v1.bak"
  else configPath ++ codePoints ".v1.bak" ++ codePoints s!".{n}"

/-- The first name from the number on that is free. -/
def searchBackup (dir : ConfigDir) : Nat → Nat → Except PyError ConfigText
  | 0, n => .ok (backupName configPath n)
  | fuel + 1, n =>
      if calls.probeFails (backupName configPath n) then .error .osError
      else if dir.get (backupName configPath n) = none then .ok (backupName configPath n)
      else searchBackup dir fuel (n + 1)

/-- `_resolve_backup_path`. With one more try than there are names, the search ends at a free one. -/
def resolveBackupPath (dir : ConfigDir) : Except PyError ConfigText :=
  searchBackup calls configPath dir (dir.rows.length + 1) 0

/-- `shutil.copy2`. -/
def copy2 (dir : ConfigDir) (src dst : ConfigText) : ConfigDir × Except PyError Unit :=
  match dir.get src with
  | some (.file data) =>
      match calls.copy with
      | .done => (dir.put dst (.file data), .ok ())
      | .refused => (dir, .error .osError)
      | .broken copied => (dir.put dst (.file (data.take copied)), .error .osError)
  | _ => (dir, .error .osError)

/-- `write_text`: the file is empty once it is open, and the whole text is encoded before the first byte
is written. -/
def writeText (dir : ConfigDir) (path text : ConfigText) : ConfigDir × Except PyError Unit :=
  match calls.write, JsonWriter.encodeUtf8 text with
  | .refused, _ => (dir, .error .osError)
  | _, none => (dir.put path (.file []), .error .unicodeEncodeError)
  | .broken written, some bytes => (dir.put path (.file (bytes.take written)), .error .osError)
  | .done, some bytes => (dir.put path (.file bytes), .ok ())

/-- The object of version 2. -/
def migrated (config : ConfigObject) : ConfigObject :=
  ((((config.pop "webdav").setItem "version" (.int 2)).setItem "server"
    (.dict [(codePoints "url", .null)])).setItem "sync"
    (.dict [(codePoints "interval_seconds", .int 30),
      (codePoints "conflict_strategy", .str (codePoints "copy"))])).setItem "p2p"
    (.dict [(codePoints "port", .int 9090), (codePoints "enabled", .bool false)])

/-- `except OSError`: any other exception goes on. -/
def wrapOsError : PyError → PyError
  | .osError => .configMigrationError
  | e => e

/-- `migrate_v1_to_v2`, with the directory it leaves. -/
def migrateV1ToV2 (config : ConfigObject) (dir : ConfigDir) :
    ConfigDir × Except PyError ConfigObject :=
  match resolveBackupPath calls configPath dir with
  | .error e => (dir, .error e)
  | .ok backupPath =>
      match copy2 calls dir configPath backupPath with
      | (dir, .error e) => (dir, .error (wrapOsError e))
      | (dir, .ok ()) =>
          let data := migrated config
          match writeText calls dir configPath (JsonWriter.dumps calls.floatRepr data) with
          | (dir, .error e) => (dir, .error (wrapOsError e))
          | (dir, .ok ()) => (dir, .ok data)

/-! ### The name of the backup -/

theorem backupName_injective : Function.Injective (backupName configPath) := by
  intro m n h
  unfold backupName at h
  split_ifs at h with hm hn hn
  · rw [hm, hn]
  · exact absurd (List.self_eq_append_right.mp h) (by simp [codePoints])
  · exact absurd (List.self_eq_append_right.mp h.symm) (by simp [codePoints])
  · have htext := congrArg String.toList (codePoints_injective (List.append_cancel_left h))
    rw [String.toList_append, String.toList_append] at htext
    have hdigits : (toString m).toList = (toString n).toList := List.append_cancel_left htext
    rw [Nat.toString_eq_repr, Nat.toString_eq_repr, Nat.toList_repr, Nat.toList_repr] at hdigits
    exact Text.decimal_injective hdigits

variable {calls configPath}

/-- The search ends at the first free name, where there is one among its tries. -/
theorem searchBackup_ok {dir : ConfigDir} {fuel n : Nat} {backupPath : ConfigText}
    (hfree : ∃ m, n ≤ m ∧ m < n + fuel ∧ dir.get (backupName configPath m) = none)
    (h : searchBackup calls configPath dir fuel n = .ok backupPath) :
    ∃ m, n ≤ m ∧ backupPath = backupName configPath m ∧ dir.get backupPath = none ∧
      ∀ i, n ≤ i → i < m → dir.get (backupName configPath i) ≠ none := by
  induction fuel generalizing n with
  | zero =>
      obtain ⟨m, h1, h2, -⟩ := hfree
      omega
  | succ fuel ih =>
      rw [searchBackup] at h
      split_ifs at h with hprobe hn
      · rw [Except.ok.injEq] at h
        refine ⟨n, Nat.le_refl n, h.symm, h ▸ hn, fun i h1 h2 => ?_⟩
        omega
      · obtain ⟨m, h1, h2, hm⟩ := hfree
        have hlt : n < m := Nat.lt_of_le_of_ne h1 fun heq => hn (heq ▸ hm)
        obtain ⟨m', h1', hname, hnone, htaken⟩ := ih ⟨m, hlt, by omega, hm⟩ h
        refine ⟨m', by omega, hname, hnone, fun i hi1 hi2 => ?_⟩
        rcases Nat.eq_or_lt_of_le hi1 with rfl | hlt'
        · exact hn
        · exact htaken i hlt' hi2

/-- **The backup gets the first name that is free.** -/
theorem resolveBackupPath_ok {dir : ConfigDir} {backupPath : ConfigText}
    (h : resolveBackupPath calls configPath dir = .ok backupPath) :
    ∃ n, backupPath = backupName configPath n ∧ dir.get backupPath = none ∧
      ∀ i < n, dir.get (backupName configPath i) ≠ none := by
  obtain ⟨m, hm, hfree⟩ := dir.exists_get_eq_none (backupName_injective configPath)
  obtain ⟨n, -, hname, hnone, htaken⟩ := searchBackup_ok ⟨m, Nat.zero_le m, by omega, hfree⟩ h
  exact ⟨n, hname, hnone, fun i hi => htaken i (Nat.zero_le i) hi⟩

/-! ### The object of version 2 -/

/-- The keys the migration removes or sets. -/
def migratedKeys : List ConfigText :=
  ["webdav", "version", "server", "sync", "p2p"].map codePoints

/-- **The other fields are kept.** -/
theorem lookup_migrated (config : ConfigObject) {k : ConfigText} (hk : k ∉ migratedKeys) :
    Json.lookup k (migrated config) = Json.lookup k config := by
  simp only [migratedKeys, List.map_cons, List.map_nil, List.mem_cons, List.not_mem_nil, or_false,
    not_or] at hk
  obtain ⟨hwebdav, hversion, hserver, hsync, hp2p⟩ := hk
  unfold migrated
  rw [ConfigObject.lookup_setItem, if_neg hp2p, ConfigObject.lookup_setItem, if_neg hsync,
    ConfigObject.lookup_setItem, if_neg hserver, ConfigObject.lookup_setItem, if_neg hversion,
    ConfigObject.lookup_pop, if_neg hwebdav]

theorem get_migrated (config : ConfigObject) {key : String} (hk : codePoints key ∉ migratedKeys) :
    (migrated config).get key = config.get key := by
  unfold ConfigObject.get Json.get
  rw [lookup_migrated config hk]

theorem get_migrated_set (config : ConfigObject) :
    (migrated config).get "version" = .int 2 ∧
    (migrated config).get "server" = .dict [(codePoints "url", .null)] ∧
    (migrated config).get "sync" = .dict [(codePoints "interval_seconds", .int 30),
      (codePoints "conflict_strategy", .str (codePoints "copy"))] ∧
    (migrated config).get "p2p" = .dict [(codePoints "port", .int 9090),
      (codePoints "enabled", .bool false)] := by
  simp [ConfigObject.get, Json.get, migrated, ConfigObject.lookup_setItem, codePoints_inj]

variable {env : PathChecks}

theorem local_of_validateSource {index : Nat} {source : ConfigObject}
    (h : validateSource env index source = .ok []) :
    HasType source "directory" ∨ HasType source "loopback" := by
  by_contra hlocal
  obtain ⟨hdir, hloop⟩ := not_or.mp hlocal
  unfold validateSource at h
  dsimp only at h
  rw [if_neg (mt Json.eq_str_iff.mp hdir), if_neg (mt Json.eq_str_iff.mp hloop)] at h
  cases h

/-- A source that version 1 accepts is a local one, and version 2 asks the same of it. -/
theorem validateSourceV2_of_validateSource {index : Nat} {source : ConfigObject}
    (h : validateSource env index source = .ok []) : validateSourceV2 env index source = .ok [] := by
  have hlocal := local_of_validateSource h
  have hremote : ¬ HasType source "remote" := by
    intro hremote
    rcases hlocal with hdir | hloop
    · exact codePoints_ne (mt codePoints_inj.mp (by decide)) hdir hremote
    · exact codePoints_ne (mt codePoints_inj.mp (by decide)) hloop hremote
  unfold validateSourceV2
  dsimp only
  rw [if_neg (mt Json.eq_str_iff.mp hremote), if_pos, h]
  rw [Bool.or_eq_true, Json.eq_str_iff, Json.eq_str_iff]
  exact hlocal

theorem validateEach_eq_nil_of_imp {check check' : Nat → ConfigObject → Except PyError (List Message)}
    (himp : ∀ index source, check index source = .ok [] → check' index source = .ok []) {index : Nat}
    {items : List ConfigValue} (h : validateEach check index items = .ok []) :
    validateEach check' index items = .ok [] := by
  induction items generalizing index with
  | nil => rfl
  | cons x rest ih =>
      obtain ⟨source, own, more, hx, hown, hmore, hnil⟩ := validateEach_cons.mp h
      obtain ⟨rfl, rfl⟩ := List.append_eq_nil_iff.mp hnil.symm
      exact validateEach_cons.mpr
        ⟨source, [], [], hx, himp index source hown, ih hmore, rfl⟩

theorem validateSources_eq_nil_of_imp
    {check check' : Nat → ConfigObject → Except PyError (List Message)}
    (himp : ∀ index source, check index source = .ok [] → check' index source = .ok [])
    {config config' : ConfigObject} (hsources : config'.get "sources" = config.get "sources")
    (h : validateSources check config = .ok []) : validateSources check' config' = .ok [] := by
  unfold validateSources at h ⊢
  rw [hsources]
  split at h
  · cases h
  · cases h
  · exact validateEach_eq_nil_of_imp himp h

theorem validateKeyFile_congr {restorable : Bool} {config config' : ConfigObject}
    (h : config'.get "key_file" = config.get "key_file") :
    validateKeyFile env restorable config' = validateKeyFile env restorable config := by
  unfold validateKeyFile
  rw [h]

/-- What an empty list says of version 1. -/
theorem validateV1_of_validate {config : ConfigObject} (hversion : Versioned config 1)
    (h : validate env config = .ok []) :
    validateSources (validateSource env) config = .ok [] ∧
      validateKeyFile env false config = .ok [] := by
  unfold validate at h
  rw [hversion] at h
  obtain ⟨more, hmore, hnil⟩ := bind_eq_ok_iff.mp h
  rw [Except.ok.injEq, List.append_eq_nil_iff] at hnil
  obtain ⟨sources, hsources, hrest⟩ := bind_eq_ok_iff.mp hmore
  obtain ⟨keyFile, hkeyFile, hmore⟩ := bind_eq_ok_iff.mp hrest
  rw [Except.ok.injEq, hnil.2, List.append_eq_nil_iff] at hmore
  rw [hsources, hkeyFile, hmore.1, hmore.2]
  exact ⟨rfl, rfl⟩

/-- **The checks of version 2 say one thing of what the migration makes**: the section it adds has no
`device_name`. -/
theorem validate_migrated {config : ConfigObject} (hversion : Versioned config 1)
    (hvalid : validate env config = .ok []) :
    validate env (migrated config) = .ok [codePoints "server.device_name: 문자열이어야 합니다"] := by
  obtain ⟨hsources, hkeyFile⟩ := validateV1_of_validate hversion hvalid
  obtain ⟨hversion', hserver, hsync, hp2p⟩ := get_migrated_set config
  have hkept : ∀ key, key = "sources" ∨ key = "key_file" →
      (migrated config).get key = config.get key := by
    intro key hkey
    refine get_migrated config ?_
    rcases hkey with rfl | rfl
    · simp [migratedKeys, codePoints_inj]
    · simp [migratedKeys, codePoints_inj]
  have hsources' : validateSources (validateSourceV2 env) (migrated config) = .ok [] :=
    validateSources_eq_nil_of_imp (fun _ _ => validateSourceV2_of_validateSource)
      (hkept _ (Or.inl rfl)) hsources
  have hurl : (serverUrl (migrated config)).truthy = false := by
    rw [serverUrl, hserver]
    rfl
  have hkeyFile' : validateKeyFile env (serverUrl (migrated config)).truthy (migrated config) =
      .ok [] := by
    rw [hurl, validateKeyFile_congr (hkept _ (Or.inr rfl)), hkeyFile]
  have hsections : ["server", "sync", "p2p"].flatMap (sectionErrors (migrated config)) = [] := by
    simp [sectionErrors, hserver, hsync, hp2p, Json.members?]
  have hserverErrors : checkSection (migrated config) "server" validateServer =
      [codePoints "server.device_name: 문자열이어야 합니다"] := by
    rw [checkSection, hserver]
    rfl
  have hsyncErrors : checkSection (migrated config) "sync" validateSync = [] := by
    rw [checkSection, hsync]
    rfl
  have hp2pErrors : checkSection (migrated config) "p2p" validateP2p = [] := by
    rw [checkSection, hp2p]
    rfl
  have hversionErrors : versionErrors (migrated config) = [] := by
    rw [versionErrors, hversion']
    rfl
  have hv2 : validateV2 env (migrated config) =
      .ok [codePoints "server.device_name: 문자열이어야 합니다"] := by
    rw [validateV2, hsources', hkeyFile', hsections, hserverErrors, hsyncErrors, hp2pErrors]
    rfl
  rw [validate, hversionErrors, hversion', hv2]
  rfl

theorem not_accepted_migrated {config : ConfigObject} (hversion : Versioned config 1)
    (hvalid : validate env config = .ok []) : validate env (migrated config) ≠ .ok [] := by
  intro haccepted
  cases (validate_migrated hversion hvalid).symm.trans haccepted

/-! ### A migration and the directory it leaves -/

theorem backupName_ne (n : Nat) : backupName configPath n ≠ configPath := by
  intro h
  have hlen := congrArg List.length h
  unfold backupName at hlen
  split_ifs at hlen
  · simp [codePoints] at hlen
  · simp [codePoints] at hlen

theorem resolveBackupPath_ne {dir : ConfigDir} {backupPath : ConfigText}
    (h : resolveBackupPath calls configPath dir = .ok backupPath) : configPath ≠ backupPath := by
  obtain ⟨n, rfl, -⟩ := resolveBackupPath_ok h
  exact (backupName_ne n).symm

variable (calls) in
/-- A copy that succeeds has the bytes of the file; one that fails may leave some of them. -/
theorem copy2_cases (dir : ConfigDir) (src dst : ConfigText) :
    (∃ data, dir.get src = some (.file data) ∧ calls.copy = .done ∧
      copy2 calls dir src dst = (dir.put dst (.file data), .ok ())) ∨
    (((∀ data, dir.get src ≠ some (.file data)) ∨ calls.copy ≠ .done) ∧
      ∃ dir', copy2 calls dir src dst = (dir', .error .osError) ∧
        ∀ k, k ≠ dst → dir'.get k = dir.get k) := by
  unfold copy2
  cases hsrc : dir.get src with
  | none => exact Or.inr ⟨Or.inl (by simp), dir, rfl, fun _ _ => rfl⟩
  | some entry =>
      cases entry with
      | other => exact Or.inr ⟨Or.inl (by simp), dir, rfl, fun _ _ => rfl⟩
      | file data =>
          cases hcopy : calls.copy with
          | done => exact Or.inl ⟨data, rfl, rfl, rfl⟩
          | refused => exact Or.inr ⟨Or.inr (by simp), dir, rfl, fun _ _ => rfl⟩
          | broken copied =>
              exact Or.inr ⟨Or.inr (by simp), _, rfl, fun k hk => Table.get_put_of_ne dir _ hk⟩

/-- What is left of the file where the text is not written: nothing of a text without an encoding, the
first bytes where the system breaks off. -/
inductive Torn (calls : MigrationCalls) (text : ConfigText) : Bytes → Prop where
  | unencodable (opened : calls.write ≠ .refused) (encode : JsonWriter.encodeUtf8 text = none) :
      Torn calls text []
  | broken {written : Nat} {bytes : Bytes} (write : calls.write = .broken written)
      (encode : JsonWriter.encodeUtf8 text = some bytes) : Torn calls text (bytes.take written)

theorem Torn.opened_ne {text : ConfigText} {left : Bytes} (h : Torn calls text left) :
    calls.write ≠ .refused := by
  cases h with
  | unencodable opened => exact opened
  | broken write => simp [write]

theorem Torn.eq {text : ConfigText} {left left' : Bytes} (h : Torn calls text left)
    (h' : Torn calls text left') : left = left' := by
  cases h with
  | unencodable _ encode =>
      cases h' with
      | unencodable => rfl
      | broken _ encode' => cases encode.symm.trans encode'
  | broken write encode =>
      cases h' with
      | unencodable _ encode' => cases encode.symm.trans encode'
      | broken write' encode' =>
          rw [write, WriteAnswer.broken.injEq] at write'
          rw [encode, Option.some_inj] at encode'
          rw [write', encode']

/-- A text that is written whole is not torn. -/
theorem not_torn_of_done {text : ConfigText} {bytes left : Bytes} (hdone : calls.write = .done)
    (hencode : JsonWriter.encodeUtf8 text = some bytes) : ¬ Torn calls text left := by
  intro h
  cases h with
  | unencodable _ encode => cases encode.symm.trans hencode
  | broken write => cases write.symm.trans hdone

variable (calls) in
theorem writeText_cases (dir : ConfigDir) (path text : ConfigText) :
    (calls.write = .refused ∧ writeText calls dir path text = (dir, .error .osError)) ∨
    (∃ left e, Torn calls text left ∧
      writeText calls dir path text = (dir.put path (.file left), .error e)) ∨
    (∃ bytes, calls.write = .done ∧ JsonWriter.encodeUtf8 text = some bytes ∧
      writeText calls dir path text = (dir.put path (.file bytes), .ok ())) := by
  unfold writeText
  cases hwrite : calls.write with
  | refused => exact Or.inl ⟨rfl, rfl⟩
  | done =>
      cases hencode : JsonWriter.encodeUtf8 text with
      | none => exact Or.inr (Or.inl ⟨_, _, .unencodable (by simp [hwrite]) hencode, rfl⟩)
      | some bytes => exact Or.inr (Or.inr ⟨bytes, rfl, rfl, rfl⟩)
  | broken written =>
      cases hencode : JsonWriter.encodeUtf8 text with
      | none => exact Or.inr (Or.inl ⟨_, _, .unencodable (by simp [hwrite]) hencode, rfl⟩)
      | some bytes => exact Or.inr (Or.inl ⟨_, _, .broken hwrite hencode, rfl⟩)

variable (calls configPath) in
/-- The text the migration writes. -/
def migratedText (config : ConfigObject) : ConfigText :=
  JsonWriter.dumps calls.floatRepr (migrated config)

variable (calls configPath) in
/-- The migration stops before it opens the configuration file for writing. -/
def StopsBefore (dir : ConfigDir) : Prop :=
  (∃ e, resolveBackupPath calls configPath dir = .error e) ∨
    (∀ original, dir.get configPath ≠ some (.file original)) ∨ calls.copy ≠ .done ∨
    calls.write = .refused

theorem not_stopsBefore {dir : ConfigDir} {original : Bytes} {backupPath : ConfigText}
    (hfile : dir.get configPath = some (.file original))
    (hresolve : resolveBackupPath calls configPath dir = .ok backupPath) (hcopy : calls.copy = .done)
    (hwrite : calls.write ≠ .refused) : ¬ StopsBefore calls configPath dir := by
  rintro (⟨e, he⟩ | hnone | hfails | hrefused)
  · cases he.symm.trans hresolve
  · exact hnone original hfile
  · exact hfails hcopy
  · exact hwrite hrefused

variable (calls configPath) in
/-- What the migration leaves and answers once the copy is made: the three ends of the writing. -/
theorem migrateV1ToV2_cases (config : ConfigObject) (dir : ConfigDir) :
    (StopsBefore calls configPath dir ∧ ∃ dir' e,
      migrateV1ToV2 calls configPath config dir = (dir', .error e) ∧
      dir'.get configPath = dir.get configPath) ∨
    ∃ original backupPath, dir.get configPath = some (.file original) ∧
      resolveBackupPath calls configPath dir = .ok backupPath ∧ calls.copy = .done ∧
      ((∃ left e, Torn calls (migratedText calls config) left ∧
        migrateV1ToV2 calls configPath config dir =
          ((dir.put backupPath (.file original)).put configPath (.file left), .error e)) ∨
      (∃ bytes, calls.write = .done ∧
        JsonWriter.encodeUtf8 (migratedText calls config) = some bytes ∧
        migrateV1ToV2 calls configPath config dir =
          ((dir.put backupPath (.file original)).put configPath (.file bytes),
            .ok (migrated config)))) := by
  cases hresolve : resolveBackupPath calls configPath dir with
  | error e =>
      refine Or.inl ⟨Or.inl ⟨e, hresolve⟩, dir, e, ?_, rfl⟩
      rw [migrateV1ToV2, hresolve]
  | ok backupPath =>
      have hne := resolveBackupPath_ne hresolve
      rcases copy2_cases calls dir configPath backupPath with
        ⟨original, hfile, hcopy, hcopied⟩ | ⟨hfails, dir', hcopied, hother⟩
      · rcases writeText_cases calls (dir.put backupPath (.file original)) configPath
            (migratedText calls config) with
          ⟨hrefused, hwritten⟩ | ⟨left, e, htorn, hwritten⟩ | ⟨bytes, hdone, hencode, hwritten⟩
        · refine Or.inl ⟨Or.inr (Or.inr (Or.inr hrefused)), _, .configMigrationError, ?_,
            Table.get_put_of_ne dir (.file original) hne⟩
          rw [migratedText] at hwritten
          rw [migrateV1ToV2, hresolve]
          simp only [hcopied, hwritten, wrapOsError]
        · refine Or.inr ⟨original, backupPath, hfile, rfl, hcopy,
            Or.inl ⟨left, wrapOsError e, htorn, ?_⟩⟩
          rw [migratedText] at hwritten
          rw [migrateV1ToV2, hresolve]
          simp only [hcopied, hwritten]
        · refine Or.inr ⟨original, backupPath, hfile, rfl, hcopy,
            Or.inr ⟨bytes, hdone, hencode, ?_⟩⟩
          rw [migratedText] at hwritten
          rw [migrateV1ToV2, hresolve]
          simp only [hcopied, hwritten]
      · refine Or.inl ⟨Or.inr (hfails.elim Or.inl fun h => Or.inr (Or.inl h)), dir',
          .configMigrationError, ?_, hother configPath hne⟩
        rw [migrateV1ToV2, hresolve]
        simp only [hcopied, wrapOsError]

/-- What a migration that returns writes and keeps. -/
structure Preserved (calls : MigrationCalls) (configPath : ConfigText) (config : ConfigObject)
    (dir dir' : ConfigDir) (data : ConfigObject) : Prop where
  version : Versioned data 2
  kept : ∀ k ∉ migratedKeys, Json.lookup k data = Json.lookup k config
  written : ∃ bytes, JsonWriter.encodeUtf8 (JsonWriter.dumps calls.floatRepr data) = some bytes ∧
    dir'.get configPath = some (.file bytes)
  backup : ∃ original backupPath, dir.get configPath = some (.file original) ∧
    dir.get backupPath = none ∧ dir'.get backupPath = some (.file original)

/-- What is promised of a migration that returns. -/
structure Usable (env : PathChecks) (calls : MigrationCalls) (configPath : ConfigText)
    (config : ConfigObject) (dir dir' : ConfigDir) (data : ConfigObject) : Prop extends
    Preserved calls configPath config dir dir' data where
  accepted : validate env data = .ok []

/-- The migration gives a usable configuration, or raises and leaves the file as it was. -/
structure MigratesWell (env : PathChecks) (calls : MigrationCalls) (configPath : ConfigText)
    (config : ConfigObject) (dir : ConfigDir) : Prop where
  usable : ∀ dir' data, migrateV1ToV2 calls configPath config dir = (dir', .ok data) →
    Usable env calls configPath config dir dir' data
  unchanged : ∀ dir' e, migrateV1ToV2 calls configPath config dir = (dir', .error e) →
    dir'.get configPath = dir.get configPath

/-- **A migration that returns** keeps the other fields, writes what it returns, and leaves the
original bytes under a name that was free. -/
theorem preserved_of_ok {config data : ConfigObject} {dir dir' : ConfigDir}
    (h : migrateV1ToV2 calls configPath config dir = (dir', .ok data)) :
    Preserved calls configPath config dir dir' data := by
  rcases migrateV1ToV2_cases calls configPath config dir with
    ⟨-, dir'', e, hend, -⟩ |
    ⟨original, backupPath, hfile, hresolve, -, ⟨left, e, -, hend⟩ | ⟨bytes, -, hencode, hend⟩⟩
  · rw [hend, Prod.mk.injEq] at h
    cases h.2
  · rw [hend, Prod.mk.injEq] at h
    cases h.2
  · rw [hend, Prod.mk.injEq, Except.ok.injEq] at h
    obtain ⟨rfl, rfl⟩ := h
    obtain ⟨n, -, hfree, -⟩ := resolveBackupPath_ok hresolve
    refine ⟨?_, fun k hk => lookup_migrated config hk, ⟨bytes, hencode, by simp⟩,
      original, backupPath, hfile, hfree, ?_⟩
    · rw [Versioned, (get_migrated_set config).1]
      rfl
    · rw [Table.get_put_of_ne _ _ (resolveBackupPath_ne hresolve).symm, Table.get_put_self]

/-- The configuration file is not changed: the migration stops before it opens the file, or the writing
breaks off and leaves the bytes that were there. -/
def Spared (calls : MigrationCalls) (configPath : ConfigText) (config : ConfigObject)
    (dir : ConfigDir) : Prop :=
  StopsBefore calls configPath dir ∨
    ∃ original, dir.get configPath = some (.file original) ∧
      Torn calls (migratedText calls config) original

theorem not_migratesWell_of_done {config : ConfigObject} {dir : ConfigDir} {bytes : Bytes}
    (hversion : Versioned config 1) (hvalid : validate env config = .ok [])
    (hgo : ¬ StopsBefore calls configPath dir) (hdone : calls.write = .done)
    (hencode : JsonWriter.encodeUtf8 (migratedText calls config) = some bytes) :
    ¬ MigratesWell env calls configPath config dir := by
  rcases migrateV1ToV2_cases calls configPath config dir with
    ⟨hstops, -⟩ | ⟨original, backupPath, -, -, -, ⟨left, e, htorn, -⟩ | ⟨bytes', -, -, hend⟩⟩
  · exact absurd hstops hgo
  · exact absurd htorn (not_torn_of_done hdone hencode)
  · intro hwell
    exact not_accepted_migrated hversion hvalid (hwell.usable _ _ hend).accepted

theorem migratesWell_of_error {config : ConfigObject} {dir dir' : ConfigDir} {e : PyError}
    (hend : migrateV1ToV2 calls configPath config dir = (dir', .error e)) :
    MigratesWell env calls configPath config dir ↔ dir'.get configPath = dir.get configPath := by
  constructor
  · exact fun hwell => hwell.unchanged _ _ hend
  · intro hsame
    refine ⟨fun dir'' data hok => ?_, fun dir'' e' herror => ?_⟩
    · rw [hend, Prod.mk.injEq] at hok
      cases hok.2
    · rw [hend, Prod.mk.injEq] at herror
      rw [← herror.1]
      exact hsame

/-- **A migration meets its promise only where it changes nothing.** -/
theorem migratesWell_iff {config : ConfigObject} (hversion : Versioned config 1)
    (hvalid : validate env config = .ok []) (dir : ConfigDir) :
    MigratesWell env calls configPath config dir ↔ Spared calls configPath config dir := by
  unfold Spared
  rcases migrateV1ToV2_cases calls configPath config dir with
    ⟨hstops, dir', e, hend, hsame⟩ |
    ⟨original, backupPath, hfile, hresolve, hcopy, ⟨left, e, htorn, hend⟩ |
      ⟨bytes, hdone, hencode, hend⟩⟩
  · exact iff_of_true ((migratesWell_of_error hend).mpr hsame) (Or.inl hstops)
  · have hgo := not_stopsBefore hfile hresolve hcopy htorn.opened_ne
    rw [migratesWell_of_error hend, Table.get_put_self, hfile, Option.some_inj, Entry.file.injEq]
    constructor
    · intro heq
      exact Or.inr ⟨original, rfl, heq ▸ htorn⟩
    · rintro (hstops | ⟨original', horiginal, htorn'⟩)
      · exact absurd hstops hgo
      · rw [Option.some_inj, Entry.file.injEq] at horiginal
        rw [horiginal]
        exact htorn.eq htorn'
  · have hgo := not_stopsBefore hfile hresolve hcopy (by simp [hdone])
    refine iff_of_false (not_migratesWell_of_done hversion hvalid hgo hdone hencode) ?_
    rintro (hstops | ⟨original', -, htorn⟩)
    · exact hgo hstops
    · exact not_torn_of_done hdone hencode htorn

/-- A system on which every path is there and every call succeeds. -/
def allThere : PathChecks where
  exists? _ := some true
  isDir _ := true
  isFile _ := true
  accessible _ := true
  parentWritable _ := true

def allDone : MigrationCalls where
  probeFails _ := false
  copy := .done
  write := .done
  floatRepr _ := []

/-- A configuration of version 1 with one loopback volume. -/
def oneVolume : ConfigObject :=
  [(codePoints "version", .int 1),
    (codePoints "webdav", .dict [(codePoints "port", .int 8080)]),
    (codePoints "sources", .list [.dict
      [(codePoints "type", .str (codePoints "loopback")), (codePoints "id", .str (codePoints "v1")),
        (codePoints "path", .str (codePoints "/abs/vol.img")), (codePoints "size", .int 10485760)]]),
    (codePoints "metadata_db", .str (codePoints "metadata.db"))]

/-- The file of that configuration, beside a backup of an earlier one. -/
def oneBackup : ConfigDir :=
  (Table.empty.put (codePoints "/c.json") (.file [123, 125])).put (codePoints "/c.json.v1.bak")
    (.file [])

theorem oneVolume_version : Versioned oneVolume 1 := by decide

theorem oneVolume_valid : validate allThere oneVolume = .ok [] := by rfl

theorem migratesWell_iff_oneVolume :
    (Versioned oneVolume 1 ∧ validate allThere oneVolume = .ok []) ∧
      (MigratesWell allThere allDone (codePoints "/c.json") oneVolume oneBackup ↔
        Spared allDone (codePoints "/c.json") oneVolume oneBackup) :=
  ⟨⟨oneVolume_version, oneVolume_valid⟩,
    migratesWell_iff oneVolume_version oneVolume_valid oneBackup⟩

/-- The object that is returned is one that `validate` complains about. -/
theorem migrated_without_deviceName :
    ¬ ∀ (env : PathChecks) (calls : MigrationCalls) (configPath : ConfigText) (config : ConfigObject)
      (dir : ConfigDir), Versioned config 1 → validate env config = .ok [] →
        MigratesWell env calls configPath config dir := by
  intro h
  have hencode : (JsonWriter.encodeUtf8 (migratedText allDone oneVolume)).isSome = true := by
    decide +kernel
  obtain ⟨bytes, hbytes⟩ := Option.isSome_iff_exists.mp hencode
  have hfile : oneBackup.get (codePoints "/c.json") = some (.file [123, 125]) := by decide +kernel
  have hresolve : resolveBackupPath allDone (codePoints "/c.json") oneBackup =
      .ok (codePoints "/c.json.v1.bak.1") := by decide +kernel
  have hgo := not_stopsBefore hfile hresolve rfl (by decide)
  exact not_migratesWell_of_done oneVolume_version oneVolume_valid hgo rfl hbytes
    (h _ _ _ _ _ oneVolume_version oneVolume_valid)

end ConfigLoader

end StardustFS
