import StardustFS.FsEncoding
import StardustFS.JsonValue

/-! The configuration file: what `validate` asks of a JSON object, in either version. -/

namespace StardustFS

open FsEncoding

/-- A string of the file, which may hold lone surrogates. -/
abbrev ConfigText := List CodePoint

abbrev ConfigValue := Json CodePoint

/-- The members of a JSON object. -/
abbrev ConfigObject := List (ConfigText × ConfigValue)

namespace ConfigObject

/-- `data.get(key)`. -/
def get (data : ConfigObject) (key : String) : ConfigValue := Json.get data (codePoints key)

/-- `data.get(key, default)`. -/
def getD (data : ConfigObject) (key : String) (default : ConfigValue) : ConfigValue :=
  (Json.lookup (codePoints key) data).getD default

/-- `key in data`. -/
def contains (data : ConfigObject) (key : String) : Bool :=
  (Json.lookup (codePoints key) data).isSome

end ConfigObject

/-- The exceptions of the configuration and of the start. -/
inductive PyError where
  | attributeError
  | typeError
  | keyError
  | valueError
  | osError
  | unicodeEncodeError
  | configMigrationError
  | keyNotFound
  | invalidKey
  | systemExit
  deriving DecidableEq, Repr

/-- What the file system answers about a path. `Path.exists` passes some errors on. -/
structure PathChecks where
  exists? : ConfigText → Option Bool
  isDir : ConfigText → Bool
  isFile : ConfigText → Bool
  /-- `os.access` with read and write permission. -/
  accessible : ConfigText → Bool
  /-- The parent directory can be written to. -/
  parentWritable : ConfigText → Bool

namespace ConfigLoader

abbrev Message := ConfigText

def minLoopbackSize : Int := 10485760

def maxLoopbackSize : Int := 2199023255552

def minP2pPort : Int := 1024

def maxP2pPort : Int := 65535

def minSyncInterval : Int := 10

def maxSyncInterval : Int := 3600

def minDeviceNameLen : Nat := 1

def maxDeviceNameLen : Nat := 64

def isHexDigit (c : CodePoint) : Bool :=
  (48 ≤ c.val && c.val ≤ 57) || (65 ≤ c.val && c.val ≤ 70) || (97 ≤ c.val && c.val ≤ 102)

/-- `_UUID_RE.match`: the pattern takes a newline after the last digit. -/
def matchesUuid (s : ConfigText) : Bool :=
  let body := if s.getLast? = some 10 then s.dropLast else s
  let groups := body.splitOn 45
  groups.map List.length == [8, 4, 4, 4, 12] && groups.all fun group => group.all isHexDigit

/-- `os.path.isabs`. -/
def isAbs (path : ConfigText) : Bool := path.head? == some 47

variable (env : PathChecks)

/-- The check of `version`; `true` counts as 1. -/
def versionErrors (config : ConfigObject) : List Message :=
  match (config.get "version").int? with
  | none => [codePoints "version: 정수여야 합니다"]
  | some version =>
      if version = 1 ∨ version = 2 then []
      else [codePoints "version: 지원되지 않는 버전입니다 (1 또는 2만 지원)"]

/-- `_validate_source`. -/
def validateSource (index : Nat) (source : ConfigObject) : Except PyError (List Message) :=
  let sourceType := source.get "type"
  if sourceType.eq (.str (codePoints "directory")) then
    match (source.getD "path" (.str [])).str? with
    | none => .error .typeError
    | some path =>
        if !isAbs path then .ok [codePoints s!"sources[{index}].path: 절대 경로여야 합니다"]
        else if !env.isDir path then
          .ok [codePoints s!"sources[{index}].path: 존재하는 디렉토리가 아닙니다: " ++ path]
        else .ok []
  else if sourceType.eq (.str (codePoints "loopback")) then
    match (source.getD "path" (.str [])).str? with
    | none => .error .typeError
    | some path =>
        let pathErrors :=
          if !isAbs path then [codePoints s!"sources[{index}].path: 절대 경로여야 합니다"] else []
        let sizeErrors :=
          match (source.get "size").int? with
          | none => [codePoints s!"sources[{index}].size: 정수여야 합니다"]
          | some size =>
              if minLoopbackSize ≤ size ∧ size ≤ maxLoopbackSize then []
              else [codePoints
                s!"sources[{index}].size: {minLoopbackSize}~{maxLoopbackSize} 바이트 범위여야 합니다"]
        .ok (pathErrors ++ sizeErrors)
  else .ok [codePoints s!"sources[{index}].type: 'directory' 또는 'loopback'이어야 합니다"]

/-- `_validate_remote_source`. -/
def validateRemoteSource (index : Nat) (source : ConfigObject) : List Message :=
  match (source.get "device_id").str? with
  | none => [codePoints s!"sources[{index}].device_id: 문자열이어야 합니다"]
  | some deviceId =>
      if matchesUuid deviceId then []
      else [codePoints s!"sources[{index}].device_id: RFC 4122 UUID 형식이어야 합니다"]

/-- `_validate_source_v2`. -/
def validateSourceV2 (index : Nat) (source : ConfigObject) : Except PyError (List Message) :=
  let sourceType := source.get "type"
  if sourceType.eq (.str (codePoints "remote")) then .ok (validateRemoteSource index source)
  else if sourceType.eq (.str (codePoints "directory")) ||
      sourceType.eq (.str (codePoints "loopback")) then validateSource env index source
  else .ok [codePoints
    s!"sources[{index}].type: 'directory', 'loopback', 또는 'remote'이어야 합니다"]

/-- The loop over the sources. One that is no object has no `get`. -/
def validateEach (check : Nat → ConfigObject → Except PyError (List Message)) :
    Nat → List ConfigValue → Except PyError (List Message)
  | _, [] => .ok []
  | index, source :: rest => do
      let some source := source.members? | .error .attributeError
      let errors ← check index source
      let more ← validateEach check (index + 1) rest
      .ok (errors ++ more)

/-- The check of `sources`, with the check of one source. -/
def validateSources (check : Nat → ConfigObject → Except PyError (List Message))
    (config : ConfigObject) : Except PyError (List Message) :=
  match (config.get "sources").items? with
  | none => .ok [codePoints "sources: 최소 1개의 스토리지 소스가 필요합니다"]
  | some [] => .ok [codePoints "sources: 최소 1개의 스토리지 소스가 필요합니다"]
  | some sources => validateEach check 0 sources

/-- The check of `key_file`; where the server can restore the file, it need not exist. -/
def validateKeyFile (restorable : Bool) (config : ConfigObject) : Except PyError (List Message) :=
  match (config.get "key_file").str? with
  | none => .ok []
  | some keyFile =>
      if restorable then .ok []
      else match env.exists? keyFile with
        | none => .error .osError
        | some true => .ok []
        | some false => .ok [codePoints "key_file: 파일이 존재하지 않습니다: " ++ keyFile]

/-- `_validate_v1`. -/
def validateV1 (config : ConfigObject) : Except PyError (List Message) := do
  let sources ← validateSources (validateSource env) config
  let keyFile ← validateKeyFile env false config
  .ok (sources ++ keyFile)

def serverUrlErrors (server : ConfigObject) : List Message :=
  let url := server.get "url"
  if url.isNull then []
  else match url.str? with
    | none => [codePoints "server.url: 문자열이어야 합니다"]
    | some url =>
        if !(codePoints "https://").isPrefixOf url then
          [codePoints "server.url: 'https://' 스킴으로 시작해야 합니다"]
        else if url.length ≤ 8 then [codePoints "server.url: 호스트명을 포함해야 합니다"]
        else []

def deviceNameErrors (server : ConfigObject) : List Message :=
  match (server.get "device_name").str? with
  | none => [codePoints "server.device_name: 문자열이어야 합니다"]
  | some deviceName =>
      if minDeviceNameLen ≤ deviceName.length ∧ deviceName.length ≤ maxDeviceNameLen then []
      else [codePoints
        s!"server.device_name: {minDeviceNameLen}~{maxDeviceNameLen}자 범위여야 합니다"]

/-- `_validate_server`. -/
def validateServer (server : ConfigObject) : List Message :=
  serverUrlErrors server ++ deviceNameErrors server

/-- `_validate_sync`. -/
def validateSync (sync : ConfigObject) : List Message :=
  let intervalErrors :=
    match (sync.get "interval_seconds").int? with
    | none => [codePoints "sync.interval_seconds: 정수여야 합니다"]
    | some interval =>
        if minSyncInterval ≤ interval ∧ interval ≤ maxSyncInterval then []
        else [codePoints
          s!"sync.interval_seconds: {minSyncInterval}~{maxSyncInterval} 범위여야 합니다"]
  let strategyErrors :=
    if (sync.get "conflict_strategy").eq (.str (codePoints "copy")) then []
    else [codePoints "sync.conflict_strategy: 'copy' 값이어야 합니다"]
  intervalErrors ++ strategyErrors

/-- `_validate_p2p`. -/
def validateP2p (p2p : ConfigObject) : List Message :=
  let portErrors :=
    match (p2p.get "port").int? with
    | none => [codePoints "p2p.port: 정수여야 합니다"]
    | some port =>
        if minP2pPort ≤ port ∧ port ≤ maxP2pPort then []
        else [codePoints s!"p2p.port: {minP2pPort}~{maxP2pPort} 범위여야 합니다"]
  let enabledErrors :=
    match (p2p.get "enabled").bool? with
    | some _ => []
    | none => [codePoints "p2p.enabled: boolean이어야 합니다"]
  portErrors ++ enabledErrors

/-- What is said of a section that is missing or no object. -/
def sectionErrors (config : ConfigObject) (name : String) : List Message :=
  match (config.get name).members? with
  | some _ => []
  | none => [codePoints s!"{name}: 필수 섹션이 누락되었습니다"]

/-- The check of a section that is an object. -/
def checkSection (config : ConfigObject) (name : String) (check : ConfigObject → List Message) :
    List Message :=
  ((config.get name).members?.map check).getD []

/-- `server.get("url") if isinstance(server, dict) else None`. -/
def serverUrl (config : ConfigObject) : ConfigValue :=
  ((config.get "server").members?.map fun server : ConfigObject => server.get "url").getD .null

/-- `_validate_v2`. -/
def validateV2 (config : ConfigObject) : Except PyError (List Message) := do
  let sections := ["server", "sync", "p2p"].flatMap (sectionErrors config)
  let server := checkSection config "server" validateServer
  let sync := checkSection config "sync" validateSync
  let p2p := checkSection config "p2p" validateP2p
  let sources ← validateSources (validateSourceV2 env) config
  let keyFile ← validateKeyFile env (serverUrl config).truthy config
  .ok (sections ++ server ++ sync ++ p2p ++ sources ++ keyFile)

def validate (config : ConfigObject) : Except PyError (List Message) := do
  let errors := versionErrors config
  match (config.get "version").int? with
  | some 2 =>
      let more ← validateV2 env config
      .ok (errors ++ more)
  | some 1 =>
      let more ← validateV1 env config
      .ok (errors ++ more)
  | _ => .ok errors

/-! ### When `validate` returns -/

variable {env}

theorem bind_eq_ok_iff {α β : Type} {x : Except PyError α} {f : α → Except PyError β} {b : β} :
    (x >>= f) = .ok b ↔ ∃ a, x = .ok a ∧ f a = .ok b := by
  cases x with
  | error e => simp [bind, Except.bind]
  | ok a => simp [bind, Except.bind]

theorem validateEach_cons {check : Nat → ConfigObject → Except PyError (List Message)} {index : Nat}
    {x : ConfigValue} {rest : List ConfigValue} {errors : List Message} :
    validateEach check index (x :: rest) = .ok errors ↔ ∃ source own more, x = .dict source ∧
      check index source = .ok own ∧ validateEach check (index + 1) rest = .ok more ∧
      errors = own ++ more := by
  rw [validateEach]
  cases x with
  | dict source =>
      simp only [Json.members?, bind_eq_ok_iff, Except.ok.injEq, Json.dict.injEq]
      constructor
      · rintro ⟨own, hown, more, hmore, rfl⟩
        exact ⟨source, own, more, rfl, hown, hmore, rfl⟩
      · rintro ⟨_, own, more, rfl, hown, hmore, rfl⟩
        exact ⟨own, hown, more, hmore, rfl⟩
  | _ => simp [Json.members?]

/-- The loop returns where every source is an object whose check returns. -/
theorem validateEach_returns_iff {check : Nat → ConfigObject → Except PyError (List Message)}
    {P : ConfigObject → Prop} (hcheck : ∀ index source,
      (∃ errors, check index source = .ok errors) ↔ P source) (index : Nat)
    (items : List ConfigValue) : (∃ errors, validateEach check index items = .ok errors) ↔
      ∀ x ∈ items, ∃ source, x = .dict source ∧ P source := by
  induction items generalizing index with
  | nil => simp [validateEach]
  | cons x rest ih =>
      simp only [List.forall_mem_cons, ← ih (index + 1), validateEach_cons]
      constructor
      · rintro ⟨_, source, own, more, hx, hown, hmore, -⟩
        exact ⟨⟨source, hx, (hcheck index source).mp ⟨own, hown⟩⟩, more, hmore⟩
      · rintro ⟨⟨source, hx, hsource⟩, more, hmore⟩
        obtain ⟨own, hown⟩ := (hcheck index source).mpr hsource
        exact ⟨own ++ more, source, own, more, hx, hown, hmore, rfl⟩

/-- The loop has nothing to say where no check has. -/
theorem validateEach_eq_nil {check : Nat → ConfigObject → Except PyError (List Message)}
    {index : Nat} {items : List ConfigValue} (h : validateEach check index items = .ok []) :
    ∀ x ∈ items, ∃ source i, x = .dict source ∧ check i source = .ok [] := by
  induction items generalizing index with
  | nil => exact fun x hx => by cases hx
  | cons x rest ih =>
      obtain ⟨source, own, more, hx, hown, hmore, hnil⟩ := validateEach_cons.mp h
      obtain ⟨rfl, rfl⟩ := List.append_eq_nil_iff.mp hnil.symm
      rw [List.forall_mem_cons]
      exact ⟨⟨source, index, hx, hown⟩, ih hmore⟩

/-- The source is of the type. -/
def HasType (source : ConfigObject) (name : String) : Prop :=
  source.get "type" = .str (codePoints name)

/-- A local source says nothing about its path, or a string. -/
def PathIsText (source : ConfigObject) : Prop :=
  HasType source "directory" ∨ HasType source "loopback" →
    ∃ path, source.getD "path" (.str []) = .str path

theorem str?_eq_some_iff {x : ConfigValue} {s : ConfigText} : x.str? = some s ↔ x = .str s := by
  cases x <;> simp [Json.str?]

theorem members?_eq_some_iff {x : ConfigValue} {members : ConfigObject} :
    x.members? = some members ↔ x = .dict members := by
  cases x <;> simp [Json.members?]

theorem items?_eq_some_iff {x : ConfigValue} {items : List ConfigValue} :
    x.items? = some items ↔ x = .list items := by
  cases x <;> simp [Json.items?]

theorem pathIsText_iff_of_local {source : ConfigObject}
    (h : HasType source "directory" ∨ HasType source "loopback") :
    PathIsText source ↔ ∃ path, (source.getD "path" (.str [])).str? = some path := by
  simp only [PathIsText, h, forall_const, str?_eq_some_iff]

variable (env) in
theorem validateSource_returns_iff (index : Nat) (source : ConfigObject) :
    (∃ errors, validateSource env index source = .ok errors) ↔ PathIsText source := by
  unfold validateSource
  dsimp only
  by_cases hdir : HasType source "directory"
  · rw [if_pos (Json.eq_str_iff.mpr hdir), pathIsText_iff_of_local (Or.inl hdir)]
    cases (source.getD "path" (.str [])).str? with
    | none => simp
    | some path =>
        refine iff_of_true ?_ ⟨path, rfl⟩
        dsimp only
        split_ifs <;> exact ⟨_, rfl⟩
  · rw [if_neg (mt Json.eq_str_iff.mp hdir)]
    by_cases hloop : HasType source "loopback"
    · rw [if_pos (Json.eq_str_iff.mpr hloop), pathIsText_iff_of_local (Or.inr hloop)]
      cases (source.getD "path" (.str [])).str? with
      | none => simp
      | some path => exact iff_of_true ⟨_, rfl⟩ ⟨path, rfl⟩
    · rw [if_neg (mt Json.eq_str_iff.mp hloop)]
      exact iff_of_true ⟨_, rfl⟩ fun h => absurd h (not_or.mpr ⟨hdir, hloop⟩)

theorem codePoints_ne {a b : String} (h : codePoints a ≠ codePoints b) {source : ConfigObject}
    (ha : HasType source a) : ¬ HasType source b := by
  intro hb
  rw [HasType, ha, Json.str.injEq] at hb
  exact h hb

variable (env) in
theorem validateSourceV2_returns_iff (index : Nat) (source : ConfigObject) :
    (∃ errors, validateSourceV2 env index source = .ok errors) ↔ PathIsText source := by
  unfold validateSourceV2
  dsimp only
  by_cases hremote : HasType source "remote"
  · rw [if_pos (Json.eq_str_iff.mpr hremote)]
    refine iff_of_true ⟨_, rfl⟩ fun h => ?_
    rcases h with h | h
    · exact absurd h (codePoints_ne (by decide) hremote)
    · exact absurd h (codePoints_ne (by decide) hremote)
  · rw [if_neg (mt Json.eq_str_iff.mp hremote)]
    by_cases hlocal : HasType source "directory" ∨ HasType source "loopback"
    · have hif : ((source.get "type").eq (.str (codePoints "directory")) ||
          (source.get "type").eq (.str (codePoints "loopback"))) = true := by
        rw [Bool.or_eq_true, Json.eq_str_iff, Json.eq_str_iff]
        exact hlocal
      rw [if_pos hif]
      exact validateSource_returns_iff env index source
    · have hif : ¬ ((source.get "type").eq (.str (codePoints "directory")) ||
          (source.get "type").eq (.str (codePoints "loopback"))) = true := by
        rw [Bool.or_eq_true, Json.eq_str_iff, Json.eq_str_iff]
        exact hlocal
      rw [if_neg hif]
      exact iff_of_true ⟨_, rfl⟩ fun h => absurd h hlocal

/-- Every source is an object, and a local one has a string for its path. -/
def SourcesCheckable (config : ConfigObject) : Prop :=
  ∀ items, config.get "sources" = .list items →
    ∀ x ∈ items, ∃ source, x = .dict source ∧ PathIsText source

theorem validateSources_returns_iff {check : Nat → ConfigObject → Except PyError (List Message)}
    (hcheck : ∀ index source, (∃ errors, check index source = .ok errors) ↔ PathIsText source)
    (config : ConfigObject) :
    (∃ errors, validateSources check config = .ok errors) ↔ SourcesCheckable config := by
  unfold validateSources SourcesCheckable
  cases hitems : (config.get "sources").items? with
  | none =>
      refine iff_of_true ⟨_, rfl⟩ fun items h => ?_
      rw [items?_eq_some_iff.mpr h] at hitems
      cases hitems
  | some items =>
      have honly : ∀ items', config.get "sources" = .list items' ↔ items' = items := by
        intro items'
        rw [← items?_eq_some_iff, hitems, Option.some_inj, eq_comm]
      simp only [honly, forall_eq]
      cases items with
      | nil => simp
      | cons x rest => exact validateEach_returns_iff hcheck 0 (x :: rest)

/-- The system answers whether the key file is there, where that is asked. -/
def KeyFileCheckable (env : PathChecks) (restorable : Bool) (config : ConfigObject) : Prop :=
  ∀ keyFile, config.get "key_file" = .str keyFile → restorable = false → env.exists? keyFile ≠ none

theorem validateKeyFile_returns_iff (restorable : Bool) (config : ConfigObject) :
    (∃ errors, validateKeyFile env restorable config = .ok errors) ↔
      KeyFileCheckable env restorable config := by
  unfold validateKeyFile KeyFileCheckable
  simp only [← str?_eq_some_iff]
  cases (config.get "key_file").str? with
  | none => simp
  | some keyFile =>
      cases restorable with
      | true => simp
      | false =>
          simp only [Bool.false_eq_true, if_false, Option.some_inj, forall_eq', forall_const]
          cases env.exists? keyFile with
          | none => simp
          | some found => cases found <;> simp

/-- The version of the object, where it is one of the two. -/
def Versioned (config : ConfigObject) (version : Int) : Prop :=
  (config.get "version").int? = some version

instance (config : ConfigObject) (version : Int) : Decidable (Versioned config version) :=
  inferInstanceAs (Decidable (_ = _))

/-- What the checks of either version can be made of. -/
def Checkable (env : PathChecks) (config : ConfigObject) : Prop :=
  (Versioned config 1 ∨ Versioned config 2 → SourcesCheckable config) ∧
    (Versioned config 1 → KeyFileCheckable env false config) ∧
    (Versioned config 2 → KeyFileCheckable env (serverUrl config).truthy config)

theorem validateV1_returns_iff (config : ConfigObject) :
    (∃ errors, validateV1 env config = .ok errors) ↔
      SourcesCheckable config ∧ KeyFileCheckable env false config := by
  rw [← validateSources_returns_iff (validateSource_returns_iff env),
    ← validateKeyFile_returns_iff]
  simp only [validateV1, bind_eq_ok_iff, Except.ok.injEq]
  constructor
  · rintro ⟨_, sources, hsources, keyFile, hkeyFile, -⟩
    exact ⟨⟨sources, hsources⟩, keyFile, hkeyFile⟩
  · rintro ⟨⟨sources, hsources⟩, keyFile, hkeyFile⟩
    exact ⟨_, sources, hsources, keyFile, hkeyFile, rfl⟩

theorem validateV2_returns_iff (config : ConfigObject) :
    (∃ errors, validateV2 env config = .ok errors) ↔
      SourcesCheckable config ∧ KeyFileCheckable env (serverUrl config).truthy config := by
  rw [← validateSources_returns_iff (validateSourceV2_returns_iff env),
    ← validateKeyFile_returns_iff]
  simp only [validateV2, bind_eq_ok_iff, Except.ok.injEq]
  constructor
  · rintro ⟨_, sources, hsources, keyFile, hkeyFile, -⟩
    exact ⟨⟨sources, hsources⟩, keyFile, hkeyFile⟩
  · rintro ⟨⟨sources, hsources⟩, keyFile, hkeyFile⟩
    exact ⟨_, sources, hsources, keyFile, hkeyFile, rfl⟩

/-- **`validate` returns a list** for the objects whose checks can be made, and for no others. -/
theorem validate_returns_iff (config : ConfigObject) :
    (∃ errors, validate env config = .ok errors) ↔ Checkable env config := by
  unfold validate Checkable Versioned
  split
  · rename_i hversion
    rw [hversion]
    simp only [Option.some_inj, Int.reduceEq, or_true, forall_const, false_implies, true_and]
    rw [← validateV2_returns_iff]
    simp [bind_eq_ok_iff]
  · rename_i hversion
    rw [hversion]
    simp only [Option.some_inj, Int.reduceEq, or_false, forall_const, false_implies, and_true]
    rw [← validateV1_returns_iff]
    simp [bind_eq_ok_iff]
  · rename_i h2 h1
    refine iff_of_true ⟨_, rfl⟩ ⟨?_, fun h => absurd h h1, fun h => absurd h h2⟩
    rintro (h | h)
    · exact absurd h h1
    · exact absurd h h2

/-! ### What an empty list says of version 2 -/

/-- `source[key]`. -/
def Has (source : ConfigObject) (key : String) (value : ConfigValue) : Prop :=
  Json.lookup (codePoints key) source = some value

theorem has_of_get {source : ConfigObject} {key : String} {value : ConfigValue}
    (h : source.get key = value) (hnull : value ≠ .null) : Has source key value := by
  unfold ConfigObject.get Json.get at h
  unfold Has
  cases hlookup : Json.lookup (codePoints key) source with
  | none =>
      rw [hlookup] at h
      exact absurd h.symm hnull
  | some x =>
      rw [hlookup] at h
      rw [← h]
      rfl

/-- A source that the checks of version 2 have nothing to say of. -/
inductive AcceptedSource (env : PathChecks) (source : ConfigObject) : Prop where
  | remote (deviceId : ConfigText) (type : HasType source "remote")
      (device : Has source "device_id" (.str deviceId))
  | directory (path : ConfigText) (type : HasType source "directory")
      (path_eq : Has source "path" (.str path)) (isDir : env.isDir path = true)
  | loopback (path : ConfigText) (size : Int) (type : HasType source "loopback")
      (path_eq : Has source "path" (.str path))
      (size_eq : ∃ value, Has source "size" value ∧ value.int? = some size)
      (range : minLoopbackSize ≤ size ∧ size ≤ maxLoopbackSize)

/-- The default of `path` is not absolute, so an absolute path is there. -/
theorem has_path {source : ConfigObject} {path : ConfigText}
    (h : (source.getD "path" (.str [])).str? = some path) (habs : isAbs path = true) :
    Has source "path" (.str path) := by
  rw [str?_eq_some_iff] at h
  unfold ConfigObject.getD at h
  unfold Has
  cases hlookup : Json.lookup (codePoints "path") source with
  | none =>
      rw [hlookup, Option.getD_none, Json.str.injEq] at h
      rw [← h] at habs
      cases habs
  | some x =>
      rw [hlookup, Option.getD_some] at h
      rw [h]

theorem acceptedSource_of_validateSource {index : Nat} {source : ConfigObject}
    (h : validateSource env index source = .ok []) : AcceptedSource env source := by
  unfold validateSource at h
  dsimp only at h
  split at h
  · rename_i hdir
    split at h
    · cases h
    · rename_i path hpath
      split_ifs at h with habs hisDir
      · cases h
      · cases h
      · rw [Bool.not_eq_true, Bool.not_eq_false'] at habs hisDir
        exact .directory path (Json.eq_str_iff.mp hdir) (has_path hpath habs) hisDir
  · split at h
    · rename_i hloop
      split at h
      · cases h
      · rename_i path hpath
        rw [Except.ok.injEq, List.append_eq_nil_iff] at h
        obtain ⟨hpathErrors, hsizeErrors⟩ := h
        have habs : isAbs path = true := by
          by_contra hno
          simp [hno] at hpathErrors
        split at hsizeErrors
        · cases hsizeErrors
        · rename_i size hsize
          split_ifs at hsizeErrors with hrange
          refine .loopback path size (Json.eq_str_iff.mp hloop) (has_path hpath habs)
            ⟨source.get "size", has_of_get rfl fun hnull => ?_, hsize⟩ hrange
          rw [hnull] at hsize
          cases hsize
    · cases h

theorem acceptedSource_of_validateSourceV2 {index : Nat} {source : ConfigObject}
    (h : validateSourceV2 env index source = .ok []) : AcceptedSource env source := by
  unfold validateSourceV2 at h
  dsimp only at h
  split at h
  · rename_i hremote
    rw [Except.ok.injEq] at h
    unfold validateRemoteSource at h
    split at h
    · cases h
    · rename_i deviceId hdevice
      exact .remote deviceId (Json.eq_str_iff.mp hremote)
        (has_of_get (str?_eq_some_iff.mp hdevice) (fun h => by cases h))
  · split at h
    · exact acceptedSource_of_validateSource h
    · cases h

theorem accepted_of_validateSources {config : ConfigObject}
    (h : validateSources (validateSourceV2 env) config = .ok []) :
    ∃ items, config.get "sources" = .list items ∧ items ≠ [] ∧
      ∀ x ∈ items, ∃ source, x = .dict source ∧ AcceptedSource env source := by
  unfold validateSources at h
  split at h
  · cases h
  · cases h
  · rename_i items hnil hitems
    refine ⟨items, items?_eq_some_iff.mp hitems, hnil, fun x hx => ?_⟩
    obtain ⟨source, i, rfl, hcheck⟩ := validateEach_eq_nil h x hx
    exact ⟨source, rfl, acceptedSource_of_validateSourceV2 hcheck⟩

/-- **An empty list** for an object of version 2. -/
theorem accepted_of_validate {config : ConfigObject} (h : validate env config = .ok [])
    (hversion : Versioned config 2) :
    (∃ items, config.get "sources" = .list items ∧ items ≠ [] ∧
      ∀ x ∈ items, ∃ source, x = .dict source ∧ AcceptedSource env source) ∧
    (∃ server, config.get "server" = .dict server ∧ validateServer server = []) ∧
    (∃ sync, config.get "sync" = .dict sync ∧ validateSync sync = []) ∧
    (∃ p2p, config.get "p2p" = .dict p2p ∧ validateP2p p2p = []) := by
  have hv2 : validateV2 env config = .ok [] := by
    unfold validate at h
    rw [hversion] at h
    obtain ⟨more, hmore, hnil⟩ := bind_eq_ok_iff.mp h
    rw [Except.ok.injEq, List.append_eq_nil_iff] at hnil
    rw [hmore, hnil.2]
  obtain ⟨sources, hsources, hrest⟩ := bind_eq_ok_iff.mp hv2
  obtain ⟨keyFile, -, hnil⟩ := bind_eq_ok_iff.mp hrest
  simp only [Except.ok.injEq, List.append_eq_nil_iff] at hnil
  obtain ⟨⟨⟨⟨⟨hsections, hserver⟩, hsync⟩, hp2p⟩, rfl⟩, -⟩ := hnil
  have hsection : ∀ name ∈ ["server", "sync", "p2p"], ∃ members, config.get name = .dict members := by
    intro name hname
    have hnone := List.flatMap_eq_nil_iff.mp hsections name hname
    unfold sectionErrors at hnone
    split at hnone
    · rename_i members hmembers
      exact ⟨members, members?_eq_some_iff.mp hmembers⟩
    · cases hnone
  have hcheck : ∀ (name : String) (check : ConfigObject → List Message) (members : ConfigObject),
      config.get name = .dict members → checkSection config name check = [] → check members = [] := by
    intro name check members hmembers hcheck
    rwa [checkSection, members?_eq_some_iff.mpr hmembers, Option.map_some, Option.getD_some] at hcheck
  obtain ⟨server, hserver'⟩ := hsection "server" (by simp)
  obtain ⟨sync, hsync'⟩ := hsection "sync" (by simp)
  obtain ⟨p2p, hp2p'⟩ := hsection "p2p" (by simp)
  exact ⟨accepted_of_validateSources hsources, ⟨server, hserver', hcheck _ _ _ hserver' hserver⟩,
    ⟨sync, hsync', hcheck _ _ _ hsync' hsync⟩, p2p, hp2p', hcheck _ _ _ hp2p' hp2p⟩

end ConfigLoader

end StardustFS
