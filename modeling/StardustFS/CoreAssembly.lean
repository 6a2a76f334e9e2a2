import StardustFS.ConfigLoader
import StardustFS.MetadataStore

/-! The start of the core. `_build_core` makes the local sources and the volume over them, and
`_mount_remote_sources` adds the proxies of other devices; both take what they need from the
configuration, by index or with a default. A path is a string here, as the checks have it. -/

namespace StardustFS

namespace CoreAssembly

open FsEncoding ConfigLoader

/-- What the start reads besides the configuration. -/
structure Environment where
  paths : PathChecks
  /-- The bytes of a file that is there. -/
  readBytes : ConfigText → Option Bytes
  /-- The variable `STARDUST_KEY`. -/
  keyVariable : Option Bytes
  /-- The database at the path opens and gets its schema. -/
  opensStore : ConfigText → Bool
  /-- The request for a device's address does not raise. -/
  routed : ConfigText → Bool
  /-- The text SQLite makes of a floating point number. -/
  realText : PyFloat → Option ConfigText

/-- `data[key]`. -/
def index (data : ConfigObject) (key : String) : Except PyError ConfigValue :=
  match Json.lookup (codePoints key) data with
  | none => .error .keyError
  | some value => .ok value

/-- The value as an object, of which something is taken. -/
def asObject (value : ConfigValue) : Except PyError ConfigObject :=
  match value.members? with
  | none => .error .attributeError
  | some data => .ok data

def asText (value : ConfigValue) : Except PyError ConfigText :=
  match value.str? with
  | none => .error .typeError
  | some text => .ok text

/-- `for x in value`. -/
def iterate : ConfigValue → Except PyError (List ConfigValue)
  | .list items => .ok items
  | .str s => .ok (s.map fun c => .str [c])
  | .dict members => .ok (members.map fun m => .str m.1)
  | _ => .error .typeError

/-- The value is of the type `name`. -/
def isType (value : ConfigValue) (name : String) : Bool := value.eq (.str (codePoints name))

/-- `hash(x)` is defined. -/
def hashable : ConfigValue → Bool
  | .list _ => false
  | .dict _ => false
  | _ => true

structure LocalSource where
  /-- Its place among the sources of the configuration. -/
  position : Nat
  id : ConfigValue
  path : ConfigText
  sizeBytes : Option Int

/-- A source of the volume. -/
inductive Source where
  | local (source : LocalSource)
  | remote (id : ConfigValue) (deviceId : ConfigText)

def Source.id : Source → ConfigValue
  | .local source => source.id
  | .remote id _ => id

/-- The sources of a `JBODManager` and its `_source_map`. -/
structure Jbod where
  sources : List Source
  sourceMap : List (ConfigValue × Source)

/-- `_source_map[id] = source`, for an id that has a hash. -/
def putSource (sourceMap : List (ConfigValue × Source)) (source : Source) :
    List (ConfigValue × Source) :=
  if sourceMap.any fun x => x.1.eq source.id then
    sourceMap.map fun x => if x.1.eq source.id then (x.1, source) else x
  else sourceMap ++ [(source.id, source)]

/-- `_source_map.get(id)`. -/
def getSource (sourceMap : List (ConfigValue × Source)) (id : ConfigValue) : Option Source :=
  (sourceMap.find? fun x => x.1.eq id).map Prod.snd

/-- `JBODManager.__init__`. -/
def newJbod (sources : List LocalSource) : Except PyError Jbod :=
  if sources.all fun s => hashable s.id then
    .ok ⟨sources.map .local, (sources.map .local).foldl putSource []⟩
  else .error .typeError

/-! ### `_build_core` -/

variable (env : Environment)

/-- `load_encryption_key`. -/
def loadEncryptionKey (keyFile : ConfigValue) : Except PyError Bytes := do
  let key ←
    if keyFile.isNull then
      match env.keyVariable with
      | none => .error .keyNotFound
      | some key => .ok key
    else do
      let path ← asText keyFile
      match env.paths.exists? path with
      | none => .error .osError
      | some false => .error .keyNotFound
      | some true =>
          match env.readBytes path with
          | none => .error .osError
          | some key => .ok key
  if key.length = 32 then .ok key else .error .invalidKey

/-- What `_build_core` notes down before it gives up. -/
inductive StartError where
  | key
  | directoryMissing (index : Nat)
  | directoryAccess (index : Nat)
  | loopback (index : Nat)
  | metadataStore

/-- The check of one source. -/
def checkSource (position : Nat) (value : ConfigValue) : Except PyError (List StartError) := do
  let source ← asObject value
  let sourceType := source.get "type"
  if isType sourceType "directory" then
    let path ← asText (source.getD "path" (.str []))
    if !env.paths.isDir path then .ok [.directoryMissing position]
    else if !env.paths.accessible path then .ok [.directoryAccess position]
    else .ok []
  else if isType sourceType "loopback" then
    let path ← asText (source.getD "path" (.str []))
    if !env.paths.isFile path && !env.paths.parentWritable path then .ok [.loopback position]
    else .ok []
  else .ok []

def checkSources : Nat → List ConfigValue → Except PyError (List StartError)
  | _, [] => .ok []
  | position, value :: rest => do
      let errors ← checkSource env position value
      let more ← checkSources (position + 1) rest
      .ok (errors ++ more)

/-- The metadata store at `config["metadata_db"]`. -/
def openStore (config : ConfigObject) : Except PyError Unit := do
  let metadataDb ← index config "metadata_db"
  let path ← asText metadataDb
  if env.opensStore path then .ok () else .error .osError

/-- The source a member of the list stands for; those of other devices are left out. -/
def makeSource (position : Nat) (value : ConfigValue) : Except PyError (Option LocalSource) := do
  let source ← asObject value
  let sourceType ← index source "type"
  if isType sourceType "directory" then
    let id ← index source "id"
    let path ← index source "path"
    let path ← asText path
    .ok (some ⟨position, id, path, none⟩)
  else if isType sourceType "loopback" then
    let id ← index source "id"
    let path ← index source "path"
    let size ← index source "size"
    let path ← asText path
    match size.int? with
    | none => .error .typeError
    | some size =>
        if size < minLoopbackSize ∨ maxLoopbackSize < size then .error .valueError
        else .ok (some ⟨position, id, path, some size⟩)
  else .ok none

def makeSources : Nat → List ConfigValue → Except PyError (List LocalSource)
  | _, [] => .ok []
  | position, value :: rest => do
      let source ← makeSource position value
      let more ← makeSources (position + 1) rest
      .ok (source.toList ++ more)

/-- `_build_core`: the volume, or the exception the start ends with. -/
def buildCore (config : ConfigObject) : Except PyError Jbod := do
  -- a key that is missing or too short is noted down, any other exception is not caught
  let keyLoaded ←
    match loadEncryptionKey env (config.get "key_file") with
    | .ok _ => .ok true
    | .error .keyNotFound => .ok false
    | .error .invalidKey => .ok false
    | .error e => .error e
  let items ← iterate (config.getD "sources" (.list []))
  let sourceErrors ← checkSources env 0 items
  let storeOpened :=
    if keyLoaded then
      match openStore env config with
      | .ok _ => true
      | .error _ => false
    else false
  if !keyLoaded || !sourceErrors.isEmpty || !storeOpened then .error .systemExit
  else do
    let sources ← makeSources 0 items
    newJbod sources

/-! ### `_mount_remote_sources` -/

/-- The volume, the devices mounted so far, and the exceptions that were only logged. -/
structure Mounting where
  jbod : Jbod
  mountedDeviceIds : List ConfigText := []
  logged : List PyError := []

/-- `_mount`. A source whose id has no hash is in the list of sources when its entry in the map
raises. -/
def mount (m : Mounting) (id : ConfigValue) (deviceId : ConfigText) : Mounting :=
  if !env.routed deviceId then { m with logged := m.logged ++ [.osError] }
  else
    let source := Source.remote id deviceId
    let sources := m.jbod.sources.filter (fun s => !s.id.eq id) ++ [source]
    if !hashable id then
      { m with jbod := { m.jbod with sources }, logged := m.logged ++ [.typeError] }
    else
      { m with
        jbod := ⟨sources, putSource m.jbod.sourceMap source⟩
        mountedDeviceIds := deviceId :: m.mountedDeviceIds }

/-- The sources of type `remote` in the configuration. -/
def mountConfigured : Mounting → List ConfigValue → Except PyError Mounting
  | m, [] => .ok m
  | m, value :: rest => do
      let source ← asObject value
      if !isType (source.get "type") "remote" then mountConfigured m rest
      else
        let id ← index source "id"
        let deviceId ← index source "device_id"
        let deviceId ← asText deviceId
        mountConfigured (mount env m id deviceId) rest

/-- `"remote-" + device_id`. -/
def autoId (deviceId : ConfigText) : ConfigText := codePoints "remote-" ++ deviceId

/-- One device of the account. -/
def mountDevice (selfDeviceId : Option ConfigText) (m : Mounting) (deviceId : ConfigText) :
    Mounting :=
  if deviceId = [] ∨ some deviceId = selfDeviceId ∨ deviceId ∈ m.mountedDeviceIds then m
  else mount env m (.str (autoId deviceId)) deviceId

def mountRemoteSources (config : ConfigObject) (myDevices : List ConfigText)
    (selfDeviceId : Option ConfigText) (jbod : Jbod) : Except PyError Mounting := do
  let items ← iterate (config.getD "sources" (.list []))
  let m ← mountConfigured env { jbod } items
  let p2p ← asObject (config.getD "p2p" (.dict []))
  if (p2p.getD "auto_mount_devices" (.bool true)).truthy then
    .ok (myDevices.foldl (mountDevice env selfDeviceId) m)
  else .ok m

/-! ### What the records of a file name -/

/-- A surrogate has no UTF-8. -/
def isSurrogate (c : CodePoint) : Bool := 0xD800 ≤ c.val && c.val < 0xE000

/-- What the column `source_id`, a text that is not null, holds of an id. -/
def column : ConfigValue → Option ConfigText
  | .str s => if s.any isSurrogate then none else some s
  | .int n => some (codePoints (toString n))
  | .bool b => some (codePoints (if b then "1" else "0"))
  | .float x => env.realText x
  | _ => none

/-! ### The map of the sources -/

theorem getSource_cons (x : ConfigValue × Source) (m : List (ConfigValue × Source))
    (id : ConfigValue) :
    getSource (x :: m) id = if x.1.eq id then some x.2 else getSource m id := by
  unfold getSource
  rw [List.find?_cons]
  cases x.1.eq id <;> rfl

theorem getSource_eq_none {m : List (ConfigValue × Source)} {id : ConfigValue}
    (h : ∀ x ∈ m, ¬ x.1.eq id = true) : getSource m id = none := by
  unfold getSource
  rw [List.find?_eq_none.mpr h]
  rfl

theorem getSource_concat (m : List (ConfigValue × Source)) (x : ConfigValue × Source)
    (id : ConfigValue) :
    getSource (m ++ [x]) id = (getSource m id).or (if x.1.eq id then some x.2 else none) := by
  induction m with
  | nil =>
      rw [List.nil_append, getSource_cons]
      rfl
  | cons y m ih =>
      rw [List.cons_append, getSource_cons, getSource_cons, ih]
      split_ifs <;> rfl

/-- A string finds the source that was put last under it. -/
theorem getSource_putSource_self (m : List (ConfigValue × Source)) {source : Source}
    {c : ConfigText} (h : source.id = .str c) :
    getSource (putSource m source) (.str c) = some source := by
  unfold putSource
  rw [h]
  split_ifs with hany
  · rw [List.any_eq_true] at hany
    induction m with
    | nil => simp at hany
    | cons x m ih =>
        rw [List.map_cons, getSource_cons]
        by_cases hx : x.1.eq (.str c) = true
        · rw [if_pos hx, if_pos hx]
        · rw [if_neg hx, if_neg hx]
          obtain ⟨y, hy, heq⟩ := hany
          rcases List.mem_cons.mp hy with rfl | hy
          · exact absurd heq hx
          · exact ih ⟨y, hy, heq⟩
  · have hnone : getSource m (.str c) = none := by
      apply getSource_eq_none
      exact fun x hx heq => hany (List.any_eq_true.mpr ⟨x, hx, heq⟩)
    rw [getSource_concat, hnone, Option.none_or, if_pos (Json.eq_str_iff.mpr rfl)]

theorem getSource_putSource_of_ne (m : List (ConfigValue × Source)) {source : Source}
    {c : ConfigText} (h : source.id ≠ .str c) :
    getSource (putSource m source) (.str c) = getSource m (.str c) := by
  unfold putSource
  split_ifs with hany
  · clear hany
    induction m with
    | nil => rfl
    | cons x m ih =>
        rw [List.map_cons, getSource_cons, getSource_cons, ih]
        by_cases hx : x.1.eq (.str c) = true
        · have hne : ¬ x.1.eq source.id = true := by
            rw [Json.eq_str_iff.mp hx, Json.str_eq_iff]
            exact h
          rw [if_neg hne]
        · by_cases hsource : x.1.eq source.id = true
          · rw [if_pos hsource]
            dsimp only
            rw [if_neg hx, if_neg hx]
          · rw [if_neg hsource]
  · rw [getSource_concat, if_neg (mt Json.eq_str_iff.mp h), Option.or_none]

/-- What is found under a string has it for its id. -/
theorem id_of_getSource_foldl {ss : List Source} {m : List (ConfigValue × Source)} {c : ConfigText}
    (hm : ∀ s, getSource m (.str c) = some s → s.id = .str c) {s : Source}
    (h : getSource (ss.foldl putSource m) (.str c) = some s) : s.id = .str c := by
  induction ss generalizing m with
  | nil => exact hm s h
  | cons x ss ih =>
      refine ih (fun s' hs' => ?_) h
      by_cases hx : x.id = .str c
      · rw [getSource_putSource_self m hx, Option.some_inj] at hs'
        exact hs' ▸ hx
      · rw [getSource_putSource_of_ne m hx] at hs'
        exact hm s' hs'

theorem getSource_foldl_of_ne {ss : List Source} {m : List (ConfigValue × Source)} {c : ConfigText}
    (h : ∀ s ∈ ss, s.id ≠ .str c) :
    getSource (ss.foldl putSource m) (.str c) = getSource m (.str c) := by
  induction ss generalizing m with
  | nil => rfl
  | cons x ss ih =>
      obtain ⟨hx, hss⟩ := List.forall_mem_cons.mp h
      rw [List.foldl_cons, ih hss, getSource_putSource_of_ne m hx]

/-- Where the ids differ, each string id finds its own source. -/
theorem getSource_foldl_of_mem {ss : List Source} (hdistinct : (ss.map Source.id).Nodup)
    {s : Source} (hs : s ∈ ss) {c : ConfigText} (hid : s.id = .str c)
    (m : List (ConfigValue × Source)) :
    getSource (ss.foldl putSource m) (.str c) = some s := by
  induction ss generalizing m with
  | nil => cases hs
  | cons x ss ih =>
      rw [List.map_cons, List.nodup_cons] at hdistinct
      rw [List.foldl_cons]
      rcases List.mem_cons.mp hs with rfl | hs
      · rw [getSource_foldl_of_ne, getSource_putSource_self m hid]
        intro y hy heq
        exact hdistinct.1 (hid ▸ heq ▸ List.mem_map_of_mem hy)
      · exact ih hdistinct.2 hs _

end CoreAssembly

end StardustFS
