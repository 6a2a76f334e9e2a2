import StardustFS.CoreAssembly

/-! Which configurations that the checks have nothing to say of can be started. The checks never look at
the ids of the sources, at `metadata_db`, and at a `key_file` that is no string. -/

namespace StardustFS

namespace CoreAssembly

open FsEncoding ConfigLoader

/-- The objects among the sources. -/
def sourceObjects (config : ConfigObject) : List ConfigObject :=
  ((config.get "sources").items?.getD []).filterMap Json.members?

def isLocal (source : ConfigObject) : Bool :=
  isType (source.get "type") "directory" || isType (source.get "type") "loopback"

def isRemote (source : ConfigObject) : Bool := isType (source.get "type") "remote"

def localObjects (config : ConfigObject) : List ConfigObject :=
  (sourceObjects config).filter isLocal

def remoteObjects (config : ConfigObject) : List ConfigObject :=
  (sourceObjects config).filter isRemote

/-! ### Sources that passed the checks -/

theorem isType_iff {value : ConfigValue} {name : String} :
    isType value name = true ↔ value = .str (codePoints name) := Json.eq_str_iff

theorem isLocal_iff {source : ConfigObject} :
    isLocal source = true ↔ HasType source "directory" ∨ HasType source "loopback" := by
  rw [isLocal, Bool.or_eq_true, isType_iff, isType_iff]
  exact Iff.rfl

theorem isRemote_iff {source : ConfigObject} :
    isRemote source = true ↔ HasType source "remote" := isType_iff

theorem isLocal_of_isRemote {source : ConfigObject} (h : isRemote source = true) :
    isLocal source = false := by
  rw [← Bool.not_eq_true, isLocal_iff]
  rintro (hlocal | hlocal)
  · exact codePoints_ne (by decide) (isRemote_iff.mp h) hlocal
  · exact codePoints_ne (by decide) (isRemote_iff.mp h) hlocal

theorem index_eq_ok_iff {data : ConfigObject} {key : String} {value : ConfigValue} :
    index data key = .ok value ↔ Has data key value := by
  unfold index Has
  cases Json.lookup (codePoints key) data with
  | none => simp
  | some x => simp

theorem index_of_has {data : ConfigObject} {key : String} {value : ConfigValue}
    (h : Has data key value) : index data key = .ok value := index_eq_ok_iff.mpr h

theorem getD_of_has {data : ConfigObject} {key : String} {value : ConfigValue}
    (h : Has data key value) (default : ConfigValue) : data.getD key default = value := by
  rw [ConfigObject.getD, h, Option.getD_some]

theorem get_of_has {data : ConfigObject} {key : String} {value : ConfigValue}
    (h : Has data key value) : data.get key = value := by
  rw [ConfigObject.get, Json.get, h, Option.getD_some]

theorem hasType_index {source : ConfigObject} {name : String} (h : HasType source name) :
    index source "type" = .ok (.str (codePoints name)) :=
  index_of_has (has_of_get h fun hnull => by cases hnull)

variable {env : Environment}

/-- Of a local source that passed, only the id may be missing. -/
theorem makeSource_local {source : ConfigObject} (h : AcceptedSource env.paths source)
    (hlocal : isLocal source = true) (position : Nat) : ∃ path size,
      makeSource position (.dict source) =
        (index source "id" >>= fun id => .ok (some ⟨position, id, path, size⟩)) := by
  cases h with
  | remote deviceId type =>
      rw [isLocal_of_isRemote (isRemote_iff.mpr type)] at hlocal
      cases hlocal
  | directory path type hpath =>
      refine ⟨path, none, ?_⟩
      have hdir : isType (.str (codePoints "directory")) "directory" = true := isType_iff.mpr rfl
      unfold makeSource
      simp only [asObject, Json.members?, hasType_index type, index_of_has hpath, asText, Json.str?,
        hdir, if_true, bind, Except.bind]
  | loopback path size type hpath hsize hrange =>
      obtain ⟨value, hvalue, hint⟩ := hsize
      refine ⟨path, some size, ?_⟩
      have hdir : isType (.str (codePoints "loopback")) "directory" = false := by decide
      have hloop : isType (.str (codePoints "loopback")) "loopback" = true := isType_iff.mpr rfl
      have hin : ¬ (size < minLoopbackSize ∨ maxLoopbackSize < size) := by omega
      unfold makeSource
      simp only [asObject, Json.members?, hasType_index type, index_of_has hpath,
        index_of_has hvalue, asText, Json.str?, hdir, hloop, hint, if_neg hin, if_true,
        Bool.false_eq_true, if_false, bind, Except.bind]

theorem makeSource_remote {source : ConfigObject} (h : isRemote source = true) (position : Nat) :
    makeSource position (.dict source) = .ok none := by
  have htype := isRemote_iff.mp h
  have hdir : isType (.str (codePoints "remote")) "directory" = false := by decide
  have hloop : isType (.str (codePoints "remote")) "loopback" = false := by decide
  unfold makeSource
  simp only [asObject, Json.members?, hasType_index htype, hdir, hloop, Bool.false_eq_true, if_false,
    bind, Except.bind]

theorem accepted_cases {source : ConfigObject} (h : AcceptedSource env.paths source) :
    isLocal source = true ∨ isRemote source = true := by
  cases h with
  | remote deviceId type => exact Or.inr (isRemote_iff.mpr type)
  | directory path type => exact Or.inl (isLocal_iff.mpr (Or.inl type))
  | loopback path size type => exact Or.inl (isLocal_iff.mpr (Or.inr type))

theorem makeSources_cons {position : Nat} {value : ConfigValue} {rest : List ConfigValue}
    {sources : List LocalSource} : makeSources position (value :: rest) = .ok sources ↔
      ∃ source more, makeSource position value = .ok source ∧
        makeSources (position + 1) rest = .ok more ∧ sources = source.toList ++ more := by
  simp only [makeSources, bind_eq_ok_iff, Except.ok.injEq]
  constructor
  · rintro ⟨source, hsource, more, hmore, rfl⟩
    exact ⟨source, more, hsource, hmore, rfl⟩
  · rintro ⟨source, more, hsource, hmore, rfl⟩
    exact ⟨source, hsource, more, hmore, rfl⟩

/-- The sources are made where every local one has an id, and they have these ids. -/
theorem makeSources_iff {objects : List ConfigObject}
    (h : ∀ source ∈ objects, AcceptedSource env.paths source) (position : Nat) :
    (∃ sources, makeSources position (objects.map .dict) = .ok sources) ↔
      ∀ source ∈ objects.filter isLocal, ∃ id, Has source "id" id := by
  induction objects generalizing position with
  | nil => simp [makeSources]
  | cons source rest ih =>
      obtain ⟨hsource, hrest⟩ := List.forall_mem_cons.mp h
      simp only [List.map_cons, makeSources_cons]
      rcases accepted_cases hsource with hlocal | hremote
      · obtain ⟨path, size, hmake⟩ := makeSource_local hsource hlocal position
        rw [List.filter_cons_of_pos hlocal, List.forall_mem_cons, ← ih hrest (position + 1)]
        simp only [hmake, bind_eq_ok_iff, index_eq_ok_iff, Except.ok.injEq]
        constructor
        · rintro ⟨_, made, more, ⟨id, hid, -⟩, hmore, -⟩
          exact ⟨⟨id, hid⟩, more, hmore⟩
        · rintro ⟨⟨id, hid⟩, more, hmore⟩
          exact ⟨_, _, more, ⟨id, hid, rfl⟩, hmore, rfl⟩
      · rw [List.filter_cons_of_neg (by simp [isLocal_of_isRemote hremote]),
          ← ih hrest (position + 1)]
        simp only [makeSource_remote hremote, Except.ok.injEq]
        constructor
        · rintro ⟨_, _, more, -, hmore, -⟩
          exact ⟨more, hmore⟩
        · rintro ⟨more, hmore⟩
          exact ⟨_, _, more, rfl, hmore, rfl⟩

theorem ids_of_makeSources {objects : List ConfigObject}
    (h : ∀ source ∈ objects, AcceptedSource env.paths source) {position : Nat}
    {sources : List LocalSource} (hmake : makeSources position (objects.map .dict) = .ok sources) :
    sources.map LocalSource.id = (objects.filter isLocal).map fun source => source.get "id" := by
  induction objects generalizing position sources with
  | nil =>
      rw [List.map_nil, makeSources, Except.ok.injEq] at hmake
      subst hmake
      rfl
  | cons source rest ih =>
      obtain ⟨hsource, hrest⟩ := List.forall_mem_cons.mp h
      rw [List.map_cons, makeSources_cons] at hmake
      obtain ⟨made, more, hmade, hmore, rfl⟩ := hmake
      rw [List.map_append, ih hrest hmore]
      rcases accepted_cases hsource with hlocal | hremote
      · obtain ⟨path, size, hmake⟩ := makeSource_local hsource hlocal position
        rw [hmake] at hmade
        obtain ⟨id, hid, hsome⟩ := bind_eq_ok_iff.mp hmade
        rw [Except.ok.injEq] at hsome
        subst hsome
        rw [List.filter_cons_of_pos hlocal, List.map_cons, get_of_has (index_eq_ok_iff.mp hid)]
        rfl
      · rw [makeSource_remote hremote, Except.ok.injEq] at hmade
        subst hmade
        rw [List.filter_cons_of_neg (by simp [isLocal_of_isRemote hremote])]
        rfl

/-! ### The core -/

/-- The environment is as the configuration has it: the key, of the file or of the variable, has 32
bytes, the paths of the sources are there, and the database opens. -/
structure Ready (env : Environment) (config : ConfigObject) : Prop where
  keyFile : ∀ path, config.get "key_file" = .str path → env.paths.exists? path = some true ∧
    ∃ key, env.readBytes path = some key ∧ key.length = 32
  keyVariable : config.get "key_file" = .null → ∃ key, env.keyVariable = some key ∧ key.length = 32
  directory : ∀ source ∈ sourceObjects config, ∀ path, HasType source "directory" →
    Has source "path" (.str path) → env.paths.isDir path = true ∧ env.paths.accessible path = true
  loopback : ∀ source ∈ sourceObjects config, ∀ path, HasType source "loopback" →
    Has source "path" (.str path) →
    env.paths.isFile path = true ∨ env.paths.parentWritable path = true
  store : ∀ path, Has config "metadata_db" (.str path) → env.opensStore path = true

/-- `key_file` is a string or left out. -/
def KeyFileNamed (config : ConfigObject) : Prop :=
  config.get "key_file" = .null ∨ ∃ path, config.get "key_file" = .str path

theorem loadEncryptionKey_of_named {config : ConfigObject} (hready : Ready env config)
    (h : KeyFileNamed config) : ∃ key, loadEncryptionKey env (config.get "key_file") = .ok key := by
  rcases h with hnull | ⟨path, hpath⟩
  · obtain ⟨key, hkey, hlength⟩ := hready.keyVariable hnull
    refine ⟨key, ?_⟩
    simp [loadEncryptionKey, hnull, Json.isNull, hkey, hlength, bind, Except.bind]
  · obtain ⟨hexists, key, hkey, hlength⟩ := hready.keyFile path hpath
    refine ⟨key, ?_⟩
    simp [loadEncryptionKey, hpath, Json.isNull, asText, Json.str?, hexists, hkey, hlength, bind,
      Except.bind]

theorem loadEncryptionKey_of_not_named {config : ConfigObject} (h : ¬ KeyFileNamed config) :
    loadEncryptionKey env (config.get "key_file") = .error .typeError := by
  unfold KeyFileNamed at h
  revert h
  generalize config.get "key_file" = keyFile
  intro h
  cases keyFile with
  | null => exact absurd (Or.inl rfl) h
  | str path => exact absurd (Or.inr ⟨path, rfl⟩) h
  | _ => rfl

theorem checkSource_of_ready {config : ConfigObject} (hready : Ready env config)
    {source : ConfigObject} (hmem : source ∈ sourceObjects config)
    (h : AcceptedSource env.paths source) (position : Nat) :
    checkSource env position (.dict source) = .ok [] := by
  unfold checkSource
  cases h with
  | remote deviceId type =>
      have hdir : isType (.str (codePoints "remote")) "directory" = false := by decide
      have hloop : isType (.str (codePoints "remote")) "loopback" = false := by decide
      simp only [asObject, Json.members?, show source.get "type" = _ from type, hdir, hloop,
        Bool.false_eq_true, if_false, bind, Except.bind]
  | directory path type hpath =>
      have hdir : isType (.str (codePoints "directory")) "directory" = true := isType_iff.mpr rfl
      obtain ⟨hisDir, haccess⟩ := hready.directory source hmem path type hpath
      simp only [asObject, Json.members?, show source.get "type" = _ from type, hdir,
        getD_of_has hpath, asText, Json.str?, hisDir, haccess, Bool.not_true, Bool.false_eq_true,
        if_true, if_false, bind, Except.bind]
  | loopback path size type hpath =>
      have hdir : isType (.str (codePoints "loopback")) "directory" = false := by decide
      have hloop : isType (.str (codePoints "loopback")) "loopback" = true := isType_iff.mpr rfl
      have hthere : (!env.paths.isFile path && !env.paths.parentWritable path) = false := by
        rcases hready.loopback source hmem path type hpath with h | h
        · rw [h]
          rfl
        · rw [h, Bool.not_true, Bool.and_false]
      simp only [asObject, Json.members?, show source.get "type" = _ from type, hdir, hloop,
        getD_of_has hpath, asText, Json.str?, hthere, Bool.false_eq_true, if_true, if_false, bind,
        Except.bind]

theorem checkSources_of_ready {config : ConfigObject} (hready : Ready env config)
    {objects : List ConfigObject} (hsub : objects ⊆ sourceObjects config)
    (h : ∀ source ∈ objects, AcceptedSource env.paths source) (position : Nat) :
    checkSources env position (objects.map .dict) = .ok [] := by
  induction objects generalizing position with
  | nil => rfl
  | cons source rest ih =>
      obtain ⟨hsource, hrest⟩ := List.forall_mem_cons.mp h
      obtain ⟨hmem, hsub⟩ := List.cons_subset.mp hsub
      simp only [List.map_cons, checkSources, checkSource_of_ready hready hmem hsource,
        ih hsub hrest, bind, Except.bind, List.append_nil]

/-- The database is a member of the object, and a string. -/
def StoreNamed (config : ConfigObject) : Prop := ∃ path, Has config "metadata_db" (.str path)

theorem openStore_iff {config : ConfigObject} (hready : Ready env config) :
    openStore env config = .ok () ↔ StoreNamed config := by
  unfold openStore StoreNamed
  simp only [bind_eq_ok_iff, index_eq_ok_iff, asText]
  constructor
  · rintro ⟨value, hvalue, path, hpath, -⟩
    cases value with
    | str s => exact ⟨s, hvalue⟩
    | _ => cases hpath
  · rintro ⟨path, hpath⟩
    exact ⟨_, hpath, path, rfl, by rw [if_pos (hready.store path hpath)]⟩

/-- A validated configuration in this environment. -/
structure Accepted (env : Environment) (config : ConfigObject) : Prop where
  ready : Ready env config
  sources : config.get "sources" = .list ((sourceObjects config).map .dict)
  each : ∀ source ∈ sourceObjects config, AcceptedSource env.paths source
  p2p : ∃ p2p, config.get "p2p" = .dict p2p

theorem accepted_of_validate_ready {config : ConfigObject}
    (h : validate env.paths config = .ok []) (hversion : Versioned config 2)
    (hready : Ready env config) : Accepted env config := by
  obtain ⟨⟨items, hitems, -, hall⟩, -, -, p2p, hp2p, -⟩ := accepted_of_validate h hversion
  have hobjects : sourceObjects config = items.filterMap Json.members? := by
    rw [sourceObjects, hitems]
    rfl
  have hmap : items = (items.filterMap Json.members?).map .dict := by
    clear hitems hobjects
    induction items with
    | nil => rfl
    | cons x rest ih =>
        obtain ⟨⟨source, rfl, -⟩, hrest⟩ := List.forall_mem_cons.mp hall
        have hsome : (Json.dict source : ConfigValue).members? = some source := rfl
        rw [List.filterMap_cons, hsome, List.map_cons, ← ih hrest]
  refine ⟨hready, by rw [hobjects, ← hmap, hitems], fun source hmem => ?_, p2p, hp2p⟩
  rw [hobjects, List.mem_filterMap] at hmem
  obtain ⟨x, hx, hmembers⟩ := hmem
  obtain ⟨source', rfl, haccepted⟩ := hall x hx
  obtain rfl := Option.some_inj.mp hmembers
  exact haccepted

theorem iterate_sources {config : ConfigObject} (h : Accepted env config) :
    iterate (config.getD "sources" (.list [])) = .ok ((sourceObjects config).map .dict) := by
  rw [getD_of_has (has_of_get h.sources fun hnull => by cases hnull)]
  rfl

/-- **The core is built** where the key file and the database are named and the sources are made. -/
theorem buildCore_iff {config : ConfigObject} (h : Accepted env config) (core : Jbod) :
    buildCore env config = .ok core ↔ KeyFileNamed config ∧ StoreNamed config ∧
      ∃ sources, makeSources 0 ((sourceObjects config).map .dict) = .ok sources ∧
        newJbod sources = .ok core := by
  have hcheck := checkSources_of_ready h.ready (List.Subset.refl _) h.each 0
  by_cases hkey : KeyFileNamed config
  · obtain ⟨key, hload⟩ := loadEncryptionKey_of_named h.ready hkey
    by_cases hstore : StoreNamed config
    · have hopen := (openStore_iff h.ready).mpr hstore
      simp only [buildCore, hload, iterate_sources h, hcheck, hopen, hkey, hstore, bind, Except.bind,
        if_true, Bool.not_true, List.isEmpty_nil, Bool.or_self, Bool.false_eq_true, if_false,
        true_and]
      exact bind_eq_ok_iff
    · have hclosed : ∃ e, openStore env config = .error e := by
        cases hopen : openStore env config with
        | error e => exact ⟨e, rfl⟩
        | ok _ => exact absurd ((openStore_iff h.ready).mp hopen) hstore
      obtain ⟨e, hopen⟩ := hclosed
      simp [buildCore, hload, iterate_sources h, hcheck, hopen, hstore, bind, Except.bind]
  · simp [buildCore, loadEncryptionKey_of_not_named hkey, hkey, bind, Except.bind]

/-! ### The proxies of other devices -/

theorem getSource_mount_of_ne (m : Mounting) {id : ConfigValue} {deviceId : ConfigText}
    {c : ConfigText} (h : env.routed deviceId = true → id ≠ .str c) :
    getSource (mount env m id deviceId).jbod.sourceMap (.str c) =
      getSource m.jbod.sourceMap (.str c) := by
  unfold mount
  split_ifs with hrouted
  · rfl
  · rfl
  · exact getSource_putSource_of_ne _ (h (by simpa using hrouted))

/-- A local source is found after a mount where the mount has not taken its id. -/
theorem getSource_mount_iff (m : Mounting) (id : ConfigValue) (deviceId c : ConfigText)
    (s : LocalSource) :
    getSource (mount env m id deviceId).jbod.sourceMap (.str c) = some (.local s) ↔
      getSource m.jbod.sourceMap (.str c) = some (.local s) ∧
        (env.routed deviceId = true → id ≠ .str c) := by
  by_cases h : env.routed deviceId = true → id ≠ .str c
  · rw [getSource_mount_of_ne m h, and_iff_left h]
  · obtain ⟨hrouted, hid⟩ := Classical.not_imp.mp h
    obtain rfl := not_not.mp hid
    refine iff_of_false (fun hlocal => ?_) fun hboth => hboth.2 hrouted rfl
    have hremote : getSource (mount env m (.str c) deviceId).jbod.sourceMap (.str c) =
        some (.remote (.str c) deviceId) := by
      rw [mount, hrouted]
      exact getSource_putSource_self _ rfl
    rw [hremote] at hlocal
    cases hlocal

theorem typeError_mem_mount (m : Mounting) (id : ConfigValue) (deviceId : ConfigText) :
    .typeError ∈ (mount env m id deviceId).logged ↔
      .typeError ∈ m.logged ∨ env.routed deviceId = true ∧ hashable id = false := by
  unfold mount
  cases env.routed deviceId with
  | false => simp
  | true => cases hashable id <;> simp

variable (env) in
theorem mem_mounted_mount (m : Mounting) (id : ConfigValue) (deviceId d : ConfigText) :
    d ∈ (mount env m id deviceId).mountedDeviceIds ↔
      d ∈ m.mountedDeviceIds ∨ d = deviceId ∧ env.routed deviceId = true ∧ hashable id = true := by
  unfold mount
  cases env.routed deviceId with
  | false => simp
  | true =>
      cases hashable id with
      | false => simp
      | true => simp [or_comm]

/-- The device of a remote source answers where it is. -/
def Routed (env : Environment) (source : ConfigObject) : Prop :=
  ∃ deviceId, source.get "device_id" = .str deviceId ∧ env.routed deviceId = true

theorem mountConfigured_local {source : ConfigObject} (h : isLocal source = true) (m : Mounting)
    (rest : List ConfigValue) :
    mountConfigured env m (.dict source :: rest) = mountConfigured env m rest := by
  have hremote : isType (source.get "type") "remote" = false := by
    rw [← Bool.not_eq_true]
    intro hremote
    rw [isLocal_of_isRemote hremote] at h
    cases h
  simp only [mountConfigured, asObject, Json.members?, hremote, Bool.not_false, if_true, bind,
    Except.bind]

theorem mountConfigured_remote {source : ConfigObject} (h : isRemote source = true)
    {deviceId : ConfigText} (hdevice : Has source "device_id" (.str deviceId)) (m : Mounting)
    (rest : List ConfigValue) :
    mountConfigured env m (.dict source :: rest) =
      (index source "id" >>= fun id => mountConfigured env (mount env m id deviceId) rest) := by
  have hremote : isType (source.get "type") "remote" = true := h
  simp only [mountConfigured, asObject, Json.members?, hremote, Bool.not_true, Bool.false_eq_true,
    if_false, index_of_has hdevice, asText, Json.str?, bind, Except.bind]

/-- What the loop over the configured remote sources has done. -/
structure Configured (env : Environment) (m m' : Mounting) (remotes : List ConfigObject) : Prop where
  found : ∀ s c, getSource m'.jbod.sourceMap (.str c) = some (.local s) ↔
    getSource m.jbod.sourceMap (.str c) = some (.local s) ∧
      ∀ r ∈ remotes, Routed env r → r.get "id" ≠ .str c
  logged : .typeError ∈ m'.logged ↔ .typeError ∈ m.logged ∨
    ∃ r ∈ remotes, Routed env r ∧ hashable (r.get "id") = false
  mounted : ∀ d, d ∈ m'.mountedDeviceIds ↔ d ∈ m.mountedDeviceIds ∨
    ∃ r ∈ remotes, r.get "device_id" = .str d ∧ env.routed d = true ∧ hashable (r.get "id") = true

theorem device_of_remote {source : ConfigObject} (h : AcceptedSource env.paths source)
    (hremote : isRemote source = true) : ∃ deviceId, Has source "device_id" (.str deviceId) := by
  have hlocal := isLocal_of_isRemote hremote
  cases h with
  | remote deviceId type hdevice => exact ⟨deviceId, hdevice⟩
  | directory path type =>
      rw [isLocal_iff.mpr (Or.inl type)] at hlocal
      cases hlocal
  | loopback path size type =>
      rw [isLocal_iff.mpr (Or.inr type)] at hlocal
      cases hlocal

theorem routed_iff {source : ConfigObject} {deviceId : ConfigText}
    (h : Has source "device_id" (.str deviceId)) :
    Routed env source ↔ env.routed deviceId = true := by
  simp [Routed, get_of_has h]

theorem mountConfigured_iff {objects : List ConfigObject}
    (h : ∀ source ∈ objects, AcceptedSource env.paths source) (m : Mounting) :
    (∃ m', mountConfigured env m (objects.map .dict) = .ok m') ↔
      ∀ source ∈ objects.filter isRemote, ∃ id, Has source "id" id := by
  induction objects generalizing m with
  | nil => simp [mountConfigured]
  | cons source rest ih =>
      obtain ⟨hsource, hrest⟩ := List.forall_mem_cons.mp h
      rw [List.map_cons]
      rcases accepted_cases hsource with hlocal | hremote
      · rw [mountConfigured_local hlocal, ih hrest m, List.filter_cons_of_neg]
        intro hremote
        rw [isLocal_of_isRemote hremote] at hlocal
        cases hlocal
      · obtain ⟨deviceId, hdevice⟩ := device_of_remote hsource hremote
        rw [mountConfigured_remote hremote hdevice, List.filter_cons_of_pos hremote,
          List.forall_mem_cons]
        simp only [bind_eq_ok_iff, index_eq_ok_iff]
        constructor
        · rintro ⟨m', id, hid, hm'⟩
          exact ⟨⟨id, hid⟩, (ih hrest _).mp ⟨m', hm'⟩⟩
        · rintro ⟨⟨id, hid⟩, hall⟩
          obtain ⟨m', hm'⟩ := (ih hrest (mount env m id deviceId)).mpr hall
          exact ⟨m', id, hid, hm'⟩

theorem configured_of_mount {objects : List ConfigObject}
    (h : ∀ source ∈ objects, AcceptedSource env.paths source) {m m' : Mounting}
    (hmount : mountConfigured env m (objects.map .dict) = .ok m') :
    Configured env m m' (objects.filter isRemote) := by
  induction objects generalizing m with
  | nil =>
      rw [List.map_nil, mountConfigured, Except.ok.injEq] at hmount
      subst hmount
      exact ⟨fun s c => by simp, by simp, fun d => by simp⟩
  | cons source rest ih =>
      obtain ⟨hsource, hrest⟩ := List.forall_mem_cons.mp h
      rw [List.map_cons] at hmount
      rcases accepted_cases hsource with hlocal | hremote
      · rw [mountConfigured_local hlocal] at hmount
        rw [List.filter_cons_of_neg]
        · exact ih hrest hmount
        · intro hremote
          rw [isLocal_of_isRemote hremote] at hlocal
          cases hlocal
      · obtain ⟨deviceId, hdevice⟩ := device_of_remote hsource hremote
        rw [mountConfigured_remote hremote hdevice] at hmount
        obtain ⟨id, hid, hmount⟩ := bind_eq_ok_iff.mp hmount
        have hrestored := ih hrest hmount
        have hget := get_of_has (index_eq_ok_iff.mp hid)
        have hdev := get_of_has hdevice
        rw [List.filter_cons_of_pos hremote]
        refine ⟨fun s c => ?_, ?_, fun d => ?_⟩
        · rw [hrestored.found, getSource_mount_iff, List.forall_mem_cons, hget, routed_iff hdevice,
            and_assoc]
        · rw [hrestored.logged, typeError_mem_mount, or_assoc]
          simp [hget, routed_iff hdevice]
        · rw [hrestored.mounted, mem_mounted_mount, or_assoc]
          have hhead : (d = deviceId ∧ env.routed deviceId = true ∧ hashable id = true) ↔
              (deviceId = d ∧ env.routed d = true ∧ hashable id = true) := by
            constructor
            · rintro ⟨rfl, h⟩
              exact ⟨rfl, h⟩
            · rintro ⟨rfl, h⟩
              exact ⟨rfl, h⟩
          simp only [List.mem_cons, exists_eq_or_imp, hget, hdev, Json.str.injEq, hhead]

/-- The device is mounted by itself. -/
def Unmounted (env : Environment) (selfDeviceId : Option ConfigText) (m : Mounting)
    (deviceId : ConfigText) : Prop :=
  deviceId ≠ [] ∧ some deviceId ≠ selfDeviceId ∧ deviceId ∉ m.mountedDeviceIds ∧
    env.routed deviceId = true

variable (env) in
/-- The loop over the devices of the account raises nothing; a local source is found where no device
has taken its id. -/
theorem mountDevices_spec (selfDeviceId : Option ConfigText) (devices : List ConfigText)
    (m : Mounting) :
    (.typeError ∈ (devices.foldl (mountDevice env selfDeviceId) m).logged ↔
      .typeError ∈ m.logged) ∧
    ∀ s c, getSource (devices.foldl (mountDevice env selfDeviceId) m).jbod.sourceMap (.str c) =
        some (.local s) ↔ getSource m.jbod.sourceMap (.str c) = some (.local s) ∧
          ∀ d ∈ devices, Unmounted env selfDeviceId m d → c ≠ autoId d := by
  induction devices generalizing m with
  | nil => simp
  | cons d devices ih =>
      obtain ⟨hlogged, hfound⟩ := ih (mountDevice env selfDeviceId m d)
      rw [List.foldl_cons]
      by_cases hskip : d = [] ∨ some d = selfDeviceId ∨ d ∈ m.mountedDeviceIds
      · have hstep : mountDevice env selfDeviceId m d = m := if_pos hskip
        rw [hstep] at hlogged hfound ⊢
        refine ⟨hlogged, fun s c => ?_⟩
        have hvoid : ¬ Unmounted env selfDeviceId m d := fun h =>
          hskip.elim h.1 fun hskip => hskip.elim h.2.1 h.2.2.1
        rw [hfound, List.forall_mem_cons]
        simp only [hvoid, false_implies, true_and]
      · have hstep : mountDevice env selfDeviceId m d = mount env m (.str (autoId d)) d :=
          if_neg hskip
        rw [hstep] at hlogged hfound ⊢
        refine ⟨?_, fun s c => ?_⟩
        · rw [hlogged, typeError_mem_mount]
          simp [hashable]
        · rw [hfound, getSource_mount_iff, List.forall_mem_cons, and_assoc]
          obtain ⟨hne, hself, hmounted⟩ : d ≠ [] ∧ some d ≠ selfDeviceId ∧
              d ∉ m.mountedDeviceIds := by simpa [not_or] using hskip
          have hhead : (Unmounted env selfDeviceId m d → c ≠ autoId d) ↔
              (env.routed d = true → (.str (autoId d) : ConfigValue) ≠ .str c) := by
            constructor
            · intro h hrouted heq
              exact h ⟨hne, hself, hmounted, hrouted⟩ (Json.str.inj heq).symm
            · intro h hunmounted heq
              exact h hunmounted.2.2.2 (by rw [heq])
          rw [hhead]
          refine and_congr_right fun _ => and_congr_right fun hd => ?_
          refine forall₂_congr fun d' hd' => ?_
          -- what has been mounted under `d` was asked of `d` already
          have hin := mem_mounted_mount env m (.str (autoId d)) d d'
          constructor
          · rintro h ⟨hne', hself', hmounted', hrouted'⟩ rfl
            by_cases heq : d' = d
            · subst heq
              exact hd hrouted' rfl
            · refine h ⟨hne', hself', fun hmem => ?_, hrouted'⟩ rfl
              exact (hin.mp hmem).elim hmounted' fun hself => heq hself.1
          · rintro h ⟨hne', hself', hmounted', hrouted'⟩
            exact h ⟨hne', hself', fun hmem => hmounted' (hin.mpr (Or.inl hmem)), hrouted'⟩

/-! ### Starting -/

/-- What is stored on the source is recorded under an id that leads back to it. -/
def ReadsBack (env : Environment) (jbod : Jbod) (s : LocalSource) : Prop :=
  ∃ c, column env s.id = some c ∧ getSource jbod.sourceMap (.str c) = some (.local s)

/-- The core is built and the proxies are mounted without a missing key or a value of the wrong type,
the ids of the local sources differ, and what they store is found again. -/
def Starts (env : Environment) (config : ConfigObject) (myDevices : List ConfigText)
    (selfDeviceId : Option ConfigText) : Prop :=
  ∃ core m, buildCore env config = .ok core ∧
    (core.sources.map Source.id).Pairwise (fun a b => a.eq b = false) ∧
    mountRemoteSources env config myDevices selfDeviceId core = .ok m ∧
    .typeError ∉ m.logged ∧ ∀ s, Source.local s ∈ core.sources → ReadsBack env m.jbod s

/-- A device that is mounted besides the configured ones. -/
def AutoMounted (env : Environment) (config : ConfigObject) (myDevices : List ConfigText)
    (selfDeviceId : Option ConfigText) (deviceId : ConfigText) : Prop :=
  (∃ p2p : ConfigObject, config.get "p2p" = .dict p2p ∧
      (p2p.getD "auto_mount_devices" (.bool true)).truthy = true) ∧
    deviceId ∈ myDevices ∧ deviceId ≠ [] ∧ some deviceId ≠ selfDeviceId ∧
    env.routed deviceId = true ∧ ∀ r ∈ remoteObjects config, r.get "device_id" ≠ .str deviceId

/-- What the checks leave out. -/
structure Complete (env : Environment) (config : ConfigObject) (myDevices : List ConfigText)
    (selfDeviceId : Option ConfigText) : Prop where
  keyFile : KeyFileNamed config
  metadataDb : StoreNamed config
  localIds : ∀ s ∈ localObjects config, ∃ id, Has s "id" (.str id) ∧ id.any isSurrogate = false
  distinct : ((localObjects config).map fun s => s.get "id").Nodup
  remoteIds : ∀ r ∈ remoteObjects config, ∃ id, Has r "id" id ∧
    (Routed env r → hashable id = true)
  apart : ∀ s ∈ localObjects config, ∀ r ∈ remoteObjects config, Routed env r →
    r.get "id" ≠ s.get "id"
  apartAuto : ∀ s ∈ localObjects config, ∀ d, AutoMounted env config myDevices selfDeviceId d →
    s.get "id" ≠ .str (autoId d)

/-- The end of the mounting, after the loop over the configured sources. -/
theorem mountRemoteSources_iff {config : ConfigObject} (h : Accepted env config)
    (myDevices : List ConfigText) (selfDeviceId : Option ConfigText) (jbod : Jbod) (m : Mounting) :
    mountRemoteSources env config myDevices selfDeviceId jbod = .ok m ↔
      ∃ m₁ p2p, mountConfigured env { jbod } ((sourceObjects config).map .dict) = .ok m₁ ∧
        config.get "p2p" = .dict p2p ∧
        m = if (ConfigObject.getD p2p "auto_mount_devices" (.bool true)).truthy then
          myDevices.foldl (mountDevice env selfDeviceId) m₁ else m₁ := by
  obtain ⟨p2p, hp2p⟩ := h.p2p
  have hget : config.getD "p2p" (.dict []) = .dict p2p :=
    getD_of_has (has_of_get hp2p fun hnull => by cases hnull) _
  unfold mountRemoteSources
  simp only [bind_eq_ok_iff, iterate_sources h, hget, asObject, Json.members?, Except.ok.injEq,
    exists_eq_left', hp2p, Json.dict.injEq]
  constructor
  · rintro ⟨m₁, hm₁, hm⟩
    refine ⟨m₁, p2p, hm₁, rfl, ?_⟩
    split_ifs at hm ⊢ with hauto
    · exact (Except.ok.inj hm).symm
    · exact (Except.ok.inj hm).symm
  · rintro ⟨m₁, _, hm₁, rfl, rfl⟩
    refine ⟨m₁, hm₁, ?_⟩
    split_ifs <;> rfl

/-- **The mounting** raises nothing where the remote sources have ids; it logs no wrong type where these
have a hash; and then it hides the local sources whose ids it takes. -/
theorem mounting_spec {config : ConfigObject} (h : Accepted env config)
    {myDevices : List ConfigText} {selfDeviceId : Option ConfigText} {jbod : Jbod} {m : Mounting}
    (hmount : mountRemoteSources env config myDevices selfDeviceId jbod = .ok m) :
    (.typeError ∈ m.logged ↔
      ∃ r ∈ remoteObjects config, Routed env r ∧ hashable (r.get "id") = false) ∧
    (.typeError ∉ m.logged → ∀ s c, getSource m.jbod.sourceMap (.str c) = some (.local s) ↔
      getSource jbod.sourceMap (.str c) = some (.local s) ∧
        (∀ r ∈ remoteObjects config, Routed env r → r.get "id" ≠ .str c) ∧
        ∀ d, AutoMounted env config myDevices selfDeviceId d → c ≠ autoId d) := by
  obtain ⟨m₁, p2p, hm₁, hp2p, rfl⟩ := (mountRemoteSources_iff h _ _ _ _).mp hmount
  have hconfigured := configured_of_mount h.each hm₁
  have hlogged₁ : .typeError ∈ m₁.logged ↔
      ∃ r ∈ remoteObjects config, Routed env r ∧ hashable (r.get "id") = false := by
    rw [hconfigured.logged]
    simp [remoteObjects]
  -- without an id that has no hash, the devices mounted are those of the routed sources
  have hmounted : (¬ ∃ r ∈ remoteObjects config, Routed env r ∧ hashable (r.get "id") = false) →
      ∀ d, env.routed d = true →
        (d ∉ m₁.mountedDeviceIds ↔ ∀ r ∈ remoteObjects config, r.get "device_id" ≠ .str d) := by
    intro hhash d hrouted
    rw [hconfigured.mounted]
    simp only [List.not_mem_nil, false_or, not_exists, not_and, ne_eq]
    refine forall₂_congr fun r hr => ?_
    constructor
    · intro hnot hdevice
      refine hnot hdevice hrouted ?_
      by_contra hno
      exact hhash ⟨r, hr, ⟨d, hdevice, hrouted⟩, by simpa using hno⟩
    · exact fun hnot hdevice => absurd hdevice hnot
  by_cases hauto : (ConfigObject.getD p2p "auto_mount_devices" (.bool true)).truthy = true
  · rw [if_pos hauto]
    obtain ⟨hlogged, hfound⟩ := mountDevices_spec env selfDeviceId myDevices m₁
    refine ⟨hlogged.trans hlogged₁, fun hnone s c => ?_⟩
    have hhash := mt (hlogged.trans hlogged₁).mpr hnone
    rw [hfound, hconfigured.found, and_assoc]
    refine and_congr_right fun _ => and_congr_right fun _ => ?_
    constructor
    · rintro hall d ⟨-, hmem, hne, hself, hrouted, hdevice⟩
      exact hall d hmem ⟨hne, hself, (hmounted hhash d hrouted).mpr hdevice, hrouted⟩
    · rintro hall d hmem ⟨hne, hself, hnot, hrouted⟩
      exact hall d ⟨⟨p2p, hp2p, hauto⟩, hmem, hne, hself, hrouted, (hmounted hhash d hrouted).mp hnot⟩
  · rw [if_neg hauto]
    refine ⟨hlogged₁, fun hnone s c => ?_⟩
    rw [hconfigured.found]
    have hvoid : ∀ d, ¬ AutoMounted env config myDevices selfDeviceId d := by
      rintro d ⟨⟨p2p', hp2p', hauto'⟩, -⟩
      rw [hp2p, Json.dict.injEq] at hp2p'
      exact hauto (hp2p' ▸ hauto')
    simp only [hvoid, false_implies, implies_true, and_true]
    exact Iff.rfl

theorem pairwise_eq_iff_nodup {ids : List ConfigValue} (h : ∀ id ∈ ids, ∃ c, id = .str c) :
    ids.Pairwise (fun a b => a.eq b = false) ↔ ids.Nodup := by
  refine List.Pairwise.iff_of_mem fun ha _ => ?_
  obtain ⟨c, rfl⟩ := h _ ha
  rw [← Bool.not_eq_true, Json.str_eq_iff, eq_comm]

theorem column_str {c d : ConfigText} (h : column env (.str c) = some d) :
    d = c ∧ c.any isSurrogate = false := by
  rw [column] at h
  split_ifs at h with hsurrogate
  exact ⟨(Option.some_inj.mp h).symm, by simpa using hsurrogate⟩

theorem newJbod_eq_ok_iff {sources : List LocalSource} {core : Jbod} :
    newJbod sources = .ok core ↔ (∀ s ∈ sources, hashable s.id = true) ∧
      core = ⟨sources.map .local, (sources.map .local).foldl putSource []⟩ := by
  unfold newJbod
  split_ifs with hall
  · rw [Except.ok.injEq, eq_comm]
    exact (and_iff_right (List.all_eq_true.mp hall)).symm
  · simp only [false_iff, not_and]
    exact fun h => absurd (List.all_eq_true.mpr h) hall

/-- **Which of the accepted configurations start.** -/
theorem starts_iff {config : ConfigObject} (h : Accepted env config) (myDevices : List ConfigText)
    (selfDeviceId : Option ConfigText) :
    Starts env config myDevices selfDeviceId ↔ Complete env config myDevices selfDeviceId := by
  have hids : ∀ {sources}, makeSources 0 ((sourceObjects config).map .dict) = .ok sources →
      (sources.map Source.local).map Source.id =
        (localObjects config).map fun s => s.get "id" := by
    intro sources hmake
    rw [List.map_map]
    exact ids_of_makeSources h.each hmake
  constructor
  · rintro ⟨core, m, hcore, hpairwise, hmount, hlogged, hback⟩
    obtain ⟨hkey, hstore, sources, hmake, hnew⟩ := (buildCore_iff h core).mp hcore
    obtain ⟨-, rfl⟩ := newJbod_eq_ok_iff.mp hnew
    obtain ⟨hloggedIff, hfound⟩ := mounting_spec h hmount
    obtain ⟨m₁, -, hm₁, -⟩ := (mountRemoteSources_iff h _ _ _ _).mp hmount
    have hlocal : ∀ s ∈ localObjects config, ∃ c, s.get "id" = .str c ∧ c.any isSurrogate = false ∧
        (∀ r ∈ remoteObjects config, Routed env r → r.get "id" ≠ .str c) ∧
        ∀ d, AutoMounted env config myDevices selfDeviceId d → c ≠ autoId d := by
      intro o ho
      have hmem : o.get "id" ∈ (sources.map Source.local).map Source.id := by
        rw [hids hmake]
        exact List.mem_map_of_mem ho
      obtain ⟨x, hx, hid⟩ := List.mem_map.mp hmem
      obtain ⟨s, hs, rfl⟩ := List.mem_map.mp hx
      obtain ⟨c, hcolumn, hget⟩ := hback s hx
      obtain ⟨hgetCore, hremote, hauto⟩ := (hfound hlogged s c).mp hget
      have hsid : (Source.local s).id = .str c :=
        id_of_getSource_foldl (fun x hx => by cases hx) hgetCore
      have hcolumn' : column env (.str c) = some c := by
        rw [← hsid]
        exact hcolumn
      exact ⟨c, by rw [← hid, hsid], (column_str hcolumn').2, hremote, hauto⟩
    refine ⟨hkey, hstore, fun o ho => ?_, ?_, fun r hr => ?_, fun o ho r hr hrouted => ?_,
      fun o ho d hd heq => ?_⟩
    · obtain ⟨c, hc, hsurrogate, -⟩ := hlocal o ho
      exact ⟨c, has_of_get hc (fun hnull => by cases hnull), hsurrogate⟩
    · rw [← hids hmake, ← pairwise_eq_iff_nodup]
      · exact hpairwise
      · rw [hids hmake]
        intro id hid
        obtain ⟨o, ho, rfl⟩ := List.mem_map.mp hid
        obtain ⟨c, hc, -⟩ := hlocal o ho
        exact ⟨c, hc⟩
    · obtain ⟨id, hid⟩ := (mountConfigured_iff h.each _).mp ⟨m₁, hm₁⟩ r hr
      refine ⟨id, hid, fun hrouted => ?_⟩
      by_contra hno
      refine hlogged (hloggedIff.mpr ⟨r, hr, hrouted, ?_⟩)
      rw [get_of_has hid]
      simpa using hno
    · obtain ⟨c, hc, -, hremote, -⟩ := hlocal o ho
      rw [hc]
      exact hremote r hr hrouted
    · obtain ⟨c, hc, -, -, hauto⟩ := hlocal o ho
      rw [hc, Json.str.injEq] at heq
      exact hauto d hd heq
  · intro hcomplete
    obtain ⟨sources, hmake⟩ := (makeSources_iff h.each 0).mpr fun o ho => by
      obtain ⟨id, hid, -⟩ := hcomplete.localIds o ho
      exact ⟨_, hid⟩
    -- the ids of the sources made are those of the configuration
    have hstr : ∀ s ∈ sources, ∃ c, s.id = .str c ∧ c.any isSurrogate = false ∧
        ∃ o ∈ localObjects config, o.get "id" = .str c := by
      intro s hs
      have hmem : s.id ∈ (localObjects config).map fun o => o.get "id" := by
        rw [← hids hmake, List.map_map]
        exact List.mem_map.mpr ⟨s, hs, rfl⟩
      obtain ⟨o, ho, hid⟩ := List.mem_map.mp hmem
      obtain ⟨c, hc, hsurrogate⟩ := hcomplete.localIds o ho
      exact ⟨c, by rw [← hid, get_of_has hc], hsurrogate, o, ho, get_of_has hc⟩
    have hnew := newJbod_eq_ok_iff.mpr ⟨fun s hs => by
      obtain ⟨c, hc, -⟩ := hstr s hs
      rw [hc]
      rfl, rfl⟩
    have hdistinct : ((sources.map Source.local).map Source.id).Nodup := by
      rw [hids hmake]
      exact hcomplete.distinct
    obtain ⟨p2p, hp2p⟩ := h.p2p
    obtain ⟨m₁, hm₁⟩ := (mountConfigured_iff h.each
      { jbod := ⟨sources.map .local, (sources.map .local).foldl putSource []⟩ }).mpr fun r hr => by
        obtain ⟨id, hid, -⟩ := hcomplete.remoteIds r hr
        exact ⟨id, hid⟩
    have hmount := (mountRemoteSources_iff h myDevices selfDeviceId _ _).mpr
      ⟨m₁, p2p, hm₁, hp2p, rfl⟩
    obtain ⟨hloggedIff, hfound⟩ := mounting_spec h hmount
    have hlogged := mt hloggedIff.mp (by
      rintro ⟨r, hr, hrouted, hhash⟩
      obtain ⟨id, hid, hashes⟩ := hcomplete.remoteIds r hr
      rw [get_of_has hid, hashes hrouted] at hhash
      cases hhash)
    refine ⟨_, _, (buildCore_iff h _).mpr ⟨hcomplete.keyFile, hcomplete.metadataDb, sources, hmake,
      hnew⟩, ?_, hmount, hlogged, fun s hs => ?_⟩
    · refine (pairwise_eq_iff_nodup fun id hid => ?_).mpr hdistinct
      obtain ⟨x, hx, rfl⟩ := List.mem_map.mp hid
      obtain ⟨s, hs, rfl⟩ := List.mem_map.mp hx
      obtain ⟨c, hc, -⟩ := hstr s hs
      exact ⟨c, hc⟩
    · obtain ⟨s', hs', heq⟩ := List.mem_map.mp hs
      obtain rfl := Source.local.inj heq
      obtain ⟨c, hc, hsurrogate, o, ho, hoid⟩ := hstr s' hs'
      refine ⟨c, by rw [hc, column, hsurrogate]; rfl, (hfound hlogged s' c).mpr ⟨?_, ?_, ?_⟩⟩
      · exact getSource_foldl_of_mem hdistinct hs hc []
      · intro r hr hrouted
        rw [← hoid]
        exact hcomplete.apart o ho r hr hrouted
      · rintro d hd rfl
        exact hcomplete.apartAuto o ho d hd hoid

/-- **Validation and start.** `validate` returns for the objects whose checks can be made; and where it
has nothing to say of one of version 2, the start goes through exactly where what it leaves out is
there. -/
theorem validated_starts_iff (env : Environment) (config : ConfigObject)
    (myDevices : List ConfigText) (selfDeviceId : Option ConfigText) :
    ((∃ errors, validate env.paths config = .ok errors) ↔ Checkable env.paths config) ∧
      (Versioned config 2 → Ready env config → validate env.paths config = .ok [] →
        (Starts env config myDevices selfDeviceId ↔ Complete env config myDevices selfDeviceId)) :=
  ⟨validate_returns_iff config, fun hversion hready hvalid =>
    starts_iff (accepted_of_validate_ready hvalid hversion hready) myDevices selfDeviceId⟩

/-- A system where every path is there. -/
def newSystem : Environment where
  paths := ⟨fun _ => some true, fun _ => true, fun _ => true, fun _ => true, fun _ => true⟩
  readBytes := fun _ => some (List.replicate 32 0)
  keyVariable := some (List.replicate 32 0)
  opensStore := fun _ => true
  routed := fun _ => true
  realText := fun _ => none

theorem ready_newSystem (config : ConfigObject) : Ready newSystem config :=
  ⟨fun _ _ => ⟨rfl, _, rfl, by decide⟩, fun _ => ⟨_, rfl, by decide⟩, fun _ _ _ _ _ => ⟨rfl, rfl⟩,
    fun _ _ _ _ _ => Or.inl rfl, fun _ _ => rfl⟩

/-- A directory with more members. -/
def directoryWith (more : ConfigObject) : ConfigObject :=
  (codePoints "type", .str (codePoints "directory")) ::
    (codePoints "path", .str (codePoints "/d")) :: more

/-- A configuration of version 2 with one directory. -/
def configWith (more : ConfigObject) : ConfigObject :=
  [(codePoints "version", .int 2),
    (codePoints "server", .dict [(codePoints "device_name", .str (codePoints "laptop"))]),
    (codePoints "sync", .dict [(codePoints "interval_seconds", .int 60),
      (codePoints "conflict_strategy", .str (codePoints "copy"))]),
    (codePoints "p2p", .dict [(codePoints "port", .int 9090), (codePoints "enabled", .bool true)]),
    (codePoints "metadata_db", .str (codePoints "/m")),
    (codePoints "sources", .list [.dict (directoryWith more)])]

def namedDisk : ConfigObject := [(codePoints "id", .str (codePoints "disk"))]

theorem validated_starts_iff_namedDisk : Starts newSystem (configWith namedDisk) [] none := by
  have hlocal : localObjects (configWith namedDisk) = [directoryWith namedDisk] := rfl
  have hremote : remoteObjects (configWith namedDisk) = [] := rfl
  refine ((validated_starts_iff newSystem (configWith namedDisk) [] none).2 (by decide +kernel)
    (ready_newSystem _) (by decide +kernel)).mpr ⟨Or.inl rfl, ⟨_, rfl⟩, fun o ho => ?_, ?_,
      fun r hr => ?_, fun o _ r hr => ?_, fun o _ d hd => ?_⟩
  · rw [hlocal, List.mem_singleton] at ho
    subst ho
    exact ⟨codePoints "disk", rfl, by decide +kernel⟩
  · rw [hlocal]
    exact List.nodup_singleton _
  · rw [hremote] at hr
    cases hr
  · rw [hremote] at hr
    cases hr
  · exact absurd hd.2.1 List.not_mem_nil

/-- A source without an id passes the checks and ends the start. -/
theorem source_without_id_fails : Versioned (configWith []) 2 ∧ Ready newSystem (configWith []) ∧
    validate newSystem.paths (configWith []) = .ok [] ∧
    ¬ Starts newSystem (configWith []) [] none := by
  refine ⟨by decide +kernel, ready_newSystem _, by decide +kernel, ?_⟩
  rintro ⟨core, m, hcore, -⟩
  have hnone : (buildCore newSystem (configWith [])).toOption.isNone = true := by decide +kernel
  rw [hcore] at hnone
  cases hnone

end CoreAssembly

end StardustFS
