import StardustFS.SourceEditing

/-! The checks of an edited configuration. What a check says of one source does not depend on its place in
the list, and what it says of the rest of the object does not depend on the sources; so a valid
configuration stays valid while good sources come and others go, up to the last one. -/

namespace StardustFS

open FsEncoding

namespace ConfigLoader

variable {env : PathChecks}

/-! ### The place in the list -/

theorem validateSource_place {i : Nat} (j : Nat) {source : ConfigObject}
    (h : validateSource env i source = .ok []) : validateSource env j source = .ok [] := by
  unfold validateSource at h ⊢
  dsimp only at h ⊢
  by_cases hdir : (source.get "type").eq (.str (codePoints "directory")) = true
  · rw [if_pos hdir] at h ⊢
    cases hpath : (source.getD "path" (.str [])).str? with
    | none =>
        rw [hpath] at h
        cases h
    | some path =>
        rw [hpath] at h
        dsimp only at h ⊢
        split_ifs at h ⊢
        · cases h
        · cases h
        · rfl
  · rw [if_neg hdir] at h ⊢
    by_cases hloop : (source.get "type").eq (.str (codePoints "loopback")) = true
    · rw [if_pos hloop] at h ⊢
      cases hpath : (source.getD "path" (.str [])).str? with
      | none =>
          rw [hpath] at h
          cases h
      | some path =>
          rw [hpath] at h
          dsimp only at h ⊢
          rw [Except.ok.injEq, List.append_eq_nil_iff] at h ⊢
          obtain ⟨hpathErrors, hsizeErrors⟩ := h
          refine ⟨?_, ?_⟩
          · split_ifs at hpathErrors ⊢
            rfl
          · cases hsize : (source.get "size").int? with
            | none =>
                rw [hsize] at hsizeErrors
                cases hsizeErrors
            | some size =>
                rw [hsize] at hsizeErrors
                dsimp only at hsizeErrors ⊢
                split_ifs at hsizeErrors ⊢
                rfl
    · rw [if_neg hloop] at h
      cases h

theorem validateSourceV2_place {i : Nat} (j : Nat) {source : ConfigObject}
    (h : validateSourceV2 env i source = .ok []) : validateSourceV2 env j source = .ok [] := by
  by_cases hremote : HasType source "remote"
  · unfold validateSourceV2 at h ⊢
    dsimp only at h ⊢
    rw [if_pos (Json.eq_str_iff.mpr hremote)] at h ⊢
    unfold validateRemoteSource at h ⊢
    cases hdevice : (source.get "device_id").str? with
    | none =>
        rw [hdevice] at h
        cases h
    | some deviceId =>
        rw [hdevice] at h
        dsimp only at h ⊢
        split_ifs at h ⊢
        · rfl
        · cases h
  · have hsource : validateSource env i source = .ok [] := by
      unfold validateSourceV2 at h
      dsimp only at h
      rw [if_neg (mt Json.eq_str_iff.mp hremote)] at h
      split_ifs at h
      · exact h
      · cases h
    exact validateSourceV2_of_validateSource (validateSource_place j hsource)

/-! ### The sources and the rest -/

/-- The check of one source, by the version of the object. -/
def sourceCheck (env : PathChecks) (config : ConfigObject) (index : Nat) (source : ConfigObject) :
    Except PyError (List Message) :=
  if Versioned config 2 then validateSourceV2 env index source else validateSource env index source

theorem sourceCheck_place (config : ConfigObject) {i : Nat} (j : Nat) {source : ConfigObject}
    (h : sourceCheck env config i source = .ok []) : sourceCheck env config j source = .ok [] := by
  unfold sourceCheck at h ⊢
  split_ifs at h ⊢
  · exact validateSourceV2_place j h
  · exact validateSource_place j h

/-- A source that either version takes. -/
theorem sourceCheck_of_validateSource (config : ConfigObject) {i : Nat} {source : ConfigObject}
    (h : validateSource env i source = .ok []) : sourceCheck env config i source = .ok [] := by
  unfold sourceCheck
  split_ifs
  · exact validateSourceV2_of_validateSource h
  · exact h

theorem validateEach_eq_nil_iff {check : Nat → ConfigObject → Except PyError (List Message)}
    (hplace : ∀ i j source, check i source = .ok [] → check j source = .ok []) (index : Nat)
    (items : List ConfigValue) : validateEach check index items = .ok [] ↔
      ∀ x ∈ items, ∃ source, x = .dict source ∧ check 0 source = .ok [] := by
  constructor
  · intro h x hx
    obtain ⟨source, i, rfl, hcheck⟩ := validateEach_eq_nil h x hx
    exact ⟨source, rfl, hplace i 0 source hcheck⟩
  · intro h
    induction items generalizing index with
    | nil => rfl
    | cons x rest ih =>
        obtain ⟨⟨source, hx, hcheck⟩, hrest⟩ := List.forall_mem_cons.mp h
        exact validateEach_cons.mpr
          ⟨source, [], [], hx, hplace 0 index source hcheck, ih (index + 1) hrest, rfl⟩

theorem validateSources_eq_nil_iff {check : Nat → ConfigObject → Except PyError (List Message)}
    (hplace : ∀ i j source, check i source = .ok [] → check j source = .ok []) {config : ConfigObject}
    {items : List ConfigValue} (hitems : config.get "sources" = .list items) :
    validateSources check config = .ok [] ↔
      items ≠ [] ∧ ∀ x ∈ items, ∃ source, x = .dict source ∧ check 0 source = .ok [] := by
  unfold validateSources
  rw [hitems]
  cases items with
  | nil =>
      refine iff_of_false (fun h => ?_) fun h => h.1 rfl
      cases h
  | cons x rest =>
      show validateEach check 0 (x :: rest) = .ok [] ↔ _
      rw [validateEach_eq_nil_iff hplace]
      exact ⟨fun h => ⟨List.cons_ne_nil x rest, h⟩, fun h => h.2⟩

theorem validateV1_eq_nil_iff {config : ConfigObject} : validateV1 env config = .ok [] ↔
    validateKeyFile env false config = .ok [] ∧ validateSources (validateSource env) config = .ok [] := by
  unfold validateV1
  simp only [bind_eq_ok_iff, Except.ok.injEq, List.append_eq_nil_iff]
  constructor
  · rintro ⟨sources, hsources, keyFile, hkeyFile, rfl, rfl⟩
    exact ⟨hkeyFile, hsources⟩
  · rintro ⟨hkeyFile, hsources⟩
    exact ⟨[], hsources, [], hkeyFile, rfl, rfl⟩

/-- The sections beside the sources are in order. -/
def SectionsPass (config : ConfigObject) : Prop :=
  ["server", "sync", "p2p"].flatMap (sectionErrors config) = [] ∧
    checkSection config "server" validateServer = [] ∧ checkSection config "sync" validateSync = [] ∧
    checkSection config "p2p" validateP2p = []

theorem validateV2_eq_nil_iff {config : ConfigObject} : validateV2 env config = .ok [] ↔
    SectionsPass config ∧ validateKeyFile env (serverUrl config).truthy config = .ok [] ∧
      validateSources (validateSourceV2 env) config = .ok [] := by
  unfold validateV2 SectionsPass
  simp only [bind_eq_ok_iff, Except.ok.injEq, List.append_eq_nil_iff]
  constructor
  · rintro ⟨sources, hsources, keyFile, hkeyFile, ⟨⟨⟨⟨hsections, hserver⟩, hsync⟩, hp2p⟩, rfl⟩, rfl⟩
    exact ⟨⟨hsections, hserver, hsync, hp2p⟩, hkeyFile, hsources⟩
  · rintro ⟨⟨hsections, hserver, hsync, hp2p⟩, hkeyFile, hsources⟩
    exact ⟨[], hsources, [], hkeyFile, ⟨⟨⟨⟨hsections, hserver⟩, hsync⟩, hp2p⟩, rfl⟩, rfl⟩

theorem validate_eq_nil_iff {config : ConfigObject} : validate env config = .ok [] ↔
    Versioned config 2 ∧ validateV2 env config = .ok [] ∨
      Versioned config 1 ∧ validateV1 env config = .ok [] := by
  unfold validate versionErrors Versioned
  cases hversion : (config.get "version").int? with
  | none => simp
  | some version =>
      by_cases htwo : version = 2
      · subst htwo
        simp [bind_eq_ok_iff]
      · by_cases hone : version = 1
        · subst hone
          simp [bind_eq_ok_iff]
        · simp [htwo, hone]

/-- **With the rest of a valid object, the sources decide.** -/
theorem validate_iff_sources {config config' : ConfigObject}
    (hget : ∀ key, key ≠ "sources" → config'.get key = config.get key)
    (hvalid : validate env config = .ok []) :
    validate env config' = .ok [] ↔ validateSources (sourceCheck env config) config' = .ok [] := by
  have hversioned : ∀ version, Versioned config' version ↔ Versioned config version := by
    intro version
    rw [Versioned, Versioned, hget "version" (by decide)]
  have hkeyFile : ∀ restorable, validateKeyFile env restorable config' =
      validateKeyFile env restorable config :=
    fun _ => validateKeyFile_congr (hget "key_file" (by decide))
  rw [validate_eq_nil_iff, hversioned, hversioned, validateV2_eq_nil_iff, validateV1_eq_nil_iff]
  rcases validate_eq_nil_iff.mp hvalid with ⟨htwo, hv2⟩ | ⟨hone, hv1⟩
  · obtain ⟨hsections, hkey, -⟩ := validateV2_eq_nil_iff.mp hv2
    have hnotOne : ¬Versioned config 1 := by
      intro hone
      rw [Versioned, htwo] at hone
      cases hone
    have hsections' : SectionsPass config' := by
      simp only [SectionsPass, List.flatMap_cons, List.flatMap_nil, sectionErrors, checkSection]
        at hsections ⊢
      rwa [hget "server" (by decide), hget "sync" (by decide), hget "p2p" (by decide)]
    have hurl : serverUrl config' = serverUrl config := by
      rw [serverUrl, serverUrl, hget "server" (by decide)]
    have hcheck : sourceCheck env config = validateSourceV2 env := by
      funext index source
      rw [sourceCheck, if_pos htwo]
    rw [hcheck, hurl, hkeyFile, hkey]
    simp [htwo, hnotOne, hsections']
  · obtain ⟨hkey, -⟩ := validateV1_eq_nil_iff.mp hv1
    have hnotTwo : ¬Versioned config 2 := by
      intro htwo
      rw [Versioned, hone] at htwo
      cases htwo
    have hcheck : sourceCheck env config = validateSource env := by
      funext index source
      rw [sourceCheck, if_neg hnotTwo]
    rw [hcheck, hkeyFile, hkeyFile, hkey]
    simp [hone, hnotTwo]

end ConfigLoader

namespace SourceEditing

open TextFile

variable {ed : Editor}

/-! ### Runs of the interface -/

/-- What holds of the sources and of those that are added holds after the action. -/
theorem listStep_forall {P : ConfigValue → Prop} {e : Event} {sources : List ConfigValue}
    (hadded : ∀ stype path size hex entry, e.action = .addSource stype path size hex →
      newEntry ed stype path size hex = .ok entry → P (.dict entry))
    (h : ∀ x ∈ sources, P x) : ∀ x ∈ (listStep ed sources e).2, P x := by
  have hreplaced : ∀ (new : List ConfigValue) (answer : ConfigValue), (∀ x ∈ new, P x) →
      ∀ x ∈ (replaced e.calls sources new answer).2, P x := by
    intro new answer hnew
    unfold replaced
    split_ifs
    · exact h
    · exact hnew
  unfold listStep
  cases haction : e.action with
  | listSources =>
      dsimp only
      split_ifs
      · exact h
      · exact h
  | addSource stype path size hex =>
      dsimp only
      split_ifs
      · exact h
      · exact h
      · cases hentry : newEntry ed stype path size hex with
        | error error => exact h
        | ok entry =>
            exact hreplaced _ _ (List.forall_mem_append.mpr
              ⟨h, List.forall_mem_singleton.mpr (hadded _ _ _ _ _ haction hentry)⟩)
  | removeSource sourceId =>
      dsimp only
      split_ifs
      · exact h
      · exact hreplaced _ _ fun x hx => h x (List.mem_filter.mp hx).1
      · exact h

theorem after_listStep_forall {P : ConfigValue → Prop} {events : List Event} {sources : List ConfigValue}
    (hadded : ∀ e ∈ events, ∀ stype path size hex entry, e.action = .addSource stype path size hex →
      newEntry ed stype path size hex = .ok entry → P (.dict entry))
    (h : ∀ x ∈ sources, P x) : ∀ x ∈ Simulation.after (listStep ed) sources events, P x := by
  induction events generalizing sources with
  | nil => exact h
  | cons e events ih =>
      obtain ⟨he, hevents⟩ := List.forall_mem_cons.mp hadded
      exact ih hevents (listStep_forall he h)

/-! ### A source that is replaced -/

def photos : ConfigObject :=
  [(codePoints "type", .str (codePoints "directory")), (codePoints "id", .str (codePoints "photos")),
    (codePoints "path", .str (codePoints "/photos"))]

/-- An object of version 1 with one source. -/
def photosConfig : ConfigObject :=
  [(codePoints "version", .int 1), (codePoints "sources", .list [.dict photos])]

def photosDir : ConfigDir :=
  Table.empty.put homeEditor.configPath
    (.file ((JsonWriter.encodeUtf8 (JsonWriter.dumps homeEditor.floatRepr photosConfig)).getD []))

/-- Every directory is there. -/
def allThere : PathChecks := ⟨fun _ => some true, fun _ => true, fun _ => true, fun _ => true, fun _ => true⟩

/-- Another directory is added, then the first one is removed. -/
def replacePhotos : List Event :=
  [⟨.addSource (codePoints "directory") (codePoints "data") none fun _ => Fin.last 15, allDone⟩,
    ⟨.removeSource (codePoints "photos"), allDone⟩]

end SourceEditing

end StardustFS
