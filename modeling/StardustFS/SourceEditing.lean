import StardustFS.CoreAssembly
import StardustFS.Simulation
import StardustFS.TextFiles

/-! The sources of the configuration, as the interface edits them. Each action reads the file, changes the
list under `sources` and writes the whole object again; what the system answers to the reads and to the
write is a parameter. The limits of the interpreter on nesting and on the digits of a number are left
out. Over the actions stands a list of sources that knows no file. -/

namespace StardustFS

namespace SourceEditing

open FsEncoding TextFile

/-- The file that is edited, and what the interpreter makes of floats and of paths. -/
structure Editor where
  configPath : ConfigText
  floatRepr : PyFloat → ConfigText
  floatOf : ConfigText → PyFloat
  /-- `os.path.abspath`, which depends on the working directory. -/
  abspath : ConfigText → ConfigText

/-- The answers to the calls of one action. -/
structure EditCalls where
  loadFails : Bool
  /-- The second read, before the write, fails. -/
  reloadFails : Bool
  write : WriteAnswer
  /-- What the file holds once a part of the text had no encoding. -/
  flushed : Bytes

inductive Action where
  | listSources
  /-- With the first digits of `uuid4().hex`. -/
  | addSource (stype path : ConfigText) (size : Option Int) (hex : Fin 6 → Fin 16)
  | removeSource (sourceId : ConfigText)

structure Event where
  action : Action
  calls : EditCalls

variable (ed : Editor)

/-- `ConfigLoader.load`. A file that is missing and one that cannot be read raise an `OSError`, bytes that
are no UTF-8 and a text that is no JSON a `ValueError`. -/
def load (fails : Bool) (dir : ConfigDir) : Except PyError ConfigValue :=
  if fails then .error .osError
  else match dir.get ed.configPath with
  | some (.file bytes) =>
      match (readText bytes).bind (JsonReader.loads ed.floatOf) with
      | none => .error .valueError
      | some config => .ok config
  | _ => .error .osError

/-- `list_sources`. -/
def listSources (fails : Bool) (dir : ConfigDir) : Except PyError (List ConfigValue) := do
  let config ← load ed fails dir
  let data ← CoreAssembly.asObject config
  CoreAssembly.iterate (data.getD "sources" (.list []))

/-- `json.dump` into the file that was opened for writing, and so is empty. -/
def dump (calls : EditCalls) (data : ConfigObject) (dir : ConfigDir) : ConfigDir × Except PyError Unit :=
  match calls.write, JsonWriter.encodeUtf8 (JsonWriter.dumps ed.floatRepr data) with
  | .refused, _ => (dir, .error .osError)
  | _, none => (dir.put ed.configPath (.file calls.flushed), .error .unicodeEncodeError)
  | .broken written, some bytes => (dir.put ed.configPath (.file (bytes.take written)), .error .osError)
  | .done, some bytes => (dir.put ed.configPath (.file bytes), .ok ())

/-- `_save_sources`. -/
def saveSources (calls : EditCalls) (sources : List ConfigValue) (dir : ConfigDir) :
    ConfigDir × Except PyError Unit :=
  match load ed calls.reloadFails dir with
  | .error e => (dir, .error e)
  | .ok config =>
      match config.members? with
      | none => (dir, .error .typeError)
      | some data => dump ed calls (ConfigObject.setItem data "sources" (.list sources)) dir

def supported (stype : ConfigText) : Bool :=
  stype == codePoints "directory" || stype == codePoints "loopback"

def hexText (hex : Fin 6 → Fin 16) : ConfigText :=
  List.ofFn fun i => Fin.ofNat _ (JsonText.hexDigit (hex i)).toNat

/-- `f"{stype}-{uuid.uuid4().hex[:6]}"`. -/
def newId (stype : ConfigText) (hex : Fin 6 → Fin 16) : ConfigText := stype ++ codePoints "-" ++ hexText hex

/-- The members of a new source; a loopback source needs a size that is not zero. -/
def newEntry (stype path : ConfigText) (size : Option Int) (hex : Fin 6 → Fin 16) :
    Except PyError ConfigObject :=
  let entry := [(codePoints "type", .str stype), (codePoints "id", .str (newId stype hex)),
    (codePoints "path", .str (ed.abspath path))]
  if stype = codePoints "loopback" then
    match size with
    | none => .error .valueError
    | some size => if size = 0 then .error .valueError else .ok (entry ++ [(codePoints "size", .int size)])
  else .ok entry

/-- `add_source`. -/
def addSource (stype path : ConfigText) (size : Option Int) (hex : Fin 6 → Fin 16) (calls : EditCalls)
    (dir : ConfigDir) : ConfigDir × Except PyError ConfigText :=
  if !supported stype then (dir, .error .valueError)
  else match listSources ed calls.loadFails dir with
  | .error e => (dir, .error e)
  | .ok sources =>
      match newEntry ed stype path size hex with
      | .error e => (dir, .error e)
      | .ok entry =>
          match saveSources ed calls (sources ++ [.dict entry]) dir with
          | (dir, .error e) => (dir, .error e)
          | (dir, .ok ()) => (dir, .ok (newId stype hex))

/-- `[s for s in sources if s.get("id") != source_id]`. -/
def withoutSource (sourceId : ConfigText) : List ConfigValue → Except PyError (List ConfigValue)
  | [] => .ok []
  | s :: rest => do
      let source ← CoreAssembly.asObject s
      let kept ← withoutSource sourceId rest
      .ok (if (source.get "id").eq (.str sourceId) then kept else s :: kept)

/-- `remove_source`. -/
def removeSource (sourceId : ConfigText) (calls : EditCalls) (dir : ConfigDir) :
    ConfigDir × Except PyError Unit :=
  match listSources ed calls.loadFails dir with
  | .error e => (dir, .error e)
  | .ok sources =>
      match withoutSource sourceId sources with
      | .error e => (dir, .error e)
      | .ok kept => saveSources ed calls kept dir

/-- One action, with what it returns and the directory it leaves. -/
def step (dir : ConfigDir) (e : Event) : Except PyError ConfigValue × ConfigDir :=
  match e.action with
  | .listSources => ((listSources ed e.calls.loadFails dir).map .list, dir)
  | .addSource stype path size hex =>
      let r := addSource ed stype path size hex e.calls dir
      (r.2.map .str, r.1)
  | .removeSource sourceId =>
      let r := removeSource ed sourceId e.calls dir
      (r.2.map fun _ => .null, r.1)

/-! ### The list without a file -/

/-- The object of the list has this id. -/
def hasId (sourceId : ConfigText) (s : ConfigValue) : Bool :=
  s.members?.any fun source : ConfigObject => (source.get "id").eq (.str sourceId)

/-- A new list takes the place of the old one, unless the system refuses. -/
def replaced (calls : EditCalls) (sources new : List ConfigValue) (answer : ConfigValue) :
    Except PyError ConfigValue × List ConfigValue :=
  if calls.reloadFails ∨ calls.write = .refused then (.error .osError, sources) else (.ok answer, new)

/-- **What the actions are for**: one list of sources that is read, grows at its end and loses an id. -/
def listStep (sources : List ConfigValue) (e : Event) : Except PyError ConfigValue × List ConfigValue :=
  match e.action with
  | .listSources => if e.calls.loadFails then (.error .osError, sources) else (.ok (.list sources), sources)
  | .addSource stype path size hex =>
      if !supported stype then (.error .valueError, sources)
      else if e.calls.loadFails then (.error .osError, sources)
      else match newEntry ed stype path size hex with
      | .error error => (.error error, sources)
      | .ok entry => replaced e.calls sources (sources ++ [.dict entry]) (.str (newId stype hex))
  | .removeSource sourceId =>
      if e.calls.loadFails then (.error .osError, sources)
      else if sources.all fun s => s.members?.isSome then
        replaced e.calls sources (sources.filter fun s => !hasId sourceId s) .null
      else (.error .attributeError, sources)

theorem withoutSource_eq (sourceId : ConfigText) (sources : List ConfigValue) :
    withoutSource sourceId sources =
      if sources.all fun s => s.members?.isSome then .ok (sources.filter fun s => !hasId sourceId s)
      else .error .attributeError := by
  induction sources with
  | nil => rfl
  | cons s rest ih =>
      rw [withoutSource, ih, CoreAssembly.asObject, List.all_cons, List.filter_cons]
      cases hs : s.members? with
      | none => rfl
      | some source =>
          have hid : hasId sourceId s = (ConfigObject.get source "id").eq (.str sourceId) := by
            rw [hasId, hs]
            rfl
          rw [Option.isSome_some, Bool.true_and]
          split_ifs with _ hkept
          · rw [hid, Bool.not_eq_true'] at hkept
            show Except.ok (if (ConfigObject.get source "id").eq (.str sourceId) then _ else _) = _
            rw [hkept, if_neg Bool.false_ne_true]
          · rw [hid, Bool.not_eq_true', Bool.not_eq_false] at hkept
            show Except.ok (if (ConfigObject.get source "id").eq (.str sourceId) then _ else _) = _
            rw [hkept, if_pos rfl]
          · rfl

/-! ### What can be written -/

/-- The value is written to a text that is read back as this value. -/
def Writable (x : ConfigValue) : Prop := JsonWriter.Readable ed.floatRepr ed.floatOf x ∧ ScalarValue x

variable {ed}

theorem writable_list_iff {items : List ConfigValue} :
    Writable ed (.list items) ↔ ∀ x ∈ items, Writable ed x := by
  unfold Writable
  rw [JsonWriter.readable_list_iff]
  constructor
  · rintro ⟨hread, hscalar⟩ x hx
    cases hscalar with
    | list hscalar => exact ⟨hread x hx, hscalar x hx⟩
  · exact fun h => ⟨fun x hx => (h x hx).1, .list fun x hx => (h x hx).2⟩

theorem writable_dict_iff {members : ConfigObject} : Writable ed (.dict members) ↔
    (members.map Prod.fst).Nodup ∧ (∀ m ∈ members, ∀ c ∈ m.1, Scalar c) ∧ ∀ m ∈ members, Writable ed m.2 := by
  unfold Writable
  rw [JsonWriter.readable_dict_iff]
  constructor
  · rintro ⟨⟨hkeys, hread⟩, hscalar⟩
    cases hscalar with
    | dict hscalar hvalues => exact ⟨hkeys, hscalar, fun m hm => ⟨hread m hm, hvalues m hm⟩⟩
  · rintro ⟨hkeys, hscalar, hvalues⟩
    exact ⟨⟨hkeys, fun m hm => (hvalues m hm).1⟩, .dict hscalar fun m hm => (hvalues m hm).2⟩

theorem writable_str {s : ConfigText} (h : ∀ c ∈ s, Scalar c) : Writable ed (.str s) :=
  ⟨JsonWriter.readable_str _ _ s, .str h⟩

theorem writable_int (n : Int) : Writable ed (.int n) := ⟨JsonWriter.readable_int _ _ n, .int n⟩

/-- A literal has no surrogate. -/
theorem scalar_codePoints (s : String) : ∀ c ∈ codePoints s, Scalar c := by
  intro c hc
  obtain ⟨d, -, rfl⟩ := List.mem_map.mp hc
  have hvalid : d.toNat < 0xD800 ∨ 0xDFFF < d.toNat ∧ d.toNat < 0x110000 := d.valid
  show ¬(0xD800 ≤ d.toNat ∧ d.toNat < 0xE000)
  omega

theorem mem_of_lookup {data : ConfigObject} {key : ConfigText} {x : ConfigValue}
    (h : Json.lookup key data = some x) : (key, x) ∈ data := by
  unfold Json.lookup at h
  obtain ⟨m, hm, rfl⟩ := Option.map_eq_some_iff.mp h
  have hkey : m.1 = key := by simpa using List.find?_some hm
  exact hkey ▸ List.mem_of_find?_eq_some hm

theorem writable_getD {data : ConfigObject} (h : Writable ed (.dict data)) (key : String)
    {default : ConfigValue} (hdefault : Writable ed default) : Writable ed (data.getD key default) := by
  unfold ConfigObject.getD
  cases hlookup : Json.lookup (codePoints key) data with
  | none => exact hdefault
  | some x => exact (writable_dict_iff.mp h).2.2 _ (mem_of_lookup hlookup)

theorem writable_of_iterate {x : ConfigValue} (h : Writable ed x) {items : List ConfigValue}
    (hiterate : CoreAssembly.iterate x = .ok items) : ∀ y ∈ items, Writable ed y := by
  cases x with
  | list =>
      obtain rfl := Except.ok.inj hiterate
      exact writable_list_iff.mp h
  | str s =>
      obtain rfl := Except.ok.inj hiterate
      intro y hy
      obtain ⟨c, hc, rfl⟩ := List.mem_map.mp hy
      obtain ⟨-, hscalar⟩ := h
      cases hscalar with
      | str hscalar => exact writable_str (List.forall_mem_singleton.mpr (hscalar c hc))
  | dict members =>
      obtain rfl := Except.ok.inj hiterate
      intro y hy
      obtain ⟨m, hm, rfl⟩ := List.mem_map.mp hy
      exact writable_str ((writable_dict_iff.mp h).2.1 m hm)
  | _ => cases hiterate

theorem setItem_eq_insertMember (data : ConfigObject) (key : String) (x : ConfigValue) :
    data.setItem key x = JsonReader.insertMember data (codePoints key, x) := by
  unfold ConfigObject.setItem JsonReader.insertMember ConfigObject.contains Json.lookup
  refine if_congr ?_ rfl rfl
  rw [Option.isSome_map, List.find?_isSome]
  simp only [decide_eq_true_eq]

theorem writable_setItem {data : ConfigObject} (h : Writable ed (.dict data)) (key : String) {x : ConfigValue}
    (hx : Writable ed x) : Writable ed (.dict (data.setItem key x)) := by
  obtain ⟨-, hkeys, hvalues⟩ := writable_dict_iff.mp h
  refine ⟨?_, ?_⟩
  · rw [setItem_eq_insertMember]
    exact JsonWriter.insertMember_readable _ _ h.1 hx.1
  · unfold ConfigObject.setItem
    split_ifs
    · refine .dict (List.forall_mem_map.mpr fun m hm => ?_) (List.forall_mem_map.mpr fun m hm => ?_)
      · split_ifs
        · exact hkeys m hm
        · exact hkeys m hm
      · split_ifs
        · exact hx.2
        · exact (hvalues m hm).2
    · refine .dict (List.forall_mem_append.mpr ⟨hkeys, ?_⟩) (List.forall_mem_append.mpr ⟨?_, ?_⟩)
      · exact List.forall_mem_singleton.mpr (scalar_codePoints key)
      · exact fun m hm => (hvalues m hm).2
      · exact List.forall_mem_singleton.mpr hx.2

/-- An object whose keys are literals. -/
theorem writable_zip (keys : List String) (values : List ConfigValue) (hnodup : keys.Nodup)
    (hlength : keys.length ≤ values.length) (hvalues : ∀ x ∈ values, Writable ed x) :
    Writable ed (.dict ((keys.map codePoints).zip values)) := by
  refine writable_dict_iff.mpr ⟨?_, fun m hm => ?_, fun m hm => hvalues _ (List.of_mem_zip hm).2⟩
  · rw [List.map_fst_zip (by rwa [List.length_map])]
    exact hnodup.map codePoints_injective
  · obtain ⟨key, -, hkey⟩ := List.mem_map.mp (List.of_mem_zip hm).1
    exact hkey ▸ scalar_codePoints key

theorem writable_newEntry {stype path : ConfigText} {size : Option Int} {hex : Fin 6 → Fin 16}
    {entry : ConfigObject} (htype : supported stype = true) (hpath : ∀ c ∈ ed.abspath path, Scalar c)
    (h : newEntry ed stype path size hex = .ok entry) : Writable ed (.dict entry) := by
  have hstype : ∀ c ∈ stype, Scalar c := by
    rw [supported, Bool.or_eq_true, beq_iff_eq, beq_iff_eq] at htype
    rcases htype with rfl | rfl
    · exact scalar_codePoints _
    · exact scalar_codePoints _
  have hhex : ∀ c ∈ hexText hex, Scalar c := by
    intro c hc
    obtain ⟨i, rfl⟩ := List.mem_ofFn.mp hc
    have hrange := hexDigit_range (hex i) (hex i).isLt
    show ¬(0xD800 ≤ (Fin.ofNat 0x110000 (JsonText.hexDigit (hex i)).toNat).val ∧ _)
    rw [Fin.val_ofNat, Nat.mod_eq_of_lt (by omega)]
    omega
  have hid : ∀ c ∈ newId stype hex, Scalar c :=
    List.forall_mem_append.mpr ⟨List.forall_mem_append.mpr ⟨hstype, scalar_codePoints _⟩, hhex⟩
  let three : List ConfigValue := [.str stype, .str (newId stype hex), .str (ed.abspath path)]
  have hthree : ∀ x ∈ three, Writable ed x := by
    simp only [three, List.forall_mem_cons]
    exact ⟨writable_str hstype, writable_str hid, writable_str hpath, fun _ hx => absurd hx List.not_mem_nil⟩
  unfold newEntry at h
  split_ifs at h
  · cases size with
    | none => cases h
    | some size =>
        dsimp only at h
        split_ifs at h
        obtain rfl := Except.ok.inj h
        exact writable_zip ["type", "id", "path", "size"] (three ++ [.int size]) (by decide) (by rfl)
          (List.forall_mem_append.mpr ⟨hthree, List.forall_mem_singleton.mpr (writable_int size)⟩)
  · obtain rfl := Except.ok.inj h
    exact writable_zip ["type", "id", "path"] three (by decide) (Nat.le_refl 3) hthree

/-! ### The file follows the list -/

/-- What the interpreter makes of floats: the shortest text that stands for the same number. -/
structure Editor.Faithful (ed : Editor) : Prop where
  spelling : JsonWriter.Spelling ed.floatRepr ed.floatOf
  ascii : ∀ x, ∀ c ∈ ed.floatRepr x, 32 ≤ c.val ∧ c.val < 128

/-- No write breaks off, and a path that is added has an encoding. -/
structure Event.Sound (ed : Editor) (e : Event) : Prop where
  whole : ∀ n, e.calls.write ≠ .broken n
  path : ∀ stype path size hex, e.action = .addSource stype path size hex → ∀ c ∈ ed.abspath path, Scalar c

variable (ed) in
/-- The file holds an object whose list of sources is this one, and is the first object or has a list there;
its other members are those of `data₀`, and the other files those of `dir₀`. -/
structure Represents (dir₀ : ConfigDir) (data₀ : ConfigObject) (dir : ConfigDir)
    (sources : List ConfigValue) : Prop where
  loaded : ∃ data : ConfigObject, load ed false dir = .ok (.dict data) ∧ Writable ed (.dict data) ∧
    CoreAssembly.iterate (data.getD "sources" (.list [])) = .ok sources ∧
    (data = data₀ ∨ data.get "sources" = .list sources) ∧
    ∀ k, k ≠ codePoints "sources" → Json.lookup k data = Json.lookup k data₀
  others : ∀ path, path ≠ ed.configPath → dir.get path = dir₀.get path

variable {dir₀ dir : ConfigDir} {data₀ : ConfigObject} {sources : List ConfigValue}

theorem load_eq (fails : Bool) (dir : ConfigDir) :
    load ed fails dir = if fails then .error .osError else load ed false dir := by
  cases fails
  · rfl
  · rfl

/-- **What was dumped is loaded.** -/
theorem exists_dumped (hed : ed.Faithful) {data : ConfigObject} (h : Writable ed (.dict data)) :
    ∃ bytes, JsonWriter.encodeUtf8 (JsonWriter.dumps ed.floatRepr data) = some bytes ∧
      ∀ dir : ConfigDir, load ed false (dir.put ed.configPath (.file bytes)) = .ok (.dict data) := by
  obtain ⟨bytes, hbytes, hread⟩ := readText_encodeUtf8 (plain_text hed.ascii h.2 0)
  have hloads : JsonReader.loads ed.floatOf (JsonWriter.text ed.floatRepr 0 (.dict data)) =
      some (.dict data) := JsonWriter.loads_dumps _ _ h.1
  refine ⟨bytes, hbytes, fun dir => ?_⟩
  rw [load, if_neg Bool.false_ne_true, Table.get_put_self]
  dsimp only
  rw [hread, Option.bind_some, hloads]

theorem load_dumped (hed : ed.Faithful) {data : ConfigObject} (h : Writable ed (.dict data)) (dir : ConfigDir) :
    load ed false (dir.put ed.configPath
      (.file ((JsonWriter.encodeUtf8 (JsonWriter.dumps ed.floatRepr data)).getD []))) = .ok (.dict data) := by
  obtain ⟨bytes, hbytes, hload⟩ := exists_dumped hed h
  rw [hbytes]
  exact hload dir

theorem listSources_represents (h : Represents ed dir₀ data₀ dir sources) (fails : Bool) :
    listSources ed fails dir = if fails then .error .osError else .ok sources := by
  obtain ⟨data, hload, -, hsources, -⟩ := h.loaded
  rw [listSources, load_eq, hload]
  split_ifs
  · rfl
  · exact hsources

theorem Represents.writable (h : Represents ed dir₀ data₀ dir sources) : ∀ x ∈ sources, Writable ed x := by
  obtain ⟨data, -, hdata, hsources, -⟩ := h.loaded
  have hempty : Writable ed (.list []) := writable_list_iff.mpr fun _ hx => absurd hx List.not_mem_nil
  exact writable_of_iterate (writable_getD hdata "sources" hempty) hsources

theorem saveSources_refused (h : Represents ed dir₀ data₀ dir sources) {calls : EditCalls}
    (hrefused : calls.reloadFails = true ∨ calls.write = .refused) (new : List ConfigValue) :
    saveSources ed calls new dir = (dir, .error .osError) := by
  obtain ⟨data, hload, -⟩ := h.loaded
  rw [saveSources, load_eq, hload]
  rcases hrefused with hreload | hwrite
  · rw [if_pos hreload]
  · split_ifs
    · rfl
    · show dump ed calls _ dir = _
      rw [dump, hwrite]

/-- A write that is not refused leaves the new list in the place of the old one. -/
theorem saveSources_represents (hed : ed.Faithful) (h : Represents ed dir₀ data₀ dir sources)
    {calls : EditCalls} (hrefused : ¬(calls.reloadFails = true ∨ calls.write = .refused))
    (hwhole : ∀ n, calls.write ≠ .broken n) {new : List ConfigValue} (hnew : ∀ x ∈ new, Writable ed x) :
    ∃ dir', saveSources ed calls new dir = (dir', .ok ()) ∧ Represents ed dir₀ data₀ dir' new := by
  obtain ⟨data, hload, hdata, -, -, hlookup⟩ := h.loaded
  obtain ⟨hreload, hwrite⟩ := not_or.mp hrefused
  have hdone : calls.write = .done := by
    cases hanswer : calls.write with
    | done => rfl
    | refused => exact absurd hanswer hwrite
    | broken n => exact absurd hanswer (hwhole n)
  have hset := writable_setItem hdata "sources" (writable_list_iff.mpr hnew)
  obtain ⟨bytes, hbytes, hnext⟩ := exists_dumped hed hset
  refine ⟨dir.put ed.configPath (.file bytes), ?_, ⟨_, hnext dir, hset, ?_, .inr ?_, ?_⟩, ?_⟩
  · rw [saveSources, load_eq, if_neg hreload, hload]
    show dump ed calls (ConfigObject.setItem data "sources" (.list new)) dir = _
    rw [dump, hdone, hbytes]
  · rw [ConfigObject.getD, ConfigObject.lookup_setItem, if_pos rfl]
    rfl
  · rw [ConfigObject.get, Json.get, ConfigObject.lookup_setItem, if_pos rfl]
    rfl
  · intro k hk
    rw [ConfigObject.lookup_setItem, if_neg hk, hlookup k hk]
  · intro path hpath
    rw [Table.get_put_of_ne _ _ hpath, h.others path hpath]

/-- The save and the change of the list answer alike and stay related. -/
theorem saveSources_replaced (hed : ed.Faithful) (h : Represents ed dir₀ data₀ dir sources)
    {calls : EditCalls} (hwhole : ∀ n, calls.write ≠ .broken n) {new : List ConfigValue} (hnew : ∀ x ∈ new, Writable ed x)
    (answer : ConfigValue) :
    (saveSources ed calls new dir).2.map (fun _ => answer) = (replaced calls sources new answer).1 ∧
      Represents ed dir₀ data₀ (saveSources ed calls new dir).1 (replaced calls sources new answer).2 := by
  unfold replaced
  by_cases hrefused : calls.reloadFails = true ∨ calls.write = .refused
  · rw [if_pos hrefused, saveSources_refused h hrefused]
    exact ⟨rfl, h⟩
  · obtain ⟨dir', hsave, hnext⟩ := saveSources_represents hed h hrefused hwhole hnew
    rw [if_neg hrefused, hsave]
    exact ⟨rfl, hnext⟩

/-- A source that cannot be made, or a list that cannot be read, leaves the file alone. -/
theorem addSource_error {stype path : ConfigText} {size : Option Int} {hex : Fin 6 → Fin 16} {calls : EditCalls}
    {error : PyError} (htype : supported stype = true)
    (h : listSources ed calls.loadFails dir = .error error ∨
      ∃ sources, listSources ed calls.loadFails dir = .ok sources ∧
        newEntry ed stype path size hex = .error error) :
    addSource ed stype path size hex calls dir = (dir, .error error) := by
  rw [addSource, htype, Bool.not_true, if_neg Bool.false_ne_true]
  rcases h with hlist | ⟨sources, hlist, hentry⟩
  · rw [hlist]
  · rw [hlist]
    dsimp only
    rw [hentry]

/-- Once the new source is made, the rest is the save. -/
theorem addSource_eq {stype path : ConfigText} {size : Option Int} {hex : Fin 6 → Fin 16} {calls : EditCalls}
    {entry : ConfigObject} (htype : supported stype = true)
    (hlist : listSources ed calls.loadFails dir = .ok sources)
    (hentry : newEntry ed stype path size hex = .ok entry) :
    addSource ed stype path size hex calls dir =
      ((saveSources ed calls (sources ++ [.dict entry]) dir).1,
        (saveSources ed calls (sources ++ [.dict entry]) dir).2.map fun _ => newId stype hex) := by
  rw [addSource, htype, Bool.not_true, if_neg Bool.false_ne_true, hlist]
  dsimp only
  rw [hentry]
  dsimp only
  cases saveSources ed calls (sources ++ [.dict entry]) dir with
  | mk dir' result =>
      cases result
      · rfl
      · rfl

theorem addSource_represents (hed : ed.Faithful) (h : Represents ed dir₀ data₀ dir sources)
    {stype path : ConfigText} {size : Option Int} {hex : Fin 6 → Fin 16} {calls : EditCalls}
    (hsound : Event.Sound ed ⟨.addSource stype path size hex, calls⟩) :
    (step ed dir ⟨.addSource stype path size hex, calls⟩).1 =
        (listStep ed sources ⟨.addSource stype path size hex, calls⟩).1 ∧
      Represents ed dir₀ data₀ (step ed dir ⟨.addSource stype path size hex, calls⟩).2
        (listStep ed sources ⟨.addSource stype path size hex, calls⟩).2 := by
  have hlist := listSources_represents h calls.loadFails
  dsimp only [step, listStep]
  cases htype : supported stype with
  | false =>
      rw [addSource, htype]
      exact ⟨rfl, h⟩
  | true =>
      rw [Bool.not_true, if_neg Bool.false_ne_true]
      split_ifs at hlist ⊢ with hfails
      · rw [addSource_error htype (.inl hlist)]
        exact ⟨rfl, h⟩
      · cases hentry : newEntry ed stype path size hex with
        | error error =>
            rw [addSource_error htype (.inr ⟨sources, hlist, hentry⟩)]
            exact ⟨rfl, h⟩
        | ok entry =>
            have hentry' := writable_newEntry htype (hsound.path _ _ _ _ rfl) hentry
            have hnew : ∀ x ∈ sources ++ [Json.dict entry], Writable ed x :=
              List.forall_mem_append.mpr ⟨h.writable, List.forall_mem_singleton.mpr hentry'⟩
            obtain ⟨hanswer, hnext⟩ := saveSources_replaced hed h hsound.whole hnew (.str (newId stype hex))
            rw [addSource_eq htype hlist hentry]
            refine ⟨?_, hnext⟩
            rw [← hanswer]
            cases (saveSources ed calls (sources ++ [.dict entry]) dir).2
            · rfl
            · rfl

theorem removeSource_represents (hed : ed.Faithful) (h : Represents ed dir₀ data₀ dir sources)
    {sourceId : ConfigText} {calls : EditCalls} (hwhole : ∀ n, calls.write ≠ .broken n) :
    (step ed dir ⟨.removeSource sourceId, calls⟩).1 =
        (listStep ed sources ⟨.removeSource sourceId, calls⟩).1 ∧
      Represents ed dir₀ data₀ (step ed dir ⟨.removeSource sourceId, calls⟩).2
        (listStep ed sources ⟨.removeSource sourceId, calls⟩).2 := by
  have hlist := listSources_represents h calls.loadFails
  dsimp only [step, listStep, removeSource]
  split_ifs at hlist ⊢ with hfails hobjects
  · rw [hlist]
    exact ⟨rfl, h⟩
  · rw [hlist]
    dsimp only
    rw [withoutSource_eq, if_pos hobjects]
    exact saveSources_replaced hed h hwhole (fun x hx => h.writable x (List.mem_filter.mp hx).1) .null
  · rw [hlist]
    dsimp only
    rw [withoutSource_eq, if_neg hobjects]
    exact ⟨rfl, h⟩

/-- One action on the file and on the list. -/
theorem step_represents (hed : ed.Faithful) {e : Event} (hsound : e.Sound ed)
    (h : Represents ed dir₀ data₀ dir sources) :
    (step ed dir e).1 = (listStep ed sources e).1 ∧
      Represents ed dir₀ data₀ (step ed dir e).2 (listStep ed sources e).2 := by
  obtain ⟨action, calls⟩ := e
  cases action with
  | listSources =>
      have hlist := listSources_represents h calls.loadFails
      dsimp only [step, listStep]
      rw [hlist]
      split_ifs
      · exact ⟨rfl, h⟩
      · exact ⟨rfl, h⟩
  | addSource => exact addSource_represents hed h hsound
  | removeSource => exact removeSource_represents hed h hsound.whole

/-! ### A configuration at hand -/

/-- A file without floats. -/
def homeEditor : Editor where
  configPath := codePoints "config.json"
  floatRepr
    | .inf false => codePoints "Infinity"
    | .inf true => codePoints "-Infinity"
    | _ => codePoints "NaN"
  floatOf _ := .nan
  abspath path := codePoints "/home/" ++ path

def homeConfig : ConfigObject := [(codePoints "version", .int 2), (codePoints "sources", .list [])]

def homeDir : ConfigDir :=
  Table.empty.put homeEditor.configPath
    (.file ((JsonWriter.encodeUtf8 (JsonWriter.dumps homeEditor.floatRepr homeConfig)).getD []))

/-- Every call succeeds. -/
def allDone : EditCalls := ⟨false, false, .done, []⟩

/-- A directory is added and listed, then it is removed and the list is read again. -/
def addAndRemove : List Event :=
  [⟨.addSource (codePoints "directory") (codePoints "data") none fun _ => Fin.last 15, allDone⟩,
    ⟨.listSources, allDone⟩, ⟨.removeSource (codePoints "directory-ffffff"), allDone⟩, ⟨.listSources, allDone⟩]

end SourceEditing

end StardustFS
