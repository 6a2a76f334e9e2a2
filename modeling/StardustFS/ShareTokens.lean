import StardustFS.P2PServer
import StardustFS.StorageSource

/-! Reads with a share token. The central server compares the requested path with the bound one; which
device serves the read and which of its sources is up to the requester. -/

namespace StardustFS

/-- A local source by its data root: the directory of a directory source, the companion directory of a
loopback source. -/
structure DataRoot where
  root : Text
  isActive : Bool := true

/-- A source of a device: a local one, or the proxy of another device. -/
inductive MountedSource where
  | local (s : DataRoot)
  /-- `answers` is false while the proxy is inactive, its device out of reach or the request refused. -/
  | remote (device : DeviceId) (answers : Bool)

/-- A device with its sources in mounting order and its file system. The data roots are directories. -/
structure P2PDevice where
  sources : List (Text × MountedSource)
  tree : DirectoryTree Text Bytes
  roots : ∀ x ∈ sources, ∀ s, x.2 = .local s → tree.file? (Text.location s.root) = none

/-- A file that was read, with where it is. -/
structure ReadFile where
  device : DeviceId
  path : List Text
  data : Bytes

namespace P2PDevice

/-- `_source_data_root`. -/
def sourceDataRoot : MountedSource → Text
  | .local s => s.root
  | .remote _ _ => []

/-- `_get_source_by_id`: of several sources with one id, the last one. -/
def getSourceById (d : P2PDevice) (sourceId : Text) : Option MountedSource :=
  (d.sources.reverse.find? fun x => x.1 = sourceId).map Prod.snd

/-- `_select_source_or_error`. An id that cannot be hashed makes the handler raise. -/
def selectSourceOrError (d : P2PDevice) (body : Body) : Except Response MountedSource :=
  let sourceId := body.get "source_id"
  if sourceId.truthy then
    match sourceId with
    | .str sourceId =>
        match d.getSourceById sourceId with
        | some s => .ok s
        | none => .error (errorResponse 404 "Source not found")
    | .list _ => .error serverError
    | .dict _ => .error serverError
    | _ => .error (errorResponse 404 "Source not found")
  else
    match d.sources.head? with
    | some x => .ok x.2
    | none => .error (errorResponse 404 "No source available")

/-- `open(path, "rb").read()` on the device. A path that ends as a directory's does opens no file. -/
def openFile (d : P2PDevice) (fullPath : Text) : Except Response Bytes :=
  if '\x00' ∈ fullPath then .error serverError
  else match d.tree.read (Text.location fullPath) with
    | .ok data =>
        if Text.Silent ((fullPath.splitOn '/').getLast?.getD []) then .error serverError else .ok data
    | .error .fileNotFound => .error (errorResponse 404 "File not found")
    | .error _ => .error serverError

/-- A source that was selected is one of the device's. -/
theorem mem_of_selectSourceOrError {d : P2PDevice} {body : Body} {s : MountedSource}
    (h : d.selectSourceOrError body = .ok s) : ∃ x ∈ d.sources, x.2 = s := by
  unfold selectSourceOrError at h
  dsimp only at h
  split_ifs at h
  · split at h
    · rename_i sourceId _
      cases hfind : d.getSourceById sourceId with
      | none =>
          rw [hfind] at h
          cases h
      | some s' =>
          rw [hfind, Except.ok.injEq] at h
          obtain ⟨x, hx, rfl⟩ := Option.map_eq_some_iff.mp hfind
          exact ⟨x, List.mem_reverse.mp (List.mem_of_find?_eq_some hx), h⟩
    all_goals cases h
  · cases hhead : d.sources.head? with
    | none =>
        rw [hhead] at h
        cases h
    | some x =>
        rw [hhead, Except.ok.injEq] at h
        exact ⟨x, List.mem_of_head? hhead, h⟩

theorem openFile_ok {d : P2PDevice} {fullPath : Text} {data : Bytes}
    (h : d.openFile fullPath = .ok data) :
    d.tree.file? (Text.location fullPath) = some data := by
  rw [openFile] at h
  by_cases hnull : '\x00' ∈ fullPath
  · rw [if_pos hnull] at h
    cases h
  · rw [if_neg hnull] at h
    cases hread : d.tree.read (Text.location fullPath) with
    | error e =>
        rw [hread] at h
        cases e <;> cases h
    | ok data' =>
        simp only [hread] at h
        split_ifs at h
        rw [Except.ok.injEq] at h
        rwa [DirectoryTree.file?_eq_some_iff, ← DirectoryTree.read_eq_ok_iff, ← h]

end P2PDevice

/-- The devices of the network. -/
abbrev Network := DeviceId → P2PDevice

namespace Network

open P2PServer

/-- `_op_read`. A proxy passes the read on to its device, which takes its first source; after the last
hop the request times out. -/
def opRead (net : Network) : Nat → DeviceId → Body → Except Response ReadFile
  | hops, device, body =>
      match (net device).selectSourceOrError body with
      | .error answer => .error answer
      | .ok source =>
          match validatePathErr (physicalPath body) (P2PDevice.sourceDataRoot source) with
          | some answer => .error answer
          | none =>
              match source, hops with
              | .local s, _ =>
                  if !s.isActive then .error serverError
                  else
                    let fullPath := Text.joinPath s.root ((physicalPath body).str?.getD [])
                    ((net device).openFile fullPath).map fun data =>
                      { device, path := Text.location fullPath, data }
              | .remote _ _, 0 => .error serverError
              | .remote device' answers, hops + 1 =>
                  if !answers then .error serverError
                  else match opRead net hops device' [("physical_path".toList, physicalPath body)] with
                    | .ok file => .ok file
                    | .error _ => .error serverError

/-- The server's answer to `POST /shares/{token}/verify`. It holds the device and the path an
unexpired token is bound to. -/
def verifyShare (bindings : Value → Option (DeviceId × Text)) (shareToken path : Value) :
    VerifyReply :=
  match bindings shareToken with
  | none => .answered 404 none
  | some (device, bound) =>
      .answered 200 (some (.dict [("valid".toList, .bool (path.eq (.str bound))),
        ("device_id".toList, .str device.toList)]))

/-- `handle_read` with the answers of the server about the tokens; the local user is the device's. -/
def handleRead (net : Network) (bindings : Value → Option (DeviceId × Text))
    (verifyAuth : Value → VerifyReply) (localUserId : DeviceId → Value) (hops : Nat)
    (device : DeviceId) (body : Option Value) : Except Response ReadFile :=
  match parseAndVerify P2PServer.handleRead body with
  | .error answer => .error answer
  | .ok (body, verification) =>
      let reply :=
        match verification with
        | .token authToken => verifyAuth authToken
        | .share shareToken path => verifyShare bindings shareToken path
      match verify (localUserId device) reply verification with
      | .error answer => .error answer
      | .ok _ => net.opRead hops device body

/-! ### Which file is read -/

/-- A read that succeeds opened a file of the device itself, or passed the read on. -/
theorem opRead_ok_cases {net : Network} {hops : Nat} {device : DeviceId} {body : Body}
    {file : ReadFile} (h : net.opRead hops device body = .ok file) :
    ∃ source p, (net device).selectSourceOrError body = .ok source ∧ physicalPath body = .str p ∧
      validatePathErr (.str p) (P2PDevice.sourceDataRoot source) = none ∧
      ((∃ s, source = .local s ∧ file.device = device ∧
          file.path = Text.location (Text.joinPath s.root p) ∧
          (net device).tree.file? file.path = some file.data) ∨
        ∃ hops' device' answers, hops = hops' + 1 ∧ source = .remote device' answers ∧
          net.opRead hops' device' [("physical_path".toList, .str p)] = .ok file) := by
  unfold opRead at h
  cases hselect : (net device).selectSourceOrError body with
  | error answer =>
      rw [hselect] at h
      cases h
  | ok source =>
      simp only [hselect] at h
      cases hvalid : validatePathErr (physicalPath body) (P2PDevice.sourceDataRoot source) with
      | some answer =>
          rw [hvalid] at h
          cases h
      | none =>
          simp only [hvalid] at h
          obtain ⟨p, hp, -, -, -⟩ := plain_of_validatePathErr hvalid
          rw [hp] at hvalid h
          refine ⟨source, p, rfl, hp, hvalid, ?_⟩
          cases source with
          | «local» s =>
              simp only at h
              split_ifs at h
              cases hopen : (net device).openFile (Text.joinPath s.root p) with
              | error answer =>
                  simp only [Json.str?, Option.getD_some, hopen] at h
                  cases h
              | ok data =>
                  simp only [Json.str?, Option.getD_some, hopen, Except.map, Except.ok.injEq] at h
                  subst h
                  exact Or.inl ⟨s, rfl, rfl, rfl, P2PDevice.openFile_ok hopen⟩
          | remote device' answers =>
              cases hops with
              | zero => cases h
              | succ hops =>
                  simp only at h
                  split_ifs at h
                  cases hread : net.opRead hops device' [("physical_path".toList, .str p)] with
                  | error answer =>
                      rw [hread] at h
                      cases h
                  | ok file' =>
                      rw [hread, Except.ok.injEq] at h
                      exact Or.inr ⟨hops, device', answers, rfl, rfl, h ▸ hread⟩

/-- A path that leads nowhere below a data root is read by no device. -/
theorem opRead_of_steps_nil (net : Network) {hops : Nat} {device : DeviceId} {body : Body} {p : Text}
    {file : ReadFile} (hpath : physicalPath body = .str p) (hrel : p.head? ≠ some '/')
    (hplain : Text.Plain p) (hsteps : Text.steps p = []) :
    net.opRead hops device body ≠ .ok file := by
  induction hops using Nat.strongRecOn generalizing device body with
  | ind hops ih =>
      intro h
      obtain ⟨source, p', hselect, hp', -, hlocal | hremote⟩ := opRead_ok_cases h
      · obtain ⟨s, rfl, -, hfile, hdata⟩ := hlocal
        obtain rfl : p = p' := by simpa [hpath] using hp'
        rw [hfile, Text.location_joinPath hrel hplain, hsteps, List.append_nil] at hdata
        obtain ⟨x, hx, hs⟩ := P2PDevice.mem_of_selectSourceOrError hselect
        rw [(net device).roots x hx s hs] at hdata
        cases hdata
      · obtain ⟨hops', device', answers, rfl, -, hread⟩ := hremote
        obtain rfl : p = p' := by simpa [hpath] using hp'
        exact ih hops' (Nat.lt_succ_self hops') rfl hread

/-- **A read is answered from a local source**: a proxy has no data root, and below none of it is a
file. -/
theorem opRead_ok {net : Network} {hops : Nat} {device : DeviceId} {body : Body} {file : ReadFile}
    (h : net.opRead hops device body = .ok file) :
    ∃ s p, (net device).selectSourceOrError body = .ok (.local s) ∧ physicalPath body = .str p ∧
      Text.Plain p ∧ file.device = device ∧
      file.path = Text.location (Text.joinPath s.root p) := by
  obtain ⟨source, p, hselect, hp, hvalid, hlocal | hremote⟩ := opRead_ok_cases h
  · obtain ⟨s, rfl, hdevice, hfile, -⟩ := hlocal
    obtain ⟨p', hstr, -, hplain, -⟩ := plain_of_validatePathErr hvalid
    obtain rfl : p = p' := by simpa using hstr
    exact ⟨s, p, hselect, hp, hplain, hdevice, hfile⟩
  · obtain ⟨hops', device', answers, rfl, rfl, hread⟩ := hremote
    obtain ⟨p', hstr, -, hplain, hbelow⟩ := plain_of_validatePathErr hvalid
    obtain rfl : p = p' := by simpa using hstr
    obtain ⟨hrel, hsteps⟩ := Text.steps_eq_nil_of_below_here hplain hbelow
    exact absurd hread (net.opRead_of_steps_nil rfl hrel hplain hsteps)

/-- A request of `POST /p2p/read`: the network at that moment, the device asked, and the body. -/
structure ReadRequest where
  net : Network
  device : DeviceId
  body : Body

section

variable (bindings : Value → Option (DeviceId × Text)) (verifyAuth : Value → VerifyReply)
  (localUserId : DeviceId → Value) (hops : Nat)

def ReadRequest.respond (r : ReadRequest) : Except Response ReadFile :=
  handleRead r.net bindings verifyAuth localUserId hops r.device (some (.dict r.body))

/-- A share token lets through the path it is bound to, and nothing else of the body takes part. -/
theorem eq_bound_of_verifyShareToken {token path : Value} {device : DeviceId} {bound : Text}
    {data : Body} (hbound : bindings token = some (device, bound))
    (h : verifyShareToken (verifyShare bindings token path) = .ok data) : path = .str bound := by
  simp only [verifyShare, hbound, verifyShareToken, ne_eq, not_true_eq_false, if_false,
    Option.bind_some, Json.members?] at h
  by_cases heq : path.eq (.str bound) = true
  · exact Json.eq_str_iff.mp heq
  · exfalso
    rw [Bool.not_eq_true] at heq
    rw [heq] at h
    split_ifs at h with hvalid
    exact hvalid rfl

theorem respond_ok {r : ReadRequest} {token : Value} {device : DeviceId} {path : Text}
    {file : ReadFile} (htoken : r.body.get "share_token" = token) (htruthy : token.truthy = true)
    (hbound : bindings token = some (device, path))
    (h : r.respond bindings verifyAuth localUserId hops = .ok file) :
    ∃ s, (r.net r.device).selectSourceOrError r.body = .ok (.local s) ∧ Text.Plain path ∧
      file.device = r.device ∧ file.path = Text.location (Text.joinPath s.root path) := by
  have hparse : parseAndVerify P2PServer.handleRead (some (.dict r.body)) =
      .ok (r.body, .share token (physicalPath r.body)) := by
    simp [parseAndVerify, P2PServer.handleRead, Json.members?, htoken, htruthy]
  simp only [ReadRequest.respond, handleRead, hparse, verify] at h
  cases hverify : verifyShareToken (verifyShare bindings token (physicalPath r.body)) with
  | error answer =>
      rw [hverify] at h
      cases h
  | ok data =>
      simp only [hverify] at h
      have hpath := eq_bound_of_verifyShareToken bindings hbound hverify
      obtain ⟨s, p, hselect, hp, hplain, hdevice, hfile⟩ := opRead_ok h
      rw [hpath, Json.str.injEq] at hp
      subst hp
      exact ⟨s, hselect, hplain, hdevice, hfile⟩

/-- Both bodies select local sources, and their data roots are the same directory. -/
def SameRoot (r₁ r₂ : ReadRequest) : Prop :=
  ∃ s₁ s₂, (r₁.net r₁.device).selectSourceOrError r₁.body = .ok (.local s₁) ∧
    (r₂.net r₂.device).selectSourceOrError r₂.body = .ok (.local s₂) ∧
    Text.location s₁.root = Text.location s₂.root

/-- **A share token opens one file** for two of its reads exactly where both go to the bound device,
and the bound path is absolute or both select sources over the same directory. -/
theorem oneFile_iff_sameRoot (r₁ r₂ : ReadRequest) (token : Value) (device : DeviceId) (path : Text)
    (file₁ file₂ : ReadFile) (htruthy : token.truthy = true)
    (hbound : bindings token = some (device, path))
    (htoken₁ : r₁.body.get "share_token" = token) (htoken₂ : r₂.body.get "share_token" = token)
    (h₁ : r₁.respond bindings verifyAuth localUserId hops = .ok file₁)
    (h₂ : r₂.respond bindings verifyAuth localUserId hops = .ok file₂) :
    file₁.device = device ∧ file₂.device = device ∧ file₁.path = file₂.path ↔
      r₁.device = device ∧ r₂.device = device ∧
        (path.head? = some '/' ∨ SameRoot r₁ r₂) := by
  obtain ⟨s₁, hselect₁, hplain, hdevice₁, hfile₁⟩ :=
    respond_ok bindings verifyAuth localUserId hops htoken₁ htruthy hbound h₁
  obtain ⟨s₂, hselect₂, -, hdevice₂, hfile₂⟩ :=
    respond_ok bindings verifyAuth localUserId hops htoken₂ htruthy hbound h₂
  rw [hdevice₁, hdevice₂, hfile₁, hfile₂]
  refine and_congr_right fun _ => and_congr_right fun _ => ?_
  by_cases habs : path.head? = some '/'
  · simp [habs, Text.joinPath_of_absolute]
  · rw [Text.location_joinPath habs hplain, Text.location_joinPath habs hplain,
      List.append_cancel_right_eq]
    constructor
    · intro hroot
      exact Or.inr ⟨s₁, s₂, hselect₁, hselect₂, hroot⟩
    · rintro (h | ⟨s₁', s₂', hselect₁', hselect₂', hroot⟩)
      · exact absurd h habs
      · rw [hselect₁, Except.ok.injEq, MountedSource.local.injEq] at hselect₁'
        rw [hselect₂, Except.ok.injEq, MountedSource.local.injEq] at hselect₂'
        rwa [hselect₁', hselect₂']

end

/-- Two directories with a file of the same name each. -/
def twoFiles : DirectoryTree Text Bytes :=
  let made : Except DirectoryTree.Error (DirectoryTree Text Bytes) := do
    let t ← DirectoryTree.root.makedirs ["a".toList]
    let t ← t.makedirs ["b".toList]
    let t ← t.write ["a".toList, "f".toList] [1]
    t.write ["b".toList, "f".toList] [2]
  made.toOption.getD DirectoryTree.root

/-- A device with a source over each of the directories. -/
def twoVaults : P2PDevice where
  sources := [("a".toList, .local { root := "/a".toList }), ("b".toList, .local { root := "/b".toList })]
  tree := twoFiles
  roots := by
    intro x hx s hs
    rcases List.mem_cons.mp hx with rfl | hx
    · cases hs
      decide
    · obtain rfl := List.mem_singleton.mp hx
      cases hs
      decide

/-- A read of `"f"` from the source of this id. -/
def readFrom (sourceId : String) : ReadRequest where
  net := fun _ => twoVaults
  device := "d"
  body := [("share_token".toList, .str "t".toList), ("physical_path".toList, .str "f".toList),
    ("source_id".toList, .str sourceId.toList)]

/-- The file `"f"` of the first of the directories. -/
def firstFile : ReadFile := { device := "d", path := ["a".toList, "f".toList], data := [1] }

/-- The read that names the first source and the one that names none. -/
theorem oneFile_iff_sameRoot_first :
    firstFile.device = "d" ∧ firstFile.device = "d" ∧ firstFile.path = firstFile.path ↔
      (readFrom "a").device = "d" ∧ (readFrom "").device = "d" ∧
        ("f".toList.head? = some '/' ∨ SameRoot (readFrom "a") (readFrom "")) :=
  oneFile_iff_sameRoot (fun _ => some ("d", "f".toList)) (fun _ => .failed) (fun _ => .null) 0
    (readFrom "a") (readFrom "") (.str "t".toList) "d" "f".toList firstFile firstFile
    rfl rfl rfl rfl rfl rfl

/-- The requester names the other source and reads another file. -/
theorem source_id_selects_another_file :
    ¬ ∀ (bindings : Value → Option (DeviceId × Text)) (verifyAuth : Value → VerifyReply)
        (localUserId : DeviceId → Value) (hops : Nat) (r₁ r₂ : ReadRequest) (token : Value)
        (device : DeviceId) (path : Text) (file₁ file₂ : ReadFile),
      token.truthy = true → bindings token = some (device, path) →
      r₁.body.get "share_token" = token → r₂.body.get "share_token" = token →
      r₁.respond bindings verifyAuth localUserId hops = .ok file₁ →
      r₂.respond bindings verifyAuth localUserId hops = .ok file₂ →
      file₁.device = device ∧ file₂.device = device ∧ file₁.path = file₂.path := by
  intro h
  have hsame := h (fun _ => some ("d", "f".toList)) (fun _ => .failed) (fun _ => .null) 0
    (readFrom "a") (readFrom "b") (.str "t".toList) "d" "f".toList firstFile
    { device := "d", path := ["b".toList, "f".toList], data := [2] }
    rfl rfl rfl rfl rfl rfl
  exact absurd hsame.2.2 (by decide)

end Network

end StardustFS
