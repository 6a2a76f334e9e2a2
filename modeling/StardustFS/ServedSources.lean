import StardustFS.Base64
import StardustFS.PathCheck
import StardustFS.PosixFiles
import StardustFS.StorageSource

/-! The operations of the P2P server on the sources of a device, as its handlers and the relay call them.
A source is a local one over the file system of the device, or the proxy of another device; what a proxy
is asked for is asked of that device's server. -/

namespace StardustFS

/-- What a source raises. -/
inductive SourceRaised where
  | inactive
  | insufficientSpace
  | file (e : PosixFiles.Raised)
  /-- A proxy whose request was not answered, or refused. -/
  | request
  deriving DecidableEq

def SourceRaised.isFileNotFound (e : SourceRaised) : Bool := e = .file (.os .fileNotFound)

/-- A local source in service: where it is, and what it knows of itself. -/
structure Mount where
  source : LocalSource
  sizeBytes : Nat := 0
  isActive : Bool := true
  usedBytes : Int := 0

namespace Mount

/-- How a call on a source ends, and the source and the file system after it. -/
abbrev Effect (α : Type) := Except SourceRaised α × Mount × PosixFiles.Tree Bytes

/-- The source after a call of the file system raised. A directory source takes itself out of service on
an `OSError`; where `spared`, a missing file is passed on without that. -/
def failed (m : Mount) (e : PosixFiles.Raised) (spared : Bool) : Mount :=
  match m.source with
  | .directory _ =>
      if e = .nullCharacter ∨ (spared = true ∧ e = .os .fileNotFound) then m
      else { m with isActive := false }
  | .loopback _ => m

def read (m : Mount) (t : PosixFiles.Tree Bytes) (physicalPath : Text) : Effect Bytes :=
  if !m.isActive then (.error .inactive, m, t)
  else match PosixFiles.openRead t (m.source.resolve physicalPath) with
    | .ok data => (.ok data, m, t)
    | .error e => (.error (.file e), m.failed e true, t)

/-- The size of a regular file, 0 where there is none. -/
def fileSize (t : PosixFiles.Tree Bytes) (fullPath : Text) : Nat :=
  if PosixFiles.isfile t fullPath then
    ((t.file? (Text.location fullPath)).map List.length).getD 0
  else 0

def write (m : Mount) (t : PosixFiles.Tree Bytes) (physicalPath : Text) (data : Bytes) : Effect Unit :=
  let fullPath := m.source.resolve physicalPath
  let parent := Text.dirname fullPath
  if !m.isActive then (.error .inactive, m, t)
  else match m.source with
    | .directory _ =>
        match if parent ≠ [] ∧ PosixFiles.isdir t parent = false then PosixFiles.makedirs t parent
            else (.ok (), t) with
        | (.error e, made) => (.error (.file e), m.failed e true, made)
        | (.ok _, made) =>
            match PosixFiles.openWrite made fullPath data with
            | .error e => (.error (.file e), m.failed e true, made)
            | .ok written => (.ok (), m, written)
    | .loopback _ =>
        let needed : Int := data.length - fileSize t fullPath
        if 0 < needed ∧ m.sizeBytes - m.usedBytes < needed then (.error .insufficientSpace, m, t)
        else match PosixFiles.makedirs t parent with
          | (.error e, made) => (.error (.file e), m, made)
          | (.ok _, made) =>
              match PosixFiles.openWrite made fullPath data with
              | .error e => (.error (.file e), m, made)
              | .ok written => (.ok (), { m with usedBytes := m.usedBytes + needed }, written)

def delete (m : Mount) (t : PosixFiles.Tree Bytes) (physicalPath : Text) : Effect Unit :=
  let fullPath := m.source.resolve physicalPath
  if !m.isActive then (.error .inactive, m, t)
  else match m.source with
    | .directory _ =>
        match PosixFiles.remove t fullPath with
        | .error e => (.error (.file e), m.failed e true, t)
        | .ok removed => (.ok (), m, removed)
    | .loopback _ =>
        if PosixFiles.isfile t fullPath then
          match PosixFiles.remove t fullPath with
          | .error e => (.error (.file e), m, t)
          | .ok removed =>
              (.ok (), { m with usedBytes := max 0 (m.usedBytes - fileSize t fullPath) }, removed)
        else (.ok (), m, t)

def pathExists (m : Mount) (t : PosixFiles.Tree Bytes) (physicalPath : Text) : Except SourceRaised Bool :=
  if !m.isActive then .error .inactive
  else .ok (PosixFiles.pathExists t (m.source.resolve physicalPath))

def mkdir (m : Mount) (t : PosixFiles.Tree Bytes) (physicalPath : Text) : Effect Unit :=
  if !m.isActive then (.error .inactive, m, t)
  else match PosixFiles.makedirs t (m.source.resolve physicalPath) with
    | (.error e, made) => (.error (.file e), m.failed e false, made)
    | (.ok _, made) => (.ok (), m, made)

def rmdir (m : Mount) (t : PosixFiles.Tree Bytes) (physicalPath : Text) : Effect Unit :=
  let fullPath := m.source.resolve physicalPath
  let removal : Effect Unit :=
    match PosixFiles.rmtree t fullPath with
    | (.error e, t) => (.error (.file e), m.failed e false, t)
    | (.ok _, t) => (.ok (), m, t)
  if !m.isActive then (.error .inactive, m, t)
  else match m.source with
    | .directory _ => removal
    | .loopback _ => if PosixFiles.isdir t fullPath then removal else (.ok (), m, t)

end Mount

/-- A source a device has mounted: a local one, or the proxy of another device. -/
inductive Served where
  | «local» (m : Mount)
  /-- `answers` is false while the proxy is inactive or its device out of reach. -/
  | remote (device : DeviceId) (answers : Bool)

/-- `_source_data_root`. A proxy has the empty path. -/
def Served.dataRoot : Served → Text
  | .local m => m.source.sourceDataRoot
  | .remote _ _ => []

/-- A device: its sources in mounting order with their ids, and its file system. -/
structure P2PHost where
  sources : List (Text × Served)
  tree : PosixFiles.Tree Bytes

/-- `_get_source_by_id`: of several sources with one id the last one, by its place in the list. -/
def P2PHost.getSourceById (h : P2PHost) (sourceId : Text) : Option Nat :=
  (List.range h.sources.length).reverse.find? fun i => (h.sources[i]?.map Prod.fst) == some sourceId

/-- `_select_source_or_error`: a source or the tuple of an error, `none` where it raises. -/
def P2PHost.selectSourceOrError (h : P2PHost) (body : Body) : Option (Except Response Nat) :=
  let sourceId := body.get "source_id"
  if sourceId.truthy then
    match sourceId with
    | .str sourceId =>
        match h.getSourceById sourceId with
        | some i => some (.ok i)
        | none => some (.error (errorResponse 404 "Source not found"))
    | .list _ => none
    | .dict _ => none
    | _ => some (.error (errorResponse 404 "Source not found"))
  else if h.sources = [] then some (.error (errorResponse 404 "No source available"))
  else some (.ok 0)

/-- The devices by their ids. -/
abbrev Hosts := DeviceId → P2PHost

namespace Hosts

/-- How an operation ends, `none` where it raises, and the devices after it. -/
abbrev Outcome := Option Response × Hosts

/-- What a request to the server of another device comes to. -/
abbrev Peer := Operation → Hosts → DeviceId → Body → Outcome

section Sources

variable (peer : Peer) (net : Hosts) (device : DeviceId)

/-- `_p2p_request`: an answer from status 400 on raises. -/
def p2pRequest (target : DeviceId) (answers : Bool) (op : Operation) (payload : Body) :
    Except SourceRaised Value × Hosts :=
  if !answers then (.error .request, net)
  else match peer op net target payload with
    | (some r, net) => if 400 ≤ r.status then (.error .request, net) else (.ok r.result, net)
    | (none, net) => (.error .request, net)

/-- The device with one local source and its file system after a call. -/
def setMount (i : Nat) (id : Text) (m : Mount) (t : PosixFiles.Tree Bytes) : Hosts :=
  Function.update net device
    { sources := (net device).sources.set i (id, .local m), tree := t }

/-- A method of a source: on the file system of the device, or by a request to another one. -/
def onServed {α : Type} (i : Nat) (onMount : Mount → PosixFiles.Tree Bytes → Mount.Effect α)
    (op : Operation) (payload : Body) (result : Value → Except SourceRaised α) :
    Except SourceRaised α × Hosts :=
  match (net device).sources[i]? with
  | none => (.error .inactive, net)
  | some (id, .local m) =>
      let (r, m, t) := onMount m (net device).tree
      (r, net.setMount device i id m t)
  | some (_, .remote target answers) =>
      match net.p2pRequest peer target answers op payload with
      | (.ok v, net) => (result v, net)
      | (.error e, net) => (.error e, net)

/-- The payload of a proxy's request: no source is named. -/
def pathOnly (physicalPath : Text) : Body := [("physical_path".toList, .str physicalPath)]

/-- A proxy decodes what the other device answers; an answer without text raises. -/
def decodeAnswer (v : Value) : Except SourceRaised Bytes :=
  match (v.members?.map fun body => Body.get body "data").bind Json.str? with
  | none => .error .request
  | some text => match Base64.b64decode text with
      | none => .error .request
      | some data => .ok data

def sourceRead (i : Nat) (physicalPath : Text) : Except SourceRaised Bytes × Hosts :=
  net.onServed peer device i (fun m t => m.read t physicalPath) .read (pathOnly physicalPath)
    decodeAnswer

def sourceWrite (i : Nat) (physicalPath : Text) (data : Bytes) : Except SourceRaised Unit × Hosts :=
  net.onServed peer device i (fun m t => m.write t physicalPath data) .write
    (pathOnly physicalPath ++ [("data".toList, .str (Base64.b64encode data))]) fun _ => .ok ()

def sourceDelete (i : Nat) (physicalPath : Text) : Except SourceRaised Unit × Hosts :=
  net.onServed peer device i (fun m t => m.delete t physicalPath) .delete (pathOnly physicalPath)
    fun _ => .ok ()

def sourceExists (i : Nat) (physicalPath : Text) : Except SourceRaised Bool × Hosts :=
  net.onServed peer device i (fun m t => (m.pathExists t physicalPath, m, t)) .exists
    (pathOnly physicalPath)
    fun v => .ok ((v.members?.map fun body => (Body.get body "exists").truthy).getD false)

def sourceMkdir (i : Nat) (physicalPath : Text) : Except SourceRaised Unit × Hosts :=
  net.onServed peer device i (fun m t => m.mkdir t physicalPath) .mkdir (pathOnly physicalPath)
    fun _ => .ok ()

def sourceRmdir (i : Nat) (physicalPath : Text) : Except SourceRaised Unit × Hosts :=
  net.onServed peer device i (fun m t => m.rmdir t physicalPath) .rmdir (pathOnly physicalPath)
    fun _ => .ok ()

end Sources

/-! ### The operations -/

/-- The data root of the source at a place. -/
def rootAt (net : Hosts) (device : DeviceId) (i : Nat) : Text :=
  ((net device).sources[i]?.map fun x => x.2.dataRoot).getD []

/-- `_validate_path_err`: the path, or what is answered for it; `none` where a path that is no string
raises. -/
def checkedPath (net : Hosts) (device : DeviceId) (i : Nat) (body : Body) :
    Option (Except Response Text) :=
  let physicalPath := P2PServer.physicalPath body
  match physicalPath.truthy, physicalPath.str? with
  | true, none => none
  | _, _ =>
      match P2PServer.validatePathErr physicalPath (net.rootAt device i) with
      | some answer => some (.error answer)
      | none => some (.ok (physicalPath.str?.getD []))

/-- The rest of an operation once its source is known: the path is checked against the data root. -/
def withPath (net : Hosts) (device : DeviceId) (i : Nat) (body : Body) (rest : Text → Outcome) :
    Outcome :=
  match net.checkedPath device i body with
  | none => (none, net)
  | some (.error answer) => (some answer, net)
  | some (.ok physicalPath) => rest physicalPath

/-- An operation on the source that the body names, an answer where there is none. -/
def onSelected (net : Hosts) (device : DeviceId) (body : Body) (rest : Nat → Outcome) : Outcome :=
  match (net device).selectSourceOrError body with
  | none => (none, net)
  | some (.error answer) => (some answer, net)
  | some (.ok i) => rest i

/-- The same with the fall-back: without a source by the body it is the first one. -/
def onSelectedOrFirst (net : Hosts) (device : DeviceId) (body : Body) (rest : Nat → Outcome) :
    Outcome :=
  match (net device).selectSourceOrError body with
  | none => (none, net)
  | some (.error _) =>
      if (net device).sources = [] then (some (errorResponse 404 "No source available"), net)
      else rest 0
  | some (.ok i) => rest i

def maxWriteSize : Nat := 100 * 1024 * 1024

/-- `base64.b64decode(body.get("data", ""))`; what is no text raises, which the handler catches. -/
def decodeData (body : Body) : Option Bytes :=
  (((Json.lookup "data".toList body).getD (.str [])).str?).bind Base64.b64decode

section Operations

variable (peer : Peer) (net : Hosts) (device : DeviceId) (body : Body)

/-- `_op_read`. -/
def opRead : Outcome :=
  net.onSelected device body fun i => net.withPath device i body fun physicalPath =>
    match net.sourceRead peer device i physicalPath with
    | (.ok data, net) => (some ⟨200, .dict [("data".toList, .str (Base64.b64encode data))]⟩, net)
    | (.error e, net) =>
        (if e.isFileNotFound then some (errorResponse 404 "File not found") else none, net)

/-- `_op_exists`. -/
def opExists : Outcome :=
  net.onSelected device body fun i => net.withPath device i body fun physicalPath =>
    match net.sourceExists peer device i physicalPath with
    | (.ok found, net) => (some ⟨200, .dict [("exists".toList, .bool found)]⟩, net)
    | (.error _, net) => (none, net)

/-- What `_op_write` does on a source. -/
def writeOn (i : Nat) : Outcome :=
  net.withPath device i body fun physicalPath =>
    match decodeData body with
    | none => (some (errorResponse 400 "Invalid base64 data"), net)
    | some data =>
        if maxWriteSize < data.length then
          (some (errorResponse 413 "Payload too large (max 100MB)"), net)
        else match net.sourceWrite peer device i physicalPath data with
          | (.ok _, net) => (some ⟨200, .dict [("bytes_written".toList, .int data.length)]⟩, net)
          | (.error _, net) => (none, net)

/-- What `_op_delete` does on a source. -/
def deleteOn (i : Nat) : Outcome :=
  net.withPath device i body fun physicalPath =>
    match net.sourceExists peer device i physicalPath with
    | (.error _, net) => (none, net)
    | (.ok false, net) => (some (errorResponse 404 "File not found"), net)
    | (.ok true, net) =>
        match net.sourceDelete peer device i physicalPath with
        | (.ok _, net) => (some ⟨200, .dict [("status".toList, .str "deleted".toList)]⟩, net)
        | (.error e, net) =>
            (if e.isFileNotFound then some (errorResponse 404 "File not found") else none, net)

/-- What `_op_mkdir` does on a source. -/
def mkdirOn (i : Nat) : Outcome :=
  net.withPath device i body fun physicalPath =>
    match net.sourceMkdir peer device i physicalPath with
    | (.ok _, net) => (some ⟨200, .dict [("status".toList, .str "created".toList)]⟩, net)
    | (.error _, net) => (none, net)

/-- What `_op_rmdir` does on a source. -/
def rmdirOn (i : Nat) : Outcome :=
  net.withPath device i body fun physicalPath =>
    let fullPath := Text.joinPath (net.rootAt device i) physicalPath
    if PosixFiles.isdir (net device).tree fullPath = false then
      (some (errorResponse 404 "Directory not found"), net)
    else match net.sourceRmdir peer device i physicalPath with
      | (.ok _, net) => (some ⟨200, .dict [("status".toList, .str "removed".toList)]⟩, net)
      | (.error _, net) => (none, net)

/-- `_op_write`. -/
def opWrite : Outcome := net.onSelectedOrFirst device body (net.writeOn peer device body)

/-- `_op_delete`. -/
def opDelete : Outcome := net.onSelectedOrFirst device body (net.deleteOn peer device body)

/-- `_op_mkdir`. -/
def opMkdir : Outcome := net.onSelectedOrFirst device body (net.mkdirOn peer device body)

/-- `_op_rmdir`. -/
def opRmdir : Outcome := net.onSelectedOrFirst device body (net.rmdirOn peer device body)

end Operations

/-- The operations that change nothing and have no part here: `list` and `space`. -/
abbrev Reports := Operation → Hosts → DeviceId → Body → Option Response

/-- An operation of a device's server. After the last hop a request to another device times out. -/
def serve (reports : Reports) : Nat → Peer
  | hops, op, net, device, body =>
      let peer : Peer := match hops with
        | 0 => fun _ net _ _ => (none, net)
        | hops + 1 => serve reports hops
      match op with
      | .read => net.opRead peer device body
      | .write => net.opWrite peer device body
      | .delete => net.opDelete peer device body
      | .exists => net.opExists peer device body
      | .mkdir => net.opMkdir peer device body
      | .rmdir => net.opRmdir peer device body
      | op => (reports op net device body, net)

/-- `op_map`. -/
def opMap (op : Text) : Option Operation :=
  if op = "read".toList then some .read
  else if op = "write".toList then some .write
  else if op = "delete".toList then some .delete
  else if op = "list".toList then some .list
  else if op = "exists".toList then some .exists
  else if op = "mkdir".toList then some .mkdir
  else if op = "rmdir".toList then some .rmdir
  else if op = "space".toList then some .space
  else none

/-- `dispatch` for the operations on sources. -/
def dispatch (reports : Reports) (hops : Nat) (op : Text) (net : Hosts) (device : DeviceId)
    (payload : Body) : Response × Hosts :=
  match opMap op with
  | none => (⟨400, .dict [("error".toList, .str ("Unknown op: ".toList ++ op))]⟩, net)
  | some op =>
      match serve reports hops op net device payload with
      | (some r, net) => (r, net)
      | (none, net) => (errorResponse 500 "Internal error", net)

end Hosts

end StardustFS
