import StardustFS.P2POperations
import StardustFS.PosixOutcomes
import StardustFS.SourceSelection

/-! Whether a request to the P2P server can take a healthy source out of service. A directory source takes
every `OSError` for a broken disk, that for a missing file apart where it reads, writes or deletes; the
path of the request alone can raise it. -/

namespace StardustFS

namespace Mount

/-! ### The operations that report -/

/-- `list_dir`. -/
def listDir (m : Mount) (t : PosixFiles.Tree Bytes) (physicalPath : Text) : Effect (List Text) :=
  let fullPath := m.source.resolve physicalPath
  let listing : Effect (List Text) :=
    match PosixFiles.listdir t fullPath with
    | .error e => (.error (.file e), m.failed e false, t)
    | .ok entries => (.ok entries, m, t)
  if !m.isActive then (.error .inactive, m, t)
  else match m.source with
    | .directory _ => listing
    | .loopback _ => if PosixFiles.isdir t fullPath then listing else (.ok [], m, t)

/-- A query for space, where the disk of a directory source has the usage. -/
def querySpace (ofDisk : DiskUsage → Nat) (ofLoopback : (sizeBytes : Nat) → (usedBytes : Int) → Nat)
    (usage : DiskUsage) (m : Mount) (t : PosixFiles.Tree Bytes) : Effect Nat :=
  if !m.isActive then (.error .inactive, m, t)
  else match m.source with
    | .directory path =>
        match PosixFiles.statvfs t path with
        | .error e => (.error (.file e), m.failed e false, t)
        | .ok _ => (.ok (ofDisk usage), m, t)
    | .loopback _ => (.ok (ofLoopback m.sizeBytes m.usedBytes), m, t)

/-- `get_available_space`. -/
def getAvailableSpace : DiskUsage → Mount → PosixFiles.Tree Bytes → Effect Nat :=
  querySpace DiskUsage.free fun sizeBytes usedBytes => (max 0 (sizeBytes - usedBytes)).toNat

/-- `get_total_space`. -/
def getTotalSpace : DiskUsage → Mount → PosixFiles.Tree Bytes → Effect Nat :=
  querySpace DiskUsage.total fun sizeBytes _ => sizeBytes

end Mount

namespace Hosts

section Reports

variable (usage : DiskUsage) (peer : Peer) (net : Hosts) (device : DeviceId) (body : Body)

/-- `list(result.get("entries", []))` of a proxy. -/
def entriesOf (v : Value) : Except SourceRaised (List Value) :=
  match v.members? with
  | none => .error .request
  | some members =>
      match (Json.lookup "entries".toList members).getD (.list []) with
      | .list items => .ok items
      | .str s => .ok (s.map fun c => .str [c])
      | .dict members => .ok (members.map fun x => .str x.1)
      | _ => .error .request

def sourceListDir (i : Nat) (physicalPath : Text) : Except SourceRaised (List Value) × Hosts :=
  net.onServed peer device i
    (fun m t => Prod.map (Except.map (List.map Json.str)) id (m.listDir t physicalPath))
    .list (pathOnly physicalPath) entriesOf

/-- `int(result[key])` of a proxy; the server that it asks answers with an integer. -/
def integerOf (key : String) (v : Value) : Except SourceRaised Int :=
  match v.members?.bind (Json.lookup key.toList) with
  | some (.int n) => .ok n
  | _ => .error .request

def sourceSpace (query : DiskUsage → Mount → PosixFiles.Tree Bytes → Mount.Effect Nat) (key : String)
    (i : Nat) : Except SourceRaised Int × Hosts :=
  net.onServed peer device i (fun m t => Prod.map (Except.map Nat.cast) id (query usage m t)) .space []
    (integerOf key)

/-- `_op_list`. -/
def opList : Outcome :=
  net.onSelected device body fun i => net.withPath device i body fun physicalPath =>
    let fullPath := Text.joinPath (net.rootAt device i) physicalPath
    if PosixFiles.isdir (net device).tree fullPath = false then
      (some (errorResponse 404 "Directory not found"), net)
    else match net.sourceListDir peer device i physicalPath with
      | (.ok entries, net) => (some ⟨200, .dict [("entries".toList, .list entries)]⟩, net)
      | (.error _, net) => (none, net)

/-- `_op_space`, of the first source. Where there is none it raises. -/
def opSpace : Outcome :=
  match net.sourceSpace usage peer device Mount.getAvailableSpace "available" 0 with
  | (.error _, net) => (none, net)
  | (.ok available, net) =>
      match net.sourceSpace usage peer device Mount.getTotalSpace "total" 0 with
      | (.error _, net) => (none, net)
      | (.ok total, net) =>
          (some ⟨200, .dict [("available".toList, .int available), ("total".toList, .int total)]⟩, net)

end Reports

/-- A request to a device's server, by its operation. -/
def handle (usage : DiskUsage) (peer : Peer) : Peer := fun op net device body =>
  match op with
  | .read => net.opRead peer device body
  | .write => net.opWrite peer device body
  | .delete => net.opDelete peer device body
  | .list => net.opList peer device body
  | .exists => net.opExists peer device body
  | .mkdir => net.opMkdir peer device body
  | .rmdir => net.opRmdir peer device body
  | .space => net.opSpace usage peer device

/-- The operations that do not report are served as elsewhere. -/
theorem handle_eq_serve (usage : DiskUsage) (reports : Reports) (hops : Nat) {op : Operation}
    (hlist : op ≠ .list) (hspace : op ≠ .space) :
    handle usage (peerAt reports hops) op = serve reports hops op := by
  funext net device body
  cases hops with
  | zero =>
      cases op with
      | list => exact absurd rfl hlist
      | space => exact absurd rfl hspace
      | _ => rfl
  | succ hops =>
      cases op with
      | list => exact absurd rfl hlist
      | space => exact absurd rfl hspace
      | _ => rfl

end Hosts

/-! ### The statement -/

open PosixFiles (isdir hasNull endsAsDirectory endsInDot toMake Fits Clear Readable Breaks)

/-- Every source is a local one in service. -/
def P2PHost.AllActive (h : P2PHost) : Prop :=
  ∀ x ∈ h.sources, ∃ m, x.2 = .local m ∧ m.isActive = true

/-- A local source in service. -/
def Served.inService : Served → Bool
  | .local m => m.isActive
  | .remote _ _ => false

theorem Served.inService_iff {s : Served} : s.inService = true ↔ ∃ m, s = .local m ∧ m.isActive = true := by
  cases s with
  | «local» m => simp [inService]
  | remote device answers => simp [inService]

instance (h : P2PHost) : Decidable h.AllActive :=
  decidable_of_iff (∀ x ∈ h.sources, x.2.inService = true)
    (forall₂_congr fun _ _ => Served.inService_iff)

/-- The sources are local and in service, and the directory of each directory source is there. -/
structure P2PHost.Healthy (h : P2PHost) : Prop where
  active : h.AllActive
  mounted : ∀ id m path, (id, .local m) ∈ h.sources → m.source = .directory path →
    isdir h.tree path = true

/-- The source a request is about. A changing operation falls back to the first one. -/
def P2PHost.chosen (h : P2PHost) (op : Operation) (body : Body) : Option Nat :=
  match h.selectSourceOrError body with
  | none => none
  | some (.ok i) => some i
  | some (.error _) => if op ∈ Hosts.changing ∧ h.sources ≠ [] then some 0 else none

namespace Mount

/-- The directories that are made before a file is written. -/
def missingParents (t : PosixFiles.Tree Bytes) (fullPath : Text) : List Text :=
  let parent := Text.dirname fullPath
  if parent = [] ∨ isdir t parent = true then [] else toMake t parent.length parent

/-- The missing directories can be made, and the path fits and is that of no directory. -/
structure Writable (t : PosixFiles.Tree Bytes) (fullPath : Text) : Prop where
  parents : Clear t (missingParents t fullPath)
  file : hasNull fullPath = false →
    Fits fullPath ∧ endsAsDirectory fullPath = false ∧ t.isDirectory (Text.location fullPath) = false ∧
      ∀ parent ∈ missingParents t fullPath, ¬Text.location fullPath <+: Text.location parent

/-- The operation at the path leaves the source in service. Of a write it may be known already that the
server refuses its data. -/
def Stays (op : Operation) (m : Mount) (t : PosixFiles.Tree Bytes) (p : Text) (data : Option Bytes) :
    Prop :=
  let fullPath := m.source.resolve p
  match m.source, op with
  | .loopback _, _ => True
  | .directory _, .read => hasNull fullPath = false → Readable t fullPath
  | .directory _, .write => data.isSome = true → Writable t fullPath
  | .directory _, .delete => isdir t fullPath = false
  | .directory _, .mkdir => Clear t (toMake t fullPath.length fullPath)
  | .directory _, .rmdir => isdir t fullPath = true → endsInDot fullPath = false
  | .directory _, _ => True

/-! ### A call on a source in service -/

variable {m : Mount} {t : PosixFiles.Tree Bytes} {p root path : Text} {e : PosixFiles.Raised}

/-- A failure leaves a source in service by leaving it as it was. -/
theorem isActive_failed (hactive : m.isActive = true) (spared : Bool) :
    (m.failed e spared).isActive = true ↔ m.failed e spared = m := by
  constructor
  · intro h
    unfold failed at h ⊢
    split at h
    · split_ifs at h ⊢ with hpassed
      rfl
    · rfl
  · intro h
    rw [h]
    exact hactive

theorem isDirectory_root_of_isdir (h : isdir t path = true) : t.isDirectory [] = true :=
  PosixFiles.isDirectory_above (PosixFiles.isdir_iff.mp h).2.2 List.nil_prefix

/-- The directories above the file are made, or are there. -/
theorem making_missingParents (hroot : t.isDirectory [] = true) (fullPath : Text) :
    PosixFiles.Making t (Text.dirname fullPath) (missingParents t fullPath)
      (if Text.dirname fullPath ≠ [] ∧ isdir t (Text.dirname fullPath) = false then
        PosixFiles.makedirs t (Text.dirname fullPath) else (.ok (), t)) := by
  unfold missingParents
  dsimp only
  by_cases hthere : Text.dirname fullPath = [] ∨ isdir t (Text.dirname fullPath) = true
  · have hnot : ¬(Text.dirname fullPath ≠ [] ∧ isdir t (Text.dirname fullPath) = false) := by
      rintro ⟨hne, hnodir⟩
      rw [hnodir] at hthere
      exact hne (hthere.resolve_right (by decide))
    rw [if_pos hthere, if_neg hnot]
    have hnone : Clear t [] := by simp [Clear]
    rcases hthere with hnil | hdir
    · rw [hnil]
      exact .made t rfl hnone (PosixFiles.Made.nil t) hroot
    · obtain ⟨hnull, -, hdir⟩ := PosixFiles.isdir_iff.mp hdir
      exact .made t hnull hnone (PosixFiles.Made.nil t) hdir
  · have hmissing : Text.dirname fullPath ≠ [] ∧ isdir t (Text.dirname fullPath) = false := by
      rw [not_or, Bool.not_eq_true] at hthere
      exact hthere
    rw [if_neg hthere, if_pos hmissing]
    exact PosixFiles.making_makedirs hroot _

/-- Listing what is a directory changes nothing. -/
theorem listDir_same (hactive : m.isActive = true) (hthere : isdir t (m.source.resolve p) = true) :
    (m.listDir t p).2 = (m, t) := by
  obtain ⟨names, hnames⟩ := PosixFiles.listdir_of_isdir hthere
  unfold listDir
  simp only [hactive, hnames, hthere, Bool.not_true, Bool.false_eq_true, if_false, if_true]
  cases m.source <;> rfl

/-- Nor does asking for space, as long as the directory of the source is there. -/
theorem querySpace_same {ofDisk : DiskUsage → Nat} {ofLoopback : Nat → Int → Nat} {usage : DiskUsage}
    (hactive : m.isActive = true) (hthere : ∀ root, m.source = .directory root → isdir t root = true) :
    (querySpace ofDisk ofLoopback usage m t).2 = (m, t) := by
  unfold querySpace
  simp only [hactive, Bool.not_true, Bool.false_eq_true, if_false]
  cases hsource : m.source with
  | directory root =>
      simp only [PosixFiles.statvfs_of_isdir (hthere root hsource)]
  | loopback path => rfl

/-- The query is the one of the manager's loops, with what `os.statvfs` comes to for the disk. -/
theorem querySpace_eq {ofDisk : DiskUsage → Nat} {ofLoopback : Nat → Int → Nat} {usage : DiskUsage}
    {s : StorageSource} {disk : Option DiskUsage} (hactive : s.isActive = m.isActive)
    (hused : s.usedBytes = m.usedBytes)
    (hdirectory : ∀ root, m.source = .directory root → s.kind = .directory ∧ hasNull root = false ∧
      disk = (PosixFiles.statvfs t root).toOption.map fun _ => usage)
    (hloopback : ∀ path, m.source = .loopback path → s.kind = .loopback m.sizeBytes) :
    (querySpace ofDisk ofLoopback usage m t).1.toOption =
        (SourceSelection.querySpace ofDisk ofLoopback s disk).1.toOption ∧
      (querySpace ofDisk ofLoopback usage m t).2.1.isActive =
        (SourceSelection.querySpace ofDisk ofLoopback s disk).2.isActive := by
  unfold querySpace SourceSelection.querySpace
  rw [hactive, hused]
  cases hm : m.isActive with
  | false => simp [hm, hactive, Except.toOption]
  | true =>
      cases hsource : m.source with
      | directory root =>
          obtain ⟨hkind, hnull, rfl⟩ := hdirectory root hsource
          rw [hkind]
          have hne := PosixFiles.statvfs_ne_null (t := t) hnull
          dsimp only
          cases hstat : PosixFiles.statvfs t root with
          | ok u => simp [hm, hactive, Except.toOption]
          | error e =>
              rw [hstat] at hne
              have he : e ≠ .nullCharacter := fun h => hne (congrArg Except.error h)
              simp [failed, hsource, he, Except.toOption]
      | loopback path =>
          rw [hloopback path hsource]
          simp [hm, hactive, Except.toOption]

section Directory

variable (hactive : m.isActive = true) (hsource : m.source = .directory root)
include hactive hsource

/-- Where a missing file is passed on, the other `OSError`s end the service. -/
theorem isActive_failed_spared : (m.failed e true).isActive = true ↔ ¬Breaks e := by
  rw [isActive_failed hactive, failed_eq_iff hactive, hsource, Breaks, not_and_or, not_not, not_not]
  simp

theorem isActive_failed_unspared : (m.failed e false).isActive = true ↔ e = .nullCharacter := by
  rw [isActive_failed hactive, failed_eq_iff hactive, hsource]
  simp

theorem isActive_read : (m.read t p).2.1.isActive = true ↔
    (hasNull (m.source.resolve p) = false → Readable t (m.source.resolve p)) := by
  have hcall : (m.read t p).2.1.isActive = true ↔
      ¬PosixFiles.Broke (PosixFiles.openRead t (m.source.resolve p)) := by
    unfold read
    rw [hactive]
    cases PosixFiles.openRead t (m.source.resolve p) with
    | ok data => simpa using hactive
    | error e => simpa using isActive_failed_spared hactive hsource
  rw [hcall, PosixFiles.broke_openRead_iff, not_and, not_not]

theorem isActive_mkdir (hroot : t.isDirectory [] = true) : (m.mkdir t p).2.1.isActive = true ↔
    Clear t (toMake t (m.source.resolve p).length (m.source.resolve p)) := by
  have hmaking := PosixFiles.making_makedirs hroot (m.source.resolve p)
  unfold mkdir
  rw [hactive]
  revert hmaking
  generalize PosixFiles.makedirs t (m.source.resolve p) = result
  intro hmaking
  cases hmaking with
  | null made hnull hclear =>
      exact iff_of_true ((isActive_failed_unspared hactive hsource).mpr rfl) hclear
  | made made hnull hclear hmade hthere => exact iff_of_true hactive hclear
  | broken e made he hclear =>
      exact iff_of_false (fun h => he.1 ((isActive_failed_unspared hactive hsource).mp h)) hclear

theorem isActive_delete (hthere : PosixFiles.pathExists t (m.source.resolve p) = true) :
    (m.delete t p).2.1.isActive = true ↔ isdir t (m.source.resolve p) = false := by
  unfold delete
  simp only [hactive, Bool.not_true, Bool.false_eq_true, if_false]
  rw [PosixFiles.pathExists, Bool.or_eq_true] at hthere
  revert hthere
  generalize m.source.resolve p = fullPath
  intro hthere
  simp only [hsource]
  cases hdir : isdir t fullPath with
  | true =>
      rw [PosixFiles.remove_of_isdir hdir]
      refine iff_of_false (fun h => ?_) (by decide)
      exact (isActive_failed_spared hactive hsource).mp h ⟨by decide, by decide⟩
  | false =>
      rw [hdir] at hthere
      obtain ⟨removed, hremove⟩ := PosixFiles.remove_of_isfile (hthere.resolve_left (by decide))
      rw [hremove]
      exact iff_of_true hactive rfl

theorem isActive_rmdir (hthere : isdir t (m.source.resolve p) = true) :
    (m.rmdir t p).2.1.isActive = true ↔ endsInDot (m.source.resolve p) = false := by
  rw [← PosixFiles.rmtree_of_isdir hthere]
  have hnull := PosixFiles.rmtree_ne_null hthere
  unfold rmdir
  simp only [hactive, Bool.not_true, Bool.false_eq_true, if_false]
  revert hnull
  generalize m.source.resolve p = fullPath
  intro hnull
  simp only [hsource]
  rcases hremoval : PosixFiles.rmtree t fullPath with ⟨e | u, t'⟩
  · rw [hremoval] at hnull
    refine iff_of_false (fun h => hnull ?_) (by simp)
    exact congrArg Except.error ((isActive_failed_unspared hactive hsource).mp h)
  · exact iff_of_true hactive rfl

theorem isActive_write (hroot : t.isDirectory [] = true) {data : Bytes} :
    (m.write t p data).2.1.isActive = true ↔ Writable t (m.source.resolve p) := by
  unfold write
  simp only [hactive, Bool.not_true, Bool.false_eq_true, if_false]
  generalize m.source.resolve p = fullPath
  simp only [hsource]
  have hmaking := making_missingParents hroot fullPath
  revert hmaking
  generalize (if Text.dirname fullPath ≠ [] ∧ isdir t (Text.dirname fullPath) = false then
    PosixFiles.makedirs t (Text.dirname fullPath) else (.ok (), t)) = result
  intro hmaking
  cases hmaking with
  | null made hnull hclear =>
      have hfull : hasNull fullPath = true := by
        rw [PosixFiles.hasNull_dirname fullPath, hnull, Bool.true_or]
      refine iff_of_true ((isActive_failed_spared hactive hsource).mpr PosixFiles.not_breaks_null) ⟨hclear, ?_⟩
      rw [hfull]
      intro h
      cases h
  | broken e made he hclear =>
      refine iff_of_false (fun h => ?_) fun h => hclear h.parents
      exact (isActive_failed_spared hactive hsource).mp h he
  | made made hnull hclear hmade hthere =>
      have hparent : made.isDirectory (Text.location fullPath).dropLast = true := by
        refine PosixFiles.isDirectory_above hthere ?_
        rw [Text.location_eq_push fullPath]
        exact Text.dropLast_push _ _
      have hnotdir : made.isDirectory (Text.location fullPath) = false ↔
          t.isDirectory (Text.location fullPath) = false ∧ ∀ parent ∈ missingParents t fullPath,
            ¬Text.location fullPath <+: Text.location parent := by
        rw [← Bool.not_eq_true, hmade.isDirectory, not_or, Bool.not_eq_true]
        simp
      have hwritable : Writable t fullPath ↔ ¬PosixFiles.Broke (PosixFiles.openWrite made fullPath data) := by
        rw [PosixFiles.broke_openWrite_iff hparent, not_and, not_not, hnotdir]
        exact ⟨fun h => h.file, fun h => ⟨hclear, h⟩⟩
      rw [hwritable]
      dsimp only
      cases PosixFiles.openWrite made fullPath data with
      | ok written => simpa using hactive
      | error e => simpa using isActive_failed_spared hactive hsource

end Directory

/-- A loopback source stays in service, whatever is asked of it. -/
theorem failed_loopback (hsource : m.source = .loopback path) (spared : Bool) : m.failed e spared = m := by
  rw [failed, hsource]

section Loopback

variable (hsource : m.source = .loopback path)
include hsource

theorem isActive_read_loopback : (m.read t p).2.1.isActive = m.isActive := by
  unfold read
  split_ifs
  · rfl
  · split
    · rfl
    · rw [failed_loopback hsource]

theorem isActive_write_loopback {data : Bytes} : (m.write t p data).2.1.isActive = m.isActive := by
  unfold write
  simp only [hsource]
  split_ifs
  · rfl
  · rfl
  · split
    · rfl
    · split <;> rfl

theorem isActive_delete_loopback : (m.delete t p).2.1.isActive = m.isActive := by
  unfold delete
  simp only [hsource]
  split_ifs
  · rfl
  · split <;> rfl
  · rfl

theorem isActive_mkdir_loopback : (m.mkdir t p).2.1.isActive = m.isActive := by
  unfold mkdir
  split_ifs
  · rfl
  · split
    · rw [failed_loopback hsource]
    · rfl

theorem isActive_rmdir_loopback : (m.rmdir t p).2.1.isActive = m.isActive := by
  unfold rmdir
  simp only [hsource, failed_loopback hsource]
  split_ifs
  · rfl
  · split <;> rfl
  · rfl

end Loopback

/-! ### Both kinds of sources -/

section Stays

variable (hactive : m.isActive = true) {data : Option Bytes}
  (hthere : ∀ root, m.source = .directory root → isdir t root = true)
include hactive

theorem stays_read_iff : (m.read t p).2.1.isActive = true ↔ m.Stays .read t p data := by
  unfold Stays
  cases hsource : m.source with
  | directory root => rw [isActive_read hactive hsource, hsource]
  | loopback path => exact iff_of_true ((isActive_read_loopback hsource).trans hactive) trivial

theorem stays_delete_iff : (PosixFiles.pathExists t (m.source.resolve p) = true →
    (m.delete t p).2.1.isActive = true) ↔ m.Stays .delete t p data := by
  unfold Stays
  cases hsource : m.source with
  | directory root =>
      have hcall : (PosixFiles.pathExists t (m.source.resolve p) = true →
          (m.delete t p).2.1.isActive = true) ↔ isdir t (m.source.resolve p) = false := by
        constructor
        · intro h
          by_contra hdir
          rw [Bool.not_eq_false] at hdir
          have hexists : PosixFiles.pathExists t (m.source.resolve p) = true := by
            rw [PosixFiles.pathExists, hdir, Bool.true_or]
          rw [(isActive_delete hactive hsource hexists).mp (h hexists)] at hdir
          cases hdir
        · intro h hexists
          exact (isActive_delete hactive hsource hexists).mpr h
      rw [hsource] at hcall
      exact hcall
  | loopback path =>
      exact iff_of_true (fun _ => (isActive_delete_loopback hsource).trans hactive) trivial

theorem stays_rmdir_iff : (isdir t (m.source.resolve p) = true → (m.rmdir t p).2.1.isActive = true) ↔
    m.Stays .rmdir t p data := by
  unfold Stays
  cases hsource : m.source with
  | directory root =>
      have hcall : (isdir t (m.source.resolve p) = true → (m.rmdir t p).2.1.isActive = true) ↔
          (isdir t (m.source.resolve p) = true → endsInDot (m.source.resolve p) = false) :=
        forall_congr' fun hdir => isActive_rmdir hactive hsource hdir
      rw [hsource] at hcall
      exact hcall
  | loopback path =>
      exact iff_of_true (fun _ => (isActive_rmdir_loopback hsource).trans hactive) trivial

include hthere

theorem stays_write_iff : (∀ d, data = some d → (m.write t p d).2.1.isActive = true) ↔
    m.Stays .write t p data := by
  unfold Stays
  cases hsource : m.source with
  | directory root =>
      have hroot := isDirectory_root_of_isdir (hthere root hsource)
      cases data with
      | none => simp
      | some d => simpa [hsource] using isActive_write hactive hsource hroot
  | loopback path =>
      exact iff_of_true (fun d _ => (isActive_write_loopback hsource).trans hactive) trivial

theorem stays_mkdir_iff : (m.mkdir t p).2.1.isActive = true ↔ m.Stays .mkdir t p data := by
  unfold Stays
  cases hsource : m.source with
  | directory root =>
      have hroot := isDirectory_root_of_isdir (hthere root hsource)
      rw [isActive_mkdir hactive hsource hroot, hsource]
  | loopback path => exact iff_of_true ((isActive_mkdir_loopback hsource).trans hactive) trivial

end Stays

end Mount

namespace Hosts

/-! ### A request -/

variable {α : Type} {usage : DiskUsage} {peer : Peer} {net : Hosts} {device : DeviceId} {op : Operation}
  {body payload : Body} {i : Nat} {id : Text} {m m' : Mount} {t' : PosixFiles.Tree Bytes} {p : Text}

theorem allActive_setMount_iff (h : (net device).AllActive)
    (hget : (net device).sources[i]? = some (id, .local m)) :
    ((net.setMount device i id m' t') device).AllActive ↔ m'.isActive = true := by
  unfold setMount P2PHost.AllActive
  rw [Function.update_self]
  dsimp only
  obtain ⟨hi, -⟩ := List.getElem?_eq_some_iff.mp hget
  constructor
  · intro hall
    obtain ⟨m'', hm, hactive⟩ := hall _ (List.mem_set hi _)
    obtain rfl : m' = m'' := Served.local.inj hm
    exact hactive
  · intro hactive x hx
    rcases List.mem_or_eq_of_mem_set hx with hx | rfl
    · exact h x hx
    · exact ⟨m', rfl, hactive⟩

/-- A call on a source at a place that is empty comes to nothing, and a proxy is at none. -/
theorem allActive_onServed_iff {onMount : Mount → PosixFiles.Tree Bytes → Mount.Effect α}
    {result : Value → Except SourceRaised α} (h : (net device).AllActive) :
    ((net.onServed peer device i onMount op payload result).2 device).AllActive ↔
      ∀ id m, (net device).sources[i]? = some (id, .local m) →
        (onMount m (net device).tree).2.1.isActive = true := by
  cases hget : (net device).sources[i]? with
  | none =>
      unfold onServed
      rw [hget]
      refine iff_of_true h ?_
      intro _ _ heq
      cases heq
  | some x =>
      obtain ⟨id, s⟩ := x
      obtain ⟨m, rfl, -⟩ := h _ (List.mem_of_getElem? hget)
      rw [onServed_local hget, allActive_setMount_iff h hget]
      constructor
      · rintro hm id' m' heq
        cases heq
        exact hm
      · exact fun hm => hm id m rfl

/-- A call that leaves its source and the files as they were. -/
theorem onServed_same {onMount : Mount → PosixFiles.Tree Bytes → Mount.Effect α}
    {result : Value → Except SourceRaised α} (h : (net device).AllActive)
    (hsame : ∀ id m, (net device).sources[i]? = some (id, .local m) →
      (onMount m (net device).tree).2 = (m, (net device).tree)) :
    (net.onServed peer device i onMount op payload result).2 = net := by
  cases hget : (net device).sources[i]? with
  | none => rw [onServed, hget]
  | some x =>
      obtain ⟨id, s⟩ := x
      obtain ⟨m, rfl, -⟩ := h _ (List.mem_of_getElem? hget)
      rw [onServed_local hget]
      exact (setMount_eq_iff hget).mpr (Prod.mk.inj (hsame id m hget))

theorem allActive_withPath_iff {rest : Text → Outcome} (h : (net device).AllActive) :
    ((net.withPath device i body rest).2 device).AllActive ↔
      ∀ p, net.checkedPath device i body = some (.ok p) → ((rest p).2 device).AllActive := by
  unfold withPath
  rcases net.checkedPath device i body with _ | answer | p
  · simpa using h
  · simpa using h
  · simp

theorem allActive_onSelected_iff {rest : Nat → Outcome} (h : (net device).AllActive)
    (hop : op ∉ changing) : ((net.onSelected device body rest).2 device).AllActive ↔
      ∀ i, (net device).chosen op body = some i → ((rest i).2 device).AllActive := by
  unfold onSelected P2PHost.chosen
  rcases (net device).selectSourceOrError body with _ | answer | i
  · simpa using h
  · simpa [hop] using h
  · simp

theorem allActive_onSelectedOrFirst_iff {rest : Nat → Outcome} (h : (net device).AllActive)
    (hop : op ∈ changing) : ((net.onSelectedOrFirst device body rest).2 device).AllActive ↔
      ∀ i, (net device).chosen op body = some i → ((rest i).2 device).AllActive := by
  unfold onSelectedOrFirst P2PHost.chosen
  rcases (net device).selectSourceOrError body with _ | answer | i
  · simpa using h
  · by_cases hnil : (net device).sources = []
    · simpa [hnil] using h
    · simp [hnil, hop]
  · simp

/-- A source of a healthy device is in service, and its directory is there. -/
theorem healthy_at (h : (net device).Healthy) (hget : (net device).sources[i]? = some (id, .local m)) :
    m.isActive = true ∧ ∀ root, m.source = .directory root → isdir (net device).tree root = true := by
  have hmem := List.mem_of_getElem? hget
  refine ⟨?_, fun root hsource => h.mounted id m root hmem hsource⟩
  obtain ⟨m', hm, hactive⟩ := h.active _ hmem
  obtain rfl : m = m' := Served.local.inj hm
  exact hactive

/-- The request leaves its source in service. -/
def LeavesInService (op : Operation) (net : Hosts) (device : DeviceId) (body : Body) : Prop :=
  ∀ i, (net device).chosen op body = some i → ∀ p, net.checkedPath device i body = some (.ok p) →
    ∀ id m, (net device).sources[i]? = some (id, .local m) →
      m.Stays op (net device).tree p (acceptedData body)

theorem allActive_opRead_iff (h : (net device).Healthy) :
    ((net.opRead peer device body).2 device).AllActive ↔ LeavesInService .read net device body := by
  refine (allActive_onSelected_iff h.active (by decide)).trans (forall₂_congr fun i _ => ?_)
  refine (allActive_withPath_iff h.active).trans (forall₂_congr fun p _ => ?_)
  have hcall : ((net.sourceRead peer device i p).2 device).AllActive ↔ ∀ id m,
      (net device).sources[i]? = some (id, .local m) →
        m.Stays .read (net device).tree p (acceptedData body) :=
    (allActive_onServed_iff h.active).trans
      (forall₃_congr fun id m hget => Mount.stays_read_iff (healthy_at h hget).1)
  revert hcall
  generalize net.sourceRead peer device i p = call
  intro hcall
  rcases call with ⟨e | data, net'⟩
  · exact hcall
  · exact hcall

theorem allActive_opMkdir_iff (h : (net device).Healthy) :
    ((net.opMkdir peer device body).2 device).AllActive ↔ LeavesInService .mkdir net device body := by
  refine (allActive_onSelectedOrFirst_iff h.active (by decide)).trans (forall₂_congr fun i _ => ?_)
  refine (allActive_withPath_iff h.active).trans (forall₂_congr fun p _ => ?_)
  have hcall : ((net.sourceMkdir peer device i p).2 device).AllActive ↔ ∀ id m,
      (net device).sources[i]? = some (id, .local m) →
        m.Stays .mkdir (net device).tree p (acceptedData body) := by
    refine (allActive_onServed_iff h.active).trans (forall₃_congr fun id m hget => ?_)
    exact Mount.stays_mkdir_iff (healthy_at h hget).1 (healthy_at h hget).2
  revert hcall
  generalize net.sourceMkdir peer device i p = call
  intro hcall
  rcases call with ⟨e | u, net'⟩
  · exact hcall
  · exact hcall

theorem allActive_opWrite_iff (h : (net device).Healthy) :
    ((net.opWrite peer device body).2 device).AllActive ↔ LeavesInService .write net device body := by
  refine (allActive_onSelectedOrFirst_iff h.active (by decide)).trans (forall₂_congr fun i _ => ?_)
  refine (allActive_withPath_iff h.active).trans (forall₂_congr fun p _ => ?_)
  have hcall : (∀ data, acceptedData body = some data →
      ((net.sourceWrite peer device i p data).2 device).AllActive) ↔ ∀ id m,
        (net device).sources[i]? = some (id, .local m) →
          m.Stays .write (net device).tree p (acceptedData body) := by
    have hmount : (∀ data, acceptedData body = some data →
        ((net.sourceWrite peer device i p data).2 device).AllActive) ↔ ∀ data, acceptedData body = some data →
          ∀ id m, (net device).sources[i]? = some (id, .local m) →
            (m.write (net device).tree p data).2.1.isActive = true :=
      forall₂_congr fun data _ => allActive_onServed_iff h.active
    rw [hmount]
    constructor
    · intro hall id m hget
      rw [← Mount.stays_write_iff (healthy_at h hget).1 (healthy_at h hget).2]
      exact fun data hdata => hall data hdata id m hget
    · intro hall data hdata id m hget
      exact (Mount.stays_write_iff (healthy_at h hget).1 (healthy_at h hget).2).mpr (hall id m hget) data hdata
  rw [← hcall]
  unfold acceptedData
  cases decodeData body with
  | none => simpa using h.active
  | some data =>
      by_cases hsize : maxWriteSize < data.length
      · simpa [hsize, Option.filter] using h.active
      · simp only [hsize, if_false, Option.filter, Nat.not_lt.mp hsize, decide_true, if_true,
          Option.some_inj, forall_eq']
        rcases net.sourceWrite peer device i p data with ⟨e | u, net'⟩
        · exact Iff.rfl
        · exact Iff.rfl

theorem allActive_opRmdir_iff (h : (net device).Healthy) :
    ((net.opRmdir peer device body).2 device).AllActive ↔ LeavesInService .rmdir net device body := by
  refine (allActive_onSelectedOrFirst_iff h.active (by decide)).trans (forall₂_congr fun i _ => ?_)
  refine (allActive_withPath_iff h.active).trans (forall₂_congr fun p _ => ?_)
  have hcall : (isdir (net device).tree (Text.joinPath (net.rootAt device i) p) = true →
      ((net.sourceRmdir peer device i p).2 device).AllActive) ↔ ∀ id m,
        (net device).sources[i]? = some (id, .local m) →
          m.Stays .rmdir (net device).tree p (acceptedData body) := by
    have hmount : ((net.sourceRmdir peer device i p).2 device).AllActive ↔ ∀ id m,
        (net device).sources[i]? = some (id, .local m) →
          (m.rmdir (net device).tree p).2.1.isActive = true := allActive_onServed_iff h.active
    rw [hmount]
    constructor
    · intro hall id m hget
      rw [← Mount.stays_rmdir_iff (healthy_at h hget).1, ← joinPath_rootAt hget p]
      exact fun hdir => hall hdir id m hget
    · intro hall hdir id m hget
      rw [joinPath_rootAt hget p] at hdir
      exact (Mount.stays_rmdir_iff (healthy_at h hget).1).mpr (hall id m hget) hdir
  rw [← hcall]
  cases hdir : isdir (net device).tree (Text.joinPath (net.rootAt device i) p) with
  | false => simpa [hdir] using h.active
  | true =>
      simp only [hdir, Bool.true_eq_false, if_false, true_implies]
      rcases net.sourceRmdir peer device i p with ⟨e | u, net'⟩
      · exact Iff.rfl
      · exact Iff.rfl

theorem allActive_opDelete_iff (h : (net device).Healthy) :
    ((net.opDelete peer device body).2 device).AllActive ↔ LeavesInService .delete net device body := by
  refine (allActive_onSelectedOrFirst_iff h.active (by decide)).trans (forall₂_congr fun i _ => ?_)
  refine (allActive_withPath_iff h.active).trans (forall₂_congr fun p _ => ?_)
  cases hget : (net device).sources[i]? with
  | none =>
      have hexists : net.sourceExists peer device i p = (.error .inactive, net) := by
        rw [sourceExists, onServed, hget]
      rw [hexists]
      refine iff_of_true h.active ?_
      intro _ _ heq
      cases heq
  | some x =>
      obtain ⟨id, s⟩ := x
      obtain ⟨m, rfl, hactive⟩ := h.active _ (List.mem_of_getElem? hget)
      have hone : (∀ id' m', some (id, Served.local m) = some (id', .local m') →
          m'.Stays .delete (net device).tree p (acceptedData body)) ↔
            m.Stays .delete (net device).tree p (acceptedData body) := by
        constructor
        · exact fun hall => hall id m rfl
        · intro hstays id' m' heq
          cases heq
          exact hstays
      have hdelete : ((net.sourceDelete peer device i p).2 device).AllActive ↔
          (m.delete (net device).tree p).2.1.isActive = true := by
        rw [sourceDelete, onServed_local hget, allActive_setMount_iff h.active hget]
      rw [hone, ← Mount.stays_delete_iff hactive, sourceExists_local hget, Mount.pathExists, hactive]
      cases hthere : PosixFiles.pathExists (net device).tree (m.source.resolve p) with
      | false => simpa using h.active
      | true =>
          simp only [Bool.not_true, Bool.false_eq_true, if_false, true_implies]
          rw [← hdelete]
          rcases net.sourceDelete peer device i p with ⟨e | u, net'⟩
          · exact Iff.rfl
          · exact Iff.rfl

/-! ### The operations that only report -/

theorem opExists_healthy (h : (net device).Healthy) : (net.opExists peer device body).2 = net :=
  opExists_same fun _ _ => onServed_same h.active fun _ _ _ => rfl

theorem opList_healthy (h : (net device).Healthy) : (net.opList peer device body).2 = net := by
  unfold opList onSelected
  rcases (net device).selectSourceOrError body with _ | answer | i
  · rfl
  · rfl
  · simp only [withPath]
    rcases net.checkedPath device i body with _ | answer | p
    · rfl
    · rfl
    · dsimp only
      split_ifs with hnot
      · rfl
      · rw [Bool.not_eq_false] at hnot
        have hsame : (net.sourceListDir peer device i p).2 = net := by
          refine onServed_same h.active fun id m hget => ?_
          rw [joinPath_rootAt hget] at hnot
          exact Mount.listDir_same (healthy_at h hget).1 hnot
        revert hsame
        generalize net.sourceListDir peer device i p = call
        intro hsame
        rcases call with ⟨e | entries, net'⟩
        · exact hsame
        · exact hsame

theorem sourceSpace_healthy {ofDisk : DiskUsage → Nat} {ofLoopback : Nat → Int → Nat} {key : String}
    (h : (net device).Healthy) :
    (net.sourceSpace usage peer device (Mount.querySpace ofDisk ofLoopback) key i).2 = net :=
  onServed_same h.active fun _ _ hget =>
    Mount.querySpace_same (healthy_at h hget).1 (healthy_at h hget).2

theorem opSpace_healthy (h : (net device).Healthy) : (net.opSpace usage peer device).2 = net := by
  have havailable : (net.sourceSpace usage peer device Mount.getAvailableSpace "available" 0).2 = net :=
    sourceSpace_healthy h
  have htotal : (net.sourceSpace usage peer device Mount.getTotalSpace "total" 0).2 = net :=
    sourceSpace_healthy h
  unfold opSpace
  rcases hcall : net.sourceSpace usage peer device Mount.getAvailableSpace "available" 0 with
    ⟨e | available, net'⟩
  · rw [hcall] at havailable
    exact havailable
  · rw [hcall] at havailable
    obtain rfl : net' = net := havailable
    dsimp only
    rcases hcall' : net'.sourceSpace usage peer device Mount.getTotalSpace "total" 0 with ⟨e | total, net''⟩
    · rw [hcall'] at htotal
      exact htotal
    · rw [hcall'] at htotal
      exact htotal

theorem leavesInService_of_report (hop : ∀ m : Mount, ∀ t p data, m.Stays op t p data) :
    LeavesInService op net device body := fun _ _ _ _ _ m _ => hop m _ _ _

theorem stays_report (hop : op = .list ∨ op = .exists ∨ op = .space) (m : Mount)
    (t : PosixFiles.Tree Bytes) (p : Text) (data : Option Bytes) : m.Stays op t p data := by
  unfold Mount.Stays
  rcases hop with rfl | rfl | rfl
  · cases m.source <;> trivial
  · cases m.source <;> trivial
  · cases m.source <;> trivial

/-- **A request takes no healthy source out of service** exactly where the calls it makes on its path find
nothing that they take for a broken disk. -/
theorem allActive_handle_iff (usage : DiskUsage) (peer : Peer) (op : Operation) (net : Hosts)
    (device : DeviceId) (body : Body) (h : (net device).Healthy) :
    ((handle usage peer op net device body).2 device).AllActive ↔ LeavesInService op net device body := by
  cases op with
  | read => exact allActive_opRead_iff h
  | write => exact allActive_opWrite_iff h
  | delete => exact allActive_opDelete_iff h
  | mkdir => exact allActive_opMkdir_iff h
  | rmdir => exact allActive_opRmdir_iff h
  | list =>
      refine iff_of_true ?_ (leavesInService_of_report (stays_report (by decide)))
      rw [handle, opList_healthy h]
      exact h.active
  | «exists» =>
      refine iff_of_true ?_ (leavesInService_of_report (stays_report (by decide)))
      rw [handle, opExists_healthy h]
      exact h.active
  | space =>
      refine iff_of_true ?_ (leavesInService_of_report (stays_report (by decide)))
      rw [handle, opSpace_healthy h]
      exact h.active

/-- A directory source `a` at `/data`, with a file `f` and a directory `d`. -/
def workstation : Hosts := fun _ =>
  { sources := [("a".toList, .local { source := .directory "/data".toList })]
    tree := ((DirectoryTree.root.makedirs ["data".toList, "d".toList]).bind
      (DirectoryTree.write · ["data".toList, "f".toList] [120])).toOption.getD DirectoryTree.root }

/-- Nothing is asked of another device. -/
def noPeer : Peer := fun _ net _ _ => (none, net)

theorem workstation_healthy : (workstation "workstation").Healthy where
  active := by decide
  mounted := by
    intro id m path hmem hsource
    obtain ⟨-, hm⟩ := Prod.mk.inj (List.mem_singleton.mp hmem)
    obtain rfl := Served.local.inj hm
    obtain rfl := LocalSource.directory.inj hsource
    decide

/-- Writing a file below directories that are not there leaves the source in service. -/
theorem workstation_takes_new_file : LeavesInService .write workstation "workstation"
    [("physical_path".toList, .str "d/e/g".toList), ("data".toList, .str "eA==".toList)] :=
  (allActive_handle_iff ⟨100, 50⟩ noPeer .write workstation "workstation" _ workstation_healthy).mp
    (by decide)

/-- A read of the directory `d` takes the source out of service, and the file `f`, which was read before,
is refused. -/
theorem directory_read_ends_service :
    (workstation "workstation").Healthy ∧
      (handle ⟨100, 50⟩ noPeer .read workstation "workstation" (pathOnly "f".toList)).1.map Response.status =
        some 200 ∧
      ¬((handle ⟨100, 50⟩ noPeer .read workstation "workstation" (pathOnly "d".toList)).2
        "workstation").AllActive ∧
      (handle ⟨100, 50⟩ noPeer .read
        (handle ⟨100, 50⟩ noPeer .read workstation "workstation" (pathOnly "d".toList)).2
        "workstation" (pathOnly "f".toList)).1 = none := by
  refine ⟨workstation_healthy, by decide, by decide, by decide⟩

end Hosts

end StardustFS
