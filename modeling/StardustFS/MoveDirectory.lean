import StardustFS.DirectoryRemoval

/-! The move of a directory. Its records are renamed by their prefix, and then the old physical directory
is deleted on every source; the physical paths of the files never change, so that whatever lies below
the old physical directory goes with it, whichever virtual path it has by now. -/

namespace StardustFS

namespace StorageSource

/-- A regular file survives the physical half of the move. -/
def KeepsFile (s : StorageSource) (srcPhysical dstPhysical : Text) (path : List FileName) : Prop :=
  match s.kind with
  | .directory =>
      (resolve dstPhysical).inits.any s.tree.isFile = false ∧
        s.tree.isFile (resolve srcPhysical) = false ∧ ¬ resolve srcPhysical <+: path
  | .loopback _ =>
      (resolve dstPhysical).inits.any s.tree.isFile = true ∨
        ¬ (resolve srcPhysical <+: path ∧ resolve srcPhysical ≠ path)

/-- What `mkdir` leaves of an active source. -/
theorem mkdir_cases {s : StorageSource} (hactive : s.isActive = true) (p : Text) :
    ((resolve p).inits.any s.tree.isFile = true ∧
      ∃ e, s.mkdir p = (.error (.os e), s.raised e false)) ∨
    ((resolve p).inits.any s.tree.isFile = false ∧
      ∃ tree, s.tree.makedirs (resolve p) = .ok tree ∧ s.mkdir p = (.ok (), { s with tree })) := by
  unfold mkdir
  rw [hactive]
  cases hmake : s.tree.makedirs (resolve p) with
  | error e =>
      left
      refine ⟨?_, e, rfl⟩
      unfold DirectoryTree.makedirs at hmake
      split_ifs at hmake with hfile
      all_goals exact hfile
  | ok tree =>
      right
      refine ⟨?_, tree, rfl, rfl⟩
      unfold DirectoryTree.makedirs at hmake
      split_ifs at hmake with hfile
      exact Bool.eq_false_iff.mpr hfile

theorem isActive_raised_iff {s : StorageSource} {e : DirectoryTree.Error} :
    (s.raised e false).isActive = true ↔ s.isActive = true ∧ s.kind ≠ .directory := by
  unfold raised
  cases hkind : s.kind with
  | directory => simp
  | loopback sizeBytes => simp

/-- A file on the way to nowhere: what lies at or below the path means that something is there. -/
theorem exists?_above {t : DirectoryTree FileName Bytes} {p path : List FileName} {b : Bytes}
    (hfile : t.file? path = some b) (hp : p <+: path) :
    t.exists? p = true ∧ (p ≠ path → t.isFile p = false) := by
  have hnode := DirectoryTree.file?_eq_some_iff.mp hfile
  by_cases heq : p = path
  · subst heq
    exact ⟨by rw [DirectoryTree.exists?, hnode]; rfl, fun h => absurd rfl h⟩
  · have hdir : t.get p = some .directory := t.closed path _ hnode p hp heq
    refine ⟨by rw [DirectoryTree.exists?, hdir]; rfl, fun _ => ?_⟩
    rw [DirectoryTree.isFile, DirectoryTree.file?, hdir]
    rfl

theorem isFile_of_exists? {t : DirectoryTree FileName Bytes} {p : List FileName}
    (hexists : t.exists? p = true) (hdir : t.isDirectory p = false) : t.isFile p = true := by
  obtain ⟨node, hnode⟩ := Option.isSome_iff_exists.mp hexists
  cases node with
  | directory =>
      rw [DirectoryTree.isDirectory_iff.mpr hnode] at hdir
      cases hdir
  | file b =>
      rw [DirectoryTree.isFile, DirectoryTree.file?, hnode]
      rfl

/-- Where no file is in the way, what is not at or below the old path is kept. -/
theorem keepsFile_of_elsewhere {s : StorageSource} {srcPhysical dstPhysical : Text}
    {path : List FileName}
    (hfree : (resolve dstPhysical).inits.any s.tree.isFile = false)
    (hnofile : s.tree.isFile (resolve srcPhysical) = false) (hnot : ¬ resolve srcPhysical <+: path) :
    s.KeepsFile srcPhysical dstPhysical path := by
  unfold KeepsFile
  cases s.kind with
  | directory => exact ⟨hfree, hnofile, hnot⟩
  | loopback _ => exact Or.inr fun h => hnot h.1

/-- Nothing below an old directory is kept. -/
theorem not_keepsFile_of_below {s : StorageSource} {srcPhysical dstPhysical : Text}
    {path : List FileName} {b : Bytes}
    (hfree : (resolve dstPhysical).inits.any s.tree.isFile = false)
    (hnofile : s.tree.isFile (resolve srcPhysical) = false) (hp : resolve srcPhysical <+: path)
    (hb : s.tree.file? path = some b) : ¬ s.KeepsFile srcPhysical dstPhysical path := by
  intro hkeeps
  unfold KeepsFile at hkeeps
  cases hs : s.kind with
  | directory =>
      rw [hs] at hkeeps
      exact hkeeps.2.2 hp
  | loopback _ =>
      rw [hs] at hkeeps
      rcases hkeeps with hblocked | hnot
      · rw [hfree] at hblocked
        cases hblocked
      · refine hnot ⟨hp, fun heq => ?_⟩
        rw [heq, DirectoryTree.isFile, hb] at hnofile
        cases hnofile

/-- The deletion of the old directory, with everything below it. -/
theorem rmdir_directory_iff {s m : StorageSource} {srcPhysical dstPhysical : Text}
    {path : List FileName} {b : Bytes} (hactive : m.isActive = true)
    (hfree : (resolve dstPhysical).inits.any s.tree.isFile = false)
    (hfile : ∀ q, m.tree.file? q = s.tree.file? q)
    (hdir : m.tree.isDirectory (resolve srcPhysical) = true) :
    (m.rmdir srcPhysical).2.isActive = true ∧ (m.rmdir srcPhysical).2.tree.file? path = some b ↔
      s.tree.file? path = some b ∧ s.KeepsFile srcPhysical dstPhysical path := by
  have hpruned : Pruned (· = srcPhysical) (fun _ => False) m (m.rmdir srcPhysical).2 :=
    rmdir_pruned hactive rfl
  have hactive' : (m.rmdir srcPhysical).2.isActive = true :=
    hpruned.active_iff.mpr ⟨hactive, fun _ z hz => hz ▸ hdir⟩
  have hnofile : s.tree.isFile (resolve srcPhysical) = false := by
    rw [DirectoryTree.isFile, ← hfile, DirectoryTree.file?, DirectoryTree.isDirectory_iff.mp hdir]
    rfl
  by_cases hp : resolve srcPhysical <+: path
  · have hgone := hpruned.cleared hactive' srcPhysical path rfl hdir hp
    rw [DirectoryTree.file?, hgone]
    refine ⟨fun h => absurd h.2.symm (Option.some_ne_none b), ?_⟩
    rintro ⟨hb, hkeeps⟩
    exact absurd hkeeps (not_keepsFile_of_below hfree hnofile hp hb)
  · have hkept := hpruned.kept path not_false fun z hz _ => hz ▸ hp
    have hsame : (m.rmdir srcPhysical).2.tree.file? path = s.tree.file? path := by
      rw [DirectoryTree.file?, hkept]
      exact hfile path
    rw [hsame]
    exact ⟨fun h => ⟨h.2, keepsFile_of_elsewhere hfree hnofile hp⟩, fun h => ⟨hactive', h.1⟩⟩

/-- A regular file at the old path: a directory source goes out of service. -/
theorem rmdir_file_iff {s m : StorageSource} {srcPhysical dstPhysical : Text}
    {path : List FileName} {b : Bytes} (hactive : m.isActive = true) (hkind : m.kind = s.kind)
    (hfile : ∀ q, m.tree.file? q = s.tree.file? q)
    (hexists : m.tree.exists? (resolve srcPhysical) = true)
    (hdir : m.tree.isDirectory (resolve srcPhysical) = false) :
    (m.rmdir srcPhysical).2.isActive = true ∧ (m.rmdir srcPhysical).2.tree.file? path = some b ↔
      s.tree.file? path = some b ∧ s.KeepsFile srcPhysical dstPhysical path := by
  have hpruned : Pruned (· = srcPhysical) (fun _ => False) m (m.rmdir srcPhysical).2 :=
    rmdir_pruned hactive rfl
  have hisfile : s.tree.isFile (resolve srcPhysical) = true := by
    rw [DirectoryTree.isFile, ← hfile]
    exact isFile_of_exists? hexists hdir
  have hkept := hpruned.kept path not_false fun z hz hzdir => by
    rw [hz, hdir] at hzdir
    cases hzdir
  have hsame : (m.rmdir srcPhysical).2.tree.file? path = s.tree.file? path := by
    rw [DirectoryTree.file?, hkept]
    exact hfile path
  rw [hsame, hpruned.active_iff, hkind]
  unfold KeepsFile
  cases s.kind with
  | directory => simp [hdir, hisfile]
  | loopback _ =>
      refine ⟨fun h => ⟨h.2, Or.inr fun hp => ?_⟩, fun h => ⟨⟨hactive, by simp⟩, h.1⟩⟩
      have hnofile := (exists?_above h.2 hp.1).2 hp.2
      rw [hisfile] at hnofile
      cases hnofile

/-- **The physical half of a move** on one active source: which files are left, and what they hold. -/
theorem moveSourceDirectory_iff {s : StorageSource} (hactive : s.isActive = true)
    (srcPhysical dstPhysical : Text) {path : List FileName} {b : Bytes} :
    (JbodManager.moveSourceDirectory srcPhysical dstPhysical s).isActive = true ∧
        (JbodManager.moveSourceDirectory srcPhysical dstPhysical s).tree.file? path = some b ↔
      s.tree.file? path = some b ∧ s.KeepsFile srcPhysical dstPhysical path := by
  unfold JbodManager.moveSourceDirectory
  rcases s.mkdir_cases hactive dstPhysical with ⟨hblocked, e, hmkdir⟩ | ⟨hfree, tree, hmake, hmkdir⟩
  · -- the target cannot be made: a directory source goes out of service
    rw [hmkdir]
    dsimp only
    rw [isActive_raised_iff, raised_tree, KeepsFile, hblocked]
    cases s.kind <;> simp [hactive]
  · obtain ⟨m, hm⟩ : ∃ m : StorageSource, m = { s with tree } := ⟨_, rfl⟩
    have hkind : m.kind = s.kind := by rw [hm]
    have hmactive : m.isActive = true := by rw [hm]; exact hactive
    have hfile : ∀ q, m.tree.file? q = s.tree.file? q := by
      rw [hm]
      exact file?_makedirs hmake
    have hexists? : m.exists srcPhysical = .ok (m.tree.exists? (resolve srcPhysical)) := by
      rw [StorageSource.exists, hmactive]
      rfl
    rw [hmkdir, ← hm]
    dsimp only
    rw [hexists?]
    cases hexists : m.tree.exists? (resolve srcPhysical) with
    | false =>
        -- nothing to delete
        dsimp only
        rw [hfile path]
        refine ⟨fun h => ⟨h.2, ?_⟩, fun h => ⟨hmactive, h.1⟩⟩
        apply keepsFile_of_elsewhere hfree
        · rw [DirectoryTree.exists?, Option.isSome_eq_false_iff, Option.isNone_iff_eq_none] at hexists
          rw [DirectoryTree.isFile, ← hfile, DirectoryTree.file?, hexists]
          rfl
        · intro hp
          have := (exists?_above ((hfile path).trans h.2) hp).1
          rw [hexists] at this
          cases this
    | true =>
        dsimp only
        cases hdir : m.tree.isDirectory (resolve srcPhysical) with
        | true => exact rmdir_directory_iff hmactive hfree hfile hdir
        | false => exact rmdir_file_iff hmactive hkind hfile hexists hdir

end StorageSource

namespace JbodManager

open MetadataStore (withSlash moved)
open LikePattern (likePrefix)

/-! ### The statement -/

/-- The second path is live, and reads as the first one did before. -/
def ReadsAs (remote : RemoteRead) (j : JbodManager) (p : Text) (j' : JbodManager) (p' : Text) : Prop :=
  (∃ row, j'.metadataStore.lookup p' = some row) ∧
    ∀ data, (j.readFile remote p).1 = .ok data → (j'.readFile remote p').1 = .ok data

/-- The move returns; every live file of the directory is live at its new path and reads as before, and
every other live file reads as before. -/
structure PreservesFiles (remote : RemoteRead) (srcPath dstPath : Text) (j : JbodManager)
    (out : Result Unit) : Prop where
  returns : out.1 = .ok ()
  moved : ∀ r row, j.metadataStore.lookup (withSlash srcPath ++ r) = some row →
    ReadsAs remote j (withSlash srcPath ++ r) out.2 (withSlash dstPath ++ r)
  others : ∀ p row, j.metadataStore.lookup p = some row → ¬ withSlash srcPath <+: p →
    ReadsAs remote j p out.2 p

/-- The rows of `directories` that match are rewritten one by one without meeting a taken path, and
after that the two directories themselves are not both registered. -/
def DirectoriesFit (directories : Table Text Time) (srcPath dstPath : Text) : Prop :=
  let matching := directories.keys.filter (likePrefix (withSlash srcPath))
  let move := moved (withSlash srcPath) (withSlash dstPath)
  directories.CanRename move matching ∧
    (directories.KeysAfter move matching (Text.rstrip '/' srcPath) →
      directories.KeysAfter move matching (Text.rstrip '/' dstPath) →
      Text.rstrip '/' srcPath = Text.rstrip '/' dstPath)

/-- No live file matches the pattern of the directory without lying below it; the directories fit; and
the bytes of every live file of this device that can be read survive on their source. -/
structure MovesSafely (remote : RemoteRead) (srcPath dstPath : Text) (j : JbodManager) : Prop where
  onlyBelow : ∀ p row, j.metadataStore.lookup p = some row →
    likePrefix (withSlash srcPath) p = true → withSlash srcPath <+: p
  directories : DirectoriesFit j.metadataStore.directories srcPath dstPath
  bytes : ∀ p row data s, j.metadataStore.lookup p = some row → j.ownedElsewhere row = false →
    (j.readFile remote p).1 = .ok data → j.sources.get row.sourceId = some s →
    s.KeepsFile (Text.lstrip '/' srcPath) (Text.lstrip '/' dstPath) row.location.2

/-! ### The two halves of a move -/

theorem bytesAt_onEverySource_iff {j : JbodManager} {op : StorageSource → StorageSource}
    {place : Location} {b : Bytes} :
    (j.onEverySource op).bytesAt place = some b ↔ ∃ s, j.sources.get place.1 = some s ∧
      s.isActive = true ∧ (op s).isActive = true ∧ (op s).tree.file? place.2 = some b := by
  rw [bytesAt_eq_some_iff]
  unfold onEverySource
  simp only [Table.get_mapRows, Option.map_eq_some_iff]
  constructor
  · rintro ⟨s', ⟨s, hs, rfl⟩, hactive, hfile⟩
    split_ifs at hactive hfile with hs'
    · exact ⟨s, hs, hs', hactive, hfile⟩
    · exact absurd hactive hs'
  · rintro ⟨s, hs, hs', hactive, hfile⟩
    refine ⟨op s, ⟨s, hs, if_pos hs'⟩, hactive, hfile⟩

/-- **The physical half**: the bytes of a place are left where its source keeps them. -/
theorem bytesAt_moved_iff {j : JbodManager} {srcPhysical dstPhysical : Text} {place : Location}
    {b : Bytes} :
    (j.onEverySource (moveSourceDirectory srcPhysical dstPhysical)).bytesAt place = some b ↔
      j.bytesAt place = some b ∧
        ∀ s, j.sources.get place.1 = some s → s.KeepsFile srcPhysical dstPhysical place.2 := by
  rw [bytesAt_onEverySource_iff, bytesAt_eq_some_iff]
  constructor
  · rintro ⟨s, hs, hactive, hmoved⟩
    obtain ⟨hfile, hkeeps⟩ := (StorageSource.moveSourceDirectory_iff hactive _ _).mp hmoved
    refine ⟨⟨s, hs, hactive, hfile⟩, fun s' hs' => ?_⟩
    obtain rfl := Option.some_inj.mp (hs.symm.trans hs')
    exact hkeeps
  · rintro ⟨⟨s, hs, hactive, hfile⟩, hkeeps⟩
    exact ⟨s, hs, hactive, (StorageSource.moveSourceDirectory_iff hactive _ _).mpr ⟨hfile, hkeeps s hs⟩⟩

/-- A row that has been taken along reads the same where its bytes are left. -/
theorem readFile_of_row {remote : RemoteRead} {j j' : JbodManager} {p p' : Text} {row : FileRow}
    (hdevice : j'.deviceId = j.deviceId) (hengine : j'.encryptionEngine = j.encryptionEngine)
    (hrow : j.metadataStore.lookup p = some row) (hrow' : j'.metadataStore.lookup p' = some row)
    {data : Bytes} (hread : (j.readFile remote p).1 = .ok data)
    (hbytes : j.ownedElsewhere row = false → ∀ b, j.bytesAt row.location = some b →
      j'.bytesAt row.location = some b) : (j'.readFile remote p').1 = .ok data := by
  have howner : j'.ownedElsewhere row = j.ownedElsewhere row := by
    rw [ownedElsewhere, ownedElsewhere, hdevice]
  have hdecrypt : ∀ b, j'.decrypt b = j.decrypt b := fun b => by
    rw [decrypt, decrypt, hengine]
  cases hheld : j.ownedElsewhere row with
  | false =>
      obtain ⟨b, hb, hplain⟩ := (readFile_eq_ok_iff remote hrow hheld).mp hread
      exact (readFile_eq_ok_iff remote hrow' (howner.trans hheld)).mpr
        ⟨b, hbytes hheld b hb, (hdecrypt b).trans hplain⟩
  | true =>
      obtain ⟨owner, hdev, hforeign⟩ := readFile_of_foreign remote hrow hheld
      obtain ⟨owner', hdev', hforeign'⟩ := readFile_of_foreign remote hrow' (howner.trans hheld)
      obtain rfl := Option.some_inj.mp (hdev.symm.trans hdev')
      rw [hforeign, readRemote] at hread
      rw [hforeign', readRemote]
      split at hread
      · cases hread
      · exact (hdecrypt _).trans hread

theorem moved_append (oldPrefix newPrefix r : Text) :
    moved oldPrefix newPrefix (oldPrefix ++ r) = newPrefix ++ r := by
  rw [moved, List.drop_left]

section Move

variable {remote : RemoteRead} {srcPath dstPath : Text} {j : JbodManager}

/-- Every record is live: nothing has been deleted. -/
def AllLive (j : JbodManager) : Prop :=
  ∀ p row, j.metadataStore.lookupAny p = some row → row.deleted = false

theorem AllLive.lookup_eq (h : j.AllLive) (p : Text) :
    j.metadataStore.lookup p = j.metadataStore.files.get p := by
  rw [MetadataStore.lookup, MetadataStore.lookupAny]
  cases hp : j.metadataStore.files.get p with
  | none => rfl
  | some row =>
      rw [Option.filter_some, h p row hp]
      rfl

/-- The keys that the first statement rewrites. -/
theorem mem_matching_iff (h : j.AllLive) {k : Text} :
    k ∈ j.metadataStore.files.keys.filter (likePrefix (withSlash srcPath)) ↔
      (∃ row, j.metadataStore.lookup k = some row) ∧ likePrefix (withSlash srcPath) k = true := by
  rw [List.mem_filter, Table.mem_keys_iff, h.lookup_eq]

/-- Where only what lies below the directory matches, the records find their new paths free. -/
theorem canRename_of_onlyBelow (h : j.AllLive)
    (hfree : ∀ r, j.metadataStore.lookup (withSlash dstPath ++ r) = none)
    (hbelow : ∀ p row, j.metadataStore.lookup p = some row →
      likePrefix (withSlash srcPath) p = true → withSlash srcPath <+: p) :
    (∀ k ∈ j.metadataStore.files.keys.filter (likePrefix (withSlash srcPath)),
      j.metadataStore.files.get (moved (withSlash srcPath) (withSlash dstPath) k) = none) ∧
    j.metadataStore.files.CanRename (moved (withSlash srcPath) (withSlash dstPath))
      (j.metadataStore.files.keys.filter (likePrefix (withSlash srcPath))) := by
  have hprefix : ∀ {k}, k ∈ j.metadataStore.files.keys.filter (likePrefix (withSlash srcPath)) →
      ∃ r, k = withSlash srcPath ++ r := by
    intro k hk
    obtain ⟨⟨row, hrow⟩, hlike⟩ := (mem_matching_iff h).mp hk
    obtain ⟨r, hr⟩ := hbelow k row hrow hlike
    exact ⟨r, hr.symm⟩
  have hfresh : ∀ k ∈ j.metadataStore.files.keys.filter (likePrefix (withSlash srcPath)),
      j.metadataStore.files.get (moved (withSlash srcPath) (withSlash dstPath) k) = none := by
    intro k hk
    obtain ⟨r, rfl⟩ := hprefix hk
    rw [moved_append, ← h.lookup_eq]
    exact hfree r
  refine ⟨hfresh, fun done k rest hsplit hafter => ?_⟩
  have hk : k ∈ j.metadataStore.files.keys.filter (likePrefix (withSlash srcPath)) := by
    rw [hsplit]
    exact List.mem_append_right _ List.mem_cons_self
  rcases hafter with hmem | ⟨hmem, -⟩
  · -- two rewritten paths are the same only if the old ones are
    obtain ⟨l, hl, heq⟩ := List.mem_map.mp hmem
    have hl' : l ∈ j.metadataStore.files.keys.filter (likePrefix (withSlash srcPath)) := by
      rw [hsplit]
      exact List.mem_append_left _ hl
    obtain ⟨r, rfl⟩ := hprefix hk
    obtain ⟨r', rfl⟩ := hprefix hl'
    rw [moved_append, moved_append, List.append_cancel_left_eq] at heq
    subst heq
    have hnodup : (j.metadataStore.files.keys.filter (likePrefix (withSlash srcPath))).Nodup :=
      j.metadataStore.files.nodup.filter _
    rw [hsplit, List.nodup_append] at hnodup
    exact absurd rfl (hnodup.2.2 _ hl _ List.mem_cons_self)
  · exact absurd hmem (Table.get_eq_none_iff.mp (hfresh k hk))

/-- What a move does: the statements on the two tables go through, and then the sources are asked; or
one of the statements is refused and the call raises. -/
theorem moveDirectory_cases (j : JbodManager) (srcPath dstPath : Text) :
    (∃ files directories directories',
      j.metadataStore.files.renameWhere? (likePrefix (withSlash srcPath))
        (moved (withSlash srcPath) (withSlash dstPath)) = some files ∧
      j.metadataStore.directories.renameWhere? (likePrefix (withSlash srcPath))
        (moved (withSlash srcPath) (withSlash dstPath)) = some directories ∧
      directories.rename? (Text.rstrip '/' srcPath) (Text.rstrip '/' dstPath) = some directories' ∧
      j.moveDirectory srcPath dstPath = (.ok (),
        { j with metadataStore := ⟨files, directories'⟩ }.onEverySource
          (moveSourceDirectory (Text.lstrip '/' srcPath) (Text.lstrip '/' dstPath)))) ∨
    ∃ metadataStore, j.moveDirectory srcPath dstPath = (.error .integrity, { j with metadataStore }) ∧
      (metadataStore.files = j.metadataStore.files ∨
        j.metadataStore.files.renameWhere? (likePrefix (withSlash srcPath))
          (moved (withSlash srcPath) (withSlash dstPath)) = some metadataStore.files) ∧
      (j.metadataStore.files.renameWhere? (likePrefix (withSlash srcPath))
          (moved (withSlash srcPath) (withSlash dstPath)) = none ∨
        j.metadataStore.directories.renameWhere? (likePrefix (withSlash srcPath))
          (moved (withSlash srcPath) (withSlash dstPath)) = none ∨
        ∃ directories, j.metadataStore.directories.renameWhere? (likePrefix (withSlash srcPath))
          (moved (withSlash srcPath) (withSlash dstPath)) = some directories ∧
          directories.rename? (Text.rstrip '/' srcPath) (Text.rstrip '/' dstPath) = none) := by
  unfold moveDirectory MetadataStore.renameDirectory
  dsimp only
  cases hfiles : j.metadataStore.files.renameWhere? (likePrefix (withSlash srcPath))
      (moved (withSlash srcPath) (withSlash dstPath)) with
  | none => exact Or.inr ⟨_, rfl, Or.inl rfl, Or.inl rfl⟩
  | some files =>
      dsimp only
      cases hdirs : j.metadataStore.directories.renameWhere? (likePrefix (withSlash srcPath))
          (moved (withSlash srcPath) (withSlash dstPath)) with
      | none => exact Or.inr ⟨_, rfl, Or.inr rfl, Or.inr (Or.inl rfl)⟩
      | some directories =>
          dsimp only
          cases hself : directories.rename? (Text.rstrip '/' srcPath) (Text.rstrip '/' dstPath) with
          | none =>
              exact Or.inr ⟨_, rfl, Or.inr rfl, Or.inr (Or.inr ⟨directories, rfl, hself⟩)⟩
          | some directories' =>
              exact Or.inl ⟨files, directories, directories', rfl, rfl, hself, rfl⟩

/-- The statements on the directories go through exactly where the directories fit. -/
theorem directoriesFit_iff (directories : Table Text Time) (srcPath dstPath : Text) :
    DirectoriesFit directories srcPath dstPath ↔
      ∃ renamed renamed', directories.renameWhere? (likePrefix (withSlash srcPath))
          (moved (withSlash srcPath) (withSlash dstPath)) = some renamed ∧
        renamed.rename? (Text.rstrip '/' srcPath) (Text.rstrip '/' dstPath) = some renamed' := by
  rcases directories.renameWhere?_cases (likePrefix (withSlash srcPath))
    (moved (withSlash srcPath) (withSlash dstPath)) with
    ⟨hcan, renamed, hrenamed, hkeys⟩ | ⟨hcannot, hnone⟩
  · rw [hrenamed]
    unfold DirectoriesFit
    dsimp only
    rw [and_iff_right hcan, ← hkeys, ← hkeys]
    constructor
    · intro h
      cases hself : renamed.rename? (Text.rstrip '/' srcPath) (Text.rstrip '/' dstPath) with
      | none =>
          obtain ⟨hsrc, hdst, hne⟩ := Table.rename?_eq_none_iff.mp hself
          exact absurd (h hsrc hdst) hne
      | some renamed' => exact ⟨renamed, renamed', rfl, hself⟩
    · rintro ⟨_, renamed', hsome, hself⟩ hsrc hdst
      obtain rfl := Option.some_inj.mp hsome
      by_contra hne
      rw [Table.rename?_eq_none_iff.mpr ⟨hsrc, hdst, hne⟩] at hself
      cases hself
  · rw [hnone]
    constructor
    · exact fun h => absurd h.1 hcannot
    · rintro ⟨_, _, hsome, -⟩
      cases hsome

/-- What stays live where it was does not match, unless it lies below the directory. -/
theorem onlyBelow_of_renamed (h : j.AllLive)
    (hfree : ∀ r, j.metadataStore.lookup (withSlash dstPath ++ r) = none)
    {files : Table Text FileRow}
    (hfiles : j.metadataStore.files.renameWhere? (likePrefix (withSlash srcPath))
      (moved (withSlash srcPath) (withSlash dstPath)) = some files)
    {p : Text} {row row' : FileRow} (hrow : j.metadataStore.lookup p = some row)
    (hstays : files.get p = some row') : likePrefix (withSlash srcPath) p = false := by
  rw [Bool.eq_false_iff]
  intro hlike
  rcases j.metadataStore.files.renameWhere?_cases (likePrefix (withSlash srcPath))
    (moved (withSlash srcPath) (withSlash dstPath)) with
    ⟨-, files', hsome, hkeys⟩ | ⟨-, hnone⟩
  · obtain rfl := Option.some_inj.mp (hsome.symm.trans hfiles)
    rcases (hkeys p).mp (Table.mem_keys_iff.mpr ⟨row', hstays⟩) with hmem | ⟨-, hnot⟩
    · obtain ⟨k, -, hk⟩ := List.mem_map.mp hmem
      have hnone := hfree (k.drop (withSlash srcPath).length)
      rw [← moved, hk, hrow] at hnone
      cases hnone
    · exact hnot ((mem_matching_iff h).mpr ⟨⟨row, hrow⟩, hlike⟩)
  · rw [hnone] at hfiles
    cases hfiles

/-- Where the records are after the first statement. -/
theorem get_renamed (h : j.AllLive)
    (hfree : ∀ r, j.metadataStore.lookup (withSlash dstPath ++ r) = none)
    (hbelow : ∀ p row, j.metadataStore.lookup p = some row →
      likePrefix (withSlash srcPath) p = true → withSlash srcPath <+: p)
    {files : Table Text FileRow}
    (hfiles : j.metadataStore.files.renameWhere? (likePrefix (withSlash srcPath))
      (moved (withSlash srcPath) (withSlash dstPath)) = some files) :
    (∀ r row, j.metadataStore.lookup (withSlash srcPath ++ r) = some row →
      files.get (withSlash dstPath ++ r) = some row) ∧
    ∀ p row, j.metadataStore.lookup p = some row → ¬ withSlash srcPath <+: p →
      files.get p = some row := by
  obtain ⟨hmoved, hothers⟩ :=
    Table.get_renameWhere? (canRename_of_onlyBelow h hfree hbelow).1 hfiles
  constructor
  · intro r row hrow
    have hmem := (mem_matching_iff h).mpr
      ⟨⟨row, hrow⟩, LikePattern.likePrefix_of_prefix (List.prefix_append (withSlash srcPath) r)⟩
    have hget := hmoved _ hmem
    rw [moved_append, ← h.lookup_eq, hrow] at hget
    exact hget
  · intro p row hrow hnot
    have hmatch : p ∉ j.metadataStore.files.keys.filter (likePrefix (withSlash srcPath)) :=
      fun hmem => hnot (hbelow p row hrow ((mem_matching_iff h).mp hmem).2)
    have hnew : p ∉ (j.metadataStore.files.keys.filter (likePrefix (withSlash srcPath))).map
        (moved (withSlash srcPath) (withSlash dstPath)) := by
      intro hmem
      obtain ⟨k, -, hk⟩ := List.mem_map.mp hmem
      have hnone := hfree (k.drop (withSlash srcPath).length)
      rw [← moved, hk, hrow] at hnone
      cases hnone
    rw [hothers p hnew, if_neg hmatch, ← h.lookup_eq, hrow]

/-- A record that the move takes along or leaves reads as before exactly where its bytes survive. -/
theorem readsAs_moved_iff {metadataStore : MetadataStore} {srcPhysical dstPhysical p p' : Text}
    {row : FileRow} (hrow : j.metadataStore.lookup p = some row)
    (hrow' : metadataStore.lookup p' = some row) :
    ReadsAs remote j p ({ j with metadataStore }.onEverySource
        (moveSourceDirectory srcPhysical dstPhysical)) p' ↔
      (j.ownedElsewhere row = false → ∀ data s, (j.readFile remote p).1 = .ok data →
        j.sources.get row.sourceId = some s → s.KeepsFile srcPhysical dstPhysical row.location.2) := by
  obtain ⟨j', hj'⟩ : ∃ j', j' = ({ j with metadataStore }.onEverySource
    (moveSourceDirectory srcPhysical dstPhysical)) := ⟨_, rfl⟩
  have hdevice : j'.deviceId = j.deviceId := by rw [hj']; rfl
  have hengine : j'.encryptionEngine = j.encryptionEngine := by rw [hj']; rfl
  have hlookup : j'.metadataStore.lookup p' = some row := by rw [hj']; exact hrow'
  have hbytes : ∀ b, j'.bytesAt row.location = some b ↔ j.bytesAt row.location = some b ∧
      ∀ s, j.sources.get row.location.1 = some s →
        s.KeepsFile srcPhysical dstPhysical row.location.2 := by
    intro b
    rw [hj']
    exact bytesAt_moved_iff
  rw [← hj']
  constructor
  · rintro ⟨-, hreads⟩ hheld data s hread hs
    have hheld' : j'.ownedElsewhere row = false := by
      rw [ownedElsewhere, hdevice]
      exact hheld
    obtain ⟨b, hb, -⟩ := (readFile_eq_ok_iff remote hlookup hheld').mp (hreads data hread)
    exact ((hbytes b).mp hb).2 s hs
  · intro hkeeps
    refine ⟨⟨row, hlookup⟩, fun data hread => ?_⟩
    apply readFile_of_row hdevice hengine hrow hlookup hread
    intro hheld b hb
    exact (hbytes b).mpr ⟨hb, fun s hs => hkeeps hheld data s hread hs⟩

/-- **The move of a directory** in a volume without tombstones, to where nothing is live. -/
theorem moveDirectory_preserves_of_allLive (h : j.AllLive)
    (hfree : ∀ r, j.metadataStore.lookup (withSlash dstPath ++ r) = none) :
    PreservesFiles remote srcPath dstPath j (j.moveDirectory srcPath dstPath) ↔
      MovesSafely remote srcPath dstPath j := by
  rcases j.moveDirectory_cases srcPath dstPath with
    ⟨files, directories, directories', hfiles, hdirs, hself, hcall⟩ | ⟨_, hcall, -, hrefused⟩
  · -- the statements go through
    have hfit : DirectoriesFit j.metadataStore.directories srcPath dstPath :=
      (directoriesFit_iff _ _ _).mpr ⟨directories, directories', hdirs, hself⟩
    have hlive : ∀ {p q row}, j.metadataStore.lookup p = some row → files.get q = some row →
        (⟨files, directories'⟩ : MetadataStore).lookup q = some row := by
      intro p q row hrow hget
      have hdeleted := h p row (by rw [MetadataStore.lookupAny, ← h.lookup_eq, hrow])
      rw [MetadataStore.lookup, MetadataStore.lookupAny, hget, Option.filter_some, hdeleted]
      rfl
    rw [hcall]
    constructor
    · intro hpres
      have hbelow : ∀ p row, j.metadataStore.lookup p = some row →
          likePrefix (withSlash srcPath) p = true → withSlash srcPath <+: p := by
        intro p row hrow hlike
        by_contra hnot
        obtain ⟨⟨row', hrow'⟩, -⟩ := hpres.others p row hrow hnot
        rw [MetadataStore.lookup, Option.filter_eq_some_iff] at hrow'
        have hunlike := onlyBelow_of_renamed h hfree hfiles hrow hrow'.1
        rw [hlike] at hunlike
        cases hunlike
      obtain ⟨hmoved, hothers⟩ := get_renamed h hfree hbelow hfiles
      refine ⟨hbelow, hfit, fun p row data s hrow hheld hread hs => ?_⟩
      by_cases hp : withSlash srcPath <+: p
      · obtain ⟨r, rfl⟩ := hp
        exact (readsAs_moved_iff hrow (hlive hrow (hmoved r row hrow))).mp
          (hpres.moved r row hrow) hheld data s hread hs
      · exact (readsAs_moved_iff hrow (hlive hrow (hothers p row hrow hp))).mp
          (hpres.others p row hrow hp) hheld data s hread hs
    · intro hsafe
      obtain ⟨hmoved, hothers⟩ := get_renamed h hfree hsafe.onlyBelow hfiles
      refine ⟨rfl, fun r row hrow => ?_, fun p row hrow hp => ?_⟩
      · exact (readsAs_moved_iff hrow (hlive hrow (hmoved r row hrow))).mpr
          fun hheld data s hread hs => hsafe.bytes _ row data s hrow hheld hread hs
      · exact (readsAs_moved_iff hrow (hlive hrow (hothers p row hrow hp))).mpr
          fun hheld data s hread hs => hsafe.bytes p row data s hrow hheld hread hs
  · -- a statement is refused
    constructor
    · intro hpres
      have hreturns := hpres.returns
      rw [hcall] at hreturns
      cases hreturns
    · intro hsafe
      exfalso
      obtain ⟨renamed, renamed', hrenamed, hself⟩ :=
        (directoriesFit_iff _ _ _).mp hsafe.directories
      rcases hrefused with hfiles | hdirs | ⟨directories, hdirs, hself'⟩
      · rcases j.metadataStore.files.renameWhere?_cases (likePrefix (withSlash srcPath))
          (moved (withSlash srcPath) (withSlash dstPath)) with
          ⟨-, files, hsome, -⟩ | ⟨hcannot, -⟩
        · rw [hfiles] at hsome
          cases hsome
        · exact hcannot (canRename_of_onlyBelow h hfree hsafe.onlyBelow).2
      · rw [hdirs] at hrenamed
        cases hrenamed
      · obtain rfl := Option.some_inj.mp (hrenamed.symm.trans hdirs)
        rw [hself] at hself'
        cases hself'

end Move

/-! ### Histories -/

/-- The calls on the files and directories of one volume. -/
inductive VolumeCall where
  | writeFile (reading : Reading) (virtualPath : Text) (data : Bytes)
  | copyFile (remote : RemoteRead) (reading : Reading) (srcPath dstPath : Text)
  | deleteFile (now : Time) (virtualPath : Text)
  | moveFile (srcPath dstPath : Text)
  | createDirectory (now : Time) (virtualPath : Text)
  | moveDirectory (srcPath dstPath : Text)

/-- The volume after a call, also after one that raises. -/
def call (j : JbodManager) : VolumeCall → Option JbodManager
  | .writeFile reading virtualPath data => some (j.writeFile reading virtualPath data).2
  | .copyFile remote reading srcPath dstPath => some (j.copyFile remote reading srcPath dstPath).2
  | .deleteFile now virtualPath => some (j.deleteFile now virtualPath).2
  | .moveFile srcPath dstPath => some (j.moveFile srcPath dstPath).2
  | .createDirectory now virtualPath => some (j.createDirectory now virtualPath)
  | .moveDirectory srcPath dstPath => some (j.moveDirectory srcPath dstPath).2

/-- The calls that make no tombstone. -/
def VolumeCall.BuriesNothing : VolumeCall → Prop
  | .deleteFile _ _ => False
  | _ => True

theorem AllLive.of_records {j j' : JbodManager} (h : j.AllLive)
    (hrecords : j'.metadataStore = j.metadataStore) : j'.AllLive := by
  intro p row hrow
  rw [hrecords] at hrow
  exact h p row hrow

theorem AllLive.writeFile {j : JbodManager} (h : j.AllLive) (reading : Reading) (p : Text)
    (data : Bytes) : (j.writeFile reading p data).2.AllLive := by
  obtain ⟨result, j', hwrite⟩ : ∃ result j', j.writeFile reading p data = (result, j') :=
    ⟨_, _, rfl⟩
  rw [hwrite]
  by_cases hok : result = .ok ()
  · subst hok
    obtain ⟨place, hwritten⟩ := writeFile_ok hwrite
    intro q row hrow
    dsimp only at hrow
    rw [hwritten.rows] at hrow
    split_ifs at hrow
    · rw [← Option.some_inj.mp hrow]
      exact writtenRow_deleted _ _ _ _ _
    · exact h q row hrow
  · exact h.of_records ((writeFile_frame hwrite).2 hok)

theorem AllLive.copyFile {j : JbodManager} (h : j.AllLive) (remote : RemoteRead)
    (reading : Reading) (src dst : Text) : (j.copyFile remote reading src dst).2.AllLive := by
  obtain ⟨result, j', hread⟩ : ∃ result j', j.readFile remote src = (result, j') := ⟨_, _, rfl⟩
  have hlive : j'.AllLive := h.of_records (readFile_frame hread).2.1
  rw [JbodManager.copyFile, hread]
  cases result with
  | error e => exact hlive
  | ok data => exact hlive.writeFile reading dst data

theorem AllLive.moveFile {j : JbodManager} (h : j.AllLive) (src dst : Text) :
    (j.moveFile src dst).2.AllLive := by
  obtain ⟨result, j', hmove⟩ : ∃ result j', j.moveFile src dst = (result, j') := ⟨_, _, rfl⟩
  rw [hmove]
  rcases moveFile_cases hmove with rfl | ⟨-, row, s, hrow, rfl, hrows⟩
  · exact h
  · intro q r hr
    dsimp only at hr
    rw [hrows] at hr
    split_ifs at hr
    · rw [← Option.some_inj.mp hr]
      exact (MetadataStore.lookup_eq_some_iff.mp hrow).2
    · exact h q r hr

theorem AllLive.moveDirectory {j : JbodManager} (h : j.AllLive) (src dst : Text) :
    (j.moveDirectory src dst).2.AllLive := by
  have hrenamed : ∀ {files : Table Text FileRow}, files = j.metadataStore.files ∨
      j.metadataStore.files.renameWhere? (likePrefix (withSlash src))
        (moved (withSlash src) (withSlash dst)) = some files →
      ∀ p row, files.get p = some row → row.deleted = false := by
    rintro files (rfl | hfiles) p row hrow
    · exact h p row hrow
    · obtain ⟨k, hk⟩ := Table.exists_get_of_renameWhere? hfiles hrow
      exact h k row hk
  rcases j.moveDirectory_cases src dst with
    ⟨files, directories, directories', hfiles, -, -, hcall⟩ | ⟨s, hcall, hfiles, -⟩
  · rw [hcall]
    exact hrenamed (Or.inr hfiles)
  · rw [hcall]
    exact hrenamed hfiles

/-- **The step lemma.** -/
theorem AllLive.call {j j' : JbodManager} {c : VolumeCall} (h : j.AllLive)
    (hc : c.BuriesNothing) (hstep : j.call c = some j') : j'.AllLive := by
  cases c with
  | writeFile reading p data => exact Option.some_inj.mp hstep ▸ h.writeFile reading p data
  | copyFile remote reading src dst =>
      exact Option.some_inj.mp hstep ▸ h.copyFile remote reading src dst
  | deleteFile now p => exact hc.elim
  | moveFile src dst => exact Option.some_inj.mp hstep ▸ h.moveFile src dst
  | createDirectory now p => exact Option.some_inj.mp hstep ▸ h
  | moveDirectory src dst => exact Option.some_inj.mp hstep ▸ h.moveDirectory src dst

/-- **The move of a directory** after any history without deletions, to where nothing is live, keeps
every file exactly where it is safe. -/
theorem run_moveDirectory_preserves_iff {start j : JbodManager} {calls : List VolumeCall}
    (remote : RemoteRead) (srcPath dstPath : Text)
    (hstart : start.metadataStore = MetadataStore.initial)
    (hcalls : ∀ c ∈ calls, c.BuriesNothing)
    (hrun : Transitions.run call start calls = some j)
    (hfree : ∀ r, j.metadataStore.lookup (withSlash dstPath ++ r) = none) :
    PreservesFiles remote srcPath dstPath j (j.moveDirectory srcPath dstPath) ↔
      MovesSafely remote srcPath dstPath j := by
  have hnew : start.AllLive := by
    intro p row hrow
    rw [hstart] at hrow
    cases hrow
  have hlive : j.AllLive := Transitions.run_invariant (fun _ _ _ h hc hstep => h.call hc hstep)
    hnew (Transitions.stepsMeet_of_mem hcalls start) hrun
  exact moveDirectory_preserves_of_allLive hlive hfree

/-- A new volume with one empty directory source. -/
def newVolume : JbodManager where
  metadataStore := MetadataStore.initial
  sources := Table.empty.insert "s" { kind := .directory }

/-- A directory is made and a file of one byte written below it. -/
def fileBelow : List VolumeCall :=
  [.createDirectory 0 "/src".toList,
    .writeFile { now := 0, uuid := List.replicate 32 'a', diskFree := fun _ => 100 }
      "/src/f".toList [7]]

theorem fileBelow_buriesNothing : ∀ c ∈ fileBelow, c.BuriesNothing := by
  intro c hc
  simp only [fileBelow, List.mem_cons, List.not_mem_nil, or_false] at hc
  rcases hc with rfl | rfl <;> trivial

theorem fileBelow_keys : (Transitions.run call newVolume fileBelow).map
    (fun j => j.metadataStore.files.keys) = some ["/src/f".toList] := by decide

/-- There is nothing below another directory. -/
theorem fileBelow_elsewhere {j : JbodManager} (hj : Transitions.run call newVolume fileBelow = some j)
    (r : Text) : j.metadataStore.lookup (withSlash "/dst".toList ++ r) = none := by
  have hkeys := fileBelow_keys
  rw [hj, Option.map_some, Option.some_inj] at hkeys
  rw [MetadataStore.lookup_eq_none_iff]
  intro row hrow
  have hmem := Table.mem_keys_iff.mpr ⟨row, hrow⟩
  rw [hkeys, List.mem_singleton] at hmem
  have hslash : withSlash "/dst".toList = "/dst/".toList := by decide
  rw [hslash] at hmem
  have hsecond : ("/dst/".toList ++ r)[1]? = some 'd' := rfl
  rw [hmem] at hsecond
  exact absurd hsecond (by decide)

theorem fileBelow_preserves_iff : ∃ j, Transitions.run call newVolume fileBelow = some j ∧
    (PreservesFiles (fun _ _ _ => none) "/src".toList "/dst".toList j
        (j.moveDirectory "/src".toList "/dst".toList) ↔
      MovesSafely (fun _ _ _ => none) "/src".toList "/dst".toList j) := by
  obtain ⟨j, hj⟩ : ∃ j, Transitions.run call newVolume fileBelow = some j := ⟨_, rfl⟩
  exact ⟨j, hj, run_moveDirectory_preserves_iff _ _ _ rfl fileBelow_buriesNothing hj
    (fileBelow_elsewhere hj)⟩

/-- The bytes of a file go with the directory it has been moved out of. -/
theorem moved_file_loses_bytes : ∃ j, Transitions.run call newVolume fileBelow = some j ∧
    (∀ c ∈ fileBelow, c.BuriesNothing) ∧
    (∀ r, j.metadataStore.lookup (withSlash "/dst".toList ++ r) = none) ∧
    ¬ PreservesFiles (fun _ _ _ => none) "/src".toList "/dst".toList j
      (j.moveDirectory "/src".toList "/dst".toList) := by
  obtain ⟨j, hj⟩ : ∃ j, Transitions.run call newVolume fileBelow = some j := ⟨_, rfl⟩
  refine ⟨j, hj, fileBelow_buriesNothing, fileBelow_elsewhere hj, fun hpres => ?_⟩
  have hreads : (Transitions.run call newVolume fileBelow).map (fun j =>
      ((j.readFile (fun _ _ _ => none) "/src/f".toList).1,
        ((j.moveDirectory "/src".toList "/dst".toList).2.readFile (fun _ _ _ => none)
          "/dst/f".toList).1)) = some (.ok [7], .error (.source (.os .fileNotFound))) := by decide
  rw [hj, Option.map_some, Option.some_inj, Prod.mk.injEq] at hreads
  have hrow : (Transitions.run call newVolume fileBelow).map (fun j =>
      (j.metadataStore.lookup "/src/f".toList).isSome) = some true := by decide
  rw [hj, Option.map_some, Option.some_inj, Option.isSome_iff_exists] at hrow
  obtain ⟨row, hrow⟩ := hrow
  have hkept := (hpres.moved "f".toList row hrow).2 [7] hreads.1
  rw [show withSlash "/dst".toList ++ "f".toList = "/dst/f".toList by decide, hreads.2] at hkept
  cases hkept

end JbodManager

end StardustFS
