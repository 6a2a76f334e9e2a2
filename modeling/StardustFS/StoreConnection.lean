import StardustFS.MoveDirectory

/-! The connection of a thread to the metadata database. A statement that writes begins a transaction
where none is open; a method commits it at its end, and neither commits nor rolls back where one of its
statements is refused, so that the next call on the connection decides what becomes of the part that is
done. -/

namespace StardustFS

/-- The database as one connection has it: what is committed, and the tables of the transaction that
is open on the connection. -/
structure StoreConnection where
  committed : MetadataStore
  pending : Option MetadataStore := none

inductive StatementError where
  | integrity
  /-- Another process holds the write lock for longer than the busy timeout. -/
  | locked
  deriving DecidableEq, Repr

/-- A statement that writes, or its refusal. -/
abbrev Statement := MetadataStore → Except StatementError MetadataStore

/-- The first statement of a transaction, for which the write lock is needed. -/
def Statement.underLock (locked : Bool) (statement : Statement) : Statement := fun s =>
  if locked then .error .locked else statement s

/-- A statement that a violated unique key refuses. -/
def Statement.unique (statement : MetadataStore → Option MetadataStore) : Statement := fun s =>
  match statement s with
  | some s => .ok s
  | none => .error .integrity

theorem Statement.unique_of_some {statement : MetadataStore → Option MetadataStore}
    {s s' : MetadataStore} (h : statement s = some s') : Statement.unique statement s = .ok s' := by
  unfold unique
  rw [h]

theorem Statement.unique_of_none {statement : MetadataStore → Option MetadataStore}
    {s : MetadataStore} (h : statement s = none) :
    Statement.unique statement s = .error .integrity := by
  unfold unique
  rw [h]

theorem Statement.underLock_of_some {statement : MetadataStore → Option MetadataStore}
    {s s' : MetadataStore} (h : statement s = some s') :
    Statement.underLock false (.unique statement) s = .ok s' := by
  rw [underLock, if_neg Bool.false_ne_true]
  exact unique_of_some h

theorem Statement.underLock_of_none {statement : MetadataStore → Option MetadataStore}
    {s : MetadataStore} (h : statement s = none) :
    Statement.underLock false (.unique statement) s = .error .integrity := by
  rw [underLock, if_neg Bool.false_ne_true]
  exact unique_of_none h

namespace StoreConnection

/-- No transaction is open. -/
def idle (s : MetadataStore) : StoreConnection := ⟨s, none⟩

/-- What the connection itself reads. -/
def visible (c : StoreConnection) : MetadataStore := c.pending.getD c.committed

/-- A refused statement changes nothing; the transaction that was begun for it stays open. -/
def execute (c : StoreConnection) (statement : Statement) :
    Except StatementError Unit × StoreConnection :=
  match statement c.visible with
  | .ok s => (.ok (), { c with pending := some s })
  | .error e => (.error e, { c with pending := some c.visible })

def commit (c : StoreConnection) : StoreConnection := idle c.visible

def rollback (c : StoreConnection) : StoreConnection := idle c.committed

/-- `BEGIN IMMEDIATE`, refused within a transaction. -/
def beginTransaction (c : StoreConnection) : StoreConnection :=
  { c with pending := some c.visible }

/-- What a later call does on the connection. To close it gives up what is not committed. -/
inductive Operation where
  | execute (statement : Statement)
  | beginTransaction
  | commit
  | rollback
  | close

def operate (c : StoreConnection) : Operation → StoreConnection
  | .execute statement => (c.execute statement).2
  | .beginTransaction => c.beginTransaction
  | .commit => c.commit
  | .rollback => c.rollback
  | .close => c.rollback

def afterAll (c : StoreConnection) (later : List Operation) : StoreConnection := later.foldl operate c

/-- `MetadataStore.rename_path`. -/
def renamePath (c : StoreConnection) (locked : Bool) (oldPath newPath : Text) :
    Except StatementError Unit × StoreConnection :=
  match c.execute (Statement.underLock locked (.unique fun s => s.renamePath oldPath newPath)) with
  | (.error e, c) => (.error e, c)
  | (.ok _, c) => (.ok (), c.commit)

/-- The first statement of `rename_directory`. -/
def renameFiles (oldPrefix newPrefix : Text) : Statement := .unique fun s =>
  (s.files.renameWhere? (LikePattern.likePrefix oldPrefix)
    (MetadataStore.moved oldPrefix newPrefix)).map fun files => { s with files }

/-- The second statement of `rename_directory`. -/
def renameDirectories (oldPrefix newPrefix : Text) : Statement := .unique fun s =>
  (s.directories.renameWhere? (LikePattern.likePrefix oldPrefix)
    (MetadataStore.moved oldPrefix newPrefix)).map fun directories => { s with directories }

def renameDirectory (c : StoreConnection) (locked : Bool) (oldPrefix newPrefix : Text) :
    Except StatementError Unit × StoreConnection :=
  match c.execute (Statement.underLock locked (renameFiles oldPrefix newPrefix)) with
  | (.error e, c) => (.error e, c)
  | (.ok _, c) =>
      match c.execute (renameDirectories oldPrefix newPrefix) with
      | (.error e, c) => (.error e, c)
      | (.ok _, c) => (.ok (), c.commit)

/-- The statement of `move_directory` about the directory itself. -/
def renameRegistered (oldDir newDir : Text) : Statement := .unique fun s =>
  (s.directories.rename? oldDir newDir).map fun directories => { s with directories }

/-- The database half of `move_directory`, which has two transactions. -/
def moveRecords (c : StoreConnection) (locked lockedAgain : Bool) (srcPath dstPath : Text) :
    Except StatementError Unit × StoreConnection :=
  match c.renameDirectory locked (MetadataStore.withSlash srcPath)
      (MetadataStore.withSlash dstPath) with
  | (.error e, c) => (.error e, c)
  | (.ok _, c) =>
      match c.execute (Statement.underLock lockedAgain
          (renameRegistered (Text.rstrip '/' srcPath) (Text.rstrip '/' dstPath))) with
      | (.error e, c) => (.error e, c)
      | (.ok _, c) => (.ok (), c.commit)

/-! ### Connections that show the same tables -/

/-- The same tables are committed, and the same are read on the connection. -/
structure SameTables (c c' : StoreConnection) : Prop where
  committed : c'.committed = c.committed
  visible : c'.visible = c.visible

theorem SameTables.refl (c : StoreConnection) : SameTables c c := ⟨rfl, rfl⟩

theorem execute_ok {c : StoreConnection} {statement : Statement} {s : MetadataStore}
    (h : statement c.visible = .ok s) : c.execute statement = (.ok (), ⟨c.committed, some s⟩) := by
  rw [execute, h]

theorem execute_error {c : StoreConnection} {statement : Statement} {e : StatementError}
    (h : statement c.visible = .error e) :
    c.execute statement = (.error e, ⟨c.committed, some c.visible⟩) := by
  rw [execute, h]

theorem sameTables_refused (c : StoreConnection) : SameTables c ⟨c.committed, some c.visible⟩ :=
  ⟨rfl, rfl⟩

/-- One call later. -/
theorem SameTables.operate {c c' : StoreConnection} (h : SameTables c c') (op : Operation) :
    SameTables (c.operate op) (c'.operate op) := by
  cases op with
  | execute statement =>
      change SameTables (c.execute statement).2 (c'.execute statement).2
      cases hs : statement c.visible with
      | ok s =>
          rw [execute_ok hs, execute_ok (h.visible ▸ hs)]
          exact ⟨h.committed, rfl⟩
      | error e =>
          rw [execute_error hs, execute_error (h.visible ▸ hs)]
          exact ⟨h.committed, h.visible⟩
  | beginTransaction => exact ⟨h.committed, h.visible⟩
  | commit => exact ⟨h.visible, h.visible⟩
  | rollback => exact ⟨h.committed, h.committed⟩
  | close => exact ⟨h.committed, h.committed⟩

/-- **What is the same stays the same** through all later calls on the connection. -/
theorem SameTables.afterAll {c c' : StoreConnection} (h : SameTables c c')
    (later : List Operation) : SameTables (c.afterAll later) (c'.afterAll later) := by
  induction later generalizing c c' with
  | nil => exact h
  | cons op later ih => exact ih (h.operate op)

end StoreConnection

/-- The volume of a process over its connection. -/
structure ConnectedVolume where
  connection : StoreConnection
  sources : Table SourceId StorageSource
  encryptionEngine : Option EncryptionEngine := none
  deviceId : Option DeviceId := none

namespace ConnectedVolume

open MetadataStore (withSlash moved)
open LikePattern (likePrefix)

/-- The volume as a call on the connection sees it. -/
def seen (v : ConnectedVolume) : JbodManager where
  metadataStore := v.connection.visible
  sources := v.sources
  encryptionEngine := v.encryptionEngine
  deviceId := v.deviceId

/-- How a call can fail. -/
inductive MoveError where
  | fileNotFound
  | statement (e : StatementError)
  deriving DecidableEq, Repr

def moveFile (v : ConnectedVolume) (locked : Bool) (srcPath dstPath : Text) :
    Except MoveError Unit × ConnectedVolume :=
  match v.connection.visible.lookup srcPath with
  | none => (.error .fileNotFound, v)
  | some _ =>
      match v.connection.renamePath locked srcPath dstPath with
      | (.error e, connection) => (.error (.statement e), { v with connection })
      | (.ok _, connection) => (.ok (), { v with connection })

def moveDirectory (v : ConnectedVolume) (locked lockedAgain : Bool) (srcPath dstPath : Text) :
    Except MoveError Unit × ConnectedVolume :=
  match v.connection.moveRecords locked lockedAgain srcPath dstPath with
  | (.error e, connection) => (.error (.statement e), { v with connection })
  | (.ok _, connection) =>
      let v := { v with connection }
      (.ok (), { v with
        sources := (v.seen.onEverySource (JbodManager.moveSourceDirectory
          (Text.lstrip '/' srcPath) (Text.lstrip '/' dstPath))).sources })

/-! ### The move of a file -/

/-- The path has a live record. -/
def Live (v : ConnectedVolume) (p : Text) : Prop := ∃ row, v.seen.metadataStore.lookup p = some row

/-- The call returns, the second path reads as the first one did, the first one is gone, and the rest is
as before. -/
structure MovesFile (remote : RemoteRead) (srcPath dstPath : Text) (v : ConnectedVolume)
    (out : Except MoveError Unit × ConnectedVolume) : Prop where
  returns : out.1 = .ok ()
  reads : (out.2.seen.readFile remote dstPath).1 = (v.seen.readFile remote srcPath).1
  gone : ¬ out.2.Live srcPath
  others : ∀ p, p ≠ srcPath → p ≠ dstPath →
    out.2.seen.metadataStore.lookupAny p = v.seen.metadataStore.lookupAny p ∧
      (out.2.seen.readFile remote p).1 = (v.seen.readFile remote p).1
  directories : out.2.seen.metadataStore.directories = v.seen.metadataStore.directories
  committed : out.2.connection.pending = none

/-- The call raises, and the tables are as before on the connection and off it. -/
structure Refuses (v : ConnectedVolume) (out : Except MoveError Unit × ConnectedVolume) : Prop where
  raises : ∃ e, out.1 = .error e
  unchanged : StoreConnection.SameTables v.connection out.2.connection

/-- A live file is moved to where nothing is live, and refused where something is. -/
structure MovesAsTold (remote : RemoteRead) (srcPath dstPath : Text) (v : ConnectedVolume)
    (out : Except MoveError Unit × ConnectedVolume) : Prop where
  moves : ¬ v.Live dstPath → MovesFile remote srcPath dstPath v out
  refuses : v.Live dstPath → Refuses v out

/-! #### Reads that only the record decides -/

theorem readLocal_withStore (j : JbodManager) (s : MetadataStore) (metadata : FileRow) :
    ({ j with metadataStore := s }.readLocal metadata).1 = (j.readLocal metadata).1 := by
  unfold JbodManager.readLocal
  dsimp only
  cases j.sources.get metadata.sourceId with
  | none => rfl
  | some source =>
      dsimp only
      split_ifs
      · rfl
      · unfold JbodManager.onSource
        dsimp only
        cases source.read metadata.physicalPath with
        | mk result source' =>
            cases result with
            | error e => rfl
            | ok data => rfl

/-- A path reads as another one did where it has that one's record. -/
theorem readFile_withStore (remote : RemoteRead) (j : JbodManager) {s : MetadataStore} {p q : Text}
    (hrow : s.lookup q = j.metadataStore.lookup p) :
    ({ j with metadataStore := s }.readFile remote q).1 = (j.readFile remote p).1 := by
  unfold JbodManager.readFile
  dsimp only
  rw [hrow]
  cases j.metadataStore.lookup p with
  | none => rfl
  | some metadata =>
      dsimp only
      cases metadata.deviceId with
      | none => exact readLocal_withStore j s metadata
      | some owner =>
          dsimp only
          split_ifs
          · exact readLocal_withStore j s metadata
          · unfold JbodManager.readRemote
            cases remote owner metadata.sourceId metadata.physicalPath with
            | none => rfl
            | some data => rfl

/-! #### The cases of a move -/

section MoveFile

variable {v : ConnectedVolume} {srcPath dstPath : Text} {row : FileRow}

theorem moveFile_of_locked (hrow : v.seen.metadataStore.lookup srcPath = some row) :
    v.moveFile true srcPath dstPath = (.error (.statement .locked),
      { v with connection := ⟨v.connection.committed, some v.connection.visible⟩ }) := by
  have hlookup : v.connection.visible.lookup srcPath = some row := hrow
  unfold moveFile StoreConnection.renamePath
  rw [hlookup]
  rfl

theorem moveFile_of_taken (hrow : v.seen.metadataStore.lookup srcPath = some row)
    (htaken : v.seen.metadataStore.renamePath srcPath dstPath = none) :
    v.moveFile false srcPath dstPath = (.error (.statement .integrity),
      { v with connection := ⟨v.connection.committed, some v.connection.visible⟩ }) := by
  have hlookup : v.connection.visible.lookup srcPath = some row := hrow
  have hrename : v.connection.visible.renamePath srcPath dstPath = none := htaken
  have hrefused : Statement.underLock false (.unique fun s => s.renamePath srcPath dstPath)
      v.connection.visible = .error .integrity := Statement.underLock_of_none hrename
  unfold moveFile StoreConnection.renamePath
  rw [hlookup, StoreConnection.execute_error hrefused]

theorem moveFile_of_free {s : MetadataStore} (hrow : v.seen.metadataStore.lookup srcPath = some row)
    (hfree : v.seen.metadataStore.renamePath srcPath dstPath = some s) :
    v.moveFile false srcPath dstPath = (.ok (), { v with connection := .idle s }) := by
  have hlookup : v.connection.visible.lookup srcPath = some row := hrow
  have hrename : v.connection.visible.renamePath srcPath dstPath = some s := hfree
  have hdone : Statement.underLock false (.unique fun s => s.renamePath srcPath dstPath)
      v.connection.visible = .ok s := Statement.underLock_of_some hrename
  unfold moveFile StoreConnection.renamePath
  rw [hlookup, StoreConnection.execute_ok hdone]
  rfl

/-- **The call on the connection does what the volume's does** where the lock is obtained. -/
theorem seen_moveFile (v : ConnectedVolume) (srcPath dstPath : Text) :
    (v.moveFile false srcPath dstPath).2.seen = (v.seen.moveFile srcPath dstPath).2 ∧
      ((v.moveFile false srcPath dstPath).1 = .ok () ↔
        (v.seen.moveFile srcPath dstPath).1 = .ok ()) := by
  cases hrow : v.seen.metadataStore.lookup srcPath with
  | none =>
      have hlookup : v.connection.visible.lookup srcPath = none := hrow
      unfold moveFile JbodManager.moveFile
      rw [hlookup, hrow]
      simp
  | some row =>
      cases hrename : v.seen.metadataStore.renamePath srcPath dstPath with
      | none =>
          rw [moveFile_of_taken hrow hrename]
          unfold JbodManager.moveFile
          rw [hrow]
          simp only [hrename]
          exact ⟨rfl, by simp⟩
      | some s =>
          rw [moveFile_of_free hrow hrename]
          unfold JbodManager.moveFile
          rw [hrow]
          simp only [hrename]
          exact ⟨rfl, by simp⟩

/-- A row, live or not, at the second path. -/
theorem renamePath_eq_none_of_row (hrow : v.seen.metadataStore.lookup srcPath = some row)
    (hne : srcPath ≠ dstPath) :
    v.seen.metadataStore.renamePath srcPath dstPath = none ↔
      v.seen.metadataStore.lookupAny dstPath ≠ none := by
  rw [MetadataStore.renamePath_eq_none_iff, Option.ne_none_iff_exists']
  have hany := (MetadataStore.lookup_eq_some_iff.mp hrow).1
  exact ⟨fun h => h.2.1, fun h => ⟨⟨row, hany⟩, h, hne⟩⟩

/-- A free path takes the file. -/
theorem movesFile_of_free (remote : RemoteRead)
    (hrow : v.seen.metadataStore.lookup srcPath = some row) (hne : srcPath ≠ dstPath)
    (hfree : v.seen.metadataStore.lookupAny dstPath = none) :
    MovesFile remote srcPath dstPath v (v.moveFile false srcPath dstPath) := by
  obtain ⟨s, hs⟩ := MetadataStore.renamePath_of_free srcPath hfree
  have hany := MetadataStore.lookup_eq_some_iff.mp hrow
  have hrows := MetadataStore.lookupAny_renamePath hany.1 hne hs
  rw [moveFile_of_free hrow hs]
  have hlookup : s.lookup dstPath = v.seen.metadataStore.lookup srcPath := by
    rw [hrow, MetadataStore.lookup_eq_some_iff, hrows, if_pos rfl]
    exact ⟨rfl, hany.2⟩
  refine ⟨rfl, readFile_withStore remote v.seen hlookup, ?_, fun p hsrc hdst => ?_, ?_, rfl⟩
  · rintro ⟨row', hrow'⟩
    have hgone := (MetadataStore.lookup_eq_some_iff.mp hrow').1
    change s.lookupAny srcPath = some row' at hgone
    rw [hrows, if_neg hne, if_pos rfl] at hgone
    cases hgone
  · have hsame : s.lookupAny p = v.seen.metadataStore.lookupAny p := by
      rw [hrows, if_neg hdst, if_neg hsrc]
    have hrecord : s.lookup p = v.seen.metadataStore.lookup p := by
      rw [MetadataStore.lookup, hsame, MetadataStore.lookup]
    exact ⟨hsame, readFile_withStore remote v.seen hrecord⟩
  · rw [MetadataStore.renamePath, Option.map_eq_some_iff] at hs
    obtain ⟨files, -, rfl⟩ := hs
    rfl

/-- **The move of a file**: a live file is moved to a path without a live record, and refused where the
path has one, exactly where the path is live or has no row at all and the lock is obtained. -/
theorem moveFile_movesAsTold_iff (remote : RemoteRead) (v : ConnectedVolume) (locked : Bool)
    {srcPath dstPath : Text} (hlive : v.Live srcPath) (hne : srcPath ≠ dstPath) :
    MovesAsTold remote srcPath dstPath v (v.moveFile locked srcPath dstPath) ↔
      v.Live dstPath ∨
        (v.seen.metadataStore.lookupAny dstPath = none ∧ locked = false) := by
  obtain ⟨row, hrow⟩ := hlive
  constructor
  · intro htold
    by_cases hdst : v.Live dstPath
    · exact Or.inl hdst
    · right
      have hreturns := (htold.moves hdst).returns
      cases locked with
      | true =>
          rw [moveFile_of_locked hrow] at hreturns
          cases hreturns
      | false =>
          refine ⟨?_, rfl⟩
          by_contra htaken
          rw [moveFile_of_taken hrow ((renamePath_eq_none_of_row hrow hne).mpr htaken)] at hreturns
          cases hreturns
  · rintro (hdst | ⟨hfree, rfl⟩)
    · refine ⟨fun h => absurd hdst h, fun _ => ?_⟩
      obtain ⟨row', hrow'⟩ := hdst
      have htaken : v.seen.metadataStore.lookupAny dstPath ≠ none := by
        rw [(MetadataStore.lookup_eq_some_iff.mp hrow').1]
        exact Option.some_ne_none row'
      cases locked with
      | true =>
          rw [moveFile_of_locked hrow]
          exact ⟨⟨_, rfl⟩, StoreConnection.sameTables_refused _⟩
      | false =>
          rw [moveFile_of_taken hrow ((renamePath_eq_none_of_row hrow hne).mpr htaken)]
          exact ⟨⟨_, rfl⟩, StoreConnection.sameTables_refused _⟩
    · refine ⟨fun _ => movesFile_of_free remote hrow hne hfree, fun hdst => ?_⟩
      obtain ⟨row', hrow'⟩ := hdst
      rw [(MetadataStore.lookup_eq_some_iff.mp hrow').1] at hfree
      cases hfree

end MoveFile

/-- Two files in a volume with one source. -/
def twoFiles : ConnectedVolume where
  connection := .idle ((MetadataStore.initial.insert "/a".toList "s" "fa".toList 1 0 0 none).insert
    "/b".toList "s" "fb".toList 1 0 0 none)
  sources := Table.empty.insert "s" { kind := .directory }

/-- The second one has been deleted. -/
def oneDeleted : ConnectedVolume :=
  { twoFiles with connection := .idle (twoFiles.connection.visible.delete "/b".toList 5) }

theorem twoFiles_movesAsTold :
    MovesAsTold (fun _ _ _ => none) "/a".toList "/c".toList twoFiles
      (twoFiles.moveFile false "/a".toList "/c".toList) :=
  (moveFile_movesAsTold_iff (fun _ _ _ => none) twoFiles false
    (Option.isSome_iff_exists.mp (by decide)) (by decide)).mpr (Or.inr ⟨by decide, rfl⟩)

/-- A deleted file stands in the way of a move to its path. -/
theorem tombstone_refuses_move : oneDeleted.Live "/a".toList ∧ ¬ oneDeleted.Live "/b".toList ∧
    ¬ MovesAsTold (fun _ _ _ => none) "/a".toList "/b".toList oneDeleted
      (oneDeleted.moveFile false "/a".toList "/b".toList) := by
  have hgone : ¬ oneDeleted.Live "/b".toList := by
    rintro ⟨row, hrow⟩
    have hnone : oneDeleted.seen.metadataStore.lookup "/b".toList = none := by decide
    rw [hnone] at hrow
    cases hrow
  refine ⟨Option.isSome_iff_exists.mp (by decide), hgone, fun htold => ?_⟩
  have hraises : (oneDeleted.moveFile false "/a".toList "/b".toList).1 =
      .error (.statement .integrity) := by decide
  rw [(htold.moves hgone).returns] at hraises
  cases hraises

/-! ### The move of a directory -/

/-- A call that raises has changed no table, now or after any later calls on the connection, and no
source. -/
def AllOrNothing (v : ConnectedVolume) (out : Except MoveError Unit × ConnectedVolume) : Prop :=
  ∀ e, out.1 = .error e → out.2.sources = v.sources ∧
    ∀ later, StoreConnection.SameTables (v.connection.afterAll later)
      (out.2.connection.afterAll later)

/-- Each key that matches the pattern is rewritten to itself. -/
def StaysPut {ρ : Type} (t : Table Text ρ) (srcPath dstPath : Text) : Prop :=
  ∀ k ∈ t.keys, likePrefix (withSlash srcPath) k = true →
    moved (withSlash srcPath) (withSlash dstPath) k = k

/-- The files cannot be renamed at all, or nothing is refused, or what is done by then is nothing. -/
def NothingHalfDone (v : ConnectedVolume) (locked lockedAgain : Bool) (srcPath dstPath : Text) : Prop :=
  let s := v.connection.visible
  let move := moved (withSlash srcPath) (withSlash dstPath)
  let matching := likePrefix (withSlash srcPath)
  locked = true ∨ ¬ s.files.CanRename move (s.files.keys.filter matching) ∨
    (lockedAgain = false ∧ JbodManager.DirectoriesFit s.directories srcPath dstPath) ∨
    (StaysPut s.files srcPath dstPath ∧
      (¬ s.directories.CanRename move (s.directories.keys.filter matching) ∨
        StaysPut s.directories srcPath dstPath ∧ v.connection.committed = s))

theorem allOrNothing_returned (v v' : ConnectedVolume) : AllOrNothing v (.ok (), v') := by
  intro e he
  cases he

/-- A call that raises before the sources are asked is judged by the connection it leaves. -/
theorem allOrNothing_raised_iff (v : ConnectedVolume) (e : MoveError) (connection : StoreConnection) :
    AllOrNothing v (.error e, { v with connection }) ↔
      StoreConnection.SameTables v.connection connection :=
  ⟨fun h => (h e rfl).2 [], fun h _ _ => ⟨rfl, h.afterAll⟩⟩

section MoveDirectory

variable {v : ConnectedVolume} {srcPath dstPath : Text} {files : Table Text FileRow}
  {directories : Table Text Time}

/-- The call goes no further than its first statement. -/
theorem moveDirectory_of_refused {e : StatementError} (locked lockedAgain : Bool)
    (h : Statement.underLock locked
      (StoreConnection.renameFiles (withSlash srcPath) (withSlash dstPath)) v.connection.visible =
        .error e) :
    v.moveDirectory locked lockedAgain srcPath dstPath = (.error (.statement e),
      { v with connection := ⟨v.connection.committed, some v.connection.visible⟩ }) := by
  unfold moveDirectory StoreConnection.moveRecords StoreConnection.renameDirectory
  rw [StoreConnection.execute_error h]

theorem renameFiles_eq_of_some
    (h : v.connection.visible.files.renameWhere? (likePrefix (withSlash srcPath))
      (moved (withSlash srcPath) (withSlash dstPath)) = some files) :
    Statement.underLock false
        (StoreConnection.renameFiles (withSlash srcPath) (withSlash dstPath)) v.connection.visible =
      .ok { v.connection.visible with files } :=
  Statement.underLock_of_some (Option.map_eq_some_iff.mpr ⟨files, h, rfl⟩)

/-- The files are renamed, and the directories below cannot be. -/
theorem moveDirectory_of_directories_taken (lockedAgain : Bool)
    (hfiles : v.connection.visible.files.renameWhere? (likePrefix (withSlash srcPath))
      (moved (withSlash srcPath) (withSlash dstPath)) = some files)
    (hdirs : v.connection.visible.directories.renameWhere? (likePrefix (withSlash srcPath))
      (moved (withSlash srcPath) (withSlash dstPath)) = none) :
    v.moveDirectory false lockedAgain srcPath dstPath = (.error (.statement .integrity),
      { v with connection :=
          ⟨v.connection.committed, some { v.connection.visible with files }⟩ }) := by
  have hrefused : StoreConnection.renameDirectories (withSlash srcPath) (withSlash dstPath)
      { v.connection.visible with files } = .error .integrity :=
    Statement.unique_of_none (Option.map_eq_none_iff.mpr hdirs)
  unfold moveDirectory StoreConnection.moveRecords StoreConnection.renameDirectory
  rw [StoreConnection.execute_ok (renameFiles_eq_of_some hfiles)]
  dsimp only
  rw [StoreConnection.execute_error (by exact hrefused)]
  rfl

/-- The first transaction goes through. -/
theorem renameDirectory_of_some
    (hfiles : v.connection.visible.files.renameWhere? (likePrefix (withSlash srcPath))
      (moved (withSlash srcPath) (withSlash dstPath)) = some files)
    (hdirs : v.connection.visible.directories.renameWhere? (likePrefix (withSlash srcPath))
      (moved (withSlash srcPath) (withSlash dstPath)) = some directories) :
    v.connection.renameDirectory false (withSlash srcPath) (withSlash dstPath) =
      (.ok (), .idle ⟨files, directories⟩) := by
  have hdone : StoreConnection.renameDirectories (withSlash srcPath) (withSlash dstPath)
      { v.connection.visible with files } = .ok ⟨files, directories⟩ :=
    Statement.unique_of_some (Option.map_eq_some_iff.mpr ⟨directories, hdirs, rfl⟩)
  unfold StoreConnection.renameDirectory
  rw [StoreConnection.execute_ok (renameFiles_eq_of_some hfiles)]
  dsimp only
  rw [StoreConnection.execute_ok (by exact hdone)]
  rfl

/-- The second transaction is refused when the first one is committed. -/
theorem moveDirectory_of_self_refused {e : StatementError} {lockedAgain : Bool}
    (hfiles : v.connection.visible.files.renameWhere? (likePrefix (withSlash srcPath))
      (moved (withSlash srcPath) (withSlash dstPath)) = some files)
    (hdirs : v.connection.visible.directories.renameWhere? (likePrefix (withSlash srcPath))
      (moved (withSlash srcPath) (withSlash dstPath)) = some directories)
    (h : Statement.underLock lockedAgain (StoreConnection.renameRegistered (Text.rstrip '/' srcPath)
      (Text.rstrip '/' dstPath)) ⟨files, directories⟩ = .error e) :
    v.moveDirectory false lockedAgain srcPath dstPath = (.error (.statement e),
      { v with connection := ⟨⟨files, directories⟩, some ⟨files, directories⟩⟩ }) := by
  unfold moveDirectory StoreConnection.moveRecords
  rw [renameDirectory_of_some hfiles hdirs]
  dsimp only
  rw [StoreConnection.execute_error (by exact h)]
  rfl

/-- Nothing is refused. -/
theorem moveDirectory_of_done {directories' : Table Text Time}
    (hfiles : v.connection.visible.files.renameWhere? (likePrefix (withSlash srcPath))
      (moved (withSlash srcPath) (withSlash dstPath)) = some files)
    (hdirs : v.connection.visible.directories.renameWhere? (likePrefix (withSlash srcPath))
      (moved (withSlash srcPath) (withSlash dstPath)) = some directories)
    (hself : directories.rename? (Text.rstrip '/' srcPath) (Text.rstrip '/' dstPath) =
      some directories') :
    ∃ v', v.moveDirectory false false srcPath dstPath = (.ok (), v') := by
  have hdone : Statement.underLock false (StoreConnection.renameRegistered (Text.rstrip '/' srcPath)
      (Text.rstrip '/' dstPath)) ⟨files, directories⟩ = .ok ⟨files, directories'⟩ :=
    Statement.underLock_of_some (Option.map_eq_some_iff.mpr ⟨directories', hself, rfl⟩)
  unfold moveDirectory StoreConnection.moveRecords
  rw [renameDirectory_of_some hfiles hdirs]
  dsimp only
  rw [StoreConnection.execute_ok (by exact hdone)]
  exact ⟨_, rfl⟩

/-- What the first transaction leaves is what was there where no key is rewritten. -/
theorem sameTables_renamed_iff
    (hfiles : v.connection.visible.files.renameWhere? (likePrefix (withSlash srcPath))
      (moved (withSlash srcPath) (withSlash dstPath)) = some files)
    (hdirs : v.connection.visible.directories.renameWhere? (likePrefix (withSlash srcPath))
      (moved (withSlash srcPath) (withSlash dstPath)) = some directories) :
    StoreConnection.SameTables v.connection ⟨⟨files, directories⟩, some ⟨files, directories⟩⟩ ↔
      StaysPut v.connection.visible.files srcPath dstPath ∧
        StaysPut v.connection.visible.directories srcPath dstPath ∧
          v.connection.committed = v.connection.visible := by
  have hsame : (⟨files, directories⟩ : MetadataStore) = v.connection.visible ↔
      StaysPut v.connection.visible.files srcPath dstPath ∧
        StaysPut v.connection.visible.directories srcPath dstPath := by
    unfold StaysPut
    rw [← Table.renameWhere?_eq_self_iff hfiles, ← Table.renameWhere?_eq_self_iff hdirs]
    exact ⟨fun h => ⟨congrArg MetadataStore.files h, congrArg MetadataStore.directories h⟩,
      fun ⟨hf, hd⟩ => by rw [hf, hd]⟩
  constructor
  · rintro ⟨hcommitted, hvisible⟩
    have hcommitted : (⟨files, directories⟩ : MetadataStore) = v.connection.committed := hcommitted
    have hvisible : (⟨files, directories⟩ : MetadataStore) = v.connection.visible := hvisible
    obtain ⟨hf, hd⟩ := hsame.mp hvisible
    exact ⟨hf, hd, hcommitted.symm.trans hvisible⟩
  · rintro ⟨hf, hd, hsettled⟩
    have heq := hsame.mpr ⟨hf, hd⟩
    exact ⟨heq.trans hsettled.symm, heq⟩

/-- **A move that raises has done nothing** exactly where nothing is half done. -/
theorem moveDirectory_allOrNothing_iff (v : ConnectedVolume) (locked lockedAgain : Bool)
    (srcPath dstPath : Text) :
    AllOrNothing v (v.moveDirectory locked lockedAgain srcPath dstPath) ↔
      NothingHalfDone v locked lockedAgain srcPath dstPath := by
  unfold NothingHalfDone
  dsimp only
  cases locked with
  | true =>
      rw [moveDirectory_of_refused (e := .locked) true lockedAgain rfl, allOrNothing_raised_iff]
      exact iff_of_true (StoreConnection.sameTables_refused _) (Or.inl rfl)
  | false =>
      rw [or_iff_right Bool.false_ne_true]
      rcases v.connection.visible.files.renameWhere?_cases (likePrefix (withSlash srcPath))
        (moved (withSlash srcPath) (withSlash dstPath)) with
        ⟨hcan, files, hfiles, -⟩ | ⟨hcannot, hnone⟩
      · rw [or_iff_right (not_not_intro hcan), JbodManager.directoriesFit_iff]
        rcases v.connection.visible.directories.renameWhere?_cases (likePrefix (withSlash srcPath))
          (moved (withSlash srcPath) (withSlash dstPath)) with
          ⟨hdcan, directories, hdirs, -⟩ | ⟨hdcannot, hdnone⟩
        · rw [or_iff_right (not_not_intro hdcan)]
          -- the first transaction is committed; the second one decides
          have hraised : ∀ {e}, Statement.underLock lockedAgain
              (StoreConnection.renameRegistered (Text.rstrip '/' srcPath) (Text.rstrip '/' dstPath))
                ⟨files, directories⟩ = .error e →
              (AllOrNothing v (v.moveDirectory false lockedAgain srcPath dstPath) ↔
                StaysPut v.connection.visible.files srcPath dstPath ∧
                  StaysPut v.connection.visible.directories srcPath dstPath ∧
                    v.connection.committed = v.connection.visible) := by
            intro e he
            rw [moveDirectory_of_self_refused hfiles hdirs he, allOrNothing_raised_iff]
            exact sameTables_renamed_iff hfiles hdirs
          cases lockedAgain with
          | true =>
              rw [hraised (e := .locked) rfl]
              simp
          | false =>
              cases hself : directories.rename? (Text.rstrip '/' srcPath)
                  (Text.rstrip '/' dstPath) with
              | none =>
                  have hrefused : Statement.underLock false (StoreConnection.renameRegistered
                      (Text.rstrip '/' srcPath) (Text.rstrip '/' dstPath)) ⟨files, directories⟩ =
                        .error .integrity :=
                    Statement.underLock_of_none (Option.map_eq_none_iff.mpr hself)
                  rw [hraised hrefused, or_iff_right]
                  rintro ⟨-, renamed, renamed', hrenamed, hself'⟩
                  rw [hdirs, Option.some_inj] at hrenamed
                  rw [← hrenamed, hself] at hself'
                  cases hself'
              | some directories' =>
                  obtain ⟨v', hdone⟩ := moveDirectory_of_done hfiles hdirs hself
                  rw [hdone]
                  exact iff_of_true (allOrNothing_returned v v')
                    (Or.inl ⟨rfl, directories, directories', hdirs, hself⟩)
        · rw [moveDirectory_of_directories_taken lockedAgain hfiles hdnone, allOrNothing_raised_iff,
            or_iff_right]
          · unfold StaysPut
            rw [← Table.renameWhere?_eq_self_iff hfiles]
            constructor
            · intro hsame
              exact ⟨congrArg MetadataStore.files hsame.visible, Or.inl hdcannot⟩
            · rintro ⟨rfl, -⟩
              exact StoreConnection.sameTables_refused _
          · rintro ⟨-, renamed, renamed', hrenamed, -⟩
            rw [hdnone] at hrenamed
            cases hrenamed
      · have hrefused : Statement.underLock false (StoreConnection.renameFiles (withSlash srcPath)
            (withSlash dstPath)) v.connection.visible = .error .integrity :=
          Statement.underLock_of_none (Option.map_eq_none_iff.mpr hnone)
        rw [moveDirectory_of_refused false lockedAgain hrefused, allOrNothing_raised_iff]
        exact iff_of_true (StoreConnection.sameTables_refused _) (Or.inl hcannot)

end MoveDirectory

/-- A file and a directory below one directory, and a directory of the same name below another. -/
def twoDirectories : ConnectedVolume where
  connection := .idle (((MetadataStore.initial.insert "/a/f".toList "s" "fa".toList 1 0 0
    none).insertDirectory "/a/d".toList 0).insertDirectory "/b/d".toList 0)
  sources := Table.empty.insert "s" { kind := .directory }

/-- The files have moved when the directories are refused, and the next commit makes that last. -/
theorem refused_move_moves_files :
    (twoDirectories.moveDirectory false false "/a".toList "/b".toList).1 =
      .error (.statement .integrity) ∧
    ((twoDirectories.moveDirectory false false "/a".toList "/b".toList).2.connection.operate
      .commit).committed.lookup "/a/f".toList = none ∧
    ¬ AllOrNothing twoDirectories
      (twoDirectories.moveDirectory false false "/a".toList "/b".toList) := by
  have hraises : (twoDirectories.moveDirectory false false "/a".toList "/b".toList).1 =
      .error (.statement .integrity) := by decide
  have hgone : ((twoDirectories.moveDirectory false false "/a".toList
      "/b".toList).2.connection.operate .commit).committed.lookup "/a/f".toList = none := by decide
  refine ⟨hraises, hgone, fun hall => ?_⟩
  have hsame := ((hall _ hraises).2 [.commit]).committed
  change ((twoDirectories.moveDirectory false false "/a".toList
    "/b".toList).2.connection.operate .commit).committed = _ at hsame
  rw [hsame] at hgone
  have hthere : ((twoDirectories.connection.afterAll [.commit]).committed.lookup
      "/a/f".toList).isSome = true := by decide
  rw [hgone] at hthere
  cases hthere

end ConnectedVolume

end StardustFS
