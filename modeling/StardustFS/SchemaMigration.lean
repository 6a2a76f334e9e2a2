import StardustFS.ColumnTable
import StardustFS.JsonValue
import StardustFS.MetadataStore

/-! `MetadataStore.initialize`, statement by statement: the schema script, whose statements commit one
by one, the three queries that tell whether the second version is there, the copy of the database file,
and the transactions of the three migrations. -/

namespace StardustFS

/-- A cell of the database. -/
inductive SqlValue where
  | null
  | integer (n : Int)
  | real (x : PyFloat)
  | text (s : Text)
  | blob (b : Bytes)
  deriving DecidableEq

abbrev DataTable := ColumnTable String SqlValue

inductive TableName where
  | files
  | directories
  deriving DecidableEq

/-- The row of `schema_version`; `CHECK (id = 1)` leaves room for one. -/
structure VersionRow where
  version : Int
  migratedAt : PyFloat
  deriving DecidableEq

/-- A database of the store. The columns of `schema_version` never change. -/
structure StoreDb where
  files : Option DataTable
  directories : Option DataTable
  schemaVersion : Option (Option VersionRow)
  indexes : List String
  deriving DecidableEq

inductive SqlError where
  | duplicateColumn
  | noSuchTable
  deriving DecidableEq

namespace StoreDb

/-- An empty database file. -/
def empty : StoreDb where
  files := none
  directories := none
  schemaVersion := none
  indexes := []

def table (db : StoreDb) : TableName → Option DataTable
  | .files => db.files
  | .directories => db.directories

/-- `CREATE TABLE IF NOT EXISTS`. -/
def createTable (db : StoreDb) (name : TableName) (t : DataTable) : StoreDb :=
  if (db.table name).isSome then db
  else match name with
    | .files => { db with files := some t }
    | .directories => { db with directories := some t }

/-- `CREATE INDEX IF NOT EXISTS`. -/
def createIndex (db : StoreDb) (index : String) (name : TableName) : Except SqlError StoreDb :=
  if index ∈ db.indexes then .ok db
  else if (db.table name).isSome then .ok { db with indexes := db.indexes ++ [index] }
  else .error .noSuchTable

/-- The names `PRAGMA table_info(files)` lists; none without the table. -/
def fileColumns (db : StoreDb) : List String := (db.files.map fun t => t.columns).getD []

/-- `ALTER TABLE files ADD COLUMN`. -/
def addFileColumn (db : StoreDb) (column : String) (default : SqlValue) :
    Except SqlError StoreDb :=
  match db.files with
  | none => .error .noSuchTable
  | some t =>
      match t.addColumn? column default with
      | none => .error .duplicateColumn
      | some t => .ok { db with files := some t }

/-- `UPDATE files SET version = 1, sync_status = 'synced' WHERE version = 1`. -/
def resetVersions (db : StoreDb) : Except SqlError StoreDb :=
  match db.files with
  | none => .error .noSuchTable
  | some t => .ok { db with files := some (t.updateWhere
      (fun cells => cells "version" = some (.integer 1))
      [("version", .integer 1), ("sync_status", .text "synced".toList)]) }

/-- `CREATE TABLE IF NOT EXISTS schema_version`. -/
def createSchemaVersion (db : StoreDb) : StoreDb :=
  if db.schemaVersion.isSome then db else { db with schemaVersion := some none }

/-- `INSERT OR REPLACE INTO schema_version`. -/
def setSchemaVersion (db : StoreDb) (version : Int) (now : PyFloat) : Except SqlError StoreDb :=
  match db.schemaVersion with
  | none => .error .noSuchTable
  | some _ => .ok { db with schemaVersion := some (some ⟨version, now⟩) }

end StoreDb

/-- The columns of the table `files` in the first version. -/
def filesColumns : List String :=
  ["id", "virtual_path", "source_id", "physical_path", "file_size", "created_at", "modified_at"]

def directoriesColumns : List String := ["id", "virtual_path", "created_at"]

/-- A statement of the schema script. -/
inductive SchemaStatement where
  | table (name : TableName) (columns : List String) (nodup : columns.Nodup)
  | index (name : String) (tableName : TableName)

def SchemaStatement.exec (db : StoreDb) : SchemaStatement → Except SqlError StoreDb
  | .table name columns nodup => .ok (db.createTable name (.empty columns nodup))
  | .index name tableName => db.createIndex name tableName

theorem nodup_filesColumns : filesColumns.Nodup := by decide

/-- `_SCHEMA_SQL`. -/
def schemaSql : List SchemaStatement :=
  [.table .files filesColumns (by decide),
    .index "idx_files_virtual_path" .files,
    .index "idx_files_source_id" .files,
    .table .directories directoriesColumns (by decide),
    .index "idx_directories_virtual_path" .directories]

/-- The transaction of `_migrate_to_v2`. -/
def migrateToV2 (now : PyFloat) (db : StoreDb) : Except SqlError StoreDb := do
  let db ← db.addFileColumn "version" (.integer 1)
  let db ← db.addFileColumn "device_id" .null
  let db ← db.addFileColumn "sync_status" (.text "synced".toList)
  let db ← db.resetVersions
  db.createSchemaVersion.setSchemaVersion 2 now

/-- A transaction that adds one column and records the version. -/
def addAndRecord (column : String) (default : SqlValue) (version : Int) (now : PyFloat)
    (db : StoreDb) : Except SqlError StoreDb := do
  let db ← db.addFileColumn column default
  db.setSchemaVersion version now

/-- The transaction of `_migrate_to_v3`. -/
def migrateToV3 (now : PyFloat) (db : StoreDb) : Except SqlError StoreDb :=
  addAndRecord "deleted" (.integer 0) 3 now db

/-- The transaction of `_migrate_to_v4`. -/
def migrateToV4 (now : PyFloat) (db : StoreDb) : Except SqlError StoreDb :=
  addAndRecord "replication_status" (.text "none".toList) 4 now db

/-- The files of the database in WAL mode: what a connection reads is the main file with the log; the
backup is a copy of the main file alone. -/
structure DbFiles where
  committed : StoreDb
  main : StoreDb
  backup : Option StoreDb
  deriving DecidableEq

/-- The statement `initialize` comes to next. -/
inductive Phase where
  /-- The statement of the schema script with the number. -/
  | create (n : Nat)
  /-- The three queries of `_needs_migration`. -/
  | readVersionTable
  | readVersion
  | readVersionColumn
  | backUp
  | migrateV2
  | readDeleted
  | migrateV3
  | readReplicationStatus
  | migrateV4
  | done
  | raised
  deriving DecidableEq

/-- The call has returned or raised. -/
def Phase.ended : Phase → Bool
  | .done => true
  | .raised => true
  | _ => false

/-- What the system answers to a statement. -/
inductive Answer where
  /-- The statement is carried out, at the time. -/
  | ok (now : PyFloat)
  /-- A full disk, a lock that is not released in time, or any other error. -/
  | fails

namespace DbFiles

/-- A transaction and what follows: an error rolls it back and is raised. -/
def transact (f : DbFiles) (tx : StoreDb → Except SqlError StoreDb) (next : Phase) :
    Phase × DbFiles :=
  match tx f.committed with
  | .ok db => (next, { f with committed := db })
  | .error _ => (.raised, f)

/-- The next statement, where the system carries it out. -/
def carryOut (f : DbFiles) (now : PyFloat) : Phase → Phase × DbFiles
  | .create n =>
      match schemaSql[n]? with
      | some statement => f.transact (fun db => statement.exec db) (.create (n + 1))
      | none => (.readVersionTable, f)
  | .readVersionTable =>
      if f.committed.schemaVersion.isSome then (.readVersion, f) else (.readVersionColumn, f)
  | .readVersion =>
      match f.committed.schemaVersion with
      | none => (.raised, f)
      | some row => if row.any (2 ≤ ·.version) then (.readDeleted, f) else (.readVersionColumn, f)
  | .readVersionColumn =>
      if "version" ∈ f.committed.fileColumns then (.readDeleted, f) else (.backUp, f)
  | .backUp => (.migrateV2, { f with backup := some f.main })
  | .migrateV2 => f.transact (migrateToV2 now) .readDeleted
  | .readDeleted =>
      if "deleted" ∈ f.committed.fileColumns then (.readReplicationStatus, f) else (.migrateV3, f)
  | .migrateV3 => f.transact (migrateToV3 now) .readReplicationStatus
  | .readReplicationStatus =>
      if "replication_status" ∈ f.committed.fileColumns then (.done, f) else (.migrateV4, f)
  | .migrateV4 => f.transact (migrateToV4 now) .done
  | .done => (.done, f)
  | .raised => (.raised, f)

/-- The next statement with the answer. Where the copy fails, the second version is left out and the
call goes on; a copy that broke off is none. -/
def advance (f : DbFiles) : Answer → Phase → Phase × DbFiles
  | .ok now, phase => f.carryOut now phase
  | .fails, .backUp => (.readDeleted, { f with backup := none })
  | .fails, _ => (.raised, f)

end DbFiles

/-! ### What the transactions do to a database of the version before -/

/-- The columns of the table `files` at the schema version. -/
def columnsAt (k : Nat) : List String :=
  filesColumns ++ (if 2 ≤ k then ["version", "device_id", "sync_status"] else []) ++
    (if 3 ≤ k then ["deleted"] else []) ++ (if 4 ≤ k then ["replication_status"] else [])

/-- What the cells of a column that a migration adds hold. -/
def filled (column : String) : SqlValue :=
  if column = "version" then .integer 1
  else if column = "sync_status" then .text "synced".toList
  else if column = "deleted" then .integer 0
  else if column = "replication_status" then .text "none".toList
  else .null

/-- The database is at the schema version, with the table `files`. -/
structure AtVersion (k : Nat) (db : StoreDb) (t : DataTable) : Prop where
  files : db.files = some t
  columns : t.columns = columnsAt k
  unversioned : k = 1 → db.schemaVersion = none
  versioned : 2 ≤ k → ∃ now, db.schemaVersion = some (some ⟨k, now⟩)

theorem version_mem_columnsAt {k : Nat} : "version" ∈ columnsAt k ↔ 2 ≤ k := by
  unfold columnsAt filesColumns
  split_ifs <;> simp <;> omega

theorem deleted_mem_columnsAt {k : Nat} : "deleted" ∈ columnsAt k ↔ 3 ≤ k := by
  unfold columnsAt filesColumns
  split_ifs <;> simp <;> omega

theorem replicationStatus_mem_columnsAt {k : Nat} : "replication_status" ∈ columnsAt k ↔ 4 ≤ k := by
  unfold columnsAt filesColumns
  split_ifs <;> simp <;> omega

namespace AtVersion

variable {k : Nat} {db : StoreDb} {t : DataTable}

theorem fileColumns (h : AtVersion k db t) : db.fileColumns = columnsAt k := by
  rw [StoreDb.fileColumns, h.files, Option.map_some, Option.getD_some, h.columns]

theorem schemaVersion_isSome (h : AtVersion k db t) (hk : 1 ≤ k) :
    db.schemaVersion.isSome = true ↔ 2 ≤ k := by
  constructor
  · intro hsome
    by_contra hlt
    rw [h.unversioned (by omega)] at hsome
    cases hsome
  · intro hle
    obtain ⟨now, hrow⟩ := h.versioned hle
    rw [hrow]
    rfl

end AtVersion

/-- The migration leaves the other tables alone. -/
structure OnlyFiles (db db' : StoreDb) : Prop where
  directories : db'.directories = db.directories
  indexes : db'.indexes = db.indexes

theorem addFileColumn_ok {db : StoreDb} {t : DataTable} (hfiles : db.files = some t) {column : String}
    (hnew : column ∉ t.columns) :
    ∃ t', db.addFileColumn column (filled column) = .ok { db with files := some t' } ∧
      t'.columns = t.columns ++ [column] ∧ ColumnTable.Extends filled t t' := by
  cases hadd : t.addColumn? column (filled column) with
  | none => exact absurd (ColumnTable.addColumn?_eq_none_iff.mp hadd) hnew
  | some t' =>
      refine ⟨t', ?_, (ColumnTable.addColumn?_cases hadd).2.1, ?_⟩
      · rw [StoreDb.addFileColumn, hfiles]
        simp only [hadd]
      · exact ColumnTable.extends_addColumn? hadd

theorem addFileColumn_duplicate {db : StoreDb} {column : String} (default : SqlValue)
    (h : column ∈ db.fileColumns) : db.addFileColumn column default = .error .duplicateColumn := by
  unfold StoreDb.fileColumns at h
  unfold StoreDb.addFileColumn
  cases hfiles : db.files with
  | none =>
      rw [hfiles] at h
      simp at h
  | some t =>
      rw [hfiles] at h
      simp only [ColumnTable.addColumn?_eq_none_iff.mpr h]

/-- The update of the second version finds what it sets. -/
theorem resetVersions_ok {db : StoreDb} {t t' : DataTable} (hfiles : db.files = some t')
    (hext : ColumnTable.Extends filled t t') (hversion : "version" ∉ t.columns)
    (hsync : "sync_status" ∉ t.columns) : db.resetVersions = .ok db := by
  have hself : t'.updateWhere (fun cells => cells "version" = some (.integer 1))
      [("version", .integer 1), ("sync_status", .text "synced".toList)] = t' := by
    refine ColumnTable.updateWhere_eq_self fun i hi c v hset hc => ?_
    rw [hext.rows] at hi
    simp only [List.lookup_cons, List.lookup_nil] at hset
    by_cases hv : c = "version"
    · subst hv
      rw [hext.filled i hi _ hc hversion]
      simpa [filled] using hset
    · by_cases hs : c = "sync_status"
      · subst hs
        rw [hext.filled i hi _ hc hsync]
        simpa [filled] using hset
      · rw [beq_false_of_ne hv, beq_false_of_ne hs] at hset
        cases hset
  rw [StoreDb.resetVersions, hfiles]
  simp only [hself, ← hfiles]

theorem setSchemaVersion_ok {db : StoreDb} {row : Option VersionRow} (version : Int) (now : PyFloat)
    (h : db.schemaVersion = some row) : db.setSchemaVersion version now =
      .ok { db with schemaVersion := some (some ⟨version, now⟩) } := by
  rw [StoreDb.setSchemaVersion, h]

theorem migrateToV2_ok {db : StoreDb} {t : DataTable} (now : PyFloat) (h : AtVersion 1 db t) :
    ∃ db' t', migrateToV2 now db = .ok db' ∧ AtVersion 2 db' t' ∧
      ColumnTable.Extends filled t t' ∧ OnlyFiles db db' := by
  have hcolumns : t.columns = filesColumns := by simpa [columnsAt] using h.columns
  obtain ⟨t₁, hadd₁, hcolumns₁, hext₁⟩ := addFileColumn_ok h.files
    (show "version" ∉ t.columns by rw [hcolumns]; decide)
  obtain ⟨t₂, hadd₂, hcolumns₂, hext₂⟩ := addFileColumn_ok
    (show { db with files := some t₁ }.files = some t₁ from rfl)
    (show "device_id" ∉ t₁.columns by rw [hcolumns₁, hcolumns]; decide)
  obtain ⟨t₃, hadd₃, hcolumns₃, hext₃⟩ := addFileColumn_ok
    (show { db with files := some t₂ }.files = some t₂ from rfl)
    (show "sync_status" ∉ t₂.columns by rw [hcolumns₂, hcolumns₁, hcolumns]; decide)
  have hext := (hext₁.trans hext₂).trans hext₃
  have hreset : StoreDb.resetVersions { db with files := some t₃ } = .ok { db with files := some t₃ } :=
    resetVersions_ok rfl hext (by rw [hcolumns]; decide) (by rw [hcolumns]; decide)
  have hcreate : StoreDb.createSchemaVersion { db with files := some t₃ } =
      { db with files := some t₃, schemaVersion := some none } := by
    rw [StoreDb.createSchemaVersion, h.unversioned rfl]
    rfl
  refine ⟨{ db with files := some t₃, schemaVersion := some (some ⟨2, now⟩) }, t₃, ?_,
    ⟨rfl, ?_, by simp, fun _ => ⟨now, rfl⟩⟩, hext, rfl, rfl⟩
  · have hversion : db.addFileColumn "version" (.integer 1) = _ := hadd₁
    have hdevice : StoreDb.addFileColumn { db with files := some t₁ } "device_id" .null = _ := hadd₂
    have hsync : StoreDb.addFileColumn { db with files := some t₂ } "sync_status"
      (.text "synced".toList) = _ := hadd₃
    simp only [migrateToV2, bind, Except.bind, hversion, hdevice, hsync, hreset, hcreate,
      StoreDb.setSchemaVersion]
  · rw [hcolumns₃, hcolumns₂, hcolumns₁, hcolumns]
    rfl

/-- A migration that adds one column, of a database at the version before. -/
theorem addAndRecord_ok {k : Nat} {db : StoreDb} {t : DataTable} {column : String} (now : PyFloat)
    (h : AtVersion k db t) (hk : 2 ≤ k) (hnew : column ∉ columnsAt k)
    (hnext : columnsAt (k + 1) = columnsAt k ++ [column]) :
    ∃ db' t', addAndRecord column (filled column) (k + 1 : Nat) now db = .ok db' ∧
      AtVersion (k + 1) db' t' ∧ ColumnTable.Extends filled t t' ∧ OnlyFiles db db' := by
  obtain ⟨t', hadd, hcolumns, hext⟩ := addFileColumn_ok h.files (h.columns ▸ hnew)
  obtain ⟨before, hrow⟩ := h.versioned hk
  refine ⟨{ db with files := some t', schemaVersion := some (some ⟨(k + 1 : Nat), now⟩) }, t', ?_,
    ⟨rfl, ?_, fun hone => ?_, fun _ => ⟨now, rfl⟩⟩, hext, rfl, rfl⟩
  · rw [addAndRecord, hadd]
    exact setSchemaVersion_ok _ now hrow
  · rw [hcolumns, h.columns, hnext]
  · omega

theorem migrateToV3_ok {db : StoreDb} {t : DataTable} (now : PyFloat) (h : AtVersion 2 db t) :
    ∃ db' t', migrateToV3 now db = .ok db' ∧ AtVersion 3 db' t' ∧
      ColumnTable.Extends filled t t' ∧ OnlyFiles db db' :=
  addAndRecord_ok now h (Nat.le_refl 2) (mt deleted_mem_columnsAt.mp (by omega)) rfl

theorem migrateToV4_ok {db : StoreDb} {t : DataTable} (now : PyFloat) (h : AtVersion 3 db t) :
    ∃ db' t', migrateToV4 now db = .ok db' ∧ AtVersion 4 db' t' ∧
      ColumnTable.Extends filled t t' ∧ OnlyFiles db db' :=
  addAndRecord_ok now h (by omega) (mt replicationStatus_mem_columnsAt.mp (by omega)) rfl

/-- Without the table `schema_version` the version cannot be recorded. -/
theorem addAndRecord_unversioned {db : StoreDb} (h : db.schemaVersion = none) (column : String)
    (default : SqlValue) (version : Int) (now : PyFloat) :
    ∃ e, addAndRecord column default version now db = .error e := by
  unfold addAndRecord
  unfold StoreDb.addFileColumn
  split
  · exact ⟨_, rfl⟩
  · split
    · exact ⟨_, rfl⟩
    · refine ⟨.noSuchTable, ?_⟩
      change StoreDb.setSchemaVersion _ version now = _
      rw [StoreDb.setSchemaVersion, h]

theorem addAndRecord_duplicate {db : StoreDb} {column : String} (h : column ∈ db.fileColumns)
    (default : SqlValue) (version : Int) (now : PyFloat) :
    addAndRecord column default version now db = .error .duplicateColumn := by
  rw [addAndRecord, addFileColumn_duplicate default h]
  rfl

theorem migrateToV2_duplicate {db : StoreDb} (h : "version" ∈ db.fileColumns) (now : PyFloat) :
    migrateToV2 now db = .error .duplicateColumn := by
  rw [migrateToV2, addFileColumn_duplicate _ h]
  rfl

/-! ### What the schema script does -/

namespace SchemaStatement

/-- What the statement makes is there. -/
def Present (db : StoreDb) : SchemaStatement → Prop
  | .table name _ _ => (db.table name).isSome = true
  | .index name _ => name ∈ db.indexes

variable {db db' : StoreDb} {s : SchemaStatement}

theorem exec_of_present (h : s.Present db) : s.exec db = .ok db := by
  cases s with
  | table name columns nodup => exact congrArg Except.ok (if_pos h)
  | index name tableName => exact if_pos h

/-- A statement makes what it names and takes nothing away. -/
structure Done (s : SchemaStatement) (db db' : StoreDb) : Prop where
  present : s.Present db'
  tables : ∀ name t, db.table name = some t → db'.table name = some t
  indexes : ∀ index ∈ db.indexes, index ∈ db'.indexes
  schemaVersion : db'.schemaVersion = db.schemaVersion

theorem done_of_present (h : s.Present db) : s.Done db db := ⟨h, fun _ _ h => h, fun _ h => h, rfl⟩

theorem done_of_exec (h : s.exec db = .ok db') : s.Done db db' := by
  by_cases hpresent : s.Present db
  · rw [exec_of_present hpresent, Except.ok.injEq] at h
    exact h ▸ done_of_present hpresent
  cases s with
  | table name columns nodup =>
      have hnone : db.table name = none := Option.not_isSome_iff_eq_none.mp hpresent
      have hcreate : db' = db.createTable name (.empty columns nodup) := (Except.ok.inj h).symm
      unfold StoreDb.createTable at hcreate
      rw [if_neg (Option.not_isSome_iff_eq_none.mpr hnone)] at hcreate
      subst hcreate
      cases name with
      | files =>
          refine ⟨rfl, fun name t ht => ?_, fun _ h => h, rfl⟩
          cases name with
          | files => cases hnone.symm.trans ht
          | directories => exact ht
      | directories =>
          refine ⟨rfl, fun name t ht => ?_, fun _ h => h, rfl⟩
          cases name with
          | files => exact ht
          | directories => cases hnone.symm.trans ht
  | index name tableName =>
      have hnew : name ∉ db.indexes := hpresent
      rw [exec, StoreDb.createIndex, if_neg hnew] at h
      split_ifs at h
      rw [Except.ok.injEq] at h
      subst h
      refine ⟨List.mem_append_right _ (List.mem_singleton_self name), fun name t ht => ?_,
        fun _ h => List.mem_append_left _ h, rfl⟩
      cases name <;> exact ht

theorem Done.present_of_present (h : s.Done db db') {s' : SchemaStatement} (hs' : s'.Present db) :
    s'.Present db' := by
  cases s' with
  | table name columns nodup =>
      obtain ⟨t, ht⟩ := Option.isSome_iff_exists.mp hs'
      exact Option.isSome_iff_exists.mpr ⟨t, h.tables name t ht⟩
  | index name tableName => exact h.indexes name hs'

end SchemaStatement

theorem AtVersion.done {k : Nat} {db db' : StoreDb} {t : DataTable} {s : SchemaStatement}
    (h : AtVersion k db t) (hdone : s.Done db db') : AtVersion k db' t :=
  ⟨hdone.tables .files t h.files, h.columns, fun hk => hdone.schemaVersion.trans (h.unversioned hk),
    fun hk => hdone.schemaVersion ▸ h.versioned hk⟩

/-- What the script has made is there after a migration. -/
theorem OnlyFiles.present {db db' : StoreDb} {t' : DataTable} (h : OnlyFiles db db')
    (hfiles : db'.files = some t') {s : SchemaStatement} (hs : s.Present db) : s.Present db' := by
  cases s with
  | table name columns nodup =>
      cases name with
      | files =>
          change db'.files.isSome = true
          rw [hfiles]
          rfl
      | directories =>
          change db'.directories.isSome = true
          rw [h.directories]
          exact hs
  | index name tableName =>
      change name ∈ db'.indexes
      rw [h.indexes]
      exact hs

/-! ### How a statement ends -/

namespace DbFiles

variable (f : DbFiles)

theorem transact_ok {tx : StoreDb → Except SqlError StoreDb} {db : StoreDb}
    (h : tx f.committed = .ok db) (next : Phase) :
    f.transact tx next = (next, { f with committed := db }) := by
  rw [transact, h]

theorem transact_error {tx : StoreDb → Except SqlError StoreDb} {e : SqlError}
    (h : tx f.committed = .error e) (next : Phase) : f.transact tx next = (.raised, f) := by
  rw [transact, h]

theorem transact_raised {tx : StoreDb → Except SqlError StoreDb} {next : Phase}
    (hnext : next ≠ .raised) (h : (f.transact tx next).1 = .raised) :
    (f.transact tx next).2 = f := by
  unfold transact at h ⊢
  split at h
  · exact absurd h hnext
  · rfl

/-- **A statement that raises has changed nothing.** -/
theorem advance_raised {answer : Answer} {phase : Phase} (h : (f.advance answer phase).1 = .raised) :
    (f.advance answer phase).2 = f := by
  cases answer with
  | fails =>
      cases phase with
      | backUp => cases h
      | _ => rfl
  | ok now =>
      cases phase with
      | create n =>
          simp only [advance, carryOut] at h ⊢
          split at h
          · exact transact_raised f (by simp) h
          · rfl
      | migrateV2 => exact transact_raised f (by simp) h
      | migrateV3 => exact transact_raised f (by simp) h
      | migrateV4 => exact transact_raised f (by simp) h
      | backUp => cases h
      | done => rfl
      | raised => rfl
      | readVersion =>
          simp only [advance, carryOut]
          split
          · rfl
          · split_ifs <;> rfl
      | _ =>
          simp only [advance, carryOut]
          split_ifs <;> rfl

end DbFiles

/-! ### What a statement can do -/

namespace Phase

/-- The statements of the script that are carried out. -/
def scripted : Phase → List SchemaStatement
  | .create n => schemaSql.take n
  | .raised => []
  | _ => schemaSql

/-- A query that tells whether the database is above the version: what follows where it is, and where
it is not. -/
def check : Phase → Option (Nat × Phase × Phase)
  | .readVersionColumn => some (1, .readDeleted, .backUp)
  | .readDeleted => some (2, .readReplicationStatus, .migrateV3)
  | .readReplicationStatus => some (3, .done, .migrateV4)
  | _ => none

/-- A transaction that migrates a database of the version, and what follows. -/
def migration : Phase → Option (Nat × Phase)
  | .migrateV2 => some (1, .readDeleted)
  | .migrateV3 => some (2, .readReplicationStatus)
  | .migrateV4 => some (3, .done)
  | _ => none

variable {phase next absent : Phase} {m : Nat}

theorem check_cases (h : phase.check = some (m, next, absent)) :
    (phase = .readVersionColumn ∧ m = 1 ∧ next = .readDeleted ∧ absent = .backUp) ∨
    (phase = .readDeleted ∧ m = 2 ∧ next = .readReplicationStatus ∧ absent = .migrateV3) ∨
    (phase = .readReplicationStatus ∧ m = 3 ∧ next = .done ∧ absent = .migrateV4) := by
  cases phase with
  | readVersionColumn => simp_all [check]
  | readDeleted => simp_all [check]
  | readReplicationStatus => simp_all [check]
  | _ => cases h

theorem migration_cases (h : phase.migration = some (m, next)) :
    (phase = .migrateV2 ∧ m = 1 ∧ next = .readDeleted) ∨
    (phase = .migrateV3 ∧ m = 2 ∧ next = .readReplicationStatus) ∨
    (phase = .migrateV4 ∧ m = 3 ∧ next = .done) := by
  cases phase with
  | migrateV2 => simp_all [migration]
  | migrateV3 => simp_all [migration]
  | migrateV4 => simp_all [migration]
  | _ => cases h

end Phase

/-- The script makes each table before its indexes. -/
theorem exec_next {db : StoreDb} {t : DataTable} (hfiles : db.files = some t) {n : Nat}
    (hpresent : ∀ s ∈ Phase.scripted (.create n), s.Present db) {s : SchemaStatement}
    (hs : schemaSql[n]? = some s) : ∃ db', s.exec db = .ok db' := by
  cases s with
  | table name columns nodup => exact ⟨_, rfl⟩
  | index name tableName =>
      have htable : (db.table tableName).isSome = true := by
        cases tableName with
        | files => exact Option.isSome_iff_exists.mpr ⟨t, hfiles⟩
        | directories =>
            have hn : n = 4 := by
              rcases n with - | - | - | - | - | n <;> simp [schemaSql] at hs ⊢
            subst hn
            exact hpresent (.table .directories directoriesColumns (by decide))
              (by simp [Phase.scripted, schemaSql])
      rw [SchemaStatement.exec, StoreDb.createIndex]
      split_ifs
      · exact ⟨_, rfl⟩
      · exact ⟨_, rfl⟩

/-- What the statement of a phase can do to the files of a database at the version, and the phase that
follows. -/
inductive SchemaMove (f : DbFiles) (k : Nat) (t : DataTable) : Phase → DbFiles → Phase → Prop where
  | statement {n : Nat} {s : SchemaStatement} {db : StoreDb} (hs : schemaSql[n]? = some s)
      (hexec : s.exec f.committed = .ok db) :
      SchemaMove f k t (.create n) { f with committed := db } (.create (n + 1))
  | refused {n : Nat} {s : SchemaStatement} {e : SqlError} (hs : schemaSql[n]? = some s)
      (hexec : s.exec f.committed = .error e) : SchemaMove f k t (.create n) f .raised
  | scripted {n : Nat} (hs : schemaSql[n]? = none) : SchemaMove f k t (.create n) f .readVersionTable
  | unversioned (hk : k = 1) : SchemaMove f k t .readVersionTable f .readVersionColumn
  | versioned (hk : 2 ≤ k) : SchemaMove f k t .readVersionTable f .readVersion
  | rowMissing (hk : k = 1) : SchemaMove f k t .readVersion f .raised
  | row (hk : 2 ≤ k) : SchemaMove f k t .readVersion f .readDeleted
  | found {phase next absent : Phase} {m : Nat} (hcheck : phase.check = some (m, next, absent))
      (hk : m < k) : SchemaMove f k t phase f next
  | missing {phase next absent : Phase} {m : Nat} (hcheck : phase.check = some (m, next, absent))
      (hk : k ≤ m) : SchemaMove f k t phase f absent
  | copied : SchemaMove f k t .backUp { f with backup := some f.main } .migrateV2
  | migrated {phase next : Phase} {db : StoreDb} {t' : DataTable}
      (htx : phase.migration = some (k, next)) (hversion : AtVersion (k + 1) db t')
      (hext : ColumnTable.Extends filled t t') (honly : OnlyFiles f.committed db) :
      SchemaMove f k t phase { f with committed := db } next
  | failed {phase next : Phase} {m : Nat} (htx : phase.migration = some (m, next)) (hk : k ≠ m) :
      SchemaMove f k t phase f .raised

theorem schemaMove_transact {f : DbFiles} {k m : Nat} {t : DataTable} {phase next : Phase}
    {tx : StoreDb → Except SqlError StoreDb} (htx : phase.migration = some (m, next))
    (hok : k = m → ∃ db t', tx f.committed = .ok db ∧ AtVersion (k + 1) db t' ∧
      ColumnTable.Extends filled t t' ∧ OnlyFiles f.committed db)
    (herror : k ≠ m → ∃ e, tx f.committed = .error e) :
    SchemaMove f k t phase (f.transact tx next).2 (f.transact tx next).1 := by
  by_cases hk : k = m
  · obtain ⟨db, t', htx', hversion, hext, honly⟩ := hok hk
    rw [f.transact_ok htx']
    exact .migrated (hk ▸ htx) hversion hext honly
  · obtain ⟨e, htx'⟩ := herror hk
    rw [f.transact_error htx']
    exact .failed htx hk

theorem schemaMove_check {f : DbFiles} {k m : Nat} {t : DataTable} {phase next absent : Phase}
    {column : String} (hcheck : phase.check = some (m, next, absent))
    (hcolumn : column ∈ f.committed.fileColumns ↔ m < k) :
    SchemaMove f k t phase (if column ∈ f.committed.fileColumns then (next, f) else (absent, f)).2
      (if column ∈ f.committed.fileColumns then (next, f) else (absent, f)).1 := by
  split_ifs with h
  · exact .found hcheck (hcolumn.mp h)
  · exact .missing hcheck (Nat.le_of_not_lt (mt hcolumn.mpr h))

/-- **Every statement makes one of the moves.** -/
theorem schemaMove_carryOut {f : DbFiles} {k : Nat} {t : DataTable} {phase : Phase}
    (h : AtVersion k f.committed t) (h1 : 1 ≤ k) (hlast : phase = .migrateV4 → 3 ≤ k)
    (hended : phase.ended = false) (now : PyFloat) :
    SchemaMove f k t phase (f.carryOut now phase).2 (f.carryOut now phase).1 := by
  have hcolumns := h.fileColumns
  cases phase with
  | create n =>
      simp only [DbFiles.carryOut]
      cases hs : schemaSql[n]? with
      | none => exact .scripted hs
      | some s =>
          simp only
          cases hexec : s.exec f.committed with
          | ok db =>
              rw [f.transact_ok hexec]
              exact .statement hs hexec
          | error e =>
              rw [f.transact_error hexec]
              exact .refused hs hexec
  | readVersionTable =>
      simp only [DbFiles.carryOut]
      split_ifs with hsome
      · exact .versioned ((h.schemaVersion_isSome h1).mp hsome)
      · have hnot := mt (h.schemaVersion_isSome h1).mpr hsome
        exact .unversioned (by omega)
  | readVersion =>
      simp only [DbFiles.carryOut]
      by_cases hk : k = 1
      · rw [h.unversioned hk]
        exact .rowMissing hk
      · obtain ⟨before, hrow⟩ := h.versioned (by omega)
        have hle : (2 : Int) ≤ k := by omega
        simp only [hrow, Option.any_some, hle, decide_true, if_true]
        exact .row (by omega)
  | readVersionColumn =>
      exact schemaMove_check rfl (by rw [hcolumns, version_mem_columnsAt]; omega)
  | backUp => exact .copied
  | migrateV2 =>
      refine schemaMove_transact rfl (fun hk => ?_) fun hk => ⟨.duplicateColumn, ?_⟩
      · subst hk
        exact migrateToV2_ok now h
      · exact migrateToV2_duplicate (by rw [hcolumns, version_mem_columnsAt]; omega) now
  | readDeleted =>
      exact schemaMove_check rfl (by rw [hcolumns, deleted_mem_columnsAt]; omega)
  | migrateV3 =>
      refine schemaMove_transact rfl (fun hk => ?_) fun hk => ?_
      · subst hk
        exact migrateToV3_ok now h
      · by_cases hone : k = 1
        · exact addAndRecord_unversioned (h.unversioned hone) _ _ _ now
        · have hmem : "deleted" ∈ f.committed.fileColumns := by
            rw [hcolumns, deleted_mem_columnsAt]
            omega
          exact ⟨.duplicateColumn, addAndRecord_duplicate hmem _ _ now⟩
  | readReplicationStatus =>
      exact schemaMove_check rfl (by rw [hcolumns, replicationStatus_mem_columnsAt]; omega)
  | migrateV4 =>
      have h3 := hlast rfl
      refine schemaMove_transact rfl (fun hk => ?_) fun hk => ⟨.duplicateColumn, ?_⟩
      · subst hk
        exact migrateToV4_ok now h
      · refine addAndRecord_duplicate ?_ _ _ now
        rw [hcolumns, replicationStatus_mem_columnsAt]
        omega
  | done => cases hended
  | raised => cases hended

/-- What the script has made is there after a statement, also of another process. -/
theorem SchemaMove.present {f f' : DbFiles} {k : Nat} {t : DataTable} {phase phase' : Phase}
    (hmove : SchemaMove f k t phase f' phase') {s : SchemaStatement} (hs : s.Present f.committed) :
    s.Present f'.committed := by
  cases hmove with
  | statement hs' hexec => exact (SchemaStatement.done_of_exec hexec).present_of_present hs
  | migrated htx hversion hext honly => exact honly.present hversion.files hs
  | _ => exact hs

theorem SchemaMove.directories {f f' : DbFiles} {k : Nat} {t : DataTable} {phase phase' : Phase}
    (hmove : SchemaMove f k t phase f' phase') {d : DataTable}
    (h : f.committed.directories = some d) : f'.committed.directories = some d := by
  cases hmove with
  | statement hs hexec => exact (SchemaStatement.done_of_exec hexec).tables .directories d h
  | migrated htx hversion hext honly => exact honly.directories.trans h
  | _ => exact h

/-- The process that has carried out the script knows what it made. -/
theorem SchemaMove.scripted_present {f f' : DbFiles} {k : Nat} {t : DataTable}
    {phase phase' : Phase} (hmove : SchemaMove f k t phase f' phase')
    (h : ∀ s ∈ phase.scripted, s.Present f.committed) :
    ∀ s ∈ phase'.scripted, s.Present f'.committed := by
  intro s hs
  have hkept := hmove.present (s := s)
  cases hmove with
  | statement hn hexec =>
      rw [Phase.scripted, List.take_add_one, hn, List.mem_append] at hs
      rcases hs with hbefore | hself
      · exact hkept (h s hbefore)
      · rw [Option.toList_some, List.mem_singleton] at hself
        exact hself ▸ (SchemaStatement.done_of_exec hexec).present
  | scripted hn =>
      have htake := List.take_of_length_le (List.getElem?_eq_none_iff.mp hn)
      exact h s (by rw [Phase.scripted, htake]; exact hs)
  | found hcheck hlt =>
      rcases Phase.check_cases hcheck with ⟨rfl, -, rfl, -⟩ | ⟨rfl, -, rfl, -⟩ | ⟨rfl, -, rfl, -⟩ <;>
        exact h s hs
  | missing hcheck hle =>
      rcases Phase.check_cases hcheck with ⟨rfl, -, -, rfl⟩ | ⟨rfl, -, -, rfl⟩ | ⟨rfl, -, -, rfl⟩ <;>
        exact h s hs
  | migrated htx hversion hext honly =>
      rcases Phase.migration_cases htx with ⟨rfl, -, rfl⟩ | ⟨rfl, -, rfl⟩ | ⟨rfl, -, rfl⟩ <;>
        exact hkept (h s hs)
  | refused hn hexec => cases hs
  | rowMissing hk => cases hs
  | failed htx hk => cases hs
  | _ => exact h s hs

/-- The table of a database of the first version with one file. -/
def oneFile : DataTable where
  columns := filesColumns
  rows := [[.integer 1, .text "/a".toList, .text "s".toList, .text "x_a".toList, .integer 7,
    .integer 0, .integer 0]]
  nodup := by decide
  width := by decide

def firstVersion : StoreDb where
  files := some oneFile
  directories := none
  schemaVersion := none
  indexes := []

theorem atVersion_firstVersion : AtVersion 1 firstVersion oneFile :=
  ⟨rfl, rfl, fun _ => rfl, by omega⟩

end StardustFS
