import Mathlib.Data.Fintype.Basic
import Mathlib.Logic.Function.Basic
import StardustFS.SchemaMigration
import StardustFS.Transitions

/-! `MetadataStore.initialize` of several processes on one database. The transactions are serialised,
but each process asks for the version before its transaction begins, and the database file is copied
in between: between the query that finds a version missing and the commit a process stands in a window
in which no other may be. -/

namespace StardustFS

namespace StoreDb

/-- The schema version the columns of `files` show. -/
def level (db : StoreDb) : Nat :=
  if "replication_status" ∈ db.fileColumns then 4
  else if "deleted" ∈ db.fileColumns then 3
  else if "version" ∈ db.fileColumns then 2
  else 1

theorem one_le_level (db : StoreDb) : 1 ≤ db.level := by
  unfold level
  split_ifs <;> omega

end StoreDb

theorem AtVersion.level {k : Nat} {db : StoreDb} {t : DataTable} (h : AtVersion k db t)
    (hk : 1 ≤ k ∧ k ≤ 4) : db.level = k := by
  simp only [StoreDb.level, h.fileColumns, version_mem_columnsAt, deleted_mem_columnsAt,
    replicationStatus_mem_columnsAt]
  split_ifs <;> omega

/-- The copy holds the database as it was before a migration, with what the script adds. -/
structure HoldsOriginal (db copy : StoreDb) : Prop where
  files : copy.files = db.files
  schemaVersion : copy.schemaVersion = db.schemaVersion
  directories : ∀ t, db.directories = some t → copy.directories = some t

instance (db copy : StoreDb) : Decidable (HoldsOriginal db copy) :=
  decidable_of_iff (copy.files = db.files ∧ copy.schemaVersion = db.schemaVersion ∧
      (db.directories = none ∨ copy.directories = db.directories))
    ⟨fun ⟨hfiles, hversion, hdirs⟩ => ⟨hfiles, hversion, fun d hd => hdirs.elim
        (fun hnone => nomatch hnone.symm.trans hd) fun hsame => hsame.trans hd⟩,
      fun h => ⟨h.files, h.schemaVersion, by
        cases hd : db.directories with
        | none => exact Or.inl rfl
        | some d => exact Or.inr (h.directories d hd)⟩⟩

/-- Processes that call `initialize` on one database. -/
structure Processes (ι : Type) where
  files : DbFiles
  phase : ι → Phase

inductive ProcessEvent (ι : Type) where
  /-- The next statement of a process. A transaction waits for the other processes'. -/
  | statement (i : ι) (now : PyFloat)
  /-- The log is written into the main file. -/
  | checkpoint

namespace Phase

/-- The version a process has found missing when it stands before the copy or the transaction. -/
def window : Phase → Option Nat
  | .backUp => some 1
  | .migrateV2 => some 1
  | .migrateV3 => some 2
  | .migrateV4 => some 3
  | _ => none

/-- The least version of a database a call can be at this statement with. -/
def atLeast : Phase → Nat
  | .readVersion => 2
  | .readDeleted => 2
  | .migrateV3 => 2
  | .readReplicationStatus => 3
  | .migrateV4 => 3
  | .done => 4
  | _ => 1

variable {phase next absent : Phase} {m : Nat}

theorem window_cases (h : phase.window = some m) :
    (phase = .backUp ∧ m = 1) ∨ ∃ next, phase.migration = some (m, next) := by
  cases phase with
  | backUp => exact Or.inl ⟨rfl, (Option.some_inj.mp h).symm⟩
  | migrateV2 => exact Or.inr ⟨.readDeleted, Option.some_inj.mp h ▸ rfl⟩
  | migrateV3 => exact Or.inr ⟨.readReplicationStatus, Option.some_inj.mp h ▸ rfl⟩
  | migrateV4 => exact Or.inr ⟨.done, Option.some_inj.mp h ▸ rfl⟩
  | _ => cases h

theorem window_le_atLeast (h : phase.window = some m) : m ≤ phase.atLeast := by
  rcases window_cases h with ⟨rfl, rfl⟩ | ⟨next, hmigration⟩
  · exact Nat.le_refl 1
  · rcases migration_cases hmigration with ⟨rfl, rfl, -⟩ | ⟨rfl, rfl, -⟩ | ⟨rfl, rfl, -⟩ <;>
      exact Nat.le_refl _

theorem window_of_migration (h : phase.migration = some (m, next)) : phase.window = some m := by
  rcases migration_cases h with ⟨rfl, rfl, -⟩ | ⟨rfl, rfl, -⟩ | ⟨rfl, rfl, -⟩ <;> rfl

theorem window_of_check (h : phase.check = some (m, next, absent)) :
    phase.window = none ∧ next.window = none ∧ absent.window = some m ∧ absent ≠ .migrateV2 := by
  rcases check_cases h with ⟨rfl, rfl, rfl, rfl⟩ | ⟨rfl, rfl, rfl, rfl⟩ | ⟨rfl, rfl, rfl, rfl⟩ <;>
    exact ⟨rfl, rfl, rfl, by simp⟩

end Phase

/-! ### What a statement means for the windows -/

/-- A statement is outside the windows, enters one, copies the file, commits, or comes too late. -/
inductive WindowMove (f : DbFiles) (k : Nat) (phase : Phase) : DbFiles → Phase → Prop where
  | outside {f' : DbFiles} {phase' : Phase} (hout : phase.window = none)
      (hcheck : ∀ m next absent, phase.check = some (m, next, absent) → m < k)
      (hlevel : f'.committed.level = k) (hbackup : f'.backup = f.backup)
      (hout' : phase'.window = none) (hgoing : phase' ≠ .raised) : WindowMove f k phase f' phase'
  | enters {next phase' : Phase} (hcheck : phase.check = some (k, next, phase'))
      (hgoing : phase' ≠ .raised) : WindowMove f k phase f phase'
  | copies (hphase : phase = .backUp) :
      WindowMove f k phase { f with backup := some f.main } .migrateV2
  | commits {f' : DbFiles} {phase' : Phase} (hin : phase.window = some k) (hcopied : phase ≠ .backUp)
      (hlevel : f'.committed.level = k + 1) (hbackup : f'.backup = f.backup)
      (hout' : phase'.window = none) (hgoing : phase' ≠ .raised) : WindowMove f k phase f' phase'
  | late {m : Nat} (hin : phase.window = some m) (hlate : m < k) : WindowMove f k phase f .raised

theorem windowMove_of_move {f f' : DbFiles} {k : Nat} {t : DataTable} {phase phase' : Phase}
    (h : AtVersion k f.committed t) (hk : 1 ≤ k ∧ k ≤ 4) (hleast : phase.atLeast ≤ k)
    (hpresent : ∀ s ∈ phase.scripted, s.Present f.committed) (hmove : SchemaMove f k t phase f' phase') :
    WindowMove f k phase f' phase' := by
  have hlevel := h.level hk
  cases hmove with
  | statement hs hexec =>
      have hdone := h.done (SchemaStatement.done_of_exec hexec)
      exact .outside rfl (by simp [Phase.check]) (hdone.level hk) rfl rfl (by simp)
  | refused hs hexec =>
      obtain ⟨db, hok⟩ := exec_next h.files hpresent hs
      cases hok.symm.trans hexec
  | scripted hs => exact .outside rfl (by simp [Phase.check]) hlevel rfl rfl (by simp)
  | unversioned hk => exact .outside rfl (by simp [Phase.check]) hlevel rfl rfl (by simp)
  | versioned hk => exact .outside rfl (by simp [Phase.check]) hlevel rfl rfl (by simp)
  | rowMissing hk => exact absurd hleast (by simp [Phase.atLeast, hk])
  | row hk => exact .outside rfl (by simp [Phase.check]) hlevel rfl rfl (by simp)
  | copied => exact .copies rfl
  | found hcheck hlt =>
      obtain ⟨hout, hnext, -, -⟩ := Phase.window_of_check hcheck
      refine .outside hout (fun m next absent hcheck' => ?_) hlevel rfl hnext ?_
      · obtain ⟨rfl, -⟩ := Prod.mk.inj (Option.some_inj.mp (hcheck.symm.trans hcheck'))
        exact hlt
      · rcases Phase.check_cases hcheck with ⟨-, -, rfl, -⟩ | ⟨-, -, rfl, -⟩ | ⟨-, -, rfl, -⟩ <;> simp
  | missing hcheck hle =>
      rcases Phase.check_cases hcheck with ⟨rfl, rfl, -, rfl⟩ | ⟨rfl, rfl, -, rfl⟩ |
        ⟨rfl, rfl, -, rfl⟩
      · obtain rfl := Nat.le_antisymm hle hleast
        exact .enters hcheck (by simp)
      · obtain rfl := Nat.le_antisymm hle hleast
        exact .enters hcheck (by simp)
      · obtain rfl := Nat.le_antisymm hle hleast
        exact .enters hcheck (by simp)
  | migrated htx hversion hext honly =>
      rcases Phase.migration_cases htx with ⟨rfl, rfl, rfl⟩ | ⟨rfl, rfl, rfl⟩ | ⟨rfl, rfl, rfl⟩
      · exact .commits rfl (by simp) (hversion.level (by omega)) rfl rfl (by simp)
      · exact .commits rfl (by simp) (hversion.level (by omega)) rfl rfl (by simp)
      · exact .commits rfl (by simp) (hversion.level (by omega)) rfl rfl (by simp)
  | failed htx hne =>
      have hin := Phase.window_of_migration htx
      have hle := (Phase.window_le_atLeast hin).trans hleast
      exact .late hin (by omega)

/-! ### What a statement keeps -/

/-- The version a statement leads to, what it leaves of the data, and what its process knows then. -/
theorem SchemaMove.version {f f' : DbFiles} {k : Nat} {t : DataTable} {phase phase' : Phase}
    (hmove : SchemaMove f k t phase f' phase') (h : AtVersion k f.committed t) (hk : 1 ≤ k ∧ k ≤ 4)
    (hleast : phase.atLeast ≤ k) :
    ∃ k' t', AtVersion k' f'.committed t' ∧ k ≤ k' ∧ k' ≤ 4 ∧ ColumnTable.Extends filled t t' ∧
      phase'.atLeast ≤ k' := by
  have hrefl := ColumnTable.Extends.refl filled t
  cases hmove with
  | statement hs hexec =>
      exact ⟨k, t, h.done (SchemaStatement.done_of_exec hexec), le_refl k, hk.2, hrefl, hk.1⟩
  | refused hs hexec => exact ⟨k, t, h, le_refl k, hk.2, hrefl, hk.1⟩
  | scripted hs => exact ⟨k, t, h, le_refl k, hk.2, hrefl, hk.1⟩
  | unversioned hone => exact ⟨k, t, h, le_refl k, hk.2, hrefl, hk.1⟩
  | versioned htwo => exact ⟨k, t, h, le_refl k, hk.2, hrefl, htwo⟩
  | rowMissing hone => exact ⟨k, t, h, le_refl k, hk.2, hrefl, hk.1⟩
  | row htwo => exact ⟨k, t, h, le_refl k, hk.2, hrefl, htwo⟩
  | copied => exact ⟨k, t, h, le_refl k, hk.2, hrefl, hk.1⟩
  | failed htx hne => exact ⟨k, t, h, le_refl k, hk.2, hrefl, hk.1⟩
  | found hcheck hlt =>
      refine ⟨k, t, h, le_refl k, hk.2, hrefl, ?_⟩
      rcases Phase.check_cases hcheck with ⟨-, rfl, rfl, -⟩ | ⟨-, rfl, rfl, -⟩ | ⟨-, rfl, rfl, -⟩ <;>
        exact hlt
  | missing hcheck hle =>
      refine ⟨k, t, h, le_refl k, hk.2, hrefl, ?_⟩
      rcases Phase.check_cases hcheck with ⟨rfl, -, -, rfl⟩ | ⟨rfl, -, -, rfl⟩ | ⟨rfl, -, -, rfl⟩ <;>
        exact hleast
  | migrated htx hversion hext honly =>
      refine ⟨k + 1, _, hversion, Nat.le_succ k, ?_, hext, ?_⟩
      · rcases Phase.migration_cases htx with ⟨-, rfl, -⟩ | ⟨-, rfl, -⟩ | ⟨-, rfl, -⟩ <;> omega
      · rcases Phase.migration_cases htx with ⟨-, rfl, rfl⟩ | ⟨-, rfl, rfl⟩ | ⟨-, rfl, rfl⟩ <;>
          exact Nat.le_refl _

/-! ### Runs -/

namespace Processes

variable {ι : Type} [DecidableEq ι]

def start (files : DbFiles) : Processes ι := ⟨files, fun _ => .create 0⟩

def step (s : Processes ι) : ProcessEvent ι → Option (Processes ι)
  | .statement i now =>
      if (s.phase i).ended then none
      else some {
        files := (s.files.carryOut now (s.phase i)).2
        phase := Function.update s.phase i (s.files.carryOut now (s.phase i)).1 }
  | .checkpoint => some { s with files := { s.files with main := s.files.committed } }

/-- No process finds a version missing while another one stands in the window of this version, and
where the database file is copied, it holds the original database. -/
def OneAtATime (original : StoreDb) (s : Processes ι) : ProcessEvent ι → Prop
  | .statement i _ =>
      (∀ m next absent, (s.phase i).check = some (m, next, absent) → s.files.committed.level ≤ m →
        ∀ j, (s.phase j).window ≠ some m) ∧
      (s.phase i = .backUp → HoldsOriginal original s.files.main)
  | .checkpoint => True

instance [Fintype ι] (original : StoreDb) (s : Processes ι) (e : ProcessEvent ι) :
    Decidable (OneAtATime original s e) :=
  match e with
  | .checkpoint => isTrue trivial
  | .statement i _ =>
      decidable_of_iff
        ((∀ x ∈ (s.phase i).check, s.files.committed.level ≤ x.1 →
            ∀ j, (s.phase j).window ≠ some x.1) ∧
          (s.phase i = .backUp → HoldsOriginal original s.files.main))
        (and_congr_left fun _ => ⟨fun h m next absent hcheck => h (m, next, absent) hcheck,
          fun h ⟨m, next, absent⟩ hcheck => h m next absent hcheck⟩)

/-- Every call has returned, the database is at the fourth version with all rows, and the copy of a
database of the first version holds the original. -/
structure Succeeded (original : StoreDb) (t : DataTable) (s : Processes ι) : Prop where
  returned : ∀ i, s.phase i = .done
  version : ∃ t', AtVersion 4 s.files.committed t' ∧ ColumnTable.Extends filled t t'
  directories : ∀ d, original.directories = some d → s.files.committed.directories = some d
  copy : original.level = 1 → ∃ db, s.files.backup = some db ∧ HoldsOriginal original db

/-- What holds in every run: the database is at a version, with the data of the start. -/
structure Sound (original : StoreDb) (t₀ : DataTable) (s : Processes ι) (k : Nat) (t : DataTable) :
    Prop where
  version : AtVersion k s.files.committed t
  range : 1 ≤ k ∧ k ≤ 4
  started : original.level ≤ k
  extended : ColumnTable.Extends filled t₀ t
  least : ∀ i, (s.phase i).atLeast ≤ k
  present : ∀ i, ∀ st ∈ (s.phase i).scripted, st.Present s.files.committed
  directories : ∀ d, original.directories = some d → s.files.committed.directories = some d

/-- Nobody has raised, at most one process is in a window, with the version that is missing still, and
the copy it has made holds the original. -/
structure Alright (original : StoreDb) (s : Processes ι) : Prop where
  going : ∀ i, s.phase i ≠ .raised
  current : ∀ i m, (s.phase i).window = some m → s.files.committed.level = m
  alone : ∀ i j, (s.phase i).window ≠ none → (s.phase j).window ≠ none → i = j
  copy : original.level = 1 → (∃ i, s.phase i = .migrateV2) ∨ 2 ≤ s.files.committed.level →
    ∃ db, s.files.backup = some db ∧ HoldsOriginal original db

variable {original : StoreDb} {t₀ t : DataTable} {s s' : Processes ι} {k : Nat}

omit [DecidableEq ι] in
theorem Sound.level (h : Sound original t₀ s k t) : s.files.committed.level = k :=
  h.version.level h.range

/-- A statement of one process makes one of the moves, and the others stay where they are. -/
theorem step_statement {i : ι} {now : PyFloat} (h : Sound original t₀ s k t)
    (he : s.step (.statement i now) = some s') :
    SchemaMove s.files k t (s.phase i) s'.files (s'.phase i) ∧
      ∀ j, j ≠ i → s'.phase j = s.phase j := by
  rw [step] at he
  split_ifs at he with hended
  obtain rfl := Option.some_inj.mp he
  have hlast : s.phase i = .migrateV4 → 3 ≤ k := by
    intro hphase
    have hleast := h.least i
    rwa [hphase] at hleast
  refine ⟨?_, fun j hj => Function.update_of_ne hj _ _⟩
  dsimp only
  rw [Function.update_self]
  exact schemaMove_carryOut h.version h.range.1 hlast (Bool.not_eq_true _ ▸ hended) now

omit [DecidableEq ι] in
theorem sound_start {files : DbFiles} {k : Nat} {t : DataTable} (h : AtVersion k files.committed t)
    (hk : 1 ≤ k ∧ k ≤ 4) : Sound files.committed t (start (ι := ι) files) k t where
  version := h
  range := hk
  started := (h.level hk).le
  extended := ColumnTable.Extends.refl filled t
  least _ := hk.1
  present _ _ hst := by cases hst
  directories _ hd := hd

theorem sound_step {e : ProcessEvent ι} (h : Sound original t₀ s k t) (he : s.step e = some s') :
    ∃ k' t', Sound original t₀ s' k' t' := by
  cases e with
  | checkpoint =>
      obtain rfl := Option.some_inj.mp he
      exact ⟨k, t, h.version, h.range, h.started, h.extended, h.least, h.present, h.directories⟩
  | statement i now =>
      obtain ⟨hmove, hothers⟩ := step_statement h he
      obtain ⟨k', t', hversion, hle, hle', hext, hleast⟩ :=
        hmove.version h.version h.range (h.least i)
      refine ⟨k', t', hversion, ⟨h.range.1.trans hle, hle'⟩, h.started.trans hle,
        h.extended.trans hext, fun j => ?_, fun j => ?_,
        fun d hd => hmove.directories (h.directories d hd)⟩
      · by_cases hj : j = i
        · exact hj ▸ hleast
        · exact hothers j hj ▸ (h.least j).trans hle
      · by_cases hj : j = i
        · exact hj ▸ hmove.scripted_present (h.present i)
        · exact hothers j hj ▸ fun st hst => hmove.present (h.present j st hst)

theorem windowMove_of_step {i : ι} {now : PyFloat} (h : Sound original t₀ s k t)
    (he : s.step (.statement i now) = some s') :
    WindowMove s.files k (s.phase i) s'.files (s'.phase i) :=
  windowMove_of_move h.version h.range (h.least i) (h.present i) (step_statement h he).1

/-! ### Overlapping windows -/

omit [DecidableEq ι] in
/-- A statement that leads out of the windows leaves them to the others. -/
theorem others_of_outside {i : ι} (hothers : ∀ j, j ≠ i → s'.phase j = s.phase j)
    (hout : (s'.phase i).window = none) {j : ι} (hj : (s'.phase j).window ≠ none) :
    s'.phase j = s.phase j :=
  hothers j fun hji => hj (hji ▸ hout)

theorem going_of_others {i : ι} (hs : Alright original s)
    (hothers : ∀ j, j ≠ i → s'.phase j = s.phase j) (hgoing : s'.phase i ≠ .raised) (j : ι) :
    s'.phase j ≠ .raised := by
  by_cases hj : j = i
  · exact hj ▸ hgoing
  · exact hothers j hj ▸ hs.going j

/-- A statement that meets the condition keeps the windows apart. -/
theorem alright_statement {i : ι} {now : PyFloat} (h : Sound original t₀ s k t)
    (hs : Alright original s) (hok : OneAtATime original s (.statement i now))
    (he : s.step (.statement i now) = some s') : Alright original s' := by
  have hlevel := h.level
  have hothers := (step_statement h he).2
  have hmove := windowMove_of_step h he
  generalize hf : s'.files = f' at hmove
  generalize hp : s'.phase i = phase' at hmove
  cases hmove with
  | outside hout hcheck hlevel' hbackup hout' hgoing =>
      have hsame := fun j => others_of_outside (j := j) hothers (hp ▸ hout')
      refine ⟨going_of_others hs hothers (hp ▸ hgoing), fun j m hw => ?_, fun j j' hj hj' => ?_,
        fun hone hcopy => ?_⟩
      · have hj := hsame j (by simp [hw])
        rw [hf, hlevel', ← hlevel]
        exact hs.current j m (hj ▸ hw)
      · exact hs.alone j j' (hsame j hj ▸ hj) (hsame j' hj' ▸ hj')
      · rw [hf, hbackup]
        rw [hf, hlevel'] at hcopy
        refine hs.copy hone (hcopy.imp (fun ⟨j, hj⟩ => ⟨j, ?_⟩) fun hle => hlevel.symm ▸ hle)
        rw [← hsame j (by simp [hj, Phase.window])]
        exact hj
  | enters hcheck hgoing =>
      obtain ⟨-, -, hin, hcopied⟩ := Phase.window_of_check hcheck
      have hfree : ∀ j, (s.phase j).window = none := by
        intro j
        by_contra hj
        obtain ⟨m, hm⟩ := Option.ne_none_iff_exists'.mp hj
        obtain rfl : k = m := hlevel.symm.trans (hs.current j m hm)
        exact hok.1 k _ _ hcheck hlevel.le j hm
      have honly : ∀ j, (s'.phase j).window ≠ none → j = i := fun j hj => by
        by_contra hne
        exact hj (hothers j hne ▸ hfree j)
      refine ⟨going_of_others hs hothers (hp ▸ hgoing), fun j m hw => ?_, fun j j' hj hj' => ?_,
        fun hone hcopy => ?_⟩
      · obtain rfl := honly j (by simp [hw])
        rw [hp, hin] at hw
        rw [hf, hlevel]
        exact Option.some_inj.mp hw
      · exact (honly j hj).trans (honly j' hj').symm
      · rw [hf]
        refine hs.copy hone (Or.inr (hcopy.elim (fun ⟨j, hj⟩ => ?_) fun hle => hf ▸ hle))
        obtain rfl := honly j (by simp [hj, Phase.window])
        exact absurd (hp.symm.trans hj) hcopied
  | copies hphase =>
      have hwindow : ∀ j, (s'.phase j).window = (s.phase j).window := by
        intro j
        by_cases hj : j = i
        · rw [hj, hp, hphase]
          rfl
        · rw [hothers j hj]
      refine ⟨going_of_others hs hothers (by simp [hp]), fun j m hw => ?_, fun j j' hj hj' => ?_,
        fun hone hcopy => ?_⟩
      · rw [hf]
        exact hs.current j m (hwindow j ▸ hw)
      · exact hs.alone j j' (hwindow j ▸ hj) (hwindow j' ▸ hj')
      · rw [hf]
        exact ⟨s.files.main, rfl, hok.2 hphase⟩
  | commits hin hcopied hlevel' hbackup hout' hgoing =>
      have hfree : ∀ j, (s'.phase j).window = none := by
        intro j
        by_contra hj
        have hsame := others_of_outside hothers (hp ▸ hout') hj
        have hji : j = i := hs.alone j i (hsame ▸ hj) (by simp [hin])
        rw [hji, hp] at hj
        exact hj hout'
      refine ⟨going_of_others hs hothers (hp ▸ hgoing), fun j m hw => ?_, fun j j' hj => ?_,
        fun hone _ => ?_⟩
      · cases (hfree j).symm.trans hw
      · exact absurd (hfree j) hj
      · rw [hf, hbackup]
        refine hs.copy hone ?_
        by_cases hk : 2 ≤ k
        · exact Or.inr (hlevel.symm ▸ hk)
        · have hk1 := h.range.1
          obtain rfl : k = 1 := by omega
          obtain ⟨next, hmigration⟩ :=
            (Phase.window_cases hin).resolve_left fun hback => hcopied hback.1
          rcases Phase.migration_cases hmigration with ⟨hphase, -⟩ | ⟨-, hm, -⟩ | ⟨-, hm, -⟩
          · exact Or.inl ⟨i, hphase⟩
          · cases hm
          · cases hm
  | late hin hlate =>
      have := hs.current i _ hin
      omega

/-- A second process in a window, or a copy of something else, is not right. -/
theorem not_alright_statement {i : ι} {now : PyFloat} (h : Sound original t₀ s k t)
    (hs : Alright original s) (hbad : ¬ OneAtATime original s (.statement i now))
    (he : s.step (.statement i now) = some s') : ¬ Alright original s' := by
  intro hs'
  refine hbad ⟨fun m next absent hcheck hle j hj => ?_, fun hphase => ?_⟩
  · have hlevel := h.level
    have hothers := (step_statement h he).2
    have hmove := windowMove_of_step h he
    have hout := (Phase.window_of_check hcheck).1
    generalize hf : s'.files = f' at hmove
    generalize hp : s'.phase i = phase' at hmove
    cases hmove with
    | outside _ hfound _ _ _ _ =>
        have := hfound m next absent hcheck
        omega
    | enters hcheck' _ =>
        have hin := (Phase.window_of_check hcheck').2.2.1
        have hne : j ≠ i := fun hji => by rw [hji, hout] at hj; cases hj
        refine hne (hs'.alone j i ?_ ?_)
        · simp [hothers j hne, hj]
        · simp [hp, hin]
    | copies hphase => simp [hphase, Phase.window] at hout
    | commits hin _ _ _ _ _ => simp [hin] at hout
    | late hin _ => simp [hin] at hout
  · have hmove := windowMove_of_step h he
    have hlevel : s.files.committed.level = 1 := hs.current i 1 (by simp [hphase, Phase.window])
    generalize hf : s'.files = f' at hmove
    generalize hp : s'.phase i = phase' at hmove
    cases hmove with
    | outside hout _ _ _ _ _ => simp [hphase, Phase.window] at hout
    | enters hcheck _ => simp [hphase, Phase.check] at hcheck
    | commits _ hcopied _ _ _ _ => exact absurd hphase hcopied
    | late hin hlate =>
        have := hs.current i _ hin
        have := h.level
        omega
    | copies _ =>
        have hle : original.level ≤ 1 := by
          calc original.level ≤ k := h.started
            _ = s.files.committed.level := h.level.symm
            _ = 1 := hlevel
        have hone : original.level = 1 := Nat.le_antisymm hle original.one_le_level
        obtain ⟨db, hbackup, holds⟩ := hs'.copy hone (Or.inl ⟨i, hp⟩)
        rw [hf, Option.some_inj] at hbackup
        exact hbackup ▸ holds

omit [DecidableEq ι] in
/-- What a statement outside the windows leaves right was right before. -/
theorem alright_of_outside {i : ι} (hs' : Alright original s') (hgoing : s.phase i ≠ .raised)
    (hothers : ∀ j, j ≠ i → s'.phase j = s.phase j) (hout : (s.phase i).window = none)
    (hlevel : s'.files.committed.level = s.files.committed.level)
    (hbackup : s'.files.backup = s.files.backup) : Alright original s := by
  have hsame : ∀ j, (s.phase j).window ≠ none → s'.phase j = s.phase j := fun j hj =>
    hothers j fun hji => hj (hji ▸ hout)
  refine ⟨fun j => ?_, fun j m hw => ?_, fun j j' hj hj' => ?_, fun hone hcopy => ?_⟩
  · by_cases hj : j = i
    · exact hj ▸ hgoing
    · exact hothers j hj ▸ hs'.going j
  · rw [← hlevel]
    exact hs'.current j m (hsame j (by simp [hw]) ▸ hw)
  · exact hs'.alone j j' (hsame j hj ▸ hj) (hsame j' hj' ▸ hj')
  · rw [← hbackup]
    refine hs'.copy hone (hcopy.imp (fun ⟨j, hj⟩ => ⟨j, ?_⟩) fun hle => hlevel ▸ hle)
    exact (hsame j (by simp [hj, Phase.window])).trans hj

/-- What is not right stays so. -/
theorem alright_of_statement {i : ι} {now : PyFloat} (h : Sound original t₀ s k t)
    (he : s.step (.statement i now) = some s') (hs' : Alright original s') : Alright original s := by
  have hlevel := h.level
  have hothers := (step_statement h he).2
  have hmove := windowMove_of_step h he
  have hgoing : s.phase i ≠ .raised := by
    intro hraised
    rw [step, hraised] at he
    cases he
  generalize hf : s'.files = f' at hmove
  generalize hp : s'.phase i = phase' at hmove
  cases hmove with
  | outside hout hcheck hlevel' hbackup hout' _ =>
      exact alright_of_outside hs' hgoing hothers hout (by rw [hf, hlevel', hlevel])
        (by rw [hf, hbackup])
  | enters hcheck _ =>
      exact alright_of_outside hs' hgoing hothers (Phase.window_of_check hcheck).1 (by rw [hf])
        (by rw [hf])
  | copies hphase =>
      have hwindow : ∀ j, (s'.phase j).window = (s.phase j).window := by
        intro j
        by_cases hj : j = i
        · rw [hj, hp, hphase]
          rfl
        · rw [hothers j hj]
      have hone : s.files.committed.level = 1 := by
        have hcurrent := hs'.current i 1 (by rw [hp]; rfl)
        rwa [hf] at hcurrent
      refine ⟨fun j => ?_, fun j m hw => ?_, fun j j' hj hj' => ?_, fun _ hcopy => ?_⟩
      · by_cases hj : j = i
        · exact hj ▸ hgoing
        · exact hothers j hj ▸ hs'.going j
      · have hcurrent := hs'.current j m ((hwindow j).trans hw)
        rwa [hf] at hcurrent
      · exact hs'.alone j j' (hwindow j ▸ hj) (hwindow j' ▸ hj')
      · rcases hcopy with ⟨j, hj⟩ | hle
        · have hji : j = i := hs'.alone j i (by rw [hwindow, hj]; simp [Phase.window])
            (by rw [hp]; simp [Phase.window])
          rw [hji, hphase] at hj
          cases hj
        · omega
  | commits hin hcopied hlevel' hbackup hout' _ =>
      have honly : ∀ j, (s.phase j).window ≠ none → j = i := by
        intro j hj
        by_contra hne
        obtain ⟨m, hm⟩ := Option.ne_none_iff_exists'.mp hj
        have hnext := hs'.current j m (hothers j hne ▸ hm)
        have hleast := (Phase.window_le_atLeast hm).trans (h.least j)
        rw [hf, hlevel'] at hnext
        omega
      refine ⟨fun j => ?_, fun j m hw => ?_, fun j j' hj hj' => ?_, fun hone _ => ?_⟩
      · by_cases hj : j = i
        · exact hj ▸ hgoing
        · exact hothers j hj ▸ hs'.going j
      · obtain rfl := honly j (by simp [hw])
        exact hlevel.trans (Option.some_inj.mp (hin.symm.trans hw))
      · exact (honly j hj).trans (honly j' hj').symm
      · rw [← hbackup, ← hf]
        refine hs'.copy hone (Or.inr ?_)
        rw [hf, hlevel']
        exact Nat.succ_le_succ h.range.1
  | late _ _ => exact absurd hp (hs'.going i)

omit [DecidableEq ι] in
theorem alright_start {files : DbFiles} : Alright files.committed (start (ι := ι) files) where
  going _ := by simp [start]
  current _ _ hw := by cases hw
  alone _ _ hw := absurd rfl hw
  copy hone hcopy := by
    rcases hcopy with ⟨i, hi⟩ | hle
    · cases hi
    · have hlevel : 2 ≤ files.committed.level := hle
      omega

omit [DecidableEq ι] in
/-- Where every call has ended, all has gone right exactly where it is right at the end. -/
theorem succeeded_iff_alright [Nonempty ι] (h : Sound original t₀ s k t)
    (hended : ∀ i, (s.phase i).ended = true) : Succeeded original t₀ s ↔ Alright original s := by
  constructor
  · intro hs
    have hwindow : ∀ i, (s.phase i).window = none := fun i => by rw [hs.returned i]; rfl
    refine ⟨fun i => by simp [hs.returned i], fun i m hw => ?_, fun i j hi => ?_,
      fun hone _ => hs.copy hone⟩
    · cases (hwindow i).symm.trans hw
    · exact absurd (hwindow i) hi
  · intro hs
    have hdone : ∀ i, s.phase i = .done := by
      intro i
      have hend := hended i
      have hgoing := hs.going i
      cases hphase : s.phase i with
      | done => rfl
      | raised => exact absurd hphase hgoing
      | _ =>
          rw [hphase] at hend
          cases hend
    have hleast := h.least (Classical.arbitrary ι)
    rw [hdone] at hleast
    obtain rfl : k = 4 := Nat.le_antisymm h.range.2 hleast
    exact ⟨hdone, ⟨t, h.version, h.extended⟩, h.directories,
      fun hone => hs.copy hone (Or.inr (by rw [h.level]; omega))⟩

/-- **Concurrent start-up.** Of processes that open one database at the same time, all succeed, with
the fourth version, all rows and a copy of the original, exactly where no process finds a version
missing while another one is between the same finding and its commit, and the main file holds the
original where it is copied. -/
theorem succeeded_iff_oneAtATime [Nonempty ι] {files : DbFiles} {k : Nat} {t : DataTable}
    (hversion : AtVersion k files.committed t) (hk : 1 ≤ k ∧ k ≤ 3) {es : List (ProcessEvent ι)}
    {s : Processes ι} (hrun : Transitions.run step (start files) es = some s)
    (hended : ∀ i, (s.phase i).ended = true) :
    Succeeded files.committed t s ↔
      Transitions.StepsMeet step (OneAtATime files.committed) (start files) es := by
  have hstart := sound_start (ι := ι) hversion ⟨hk.1, hk.2.trans (by omega)⟩
  have hsound : ∀ s e s', (∃ k t', Sound files.committed t s k t') → step s e = some s' →
      ∃ k t', Sound (ι := ι) files.committed t s' k t' :=
    fun s e s' ⟨_, _, h⟩ he => sound_step h he
  obtain ⟨k', t', hlast⟩ := Transitions.run_preserves hsound ⟨k, t, hstart⟩ hrun
  have hstates := Transitions.statesMeet_iff_last (P := Alright files.committed) hsound
    (fun s e s' ⟨_, _, h⟩ he hs' => ?_) ⟨k, t, hstart⟩ hrun
  · rw [succeeded_iff_alright hlast hended, ← hstates]
    refine Transitions.statesMeet_iff_stepsMeet
      (I := fun s => (∃ k t', Sound files.committed t s k t') ∧ Alright files.committed s)
      (fun s h => h.2) (fun s e s' h hok he => ⟨hsound s e s' h.1 he, ?_⟩) (fun s e s' h hno he => ?_)
      ⟨⟨k, t, hstart⟩, alright_start⟩ hrun
    · obtain ⟨⟨_, _, h⟩, hs⟩ := h
      cases e with
      | statement i now => exact alright_statement h hs hok he
      | checkpoint =>
          obtain rfl := Option.some_inj.mp he
          exact ⟨hs.going, hs.current, hs.alone, hs.copy⟩
    · obtain ⟨⟨_, _, h⟩, hs⟩ := h
      cases e with
      | statement i now => exact not_alright_statement h hs hno he
      | checkpoint => exact absurd trivial hno
  · cases e with
    | statement i now => exact alright_of_statement h he hs'
    | checkpoint =>
        obtain rfl := Option.some_inj.mp he
        exact ⟨hs'.going, hs'.current, hs'.alone, hs'.copy⟩

/-- Statements of a process that the system carries out. -/
def statements (i : Bool) (n : Nat) : List (ProcessEvent Bool) :=
  List.replicate n (.statement i (.finite 0))

def opened : DbFiles := { committed := firstVersion, main := firstVersion, backup := none }

/-- The second process asks for the version when the first one has migrated. -/
theorem one_after_the_other : ∃ s : Processes Bool,
    Transitions.run step (start opened) (statements false 14 ++ statements true 10) = some s ∧
      Succeeded firstVersion oneFile s := by
  have hrun : ∃ s : Processes Bool,
      Transitions.run step (start opened) (statements false 14 ++ statements true 10) = some s ∧
        ∀ i, (s.phase i).ended = true := ⟨_, rfl, by decide⟩
  obtain ⟨s, hs, hended⟩ := hrun
  have hmeet : Transitions.StepsMeet step (OneAtATime firstVersion) (start opened)
      (statements false 14 ++ statements true 10) := by decide
  exact ⟨s, hs, (succeeded_iff_oneAtATime atVersion_firstVersion (by omega) hs hended).mpr hmeet⟩

/-- Both processes have found the second version missing. One migrates to the end, and its log is
written into the main file; then the other copies the file, over the copy of the original, and its
transaction raises. -/
theorem second_start_raises : ∃ s : Processes Bool,
    Transitions.run step (start opened) (statements false 8 ++ statements true 8 ++
      statements false 6 ++ .checkpoint :: statements true 2) = some s ∧
    (∀ i, (s.phase i).ended = true) ∧ s.phase true = .raised ∧
    (∀ db, s.files.backup = some db → ¬ HoldsOriginal firstVersion db) ∧
    ¬ Succeeded firstVersion oneFile s := by
  refine ⟨_, rfl, by decide, rfl, fun db hdb h => ?_, fun h => ?_⟩
  · obtain rfl := Option.some_inj.mp hdb
    exact absurd h.schemaVersion (by decide)
  · cases h.returned true

end Processes

end StardustFS
