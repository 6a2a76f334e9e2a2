import StardustFS.SchemaMigration
import StardustFS.Transitions

/-! `MetadataStore.initialize` of one process that may be stopped after any statement and started again:
the rows of `files` are kept through every run, a call that returns leaves the fourth version, and a
statement that raises changes nothing. -/

namespace StardustFS

/-- The table `files` before the migrations; the script makes one without rows. -/
def baseTable (db : StoreDb) : DataTable := db.files.getD (.empty filesColumns nodup_filesColumns)

/-- A database of one of the four versions, with any rows, or an empty file. -/
def Openable (db : StoreDb) : Prop :=
  db = .empty ∨ ∃ k t, 1 ≤ k ∧ k ≤ 4 ∧ AtVersion k db t

/-- A database and the call of `initialize` under way. -/
structure Opening where
  files : DbFiles
  phase : Phase

inductive OpeningEvent where
  /-- The next statement, with what the system answers. -/
  | statement (answer : Answer)
  /-- The process stops, if it has not, and `initialize` is called anew. -/
  | restart
  /-- The log is written into the main file. -/
  | checkpoint

namespace Opening

def start (files : DbFiles) : Opening := ⟨files, .create 0⟩

def step (s : Opening) : OpeningEvent → Option Opening
  | .statement answer =>
      if s.phase.ended then none
      else some ⟨(s.files.advance answer s.phase).2, (s.files.advance answer s.phase).1⟩
  | .restart => some (start s.files)
  | .checkpoint => some { s with files := { s.files with main := s.files.committed } }

/-- What the one process knows of the version at the statement it comes to. -/
def PhaseFits (k : Nat) : Phase → Prop
  | .create _ => True
  | .readVersionTable => True
  | .readVersion => 2 ≤ k
  | .readVersionColumn => k = 1
  | .backUp => k = 1
  | .migrateV2 => k = 1
  | .readDeleted => True
  | .migrateV3 => k ≤ 2
  | .readReplicationStatus => 3 ≤ k
  | .migrateV4 => k = 3
  | .done => k = 4
  | .raised => True

/-- The database is at a version that fits the statement, and extends the one at the start. -/
structure Fits (d₀ db : StoreDb) (phase : Phase) (k : Nat) (t : DataTable) : Prop where
  version : AtVersion k db t
  range : 1 ≤ k ∧ k ≤ 4
  extended : ColumnTable.Extends filled (baseTable d₀) t
  phase_fits : PhaseFits k phase
  present : ∀ s ∈ phase.scripted, s.Present db
  directories : ∀ t, d₀.directories = some t → db.directories = some t

/-- What holds of the database while `initialize` runs. -/
inductive Inv (d₀ db : StoreDb) (phase : Phase) : Prop where
  /-- Nothing is made in an empty file yet. -/
  | unopened (start : d₀ = .empty) (same : db = .empty) (phase_eq : phase = .create 0 ∨ phase = .raised)
  | opened (k : Nat) (t : DataTable) (fits : Fits d₀ db phase k t)

variable {d₀ db : StoreDb} {phase : Phase} {k : Nat} {t : DataTable}

theorem inv_start (h : Openable d₀) : Inv d₀ d₀ (.create 0) := by
  rcases h with rfl | ⟨k, t, h1, h4, hat⟩
  · exact .unopened rfl rfl (Or.inl rfl)
  · refine .opened k t ⟨hat, ⟨h1, h4⟩, ?_, trivial, fun s hs => ?_, fun _ h => h⟩
    · rw [baseTable, hat.files, Option.getD_some]
      exact ColumnTable.Extends.refl filled t
    · cases hs

/-- A call that stops or raises leaves a database that can be opened anew. -/
theorem Inv.phase_free (h : Inv d₀ db phase) {phase' : Phase}
    (hphase : phase' = .create 0 ∨ phase' = .raised) : Inv d₀ db phase' := by
  cases h with
  | unopened hstart hsame _ => exact .unopened hstart hsame hphase
  | opened k t fits =>
      refine .opened k t ⟨fits.version, fits.range, fits.extended, ?_, fun s hs => ?_, fits.directories⟩
      · rcases hphase with rfl | rfl <;> exact trivial
      · rcases hphase with rfl | rfl <;> cases hs

/-- A query changes nothing, and the next statement fits. -/
theorem Fits.read (h : Fits d₀ db phase k t) {phase' : Phase} (hfits : PhaseFits k phase')
    (hscripted : phase'.scripted = phase.scripted) : Fits d₀ db phase' k t :=
  ⟨h.version, h.range, h.extended, hfits, hscripted ▸ h.present, h.directories⟩

theorem Fits.move {f f' : DbFiles} {phase' : Phase} {k' : Nat} {t' : DataTable}
    (h : Fits d₀ f.committed phase k t) (hmove : SchemaMove f k t phase f' phase')
    (hversion : AtVersion k' f'.committed t') (hk : 1 ≤ k' ∧ k' ≤ 4)
    (hext : ColumnTable.Extends filled t t') (hfits : PhaseFits k' phase') :
    Fits d₀ f'.committed phase' k' t' :=
  ⟨hversion, hk, h.extended.trans hext, hfits, hmove.scripted_present h.present,
    fun d hd => hmove.directories (h.directories d hd)⟩

/-- An empty file after the first statement. -/
theorem fits_created {db : StoreDb}
    (hexec : (SchemaStatement.table .files filesColumns (by decide)).exec .empty = .ok db) :
    Fits .empty db (.create 1) 1 (.empty filesColumns (by decide)) := by
  rw [SchemaStatement.exec, Except.ok.injEq] at hexec
  subst hexec
  refine ⟨⟨rfl, rfl, fun _ => rfl, by omega⟩, by omega, ColumnTable.Extends.refl _ _, trivial,
    fun s hs => ?_, fun t ht => by cases ht⟩
  obtain rfl := List.mem_singleton.mp hs
  rfl

theorem carryOut_empty {f : DbFiles} (h : f.committed = .empty) (now : PyFloat) :
    (f.carryOut now (.create 0)).1 = .create 1 ∧
      Fits .empty (f.carryOut now (.create 0)).2.committed (.create 1) 1
        (.empty filesColumns (by decide)) := by
  have hexec : (SchemaStatement.table .files filesColumns (by decide)).exec f.committed = .ok _ := rfl
  simp only [DbFiles.carryOut, schemaSql, List.getElem?_cons_zero]
  rw [f.transact_ok hexec]
  exact ⟨rfl, fits_created (by rw [← h]; exact hexec)⟩

theorem fits_moves {f f' : DbFiles} {phase' : Phase} (h : Fits d₀ f.committed phase k t)
    (hmove : SchemaMove f k t phase f' phase') : ∃ k' t', Fits d₀ f'.committed phase' k' t' := by
  have hfits := h.phase_fits
  obtain ⟨h1, h4⟩ := h.range
  have hsame : f'.committed = f.committed → PhaseFits k phase' →
      ∃ k' t', Fits d₀ f'.committed phase' k' t' := fun heq hfits' =>
    ⟨k, t, h.move hmove (heq ▸ h.version) h.range (ColumnTable.Extends.refl filled t) hfits'⟩
  cases hmove with
  | statement hs hexec =>
      have hversion := h.version.done (SchemaStatement.done_of_exec hexec)
      exact ⟨k, t, h.move (.statement hs hexec) hversion h.range
        (ColumnTable.Extends.refl filled t) trivial⟩
  | refused hs hexec => exact hsame rfl trivial
  | rowMissing hk => exact hsame rfl trivial
  | failed htx hk => exact hsame rfl trivial
  | scripted hs => exact hsame rfl trivial
  | unversioned hk => exact hsame rfl hk
  | versioned hk => exact hsame rfl hk
  | row hk => exact hsame rfl trivial
  | copied => exact hsame rfl hfits
  | found hcheck hk =>
      rcases Phase.check_cases hcheck with ⟨rfl, rfl, rfl, rfl⟩ | ⟨rfl, rfl, rfl, rfl⟩ |
        ⟨rfl, rfl, rfl, rfl⟩
      · exact hsame rfl trivial
      · exact hsame rfl hk
      · exact hsame rfl (Nat.le_antisymm h4 hk)
  | missing hcheck hk =>
      rcases Phase.check_cases hcheck with ⟨rfl, rfl, rfl, rfl⟩ | ⟨rfl, rfl, rfl, rfl⟩ |
        ⟨rfl, rfl, rfl, rfl⟩
      · exact hsame rfl hfits
      · exact hsame rfl hk
      · exact hsame rfl (Nat.le_antisymm hk hfits)
  | migrated htx hversion hext honly =>
      have hmigrated := SchemaMove.migrated htx hversion hext honly
      rcases Phase.migration_cases htx with ⟨rfl, rfl, rfl⟩ | ⟨rfl, rfl, rfl⟩ | ⟨rfl, rfl, rfl⟩
      · exact ⟨2, _, h.move hmigrated hversion (by omega) hext trivial⟩
      · exact ⟨3, _, h.move hmigrated hversion (by omega) hext (Nat.le_refl 3)⟩
      · exact ⟨4, _, h.move hmigrated hversion (by omega) hext rfl⟩

/-- The next statement of a call makes one of the moves. -/
theorem Fits.moves {f : DbFiles} (h : Fits d₀ f.committed phase k t) (hended : phase.ended = false)
    (now : PyFloat) : SchemaMove f k t phase (f.carryOut now phase).2 (f.carryOut now phase).1 := by
  refine schemaMove_carryOut h.version h.range.1 (fun hlast => ?_) hended now
  have hk : PhaseFits k .migrateV4 := hlast ▸ h.phase_fits
  exact Nat.le_of_eq hk.symm

/-- The first statement of an empty file, and one that the system does not carry out. -/
theorem inv_advance {f : DbFiles} (h : Inv d₀ f.committed phase) (hended : phase.ended = false)
    (answer : Answer) : Inv d₀ (f.advance answer phase).2.committed (f.advance answer phase).1 := by
  cases answer with
  | ok now =>
      cases h with
      | unopened hstart hsame hphase =>
          obtain rfl := hphase.resolve_right fun hr => by rw [hr] at hended; cases hended
          obtain ⟨hnext, hfits⟩ := carryOut_empty hsame now
          rw [hstart]
          exact .opened 1 _ (hnext ▸ hfits)
      | opened k t fits =>
          obtain ⟨k', t', hfits⟩ := fits_moves fits (fits.moves hended now)
          exact .opened k' t' hfits
  | fails =>
      cases phase with
      | backUp =>
          cases h with
          | unopened hstart hsame hphase => rcases hphase with hp | hp <;> cases hp
          | opened k t fits => exact .opened k t (fits.read trivial rfl)
      | _ => exact h.phase_free (Or.inr rfl)

theorem inv_step {s s' : Opening} {e : OpeningEvent} (h : Inv d₀ s.files.committed s.phase)
    (he : s.step e = some s') : Inv d₀ s'.files.committed s'.phase := by
  cases e with
  | statement answer =>
      rw [step] at he
      split_ifs at he with hended
      obtain rfl := Option.some_inj.mp he
      exact inv_advance h (Bool.not_eq_true _ ▸ hended) answer
  | restart =>
      obtain rfl := Option.some_inj.mp he
      exact h.phase_free (Or.inl rfl)
  | checkpoint =>
      obtain rfl := Option.some_inj.mp he
      exact h

theorem inv_run {f : DbFiles} (h : Openable f.committed) {es : List OpeningEvent} {s : Opening}
    (hrun : Transitions.run step (start f) es = some s) : Inv f.committed s.files.committed s.phase :=
  Transitions.run_preserves (P := fun s : Opening => Inv f.committed s.files.committed s.phase)
    (fun _ _ _ h he => inv_step h he) (inv_start h) hrun

/-! ### A database of the fourth version -/

/-- The fourth version, with everything the script makes, at a statement the call can come to. -/
structure Migrated (db : StoreDb) (phase : Phase) : Prop where
  version : ∃ t, AtVersion 4 db t
  present : ∀ s ∈ schemaSql, s.Present db
  phase_fits : PhaseFits 4 phase

theorem Migrated.at_phase (h : Migrated db phase) {phase' : Phase} (hfits : PhaseFits 4 phase') :
    Migrated db phase' := ⟨h.version, h.present, hfits⟩

/-- No statement changes a database of the fourth version, or the copy. -/
theorem Migrated.moves {f f' : DbFiles} {phase' : Phase} (h : Migrated f.committed phase)
    (hmoves : SchemaMove f 4 t phase f' phase') : f' = f ∧ Migrated f.committed phase' := by
  have hfits := h.phase_fits
  cases hmoves with
  | statement hs hexec =>
      have hpresent := SchemaStatement.exec_of_present (h.present _ (List.mem_of_getElem? hs))
      obtain rfl := Except.ok.inj (hpresent.symm.trans hexec)
      exact ⟨rfl, h.at_phase trivial⟩
  | refused hs hexec => exact ⟨rfl, h.at_phase trivial⟩
  | scripted hs => exact ⟨rfl, h.at_phase trivial⟩
  | unversioned hk => cases hk
  | versioned hk => exact ⟨rfl, h.at_phase hk⟩
  | rowMissing hk => cases hk
  | row hk => exact ⟨rfl, h.at_phase trivial⟩
  | copied => cases hfits
  | found hcheck hk =>
      rcases Phase.check_cases hcheck with ⟨rfl, rfl, rfl, rfl⟩ | ⟨rfl, rfl, rfl, rfl⟩ |
        ⟨rfl, rfl, rfl, rfl⟩
      · exact ⟨rfl, h.at_phase trivial⟩
      · exact ⟨rfl, h.at_phase hk⟩
      · exact ⟨rfl, h.at_phase rfl⟩
  | missing hcheck hk =>
      rcases Phase.check_cases hcheck with ⟨rfl, rfl, rfl, rfl⟩ | ⟨rfl, rfl, rfl, rfl⟩ |
        ⟨rfl, rfl, rfl, rfl⟩ <;> omega
  | migrated htx hversion hext honly =>
      rcases Phase.migration_cases htx with ⟨rfl, hk, rfl⟩ | ⟨rfl, hk, rfl⟩ | ⟨rfl, hk, rfl⟩ <;>
        cases hk
  | failed htx hk => exact ⟨rfl, h.at_phase trivial⟩

theorem Migrated.carryOut {f : DbFiles} (h : Migrated f.committed phase) (now : PyFloat) :
    (f.carryOut now phase).2 = f ∧ Migrated f.committed (f.carryOut now phase).1 := by
  obtain ⟨t, hat⟩ := h.version
  cases hended : phase.ended with
  | false => exact h.moves (schemaMove_carryOut hat (by omega) (fun _ => by omega) hended now)
  | true =>
      cases phase with
      | done => exact ⟨rfl, h⟩
      | raised => exact ⟨rfl, h⟩
      | _ => cases hended

theorem Migrated.advance {f : DbFiles} (h : Migrated f.committed phase) (answer : Answer) :
    (f.advance answer phase).2 = f ∧ Migrated f.committed (f.advance answer phase).1 := by
  cases answer with
  | ok now => exact h.carryOut now
  | fails =>
      cases phase with
      | backUp => cases h.phase_fits
      | _ => exact ⟨rfl, h.at_phase trivial⟩

/-- A database of the fourth version and its copy stay as they are, whatever becomes of the calls. -/
theorem Migrated.run {s s' : Opening} (h : Migrated s.files.committed s.phase)
    {es : List OpeningEvent} (hrun : Transitions.run step s es = some s') :
    s'.files.committed = s.files.committed ∧ s'.files.backup = s.files.backup := by
  refine (Transitions.run_preserves (P := fun s' : Opening => Migrated s.files.committed s'.phase ∧
    s'.files.committed = s.files.committed ∧ s'.files.backup = s.files.backup)
    (fun m e m' hm he => ?_) ⟨h, rfl, rfl⟩ hrun).2
  obtain ⟨hmigrated, hcommitted, hbackup⟩ := hm
  cases e with
  | statement answer =>
      rw [step] at he
      split_ifs at he
      obtain rfl := Option.some_inj.mp he
      rw [← hcommitted] at hmigrated
      obtain ⟨hsame, hnext⟩ := hmigrated.advance answer
      dsimp only
      rw [hsame]
      exact ⟨hcommitted ▸ hnext, hcommitted, hbackup⟩
  | restart =>
      obtain rfl := Option.some_inj.mp he
      exact ⟨hmigrated.at_phase trivial, hcommitted, hbackup⟩
  | checkpoint =>
      obtain rfl := Option.some_inj.mp he
      exact ⟨hmigrated, hcommitted, hbackup⟩

/-! ### The end of a call -/

/-- How many statements are left at most. -/
def statementsLeft : Phase → Nat
  | .create n => 10 + (schemaSql.length - n)
  | .readVersionTable => 9
  | .readVersion => 8
  | .readVersionColumn => 7
  | .backUp => 6
  | .migrateV2 => 5
  | .readDeleted => 4
  | .migrateV3 => 3
  | .readReplicationStatus => 2
  | .migrateV4 => 1
  | .done => 0
  | .raised => 0

theorem statementsLeft_transact (f : DbFiles) (tx : StoreDb → Except SqlError StoreDb) (next : Phase) :
    statementsLeft (f.transact tx next).1 ≤ statementsLeft next := by
  unfold DbFiles.transact
  split
  · exact Nat.le_refl _
  · exact Nat.zero_le _

theorem statementsLeft_advance (f : DbFiles) (answer : Answer) (hended : phase.ended = false) :
    statementsLeft (f.advance answer phase).1 < statementsLeft phase := by
  cases answer with
  | fails =>
      cases phase with
      | done => cases hended
      | raised => cases hended
      | backUp => exact (by decide : 4 < 6)
      | create n => exact Nat.lt_of_lt_of_le (Nat.zero_lt_succ 9) (Nat.le_add_right 10 _)
      | _ => exact Nat.zero_lt_succ _
  | ok now =>
      change statementsLeft (f.carryOut now phase).1 < _
      cases phase with
      | create n =>
          simp only [DbFiles.carryOut]
          cases hs : schemaSql[n]? with
          | none => exact Nat.lt_of_lt_of_le (Nat.lt_succ_self 9) (Nat.le_add_right 10 _)
          | some statement =>
              have hlt : n < schemaSql.length := (List.getElem?_eq_some_iff.mp hs).1
              refine Nat.lt_of_le_of_lt (statementsLeft_transact f _ _) ?_
              simp only [statementsLeft]
              omega
      | migrateV2 => exact Nat.lt_of_le_of_lt (statementsLeft_transact f _ _) (by decide)
      | migrateV3 => exact Nat.lt_of_le_of_lt (statementsLeft_transact f _ _) (by decide)
      | migrateV4 => exact Nat.lt_of_le_of_lt (statementsLeft_transact f _ _) (by decide)
      | backUp => exact (by decide : 5 < 6)
      | readVersion =>
          simp only [DbFiles.carryOut]
          split
          · exact Nat.zero_lt_succ _
          · split_ifs
            · exact (by decide : 4 < 8)
            · exact (by decide : 7 < 8)
      | done => cases hended
      | raised => cases hended
      | readVersionTable =>
          simp only [DbFiles.carryOut]
          split_ifs <;> simp only [statementsLeft] <;> omega
      | readVersionColumn =>
          simp only [DbFiles.carryOut]
          split_ifs <;> simp only [statementsLeft] <;> omega
      | readDeleted =>
          simp only [DbFiles.carryOut]
          split_ifs <;> simp only [statementsLeft] <;> omega
      | readReplicationStatus =>
          simp only [DbFiles.carryOut]
          split_ifs <;> simp only [statementsLeft] <;> omega

/-- A call that is not stopped returns or raises, whatever the system answers. -/
theorem call_ends (s : Opening) (answers : Nat → Answer) :
    ∃ n s', Transitions.run step s ((List.range n).map fun i => .statement (answers i)) = some s' ∧
      s'.phase.ended = true := by
  induction hn : statementsLeft s.phase using Nat.strong_induction_on generalizing s answers with
  | _ left ih =>
      cases hended : s.phase.ended with
      | true => exact ⟨0, s, rfl, hended⟩
      | false =>
          have hlt := statementsLeft_advance s.files (answers 0) hended
          obtain ⟨n, s', hrun, hlast⟩ := ih _ (hn ▸ hlt)
            ⟨(s.files.advance (answers 0) s.phase).2, (s.files.advance (answers 0) s.phase).1⟩
            (fun i => answers (i + 1)) rfl
          refine ⟨n + 1, s', ?_, hlast⟩
          rw [List.range_succ_eq_map, List.map_cons, List.map_map]
          refine Transitions.run_cons_eq_some.mpr ⟨_, ?_, hrun⟩
          rw [step, hended]
          rfl

/-- What a call that returns leaves: the fourth version, every row and cell of the table before, the
cells of the new columns filled, and nothing for another call to change. -/
theorem returned_of_inv {f : DbFiles} {s : Opening} (h : Inv f.committed s.files.committed s.phase)
    (hdone : s.phase = .done) :
    ∃ t, AtVersion 4 s.files.committed t ∧
      ColumnTable.Extends filled (baseTable f.committed) t ∧
      (∀ directories, f.committed.directories = some directories →
        s.files.committed.directories = some directories) ∧
      ∀ fs s', Transitions.run step (start s.files) fs = some s' →
        s'.files.committed = s.files.committed ∧ s'.files.backup = s.files.backup := by
  rw [hdone] at h
  cases h with
  | unopened hstart hsame hphase => rcases hphase with hp | hp <;> cases hp
  | opened k t fits =>
      obtain rfl : k = 4 := fits.phase_fits
      have hmigrated : Migrated s.files.committed (.create 0) :=
        ⟨⟨t, fits.version⟩, fits.present, trivial⟩
      exact ⟨t, fits.version, fits.extended, fits.directories, fun fs s' hrun =>
        Migrated.run (s := start s.files) hmigrated hrun⟩

/-- The table `files` is there with the data of the database before, unless the file was empty and is
so still. -/
theorem data_of_inv {f : DbFiles} {s : Opening} (h : Inv f.committed s.files.committed s.phase) :
    (f.committed = .empty ∧ s.files.committed = .empty) ∨
      ∃ t, s.files.committed.files = some t ∧
        ColumnTable.Extends filled (baseTable f.committed) t := by
  cases h with
  | unopened hstart hsame _ => exact Or.inl ⟨hstart, hsame⟩
  | opened k t fits => exact Or.inr ⟨t, fits.version.files, fits.extended⟩

/-! ### A call that nothing fails -/

/-- The call has not raised, and it has left no version out. -/
structure Unbroken (db : StoreDb) (phase : Phase) : Prop where
  going : phase ≠ .raised
  versioned : phase = .readDeleted ∨ phase = .migrateV3 → db.schemaVersion.isSome = true

theorem unbroken_moves {f f' : DbFiles} {phase' : Phase} (h : Fits d₀ f.committed phase k t)
    (hunbroken : Unbroken f.committed phase) (hmoves : SchemaMove f k t phase f' phase') :
    Unbroken f'.committed phase' := by
  have hfits := h.phase_fits
  cases hmoves with
  | statement hs hexec => exact ⟨by simp, by simp⟩
  | refused hs hexec =>
      obtain ⟨db, hok⟩ := exec_next h.version.files h.present hs
      cases hok.symm.trans hexec
  | scripted hs => exact ⟨by simp, by simp⟩
  | unversioned hk => exact ⟨by simp, by simp⟩
  | versioned hk => exact ⟨by simp, by simp⟩
  | rowMissing hk => exact absurd hfits (by unfold PhaseFits; omega)
  | row hk => exact ⟨by simp, fun _ => (h.version.schemaVersion_isSome h.range.1).mpr hk⟩
  | copied => exact ⟨by simp, by simp⟩
  | found hcheck hk =>
      rcases Phase.check_cases hcheck with ⟨rfl, rfl, rfl, rfl⟩ | ⟨rfl, rfl, rfl, rfl⟩ |
        ⟨rfl, rfl, rfl, rfl⟩
      · exact ⟨by simp, fun _ => (h.version.schemaVersion_isSome h.range.1).mpr hk⟩
      · exact ⟨by simp, by simp⟩
      · exact ⟨by simp, by simp⟩
  | missing hcheck hk =>
      rcases Phase.check_cases hcheck with ⟨rfl, rfl, rfl, rfl⟩ | ⟨rfl, rfl, rfl, rfl⟩ |
        ⟨rfl, rfl, rfl, rfl⟩
      · exact ⟨by simp, by simp⟩
      · exact ⟨by simp, fun _ => hunbroken.versioned (Or.inl rfl)⟩
      · exact ⟨by simp, by simp⟩
  | migrated htx hversion hext honly =>
      rcases Phase.migration_cases htx with ⟨rfl, rfl, rfl⟩ | ⟨rfl, rfl, rfl⟩ | ⟨rfl, rfl, rfl⟩
      · exact ⟨by simp, fun _ => (hversion.schemaVersion_isSome (by omega)).mpr (by omega)⟩
      · exact ⟨by simp, by simp⟩
      · exact ⟨by simp, by simp⟩
  | failed htx hk =>
      rcases Phase.migration_cases htx with ⟨rfl, rfl, -⟩ | ⟨rfl, rfl, -⟩ | ⟨rfl, rfl, -⟩
      · exact absurd hfits hk
      · have h2 := (h.version.schemaVersion_isSome h.range.1).mp (hunbroken.versioned (Or.inr rfl))
        have hle : k ≤ 2 := hfits
        omega
      · exact absurd hfits hk

/-- The system carries out the statement. -/
def NothingFails : OpeningEvent → Prop
  | .statement .fails => False
  | _ => True

/-- However often it was stopped before, a call whose statements the system carries out, and all before
it, does not raise. -/
theorem never_raises {f : DbFiles} (hopen : Openable f.committed) {es : List OpeningEvent}
    (hes : ∀ e ∈ es, NothingFails e) {s : Opening}
    (hrun : Transitions.run step (start f) es = some s) : s.phase ≠ .raised := by
  have hmeet : Transitions.StepsMeet step (fun _ e => NothingFails e) (start f) es :=
    Transitions.stepsMeet_of_mem hes _
  refine (Transitions.run_invariant (P := fun s : Opening =>
    Inv f.committed s.files.committed s.phase ∧ Unbroken s.files.committed s.phase)
    (fun s e s' h hok he => ⟨inv_step h.1 he, ?_⟩)
    ⟨inv_start hopen, by simp [start], by simp [start]⟩ hmeet hrun).2.going
  cases e with
  | restart =>
      obtain rfl := Option.some_inj.mp he
      exact ⟨by simp [start], by simp [start]⟩
  | checkpoint =>
      obtain rfl := Option.some_inj.mp he
      exact h.2
  | statement answer =>
      cases answer with
      | fails => exact hok.elim
      | ok now =>
          rw [step] at he
          split_ifs at he with hended
          obtain rfl := Option.some_inj.mp he
          cases h.1 with
          | opened k t fits =>
              exact unbroken_moves fits h.2 (fits.moves (Bool.not_eq_true _ ▸ hended) now)
          | unopened hstart hsame hphase =>
              have hnext := (carryOut_empty hsame now).1
              dsimp only
              rw [hphase.resolve_right h.2.going]
              exact ⟨by rw [DbFiles.advance, hnext]; simp, by rw [DbFiles.advance, hnext]; simp⟩

/-- **Schema migration.** However often `initialize` was stopped and called again, and whatever its
statements ran into: the data of the database before are there; a call that is not stopped ends; one
that returns leaves the fourth version, to which a further call does nothing; and a statement that
raises has changed nothing. -/
theorem initialize_keeps_data {f : DbFiles} (hopen : Openable f.committed) {es : List OpeningEvent}
    {s : Opening} (hrun : Transitions.run step (start f) es = some s) :
    ((f.committed = .empty ∧ s.files.committed = .empty) ∨
      ∃ t, s.files.committed.files = some t ∧
        ColumnTable.Extends filled (baseTable f.committed) t) ∧
    (∀ answers : Nat → Answer, ∃ n s',
      Transitions.run step s ((List.range n).map fun i => .statement (answers i)) = some s' ∧
        s'.phase.ended = true) ∧
    (s.phase = .done → ∃ t, AtVersion 4 s.files.committed t ∧
      ColumnTable.Extends filled (baseTable f.committed) t ∧
      (∀ directories, f.committed.directories = some directories →
        s.files.committed.directories = some directories) ∧
      ∀ fs s', Transitions.run step (start s.files) fs = some s' →
        s'.files.committed = s.files.committed ∧ s'.files.backup = s.files.backup) ∧
    (∀ answer s', s.step (.statement answer) = some s' → s'.phase = .raised →
      s'.files = s.files) := by
  have hinv := inv_run hopen hrun
  refine ⟨data_of_inv hinv, call_ends s, returned_of_inv hinv, fun answer s' he hraised => ?_⟩
  rw [step] at he
  split_ifs at he
  obtain rfl := Option.some_inj.mp he
  exact s.files.advance_raised hraised

/-- The process is stopped before the transaction of the second version. -/
def stoppedOnce : List OpeningEvent :=
  let next := .statement (.ok (.finite 0))
  List.replicate 9 next ++ .restart :: List.replicate 14 next

theorem firstVersion_kept : ∃ s, Transitions.run step
    (start { committed := firstVersion, main := firstVersion, backup := none }) stoppedOnce = some s ∧
      ∃ t, AtVersion 4 s.files.committed t ∧
        ColumnTable.Extends filled (baseTable firstVersion) t := by
  have hopen : Openable firstVersion := Or.inr ⟨1, oneFile, by omega, by omega, atVersion_firstVersion⟩
  have hrun : ∃ s, Transitions.run step
      (start { committed := firstVersion, main := firstVersion, backup := none }) stoppedOnce =
        some s ∧ s.phase = .done := ⟨_, rfl, rfl⟩
  obtain ⟨s, hs, hdone⟩ := hrun
  obtain ⟨-, -, hreturned, -⟩ := initialize_keeps_data (f := ⟨firstVersion, firstVersion, none⟩) hopen hs
  obtain ⟨t, hversion, hext, -⟩ := hreturned hdone
  exact ⟨s, hs, t, hversion, hext⟩

end Opening

end StardustFS
