import StardustFS.CliPaths
import StardustFS.ManagedFiles
import StardustFS.P2PServer
import StardustFS.SourceCalls

/-! What the paths of the command line reach. `_vpath` keeps `".."`, and so do the two ways of making a
physical path of a virtual one; where no command is given one, every call stays below the data root of
its source and every recorded place is served to other devices. -/

namespace Text

/-- No directory of the path is `".."`; its last name may be. -/
def PlainAbove (p : Text) : Prop := dotdot ∉ (p.splitOn '/').dropLast

instance : DecidablePred PlainAbove := fun p =>
  inferInstanceAs (Decidable (dotdot ∉ (p.splitOn '/').dropLast))

theorem Plain.above {p : Text} (h : Plain p) : PlainAbove p := fun hmem =>
  h (List.dropLast_sublist _ |>.mem hmem)

theorem plainAbove_append_iff {a b : Text} : PlainAbove (a ++ '/' :: b) ↔ Plain a ∧ PlainAbove b := by
  rw [PlainAbove, List.splitOn_append_cons_self,
    List.dropLast_append_of_ne_nil (List.splitOn_ne_nil '/' b)]
  simp [Plain, PlainAbove]

/-- The first directory of a path. -/
theorem exists_eq_takeWhile_append {p : Text} (h : '/' ∈ p) :
    ∃ rest, p = p.takeWhile (· != '/') ++ '/' :: rest := by
  induction p with
  | nil => cases h
  | cons c p ih =>
      by_cases hc : c = '/'
      · subst hc
        exact ⟨p, by simp⟩
      · obtain ⟨rest, hrest⟩ := ih ((List.mem_cons.mp h).resolve_left (Ne.symm hc))
        refine ⟨rest, ?_⟩
        rw [List.takeWhile_cons, if_pos (by simpa using hc), List.cons_append, ← hrest]

/-- The path leads from the root to a strict descendant of it. -/
def StrictlyInside (root p : Text) : Prop :=
  location root <+: location (joinPath root p) ∧ location (joinPath root p) ≠ location root

instance (root p : Text) : Decidable (StrictlyInside root p) := inferInstanceAs (Decidable (_ ∧ _))

theorem StrictlyInside.of_location {root p : Text} {down : List Text}
    (h : location (joinPath root p) = location root ++ down) (hne : down ≠ []) :
    StrictlyInside root p := by
  refine ⟨h ▸ List.prefix_append _ _, fun heq => hne ?_⟩
  rw [h] at heq
  simpa using heq

theorem strictlyInside_of_plain {root p : Text} (hrel : p.head? ≠ some '/') (hplain : Plain p)
    (hsteps : steps p ≠ []) : StrictlyInside root p :=
  StrictlyInside.of_location (location_joinPath hrel hplain) hsteps

/-- The physical path of a directory. -/
theorem strictlyInside_lstrip {root p : Text} (hplain : Plain p) (hsteps : steps p ≠ []) :
    StrictlyInside root (lstrip '/' p) :=
  strictlyInside_of_plain (head?_lstrip_ne p) (plain_lstrip_iff.mpr hplain)
    (by rwa [steps_lstrip])

/-- One step back from two or more. -/
theorem strictlyInside_lstrip_dotdot {root p : Text} (hplain : Plain p)
    (hsteps : 2 ≤ (steps p).length) : StrictlyInside root (lstrip '/' (p ++ '/' :: dotdot)) := by
  have hne : steps p ≠ [] := by
    intro h
    rw [h] at hsteps
    simp at hsteps
  rw [lstrip_append hne]
  refine StrictlyInside.of_location (location_joinPath_dotdot (head?_lstrip_ne p)
    (plain_lstrip_iff.mpr hplain) (by rwa [steps_lstrip])) ?_
  rw [steps_lstrip]
  intro h
  have := congrArg List.length h
  rw [List.length_dropLast, List.length_nil] at this
  omega

end Text

namespace StardustFS

open Text

/-- A place on a source that is a step below the root for every reader of its path. -/
structure GoodPlace (physicalPath : Text) : Prop where
  relative : physicalPath.head? ≠ some '/'
  plain : Plain (turnBackslashes physicalPath)
  proper : steps physicalPath ≠ []

theorem GoodPlace.inside {p : Text} (h : GoodPlace p) (root : Text) : StrictlyInside root p :=
  strictlyInside_of_plain h.relative h.plain.of_turnBackslashes h.proper

/-- The owner's server takes the path. -/
theorem GoodPlace.served {p : Text} (h : GoodPlace p) {root : Text} (hroot : root.head? = some '/')
    (hne : location root ≠ []) : P2PServer.validatePathErr (.str p) root = none := by
  refine P2PServer.validatePathErr_eq_none hroot hne ?_ h.relative h.plain
  rintro rfl
  exact h.proper rfl

/-- A physical path is made relative. -/
theorem head?_generatePhysicalPath_ne {uuid : Text} (huuid : IsUuidHex uuid) (p : Text) :
    (JbodManager.generatePhysicalPath uuid p).head? ≠ some '/' := by
  have hstrip : (strip '/' p).head? ≠ some '/' := by
    intro h
    obtain ⟨k, hk⟩ := exists_rstrip_append '/' (lstrip '/' p)
    apply head?_lstrip_ne p
    rw [hk, ← strip, List.head?_append, h]
    rfl
  have hname : ∀ rest, (uuid ++ rest).head? ≠ some '/' := by
    intro rest h
    have hnil : uuid ≠ [] := fun h0 => by simpa [h0] using huuid.1
    rw [List.head?_append_of_ne_nil _ hnil] at h
    exact JbodManager.slash_not_mem_of_isUuidHex huuid (List.mem_of_head? h)
  unfold JbodManager.generatePhysicalPath
  dsimp only
  split_ifs with hlen
  · -- the directories come first, and the stripped path starts with them
    have hjoin : ['/'].intercalate ((strip '/' p).splitOn '/') = strip '/' p :=
      List.intercalate_splitOn '/'
    obtain ⟨init, last, hsplit⟩ : ∃ init last, (strip '/' p).splitOn '/' = init ++ [last] := by
      obtain ⟨init, last, h, -⟩ := exists_split_last '/' (strip '/' p)
      exact ⟨init, last, h⟩
    rw [hsplit] at hlen hjoin ⊢
    have hinit : init ≠ [] := by
      rintro rfl
      simp at hlen
    rw [intercalate_append hinit (List.cons_ne_nil last [])] at hjoin
    rw [List.dropLast_concat]
    intro h
    apply hstrip
    rw [← hjoin]
    cases hdirs : ['/'].intercalate init with
    | nil => rfl
    | cons c dirs =>
        rw [hdirs] at h
        exact h
  · exact hname _

/-- **The place of a new file.** It is good where the server's check for `".."` passes. -/
theorem goodPlace_generatePhysicalPath {uuid p : Text} (huuid : IsUuidHex uuid)
    (hplain : Plain (turnBackslashes (JbodManager.generatePhysicalPath uuid p))) :
    GoodPlace (JbodManager.generatePhysicalPath uuid p) := by
  have hname : steps (JbodManager.managedName uuid p) ≠ [] := by
    obtain ⟨hnil, hdot, hslash⟩ := (JbodManager.managedFile huuid p).2
    have hsilent : ¬ Silent (JbodManager.managedName uuid p) := not_or.mpr ⟨hnil, hdot⟩
    have hsteps : steps (JbodManager.managedName uuid p) = [JbodManager.managedName uuid p] :=
      (steps_name hslash).trans (if_neg hsilent)
    rw [hsteps]
    exact List.cons_ne_nil _ _
  refine ⟨head?_generatePhysicalPath_ne huuid p, hplain, ?_⟩
  rcases JbodManager.generatePhysicalPath_cases uuid p with h | ⟨dir, h⟩
  · rwa [h]
  · rw [h, steps_append]
    exact List.append_ne_nil_of_right_ne_nil _ hname

namespace MetadataStore

/-- The records of a volume that was never given a `".."`. -/
structure WellPlaced (s : MetadataStore) : Prop where
  files : s.files.Forall fun p row => PlainAbove p ∧ GoodPlace row.physicalPath
  directories : s.directories.Forall fun p _ => Text.Plain p

/-! ### The listing of a directory -/

theorem exists_withSlash (p : Text) : ∃ d, withSlash p = d ++ ['/'] ∧ ('%' ∉ p → '%' ∉ d) ∧
    (Text.Plain d ↔ Text.Plain p) := by
  unfold withSlash
  split_ifs with h
  · have hlast : p.getLast? = some '/' := beq_iff_eq.mp h
    have hp : p.dropLast ++ ['/'] = p := List.dropLast_append_getLast? '/' hlast
    refine ⟨p.dropLast, hp.symm, fun hnot hmem => hnot ((List.dropLast_sublist p).mem hmem), ?_⟩
    conv_rhs => rw [← hp, plain_append_iff]
    exact (and_iff_left (by decide)).symm
  · exact ⟨p, rfl, id, Iff.rfl⟩

/-- Without a wildcard for many characters, a selected path goes on behind a slash. -/
theorem eq_append_drop_of_like {p k : Text} (hpercent : '%' ∉ p)
    (h : LikePattern.likePrefix (withSlash p) k = true) :
    ∃ k', k = k' ++ '/' :: k.drop (withSlash p).length := by
  obtain ⟨d, hd, hnot, -⟩ := exists_withSlash p
  rw [hd, LikePattern.likePrefix, List.append_assoc] at h
  obtain ⟨k', rest, rfl, hlength, hrest⟩ := LikePattern.like_append h
  obtain ⟨rest, rfl, -⟩ := LikePattern.like_sign (by decide) (by decide) hrest
  refine ⟨k', ?_⟩
  rw [hd, List.length_append, List.length_singleton, ← hlength (hnot hpercent)]
  simp

/-- What an entry of a listing may be named. -/
def NameOk (p : Text) (e : EntryInfo) : Prop :=
  '/' ∉ e.name ∧ ('%' ∉ p → e.isDirectory = true → e.name ≠ dotdot)

theorem listFile_nameOk {p : Text} {results : Table Text EntryInfo} {x : Text × FileRow}
    (hresults : results.Forall fun _ e => NameOk p e) (hx : PlainAbove x.1)
    (hlike : LikePattern.likePrefix (withSlash p) x.1 = true) :
    (listFile (withSlash p) results x).Forall fun _ e => NameOk p e := by
  unfold listFile
  dsimp only
  split_ifs with hnil hslash
  · exact hresults
  · obtain ⟨rest, hrest⟩ := exists_eq_takeWhile_append hslash
    refine hresults.insert ⟨fun hmem => ?_, fun hpercent _ hdots => ?_⟩
    · simpa using List.mem_takeWhile_imp hmem
    · -- the name is one of the directories of the path
      obtain ⟨k', hk'⟩ := eq_append_drop_of_like hpercent hlike
      dsimp only at hdots
      rw [hdots] at hrest
      rw [hk', plainAbove_append_iff, hrest, plainAbove_append_iff] at hx
      exact (plain_name_iff (by decide)).mp hx.2.1 rfl
  · exact hresults.put ⟨hslash, fun _ h => Bool.noConfusion h⟩

theorem listSubdirectory_nameOk {p : Text} {results : Table Text EntryInfo} {x : Text × Time}
    (hresults : results.Forall fun _ e => NameOk p e) (hx : Text.Plain x.1)
    (hlike : LikePattern.likePrefix (withSlash p) x.1 = true) :
    (listSubdirectory (withSlash p) results x).Forall fun _ e => NameOk p e := by
  unfold listSubdirectory
  dsimp only
  split_ifs with hnil hslash
  · exact hresults
  · exact hresults
  · refine hresults.insert ⟨hslash, fun hpercent _ => ?_⟩
    obtain ⟨k', hk'⟩ := eq_append_drop_of_like hpercent hlike
    rw [hk', plain_append_iff, ← plain_rstrip_iff (p := x.1.drop _), plain_name_iff hslash] at hx
    exact hx.2

theorem nameOk_of_mem_listEntries {s : MetadataStore} (hs : s.WellPlaced) {p : Text}
    {e : EntryInfo} (he : e ∈ s.listEntries p) : NameOk p e := by
  unfold listEntries at he
  dsimp only at he
  obtain ⟨x, hx, rfl⟩ := List.mem_map.mp he
  have hempty : (Table.empty : Table Text EntryInfo).Forall fun _ e => NameOk p e :=
    Table.forall_empty _
  have hfiles : ((s.files.rows.filter fun x =>
      LikePattern.likePrefix (withSlash p) x.1 && !x.2.deleted).foldl (listFile (withSlash p))
        Table.empty).Forall fun _ e => NameOk p e := by
    refine List.foldlRecOn (motive := fun results => Table.Forall results fun _ e => NameOk p e)
      _ _ hempty fun results hresults y hy => ?_
    obtain ⟨hrow, hsel⟩ := List.mem_filter.mp hy
    rw [Bool.and_eq_true] at hsel
    exact listFile_nameOk hresults (hs.files y.1 y.2 (Table.get_of_mem_rows hrow)).1 hsel.1
  have hall := List.foldlRecOn (motive := fun results => Table.Forall results fun _ e => NameOk p e)
    (s.directories.rows.filter fun x => LikePattern.likePrefix (withSlash p) x.1)
    (listSubdirectory (withSlash p)) hfiles fun results hresults y hy => by
      obtain ⟨hrow, hsel⟩ := List.mem_filter.mp hy
      exact listSubdirectory_nameOk hresults (hs.directories y.1 y.2 (Table.get_of_mem_rows hrow)) hsel
  exact hall x.1 x.2 (Table.get_of_mem_rows hx)

/-- A path selected below a directory `".."` has that directory. -/
theorem not_plainAbove_of_like_dotdot {p k : Text}
    (h : LikePattern.likePrefix (withSlash (p ++ '/' :: dotdot)) k = true) : ¬ PlainAbove k := by
  have hslash : withSlash (p ++ '/' :: dotdot) = p ++ ['/', '.', '.', '/'] := by
    simp [withSlash, endsWith, dotdot]
  rw [hslash, LikePattern.likePrefix, List.append_assoc] at h
  obtain ⟨k', rest₁, rfl, -, h₁⟩ := LikePattern.like_append h
  obtain ⟨rest₂, rfl, h₂⟩ := LikePattern.like_sign (by decide) (by decide) h₁
  obtain ⟨rest₃, rfl, h₃⟩ := LikePattern.like_sign (by decide) (by decide) h₂
  obtain ⟨rest₄, rfl, h₄⟩ := LikePattern.like_sign (by decide) (by decide) h₃
  obtain ⟨rest, rfl, -⟩ := LikePattern.like_sign (by decide) (by decide) h₄
  rw [plainAbove_append_iff, show '.' :: '.' :: '/' :: rest = dotdot ++ '/' :: rest from rfl,
    plainAbove_append_iff]
  exact fun hall => (plain_name_iff (by decide)).mp hall.2.1 rfl

/-- Nothing is shown in a directory `".."`. -/
theorem listEntries_dotdot {s : MetadataStore} (hs : s.WellPlaced) (p : Text) :
    s.listEntries (p ++ '/' :: dotdot) = [] := by
  have hfiles : (s.files.rows.filter fun x =>
      LikePattern.likePrefix (withSlash (p ++ '/' :: dotdot)) x.1 && !x.2.deleted) = [] := by
    refine List.filter_eq_nil_iff.mpr fun x hx hsel => ?_
    rw [Bool.and_eq_true] at hsel
    exact not_plainAbove_of_like_dotdot hsel.1 (hs.files x.1 x.2 (Table.get_of_mem_rows hx)).1
  have hdirs : (s.directories.rows.filter fun x =>
      LikePattern.likePrefix (withSlash (p ++ '/' :: dotdot)) x.1) = [] := by
    refine List.filter_eq_nil_iff.mpr fun x hx hsel => ?_
    exact not_plainAbove_of_like_dotdot hsel
      (hs.directories x.1 x.2 (Table.get_of_mem_rows hx)).above
  unfold listEntries
  simp only [hfiles, hdirs]
  rfl

/-! ### What the statements leave -/

theorem WellPlaced.insert {s : MetadataStore} (hs : s.WellPlaced) {p place : Text}
    (hp : PlainAbove p) (hplace : GoodPlace place) (id : SourceId) (size : Nat) (c m : Time)
    (d : Option DeviceId) : (s.insert p id place size c m d).WellPlaced := by
  unfold MetadataStore.insert
  split
  · exact ⟨hs.files.update fun r h => ⟨h.1, hplace⟩, hs.directories⟩
  · exact ⟨hs.files.insert ⟨hp, hplace⟩, hs.directories⟩

theorem WellPlaced.update {s : MetadataStore} (hs : s.WellPlaced) (p : Text) (size : Nat) (m : Time)
    (d : Option DeviceId) (id : Option SourceId) {place : Option Text}
    (hplace : ∀ q, place = some q → GoodPlace q) : (s.update p size m d id place).WellPlaced := by
  refine ⟨hs.files.update fun r h => ⟨h.1, ?_⟩, hs.directories⟩
  cases place with
  | none => exact h.2
  | some q => exact hplace q rfl

theorem WellPlaced.delete {s : MetadataStore} (hs : s.WellPlaced) (p : Text) (now : Time) :
    (s.delete p now).WellPlaced :=
  ⟨hs.files.update fun _ h => h, hs.directories⟩

theorem WellPlaced.renamePath {s s' : MetadataStore} (hs : s.WellPlaced) {old new : Text}
    (hnew : PlainAbove new) (h : s.renamePath old new = some s') : s'.WellPlaced := by
  obtain ⟨files, hfiles, rfl⟩ := Option.map_eq_some_iff.mp h
  exact ⟨hs.files.rename? (fun r hr => ⟨hnew, hr.2⟩) hfiles, hs.directories⟩

/-- A selected path is moved below the new directory. -/
theorem moved_eq {src k : Text} (dst : Text) (hpercent : '%' ∉ src)
    (h : LikePattern.likePrefix (withSlash src) k = true) :
    ∃ k' rest d, k = k' ++ '/' :: rest ∧ (Text.Plain d ↔ Text.Plain dst) ∧
      moved (withSlash src) (withSlash dst) k = d ++ '/' :: rest := by
  obtain ⟨k', hk'⟩ := eq_append_drop_of_like hpercent h
  obtain ⟨d, hd, -, hplain⟩ := exists_withSlash dst
  refine ⟨k', _, d, hk', hplain, ?_⟩
  rw [moved, hd, List.append_assoc, List.singleton_append]

theorem WellPlaced.renameDirectory {s : MetadataStore} (hs : s.WellPlaced) {src dst : Text}
    (hpercent : '%' ∉ src) (hdst : Text.Plain dst) :
    (s.renameDirectory (withSlash src) (withSlash dst)).1.WellPlaced := by
  have hmovedFile : ∀ k, LikePattern.likePrefix (withSlash src) k = true → PlainAbove k →
      PlainAbove (moved (withSlash src) (withSlash dst) k) := by
    intro k hlike hk
    obtain ⟨k', rest, d, rfl, hd, hmoved⟩ := moved_eq dst hpercent hlike
    rw [hmoved, plainAbove_append_iff, hd]
    exact ⟨hdst, (plainAbove_append_iff.mp hk).2⟩
  have hmovedDir : ∀ k, LikePattern.likePrefix (withSlash src) k = true → Text.Plain k →
      Text.Plain (moved (withSlash src) (withSlash dst) k) := by
    intro k hlike hk
    obtain ⟨k', rest, d, rfl, hd, hmoved⟩ := moved_eq dst hpercent hlike
    rw [hmoved, plain_append_iff, hd]
    exact ⟨hdst, (plain_append_iff.mp hk).2⟩
  unfold MetadataStore.renameDirectory
  split
  · exact hs
  · rename_i files hfiles
    have hfiles' := hs.files.renameWhere? (fun k r hlike hk => ⟨hmovedFile k hlike hk.1, hk.2⟩) hfiles
    split
    · exact ⟨hfiles', hs.directories⟩
    · rename_i directories hdirectories
      exact ⟨hfiles', hs.directories.renameWhere? (fun k r hlike hk => hmovedDir k hlike hk)
        hdirectories⟩

end MetadataStore

namespace JbodManager

/-- The call's path leads below the data root of its source. -/
def Confined (roots : SourceId → Text) (c : SourceCall) : Prop :=
  StrictlyInside (roots c.sourceId) c.physicalPath

/-- An operation that leaves this volume has made these calls. -/
structure Stays (roots : SourceId → Text) (j : JbodManager) (calls : List SourceCall) : Prop where
  placed : j.metadataStore.WellPlaced
  confined : ∀ c ∈ calls, Confined roots c

variable {roots : SourceId → Text} {j : JbodManager}

theorem Stays.append {j' : JbodManager} {a b : List SourceCall} (h : Stays roots j a)
    (h' : Stays roots j' b) : Stays roots j' (a ++ b) := by
  refine ⟨h'.placed, fun c hc => ?_⟩
  rcases List.mem_append.mp hc with hc | hc
  · exact h.confined c hc
  · exact h'.confined c hc

theorem goodPlace_of_lookup (h : j.metadataStore.WellPlaced) {p : Text} {row : FileRow}
    (hrow : j.metadataStore.lookup p = some row) : GoodPlace row.physicalPath :=
  (h.files p row (MetadataStore.lookup_eq_some_iff.mp hrow).1).2

theorem confined_recordCalls {row : FileRow} (h : GoodPlace row.physicalPath) (op : SourceOp) :
    ∀ c ∈ j.recordCalls row op, Confined roots c := by
  intro c hc
  rcases j.recordCalls_eq row op with ⟨-, hcalls⟩ | ⟨s, -, -, hcalls⟩
  · rw [hcalls] at hc
    cases hc
  · rw [hcalls, List.mem_singleton] at hc
    rw [hc]
    exact h.inside _

theorem metadataStore_readFile (j : JbodManager) (remote : RemoteRead) (p : Text) :
    (j.readFile remote p).2.metadataStore = j.metadataStore := by
  have hlocal : ∀ row, (j.readLocal row).2.metadataStore = j.metadataStore := by
    intro row
    unfold readLocal
    cases j.sources.get row.sourceId with
    | none => rfl
    | some s =>
        dsimp only [onSource]
        split_ifs
        · rfl
        · rcases s.read row.physicalPath with ⟨_ | _, s'⟩ <;> rfl
  have hremote : ∀ owner row, (j.readRemote remote owner row).2.metadataStore = j.metadataStore := by
    intro owner row
    unfold readRemote
    split <;> rfl
  unfold readFile
  cases j.metadataStore.lookup p with
  | none => rfl
  | some row =>
      dsimp only
      cases row.deviceId with
      | none => exact hlocal row
      | some owner =>
          dsimp only
          split_ifs
          · exact hlocal row
          · exact hremote owner row

theorem metadataStore_deleteFile_cases (j : JbodManager) (now : Time) (p : Text) :
    (j.deleteFile now p).2.metadataStore = j.metadataStore ∨
      (j.deleteFile now p).2.metadataStore = j.metadataStore.delete p now := by
  unfold deleteFile
  cases j.metadataStore.lookup p with
  | none => exact Or.inl rfl
  | some row =>
      dsimp only [onSource]
      split_ifs
      · exact Or.inr rfl
      · cases j.sources.get row.sourceId with
        | none => exact Or.inr rfl
        | some s =>
            dsimp only
            split_ifs
            · exact Or.inr rfl
            · rcases s.delete row.physicalPath with ⟨e | _, s'⟩
              · rcases e with (_ | _ | _ | _) | _ | _
                · exact Or.inr rfl
                all_goals exact Or.inl rfl
              · exact Or.inr rfl

theorem metadataStore_discardPartial (j : JbodManager) (id : SourceId) (p : Text) (e : JbodError) :
    (j.discardPartial id p e).2.metadataStore = j.metadataStore := by
  unfold discardPartial
  cases j.sources.get id with
  | none => rfl
  | some s =>
      dsimp only [onSource]
      split
      · rfl
      · rfl
      · rcases s.delete p with ⟨_ | _, s'⟩ <;> rfl

theorem stays_readFile (h : j.metadataStore.WellPlaced) (remote : RemoteRead) (p : Text) :
    Stays roots (j.readFile remote p).2 (j.readFileCalls p) := by
  refine ⟨?_, fun c hc => ?_⟩
  · rwa [metadataStore_readFile]
  · unfold readFileCalls at hc
    split at hc
    · cases hc
    · rename_i row hrow
      split_ifs at hc
      · cases hc
      · exact confined_recordCalls (goodPlace_of_lookup h hrow) _ c hc

theorem stays_deleteFile (h : j.metadataStore.WellPlaced) (now : Time) (p : Text) :
    Stays roots (j.deleteFile now p).2 (j.deleteFileCalls p) := by
  refine ⟨?_, fun c hc => ?_⟩
  · rcases j.metadataStore_deleteFile_cases now p with hstore | hstore
    · rwa [hstore]
    · rw [hstore]
      exact h.delete p now
  · unfold deleteFileCalls at hc
    split at hc
    · cases hc
    · rename_i row hrow
      split_ifs at hc
      · cases hc
      · exact confined_recordCalls (goodPlace_of_lookup h hrow) _ c hc

/-- The path of a new file, as far as it becomes part of a place. -/
structure GoodTarget (uuid p : Text) : Prop where
  fresh : IsUuidHex uuid
  above : PlainAbove p
  place : Plain (turnBackslashes (generatePhysicalPath uuid p))

theorem GoodTarget.goodPlace {uuid p : Text} (h : GoodTarget uuid p) :
    GoodPlace (generatePhysicalPath uuid p) := goodPlace_generatePhysicalPath h.fresh h.place

/-- A write at a new path makes its calls there. -/
theorem physicalPath_of_mem_writeNewCalls {reading : Reading} {p : Text} {encrypted : Bytes}
    {c : SourceCall} (hc : c ∈ j.writeNewCalls reading p encrypted) :
    c.physicalPath = generatePhysicalPath reading.uuid p := by
  unfold writeNewCalls at hc
  split at hc
  · cases hc
  · dsimp only at hc
    split at hc
    · cases hc
    · split at hc
      · rw [List.mem_singleton.mp hc]
      · split at hc
        · simp only [List.mem_cons, List.not_mem_nil, or_false] at hc
          rcases hc with rfl | rfl | rfl <;> rfl
        · simp only [List.mem_cons, List.not_mem_nil, or_false] at hc
          rcases hc with rfl | rfl <;> rfl

theorem stays_writeNew {reading : Reading} {p : Text} {encrypted : Bytes}
    {failure : SourceError → JbodError} {record : JbodManager → SourceId → JbodManager}
    (h : j.metadataStore.WellPlaced) (htarget : GoodTarget reading.uuid p)
    (hrecord : ∀ j : JbodManager, ∀ id, j.metadataStore.WellPlaced →
      (record j id).metadataStore.WellPlaced) :
    Stays roots (j.writeNew reading p encrypted failure record).2
      (j.writeNewCalls reading p encrypted) := by
  refine ⟨?_, fun c hc => ?_⟩
  · unfold writeNew
    cases j.selectSource reading.diskFree encrypted.length with
    | none => exact h
    | some id =>
        dsimp only
        split
        · exact h
        · split
          · rename_i hop
            obtain ⟨s', -, rfl⟩ := onSource_eq hop
            rw [metadataStore_discardPartial]
            exact h
          · rename_i hop
            obtain ⟨s', -, rfl⟩ := onSource_eq hop
            exact hrecord _ id h
  · rw [Confined, physicalPath_of_mem_writeNewCalls hc]
    exact htarget.goodPlace.inside _

theorem stays_writeFile (h : j.metadataStore.WellPlaced) {reading : Reading} {p : Text}
    (htarget : GoodTarget reading.uuid p) (data : Bytes) :
    Stays roots (j.writeFile reading p data).2 (j.writeFileCalls reading p data) := by
  unfold writeFile writeFileCalls
  dsimp only
  cases hlookup : j.metadataStore.lookup p with
  | none =>
      dsimp only
      rw [createFile_eq]
      exact stays_writeNew h htarget fun j id hj =>
        hj.insert htarget.above htarget.goodPlace id data.length reading.now reading.now j.deviceId
  | some existing =>
      dsimp only
      split_ifs
      · rw [takeoverWrite_eq]
        refine stays_writeNew h htarget fun j id hj => ?_
        refine hj.update p data.length reading.now j.deviceId (some id) fun q hq => ?_
        rw [← Option.some_inj.mp hq]
        exact htarget.goodPlace
      · refine ⟨?_, confined_recordCalls (goodPlace_of_lookup h hlookup) _⟩
        unfold overwrite
        cases j.sources.get existing.sourceId with
        | none => exact h
        | some s =>
            dsimp only [onSource]
            split_ifs
            · exact h
            · rcases s.write existing.physicalPath (j.encrypt reading.iv data) with ⟨e | _, s'⟩
              · exact h
              · exact h.update p data.length reading.now j.deviceId none fun q hq => by cases hq

theorem stays_copyFile (h : j.metadataStore.WellPlaced) (remote : RemoteRead) {reading : Reading}
    (src : Text) {dst : Text} (htarget : GoodTarget reading.uuid dst) :
    Stays roots (j.copyFile remote reading src dst).2 (j.copyFileCalls remote reading src dst) := by
  have hread : Stays roots (j.readFile remote src).2 (j.readFileCalls src) :=
    stays_readFile h remote src
  unfold copyFile copyFileCalls
  obtain ⟨result, j', hj'⟩ : ∃ result j', j.readFile remote src = (result, j') := ⟨_, _, rfl⟩
  rw [hj'] at hread ⊢
  cases result with
  | error e =>
      dsimp only
      rwa [List.append_nil]
  | ok data => exact hread.append (stays_writeFile hread.placed htarget data)

theorem confined_everySourceCalls {calls : SourceId → StorageSource → List SourceCall}
    (h : ∀ id s, ∀ c ∈ calls id s, Confined roots c) :
    ∀ c ∈ j.everySourceCalls calls, Confined roots c := by
  intro c hc
  obtain ⟨x, -, hx⟩ := List.mem_flatMap.mp hc
  split_ifs at hx
  · exact h x.1 x.2 c hx
  · cases hx

/-- One call on every source, with one path. -/
theorem confined_everySourceCalls_single {op : SourceOp} {p : Text}
    (h : ∀ root, StrictlyInside root p) :
    ∀ c ∈ j.everySourceCalls fun id _ => [⟨id, op, p⟩], Confined roots c := by
  refine confined_everySourceCalls fun id s c hc => ?_
  rw [List.mem_singleton.mp hc]
  exact h _

theorem stays_createDirectory (h : j.metadataStore.WellPlaced) (now : Time) {p : Text}
    (hplain : Plain p) (hsteps : steps p ≠ []) :
    Stays roots (j.createDirectory now p) (j.createDirectoryCalls p) :=
  ⟨⟨h.files, h.directories.insert (plain_rstrip_iff.mpr hplain)⟩,
    confined_everySourceCalls_single fun _ => strictlyInside_lstrip hplain hsteps⟩

theorem placed_moveFile (h : j.metadataStore.WellPlaced) (src : Text) {dst : Text}
    (hdst : PlainAbove dst) : (j.moveFile src dst).2.metadataStore.WellPlaced := by
  unfold moveFile
  split
  · exact h
  · split
    · exact h
    · rename_i hrename
      exact h.renamePath hdst hrename

theorem stays_moveDirectory (h : j.metadataStore.WellPlaced) {src dst : Text}
    (hpercent : '%' ∉ src) (hsrc : Plain src) (hsrc' : steps src ≠ []) (hdst : Plain dst)
    (hdst' : steps dst ≠ []) :
    Stays roots (j.moveDirectory src dst).2 (j.moveDirectoryCalls src dst) := by
  refine ⟨?_, fun c hc => ?_⟩
  · have hrename := h.renameDirectory hpercent hdst
    unfold moveDirectory
    dsimp only
    revert hrename
    rcases j.metadataStore.renameDirectory (MetadataStore.withSlash src)
      (MetadataStore.withSlash dst) with ⟨store, _ | _⟩
    · exact id
    · intro hrename
      dsimp only
      split
      · exact hrename
      · rename_i directories hdirectories
        exact ⟨hrename.files, hrename.directories.rename?
          (fun _ _ => plain_rstrip_iff.mpr hdst) hdirectories⟩
  · unfold moveDirectoryCalls at hc
    split at hc
    · cases hc
    · refine confined_everySourceCalls (fun id s c hc => ?_) c hc
      rw [Confined]
      rcases (mem_moveSourceCalls hc).2 with hpath | hpath
      · rw [hpath]
        exact strictlyInside_lstrip hsrc hsrc'
      · rw [hpath]
        exact strictlyInside_lstrip hdst hdst'

/-! ### The recursion of a directory's deletion -/

/-- A directory the recursion may come to. A `%` in its path has the listing cut names at wrong places,
so that `".."` may be shown; that happens two steps below the root at least. -/
def MayRemove (p : Text) : Prop :=
  (Plain p ∧ steps p ≠ [] ∧ ('%' ∈ p → 2 ≤ (steps p).length)) ∨
    ∃ q, p = q ++ '/' :: dotdot ∧ Plain q ∧ 2 ≤ (steps q).length

theorem MayRemove.inside {p : Text} (h : MayRemove p) (root : Text) :
    StrictlyInside root (lstrip '/' p) := by
  rcases h with ⟨hplain, hsteps, -⟩ | ⟨q, rfl, hplain, hsteps⟩
  · exact strictlyInside_lstrip hplain hsteps
  · exact strictlyInside_lstrip_dotdot hplain hsteps

theorem MayRemove.child {s : MetadataStore} (hs : s.WellPlaced) {p : Text} (h : MayRemove p)
    {e : EntryInfo} (he : e ∈ s.listEntries p) (hdir : e.isDirectory = true) :
    MayRemove (rstrip '/' p ++ '/' :: e.name) := by
  rcases h with ⟨hplain, hsteps, hpercent⟩ | ⟨q, rfl, -, -⟩
  · obtain ⟨hslash, hname⟩ := MetadataStore.nameOk_of_mem_listEntries hs he
    by_cases hdots : e.name = dotdot
    · have hmem : '%' ∈ p := by
        by_contra hnot
        exact hname hnot hdir hdots
      refine Or.inr ⟨rstrip '/' p, by rw [hdots], plain_rstrip_iff.mpr hplain, ?_⟩
      rw [steps_rstrip]
      exact hpercent hmem
    · refine Or.inl ⟨plain_append_iff.mpr ⟨plain_rstrip_iff.mpr hplain,
        (plain_name_iff hslash).mpr hdots⟩, ?_, fun hmem => ?_⟩
      · rw [steps_append, steps_rstrip]
        exact List.append_ne_nil_of_left_ne_nil hsteps _
      · rw [steps_append, steps_rstrip, List.length_append, steps_name hslash]
        have hone : 1 ≤ (steps p).length := List.length_pos_of_ne_nil hsteps
        rcases List.mem_append.mp hmem with hmem | hmem
        · have := hpercent ((List.rdropWhile_prefix _ _).sublist.mem hmem)
          omega
        · have hin : '%' ∈ e.name := (List.mem_cons.mp hmem).resolve_left (by decide)
          have hsilent : ¬ Silent e.name := by
            rintro (hnil | hdot)
            · rw [hnil] at hin
              cases hin
            · rw [hdot] at hin
              exact absurd hin (by decide)
          rw [if_neg hsilent, List.length_singleton]
          omega
  · rw [MetadataStore.listEntries_dotdot hs] at he
    cases he

theorem stays_deleteEntry {now : Time} {depth : Nat} {p : Text} {acc : Result Unit}
    {calls : List SourceCall} {entry : EntryInfo} (hacc : Stays roots acc.2 calls)
    (hbelow : ∀ j : JbodManager, j.metadataStore.WellPlaced → entry.isDirectory = true →
      Stays roots (deleteDirectory now depth j (rstrip '/' p ++ '/' :: entry.name)).2
        (deleteDirectoryCalls now depth j (rstrip '/' p ++ '/' :: entry.name))) :
    Stays roots (deleteEntry now depth p acc entry).2 (calls ++
      deleteEntryCalls (fun j p => deleteDirectoryCalls now depth j p) p acc entry) := by
  obtain ⟨result, j⟩ := acc
  unfold deleteEntry deleteEntryCalls
  cases result with
  | error e =>
      dsimp only
      rwa [List.append_nil]
  | ok _ =>
      dsimp only
      split_ifs with hdir
      · exact hacc.append (hbelow j hacc.placed hdir)
      · have hfile : Stays roots _ _ :=
          stays_deleteFile hacc.placed now (rstrip '/' p ++ '/' :: entry.name)
        split
        · rename_i hdelete
          rw [hdelete] at hfile
          exact hacc.append hfile
        · exact hacc.append hfile

theorem stays_deleteDirectory (now : Time) (depth : Nat) {j : JbodManager}
    (h : j.metadataStore.WellPlaced) {p : Text} (hp : MayRemove p) :
    Stays roots (deleteDirectory now depth j p).2 (deleteDirectoryCalls now depth j p) := by
  induction depth generalizing j p with
  | zero => exact ⟨h, fun c hc => by cases hc⟩
  | succ depth ih =>
      have hchild := deleteEntries_rule now depth p (j.metadataStore.listEntries p)
        (Q := fun j' calls => Stays roots j' calls)
        (fun acc calls entry hentry hacc => stays_deleteEntry hacc fun j' hj' hdir =>
          ih hj' (hp.child h hentry hdir))
        ((.ok (), j), []) ⟨h, fun c hc => by cases hc⟩
      rcases deleteDirectory_calls_cases now depth j p with ⟨hdelete, hcalls⟩ | ⟨hdelete, hcalls⟩
      · rw [hdelete, hcalls]
        exact hchild
      · rw [hdelete, hcalls]
        exact hchild.append ⟨⟨hchild.placed.files, hchild.placed.directories.deleteWhere _⟩,
          confined_everySourceCalls_single hp.inside⟩

end JbodManager

/-! ### The commands -/

namespace CliPaths

open JbodManager

/-- What the commands are given, and what their calls read from outside. `put` has read its local file;
`depth` is what the stack has left. -/
inductive Command where
  | put (reading : Reading) (localPath remote : Text) (data : Bytes)
  | rm (now : Time) (path : Text)
  | rmRecursive (now : Time) (depth : Nat) (path : Text)
  | mkdir (now : Time) (path : Text)
  | mv (src dst : Text)
  | cp (remote : RemoteRead) (reading : Reading) (src dst : Text)

/-- Where `put` writes: without a remote path, at the name of the local file, which `_vpath` does not
see. -/
def putTarget (localPath remote : Text) : Text :=
  if remote = [] then '/' :: basename localPath else vpath remote

/-- The volume after a command, and the calls of the command on its sources. -/
def exec (j : JbodManager) : Command → JbodManager × List SourceCall
  | .put reading localPath remote data =>
      let remote := putTarget localPath remote
      ((j.writeFile reading remote data).2, j.writeFileCalls reading remote data)
  | .rm now path => ((j.deleteFile now (vpath path)).2, j.deleteFileCalls (vpath path))
  | .rmRecursive now depth path =>
      ((deleteDirectory now depth j (vpath path)).2, deleteDirectoryCalls now depth j (vpath path))
  | .mkdir now path =>
      (j.createDirectory now (vpath path), j.createDirectoryCalls (vpath path))
  | .mv src dst =>
      if (j.metadataStore.lookup (vpath src)).isSome then ((j.moveFile (vpath src) (vpath dst)).2, [])
      else ((j.moveDirectory (vpath src) (vpath dst)).2, j.moveDirectoryCalls (vpath src) (vpath dst))
  | .cp remote reading src dst =>
      ((j.copyFile remote reading (vpath src) (vpath dst)).2,
        j.copyFileCalls remote reading (vpath src) (vpath dst))

/-- A volume and the calls made on its sources so far. -/
structure Session where
  jbod : JbodManager
  calls : List SourceCall := []

def step (s : Session) (command : Command) : Option Session :=
  let (jbod, calls) := exec s.jbod command
  some { jbod, calls := s.calls ++ calls }

/-- The calls made account for what has become of the sources. -/
theorem accounts_exec (j : JbodManager) (command : Command) :
    Accounts j (exec j command).1 (exec j command).2 := by
  cases command with
  | put reading localPath remote data => exact j.accounts_writeFile reading _ data
  | rm now path => exact j.accounts_deleteFile now (vpath path)
  | rmRecursive now depth path => exact accounts_deleteDirectory now depth j (vpath path)
  | mkdir now path => exact j.accounts_createDirectory now (vpath path)
  | mv src dst =>
      simp only [exec]
      split_ifs
      · apply Accounts.of_sources
        unfold moveFile
        split
        · rfl
        · split <;> rfl
      · exact j.accounts_moveDirectory (vpath src) (vpath dst)
  | cp remote reading src dst => exact j.accounts_copyFile remote reading (vpath src) (vpath dst)

theorem accounts_run {j : JbodManager} {s : Session} {commands : List Command}
    (hrun : Transitions.run step { jbod := j } commands = some s) : Accounts j s.jbod s.calls := by
  refine Transitions.run_preserves (P := fun s : Session => Accounts j s.jbod s.calls)
    (fun s command s' h hstep => ?_) (Accounts.of_sources rfl) hrun
  obtain rfl := Option.some_inj.mp hstep
  exact h.trans (accounts_exec s.jbod command)

/-- Every call stayed below the data root of its source, and every recorded place passes the path check
of the owner's server. -/
def Safe (roots : SourceId → Text) (s : Session) : Prop :=
  (∀ c ∈ s.calls, Confined roots c) ∧
    ∀ p row, s.jbod.metadataStore.lookupAny p = some row →
      P2PServer.validatePathErr (.str row.physicalPath) (roots row.sourceId) = none

/-- The UUID of a command is one. -/
def Command.Fresh : Command → Prop
  | .put reading .. => IsUuidHex reading.uuid
  | .cp _ reading .. => IsUuidHex reading.uuid
  | _ => True

/-- A directory that is not the root, and `".."` nowhere in its path. -/
def NamesDirectory (path : Text) : Prop := Plain path ∧ steps path ≠ []

instance (path : Text) : Decidable (NamesDirectory path) := inferInstanceAs (Decidable (_ ∧ _))

/-- The path of a new file makes no `".."` in a directory of the place. -/
def NamesFile (uuid path : Text) : Prop :=
  PlainAbove path ∧ Plain (turnBackslashes (generatePhysicalPath uuid path))

instance (uuid path : Text) : Decidable (NamesFile uuid path) := inferInstanceAs (Decidable (_ ∧ _))

/-- A command that is given no `".."` for a directory and no root to remove, make or move, and no `%`
in a directory it lists. -/
def Allowed (s : Session) : Command → Prop
  | .put reading localPath remote _ => NamesFile reading.uuid (putTarget localPath remote)
  | .rm _ _ => True
  | .rmRecursive _ _ path => NamesDirectory (vpath path) ∧ '%' ∉ vpath path
  | .mkdir _ path => NamesDirectory (vpath path)
  | .mv src dst =>
      if (s.jbod.metadataStore.lookup (vpath src)).isSome then PlainAbove (vpath dst)
      else NamesDirectory (vpath src) ∧ '%' ∉ vpath src ∧ NamesDirectory (vpath dst)
  | .cp _ reading _ dst => NamesFile reading.uuid (vpath dst)

/-- **One command.** -/
theorem stays_exec {roots : SourceId → Text} {s : Session}
    (h : s.jbod.metadataStore.WellPlaced) {command : Command} (hfresh : command.Fresh)
    (hallowed : Allowed s command) :
    Stays roots (exec s.jbod command).1 (exec s.jbod command).2 := by
  cases command with
  | put reading localPath remote data =>
      exact stays_writeFile h ⟨hfresh, hallowed.1, hallowed.2⟩ data
  | rm now path => exact stays_deleteFile h now (vpath path)
  | rmRecursive now depth path =>
      obtain ⟨⟨hplain, hsteps⟩, hpercent⟩ := hallowed
      exact stays_deleteDirectory now depth h
        (Or.inl ⟨hplain, hsteps, fun hmem => absurd hmem hpercent⟩)
  | mkdir now path => exact stays_createDirectory h now hallowed.1 hallowed.2
  | mv src dst =>
      simp only [Allowed] at hallowed
      simp only [exec]
      split_ifs at hallowed ⊢
      · exact ⟨placed_moveFile h (vpath src) hallowed, fun c hc => by cases hc⟩
      · obtain ⟨⟨hsrc, hsrc'⟩, hpercent, hdst, hdst'⟩ := hallowed
        exact stays_moveDirectory h hpercent hsrc hsrc' hdst hdst'
  | cp remote reading src dst =>
      exact stays_copyFile h remote (vpath src) ⟨hfresh, hallowed.1, hallowed.2⟩

/-- **Runs of allowed commands stay below the data roots.** -/
theorem statesMeet_safe {roots : SourceId → Text}
    (hroots : ∀ id, (roots id).head? = some '/' ∧ location (roots id) ≠ []) {start : Session}
    (hstart : start.jbod.metadataStore.WellPlaced) (hcalls : start.calls = [])
    {commands : List Command} (hfresh : ∀ command ∈ commands, command.Fresh)
    (hallowed : Transitions.StepsMeet step Allowed start commands) :
    Transitions.StatesMeet step (Safe roots) start commands := by
  have hsafe : ∀ s : Session, Stays roots s.jbod s.calls → Safe roots s := fun s hs =>
    ⟨hs.confined, fun p row hrow =>
      (hs.placed.files p row hrow).2.served (hroots row.sourceId).1 (hroots row.sourceId).2⟩
  refine Transitions.statesMeet_of_stepsMeet hsafe (fun s command s' hs hok hstep => ?_)
    ⟨hstart, fun c hc => by rw [hcalls] at hc; cases hc⟩
    (hallowed.and (Transitions.stepsMeet_of_mem hfresh start))
  obtain rfl := Option.some_inj.mp hstep
  exact hs.append (stays_exec hs.placed hok.2 hok.1)

/-- A fresh volume of one directory. -/
def freshSession : Session where
  jbod := {
    metadataStore := ⟨Table.empty, Table.empty⟩
    sources := Table.empty.put "disk" { kind := .directory } }

def freshReading : Reading :=
  { now := 0, uuid := List.replicate 32 'a', diskFree := fun _ => 100 }

theorem statesMeet_safe_docs : Transitions.StatesMeet step (Safe fun _ => "/data".toList)
    freshSession [.put freshReading "a.txt".toList "docs\\a.txt".toList [7],
      .rmRecursive 1 1000 "docs/".toList] := by
  have hput : NamesFile freshReading.uuid (putTarget "a.txt".toList "docs\\a.txt".toList) := by
    decide +kernel
  have hremove : NamesDirectory (vpath "docs/".toList) ∧ '%' ∉ vpath "docs/".toList := by decide
  refine statesMeet_safe (fun _ => by decide) ⟨Table.forall_empty _, Table.forall_empty _⟩ rfl
    (fun command hmem => ?_) ⟨hput, fun _ _ => ⟨hremove, fun _ _ => trivial⟩⟩
  simp only [List.mem_cons, List.not_mem_nil, or_false] at hmem
  rcases hmem with rfl | rfl
  · exact (by decide : IsUuidHex freshReading.uuid)
  · trivial

/-- The place beside the data root. -/
def escapedPlace : Text := "../".toList ++ List.replicate 32 'a' ++ "_x".toList

theorem not_strictlyInside_escapedPlace : ¬ StrictlyInside "/data".toList escapedPlace := by
  have hroot : location "/data".toList = ["data".toList] := by decide
  have hplace : location (joinPath "/data".toList escapedPlace) =
      [List.replicate 32 'a' ++ "_x".toList] := by decide
  rintro ⟨hstart, -⟩
  rw [hroot, hplace] at hstart
  exact absurd hstart (by decide)

theorem calls_put_escaped : (exec freshSession.jbod
    (.put freshReading "x".toList "../x".toList [7])).2 = [⟨"disk", .write [7], escapedPlace⟩] := by
  decide

/-- A file is put beside the data root. -/
theorem put_escapes : ¬ Transitions.StatesMeet step (Safe fun _ => "/data".toList) freshSession
    [.put freshReading "x".toList "../x".toList [7]] := by
  intro h
  obtain ⟨hcalls, -⟩ : Safe (fun _ => "/data".toList) _ := h.2 _ rfl
  apply not_strictlyInside_escapedPlace
  refine hcalls ⟨"disk", .write [7], escapedPlace⟩ ?_
  have hmem : (⟨"disk", .write [7], escapedPlace⟩ : SourceCall) ∈
      (exec freshSession.jbod (.put freshReading "x".toList "../x".toList [7])).2 := by
    rw [calls_put_escaped]
    exact List.mem_singleton_self _
  exact hmem

end CliPaths

end StardustFS
