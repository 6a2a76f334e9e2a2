import StardustFS.DirectoryRemoval
import StardustFS.MoveDirectory

/-! The recursive deletion of a directory after any history of a volume. The recursion follows the listings
of the records, while the files have their bytes where they were first written, so that a file moved out of
the directory before loses them with it. -/

namespace StardustFS

open MetadataStore (child Below)

namespace JbodManager

open MetadataStore (AtOrBelow Reached Plain)

/-! ### Histories -/

/-- Every file of this device is on its source, where that is in service. -/
def AllStored (j : JbodManager) : Prop :=
  ∀ p row s, j.Held p row → j.sources.get row.sourceId = some s → s.isActive = true →
    ∃ b, s.tree.file? row.location.2 = some b

theorem AllStored.allRemovable {j : JbodManager} (h : j.AllStored) : j.AllRemovable := by
  intro p row s hheld hs hactive
  obtain ⟨b, hb⟩ := h p row s hheld hs hactive
  exact Or.inl ⟨b, DirectoryTree.file?_eq_some_iff.mp hb⟩

/-- A file whose place is left alone stays on its source. -/
theorem AllStored.kept {j j' : JbodManager} {changed : Location → Prop} (h : j.AllStored)
    (hframe : SourcesFrame changed j j') {p : Text} {row : FileRow} {s' : StorageSource}
    (hheld : j.Held p row) (hplace : ¬ changed row.location)
    (hs' : j'.sources.get row.sourceId = some s') (hactive : s'.isActive = true) :
    ∃ b, s'.tree.file? row.location.2 = some b := by
  obtain ⟨s, hs, hsource⟩ := hframe.source row.sourceId s' hs'
  obtain ⟨b, hb⟩ := h p row s hheld hs (hsource.active hactive)
  exact ⟨b, (hsource.kept row.location.2 hplace).trans hb⟩

/-- The calls of a history: no directory is moved, and the UUID of a new file is in no record. -/
def CallOk (j : JbodManager) : VolumeCall → Prop
  | .writeFile reading virtualPath _ => j.FreshUuid reading virtualPath
  | .copyFile _ reading _ dstPath => j.FreshUuid reading dstPath
  | .moveDirectory _ _ => False
  | _ => True

/-- What holds along a history. -/
structure Kept (j : JbodManager) : Prop where
  apart : j.PlacesApart
  stored : j.AllStored

theorem Kept.of_records {j j' : JbodManager} (h : j.Kept)
    (hframe : SourcesFrame (fun _ => False) j j')
    (hheld : ∀ p row, j'.Held p row → j.Held p row) : j'.Kept :=
  ⟨h.apart.of_subset hheld, fun p row _ hrow hs hactive =>
    h.stored.kept hframe (hheld p row hrow) not_false hs hactive⟩

theorem Kept.writeFile {j : JbodManager} (h : j.Kept) {reading : Reading} {p : Text}
    (hfresh : j.FreshUuid reading p) (data : Bytes) : (j.writeFile reading p data).2.Kept := by
  obtain ⟨result, j', hwrite⟩ : ∃ result j', j.writeFile reading p data = (result, j') :=
    ⟨_, _, rfl⟩
  rw [hwrite]
  obtain ⟨hframe, hrecords⟩ := writeFile_sources hwrite
  refine ⟨placesApart_writeFile h.apart hfresh hwrite, fun q row s hrow hs hactive => ?_⟩
  cases result with
  | error e =>
      have hbefore := held_of_records (hrecords fun h => nomatch h) hframe.deviceId hrow
      refine h.stored.kept hframe hbefore ?_ hs hactive
      rintro (hpath | ⟨hok, -⟩)
      · exact hfresh.ne hbefore hpath
      · cases hok
  | ok _ =>
      obtain ⟨place, hw⟩ := writeFile_ok hwrite
      by_cases hq : q = p
      · -- the file that was written
        subst hq
        have hlookup := hrow.1
        dsimp only at hlookup
        rw [hw.lookup_self, Option.some_inj] at hlookup
        have hplace := writtenRow_place (j.metadataStore.lookupAny q) reading.now data.length
          j.deviceId place
        rw [hlookup] at hplace
        obtain ⟨s', hs', -, hfile⟩ := bytesAt_eq_some_iff.mp hw.bytesAt_self
        rw [← hplace] at hs' hfile
        obtain rfl := Option.some_inj.mp (hs'.symm.trans hs)
        exact ⟨_, hfile⟩
      · have hbefore := hw.held_of_ne hq hrow
        refine h.stored.kept hframe hbefore ?_ hs hactive
        rintro (hpath | ⟨-, existing, hexisting, howner, hplace⟩)
        · exact hfresh.ne hbefore hpath
        · exact hq (h.apart q p row existing hbefore ⟨hexisting, howner⟩ hplace)

theorem Kept.copyFile {j : JbodManager} (h : j.Kept) (remote : RemoteRead) {reading : Reading}
    (src : Text) {dst : Text} (hfresh : j.FreshUuid reading dst) :
    (j.copyFile remote reading src dst).2.Kept := by
  obtain ⟨result, j', hread⟩ : ∃ result j', j.readFile remote src = (result, j') := ⟨_, _, rfl⟩
  obtain ⟨hframe, hrecords, -⟩ := readFile_sources hread
  have hkept : j'.Kept := h.of_records hframe fun _ _ => held_of_records hrecords hframe.deviceId
  rw [JbodManager.copyFile, hread]
  cases result with
  | error e => exact hkept
  | ok data =>
      refine hkept.writeFile ?_ data
      rw [FreshUuid, hrecords]
      exact hfresh

theorem Kept.deleteFile {j : JbodManager} (h : j.Kept) (now : Time) (p : Text) :
    (j.deleteFile now p).2.Kept := by
  obtain ⟨result, j', hdelete⟩ : ∃ result j', j.deleteFile now p = (result, j') := ⟨_, _, rfl⟩
  rw [hdelete]
  refine ⟨placesApart_deleteFile h.apart hdelete, fun q row s hrow hs hactive => ?_⟩
  obtain ⟨hbefore, hne⟩ := held_deleteFile hdelete hrow
  refine h.stored.kept (deleteFile_sources hdelete).1 hbefore ?_ hs hactive
  rintro ⟨hok, gone, hgone, howner, hplace⟩
  exact hne hok (h.apart q p row gone hbefore ⟨hgone, howner⟩ hplace)

theorem Kept.moveFile {j : JbodManager} (h : j.Kept) (src dst : Text) :
    (j.moveFile src dst).2.Kept := by
  obtain ⟨result, j', hmove⟩ : ∃ result j', j.moveFile src dst = (result, j') := ⟨_, _, rfl⟩
  rw [hmove]
  have hframe : SourcesFrame (fun _ => False) j j' := by
    rcases moveFile_cases hmove with rfl | ⟨-, -, s, -, rfl, -⟩
    · exact SourcesFrame.refl _
    · exact (SourcesFrame.refl j).withRecords s _
  refine ⟨placesApart_moveFile h.apart hmove, fun q row s hrow hs hactive => ?_⟩
  rcases held_moveFile hmove hrow with ⟨hbefore, -⟩ | ⟨-, -, hbefore⟩
  · exact h.stored.kept hframe hbefore not_false hs hactive
  · exact h.stored.kept hframe hbefore not_false hs hactive

theorem Kept.createDirectory {j : JbodManager} (h : j.Kept) (now : Time) (p : Text) :
    (j.createDirectory now p).Kept := by
  refine h.of_records ⟨rfl, rfl, fun id s' hs' => ?_⟩ fun _ _ hrow => hrow
  unfold JbodManager.createDirectory onEverySource at hs'
  rw [Table.get_mapRows, Option.map_eq_some_iff] at hs'
  obtain ⟨s, hs, rfl⟩ := hs'
  refine ⟨s, hs, ?_⟩
  dsimp only
  split_ifs with hactive
  · rcases StorageSource.mkdir_cases hactive (Text.lstrip '/' p) with
      ⟨-, e, hmkdir⟩ | ⟨-, tree, hmake, hmkdir⟩
    · rw [hmkdir]
      exact StorageSource.Frame.raised s e false
    · rw [hmkdir]
      exact ⟨fun h => h, fun q _ => StorageSource.file?_makedirs hmake q⟩
  · exact StorageSource.Frame.refl s

/-- **The step lemma.** -/
theorem Kept.call {j j' : JbodManager} {c : VolumeCall} (h : j.Kept) (hok : CallOk j c)
    (hstep : j.call c = some j') : j'.Kept := by
  cases c with
  | writeFile reading p data => exact Option.some_inj.mp hstep ▸ h.writeFile hok data
  | copyFile remote reading src dst => exact Option.some_inj.mp hstep ▸ h.copyFile remote src hok
  | deleteFile now p => exact Option.some_inj.mp hstep ▸ h.deleteFile now p
  | moveFile src dst => exact Option.some_inj.mp hstep ▸ h.moveFile src dst
  | createDirectory now p => exact Option.some_inj.mp hstep ▸ h.createDirectory now p
  | moveDirectory src dst => exact hok.elim

/-- **The run lemma.** -/
theorem Kept.of_run {start j : JbodManager} {calls : List VolumeCall}
    (hstart : start.metadataStore = MetadataStore.initial)
    (hok : Transitions.StepsMeet JbodManager.call CallOk start calls)
    (hrun : Transitions.run JbodManager.call start calls = some j) : j.Kept := by
  have hnone : ∀ p row, ¬ start.Held p row := by
    rintro p row ⟨hrow, -⟩
    rw [hstart] at hrow
    cases hrow
  exact Transitions.run_invariant (fun _ _ _ h hc hstep => h.call hc hstep)
    ⟨fun p _ row _ hrow => absurd hrow (hnone p row), fun p row _ hrow => absurd hrow (hnone p row)⟩
    hok hrun

/-! ### Exactly the subtree -/

/-- The deletion returns; no file and no directory is left at or below the path, and every other live
file reads as before. -/
structure DeletesExactly (remote : RemoteRead) (d : Text) (j : JbodManager) (out : Result Unit) :
    Prop where
  returns : out.1 = .ok ()
  files : ∀ p, AtOrBelow d p → out.2.metadataStore.lookup p = none
  directories : ∀ p, AtOrBelow d p → out.2.metadataStore.directories.get p = none
  others : ∀ p row, j.metadataStore.lookup p = some row → ¬ AtOrBelow d p →
    ReadsAs remote j p out.2 p

/-- No live file has the path of the directory or of anything that is or contains something else; what
is registered below another name is below a registered name or a file; and the source of every other
file of this device that can be read has all the directories of the recursion, where it is a directory
source, and does not keep the file below the physical directory. -/
structure DeletesSafely (remote : RemoteRead) (d : Text) (j : JbodManager) : Prop where
  files : ∀ p, j.metadataStore.Live p → AtOrBelow d p → p ≠ d ∧ ¬ j.metadataStore.Registered p ∧
    ∀ q, Below p q → ¬ j.metadataStore.Live q ∧ ¬ j.metadataStore.Registered q
  connected : ∀ z name p, AtOrBelow d z → j.metadataStore.Registered p → Below (child z name) p →
    j.metadataStore.Registered (child z name) ∨
      ∃ q, j.metadataStore.Live q ∧ Below (child z name) q
  sources : ∀ p row data s, j.metadataStore.lookup p = some row → ¬ AtOrBelow d p →
    j.ownedElsewhere row = false → (j.readFile remote p).1 = .ok data →
    j.sources.get row.sourceId = some s →
    (s.kind = .directory → ∀ z, j.metadataStore.Reached d z →
      s.tree.isDirectory (StorageSource.resolve z) = true) ∧
    ¬ (s.tree.isDirectory (StorageSource.resolve d) = true ∧
      StorageSource.resolve d <+: row.location.2)

section Exactly

variable {remote : RemoteRead} {d : Text} {j j' : JbodManager}

/-- Where the files and the directories are apart and connected, the recursion comes to all of them. -/
theorem DeletesSafely.reaches (h : DeletesSafely remote d j) {z r : Text}
    (hz : j.metadataStore.Reached d z) (hr : ProperNames r) :
    (j.metadataStore.Live (z ++ '/' :: r) → j.metadataStore.ReachesFile d (z ++ '/' :: r)) ∧
      (j.metadataStore.Registered (z ++ '/' :: r) → j.metadataStore.Reached d (z ++ '/' :: r)) := by
  obtain ⟨n, hn⟩ : ∃ n, r.length ≤ n := ⟨_, Nat.le_refl _⟩
  induction n generalizing z r with
  | zero => exact absurd (List.eq_nil_of_length_eq_zero (Nat.le_zero.mp hn)) hr.ne_nil
  | succ n ih =>
      have hbelow : ∀ name : FileName, Below d (child z name) := hz.atOrBelow.below_child
      obtain ⟨name, rfl | ⟨r', rfl, hr'⟩⟩ := hr.cases
      · refine ⟨fun hlive => ⟨hlive, z, name, hz, rfl⟩, fun hreg => ?_⟩
        have hshown : j.metadataStore.ShowsDirectory (child z name) :=
          ⟨fun hlive => (h.files _ hlive (Or.inr (hbelow name))).2.1 hreg, Or.inl hreg⟩
        exact Reached.step hz hshown
      · have hin : Below (child z name) (child z name ++ '/' :: r') :=
          MetadataStore.below_iff.mpr ⟨r', rfl⟩
        have hlength : r'.length ≤ n := by
          rw [List.length_append, List.length_cons] at hn
          omega
        rw [← MetadataStore.child_append]
        constructor
        · intro hlive
          have hshown : j.metadataStore.ShowsDirectory (child z name) :=
            ⟨fun hfile => ((h.files _ hfile (Or.inr (hbelow name))).2.2 _ hin).1 hlive,
              Or.inr ⟨_, hlive, hin⟩⟩
          exact (ih (Reached.step hz hshown) hr' hlength).1 hlive
        · intro hreg
          have hshown : j.metadataStore.ShowsDirectory (child z name) :=
            ⟨fun hfile => ((h.files _ hfile (Or.inr (hbelow name))).2.2 _ hin).2 hreg,
              h.connected z name _ hz.atOrBelow hreg hin⟩
          exact (ih (Reached.step hz hshown) hr' hlength).2 hreg

/-- What is not below the directory is left alone. -/
theorem Removed.lookup_outside
    (h : Removed (j.metadataStore.ReachesFile d) (j.metadataStore.Reached d) j j') {p : Text}
    (hp : ¬ AtOrBelow d p) : j'.metadataStore.lookup p = j.metadataStore.lookup p :=
  h.fileKept p fun hfile => hp (Or.inr hfile.below)

/-- The bytes of a file outside are left where the source allows it. -/
theorem DeletesSafely.bytesAt (h : DeletesSafely remote d j) (hapart : j.PlacesApart)
    (hremoved : Removed (j.metadataStore.ReachesFile d) (j.metadataStore.Reached d) j j')
    {p : Text} {row : FileRow} {data b : Bytes} (hrow : j.metadataStore.lookup p = some row)
    (hp : ¬ AtOrBelow d p) (hheld : j.ownedElsewhere row = false)
    (hread : (j.readFile remote p).1 = .ok data) (hb : j.bytesAt row.location = some b) :
    j'.bytesAt row.location = some b := by
  obtain ⟨s, hs, hactive, hfile⟩ := bytesAt_eq_some_iff.mp hb
  obtain ⟨hready, hapart'⟩ := h.sources p row data s hrow hp hheld hread hs
  obtain ⟨s', hs', hpruned⟩ := hremoved.sources _ s hs
  refine bytesAt_eq_some_iff.mpr ⟨s', hs', hpruned.active_iff.mpr ⟨hactive, hready⟩, ?_⟩
  have hkept : s'.tree.get row.location.2 = s.tree.get row.location.2 := by
    refine hpruned.kept _ ?_ fun z hz hdir hprefix => ?_
    · rintro ⟨q, row', hq, hheld', hplace⟩
      obtain rfl := hapart q p row' row hheld' ⟨hrow, hheld⟩ hplace
      exact hp (Or.inr hq.below)
    · -- above a directory of the source are directories
      have hd := MetadataStore.resolve_of_reached hz
      refine hapart' ⟨?_, hd.trans hprefix⟩
      rw [DirectoryTree.isDirectory_iff] at hdir ⊢
      by_cases heq : StorageSource.resolve d = StorageSource.resolve z
      · rw [heq]
        exact hdir
      · exact s.tree.closed _ _ hdir _ hd heq
  rw [DirectoryTree.file?, hkept]
  exact hfile

theorem deletesExactly_of_safely (hplain : ∀ r, j.metadataStore.Live (d ++ '/' :: r) ∨
      j.metadataStore.Registered (d ++ '/' :: r) → ProperNames r)
    (hapart : j.PlacesApart)
    (hremoved : Removed (j.metadataStore.ReachesFile d) (j.metadataStore.Reached d) j j')
    (h : DeletesSafely remote d j) : DeletesExactly remote d j (.ok (), j') := by
  refine ⟨rfl, fun p hp => ?_, fun p hp => ?_, fun p row hrow hp => ?_⟩
  · by_cases hfile : j.metadataStore.ReachesFile d p
    · exact hremoved.fileGone p hfile
    · refine (hremoved.fileKept p hfile).trans ?_
      cases hrow : j.metadataStore.lookup p with
      | none => rfl
      | some row =>
          rcases hp with rfl | hp
          · exact absurd rfl (h.files p ⟨row, hrow⟩ (Or.inl rfl)).1
          · obtain ⟨r, rfl⟩ := MetadataStore.below_iff.mp hp
            exact absurd ((h.reaches Reached.self (hplain r (Or.inl ⟨row, hrow⟩))).1 ⟨row, hrow⟩)
              hfile
  · by_cases hdir : j.metadataStore.Reached d p
    · exact hremoved.dirGone p hdir
    · refine (hremoved.dirKept p hdir).trans ?_
      cases ht : j.metadataStore.directories.get p with
      | none => rfl
      | some t =>
          rcases hp with rfl | hp
          · exact absurd Reached.self hdir
          · obtain ⟨r, rfl⟩ := MetadataStore.below_iff.mp hp
            exact absurd ((h.reaches Reached.self (hplain r (Or.inr ⟨t, ht⟩))).2 ⟨t, ht⟩) hdir
  · have hrow' := (hremoved.lookup_outside hp).trans hrow
    refine ⟨⟨row, hrow'⟩, fun data hread => ?_⟩
    apply readFile_of_row hremoved.deviceId hremoved.engine hrow hrow' hread
    intro hheld b hb
    exact h.bytesAt hapart hremoved hrow hp hheld hread hb

theorem deletesSafely_of_exactly
    (hremoved : Removed (j.metadataStore.ReachesFile d) (j.metadataStore.Reached d) j j')
    (h : DeletesExactly remote d j (.ok (), j')) : DeletesSafely remote d j := by
  have hfile : ∀ p, j.metadataStore.Live p → AtOrBelow d p → j.metadataStore.ReachesFile d p := by
    rintro p ⟨row, hrow⟩ hp
    by_contra hnot
    have hgone := h.files p hp
    dsimp only at hgone
    rw [hremoved.fileKept p hnot, hrow] at hgone
    cases hgone
  have hdir : ∀ p, j.metadataStore.Registered p → AtOrBelow d p → j.metadataStore.Reached d p := by
    rintro p ⟨t, ht⟩ hp
    by_contra hnot
    have hgone := h.directories p hp
    dsimp only at hgone
    rw [hremoved.dirKept p hnot, ht] at hgone
    cases hgone
  refine ⟨fun p hlive hp => ?_, fun z name p hz hreg hp => ?_,
    fun p row data s hrow hp hheld hread hs => ?_⟩
  · have hbelow := (hfile p hlive hp).below
    refine ⟨hbelow.ne.symm, fun hreg => ?_, fun q hq => ⟨fun hlive' => ?_, fun hreg => ?_⟩⟩
    · exact ((hdir p hreg hp).above (Or.inl rfl) hbelow).2.1 hlive
    · obtain ⟨-, z, name, hz, rfl⟩ := hfile q hlive' (Or.inr (hbelow.trans hq))
      exact (hz.above hq.of_child hbelow).2.1 hlive
    · exact ((hdir q hreg (Or.inr (hbelow.trans hq))).above (Or.inr hq) hbelow).2.1 hlive
  · have hbelow : Below d (child z name) := hz.below_child name
    exact ((hdir p hreg (Or.inr (hbelow.trans hp))).above (Or.inr hp) hbelow).2.2
  · have hrow' := (hremoved.lookup_outside hp).trans hrow
    have hread' := (h.others p row hrow hp).2 data hread
    have hheld' : j'.ownedElsewhere row = false := by
      rw [ownedElsewhere, hremoved.deviceId]
      exact hheld
    obtain ⟨b, hb, -⟩ := (readFile_eq_ok_iff remote hrow' hheld').mp hread'
    obtain ⟨s', hs', hactive, hfile'⟩ := bytesAt_eq_some_iff.mp hb
    obtain ⟨t, ht, hpruned⟩ := hremoved.source_before hs'
    obtain rfl := Option.some_inj.mp (hs.symm.trans ht)
    refine ⟨(hpruned.active_iff.mp hactive).2, fun hunder => ?_⟩
    have hgone := hpruned.cleared hactive d row.location.2 Reached.self hunder.1 hunder.2
    rw [DirectoryTree.file?, hgone] at hfile'
    cases hfile'

end Exactly

/-- A file is written below a directory and moved out of it. -/
def fileMovedOut : List VolumeCall :=
  [.createDirectory 0 "/d".toList,
    .writeFile { now := 0, uuid := List.replicate 32 'a', diskFree := fun _ => 100 } "/d/f".toList [7],
    .moveFile "/d/f".toList "/g".toList]

end JbodManager

end StardustFS
