import StardustFS.MergeCoverage
import StardustFS.SnapshotSuccession

/-! Versions of one path across the devices. A version is a counter of its row: it starts again at 1
where a path has no row, and a collected tombstone leaves none. What keeps two synced records of one
version the same is that an upload never replaces a record by an older one or by another of the same
version; a merge only takes over what the server has. -/

namespace StardustFS

/-- Equal in the columns that say what the file is and where. -/
def SameFile (r r' : FileRow) : Prop :=
  r.deleted = r'.deleted ∧ r.place = r'.place ∧ r.fileSize = r'.fileSize

theorem SameFile.refl (r : FileRow) : SameFile r r := ⟨rfl, rfl, rfl⟩

theorem SameFile.symm {r r' : FileRow} (h : SameFile r r') : SameFile r' r :=
  ⟨h.1.symm, h.2.1.symm, h.2.2.symm⟩

theorem SameFile.trans {r r' r'' : FileRow} (h : SameFile r r') (h' : SameFile r' r'') :
    SameFile r r'' :=
  ⟨h.1.trans h'.1, h.2.1.trans h'.2.1, h.2.2.trans h'.2.2⟩

theorem SameRecord.sameFile {r r' : FileRow} (h : SameRecord r r') : SameFile r r' :=
  ⟨h.2.1, h.2.2.1, h.2.2.2.1⟩

/-- The row may take the record's place: it is newer, or the same. -/
def Follows (r rec : FileRow) : Prop :=
  rec.version < r.version ∨ rec.version = r.version ∧ SameFile r rec

theorem Follows.version_le {r rec : FileRow} (h : Follows r rec) : rec.version ≤ r.version :=
  h.elim le_of_lt fun h => le_of_eq h.1

theorem Follows.sameFile {r rec : FileRow} (h : Follows r rec) (hversion : r.version = rec.version) :
    SameFile r rec :=
  h.elim (fun hlt => absurd hversion (ne_of_gt hlt)) And.right

namespace SyncClient

variable {timestamp : Text → Text}

/-! ### Synced rows after a merge -/

/-- A merge makes a row synced by taking over the record. -/
theorem lookupAny_of_synced_mergeRecord {c : SyncClient} {x : Text × FileRow} {p : Text} {r : FileRow}
    (hr : (mergeRecord timestamp c x).store.lookupAny p = some r) (hsynced : r.syncStatus = .synced) :
    c.store.lookupAny p = some r ∨ p = x.1 ∧ SameRecord r x.2 := by
  by_cases hp : p = x.1
  · subst hp
    by_cases hsettled : Settled timestamp c x
    · rw [mergeRecord_of_settled hsettled] at hr
      exact Or.inl hr
    · obtain ⟨r', hr', -, hsame, -⟩ := lookupAny_mergeRecord_of_not_settled hsettled
      obtain rfl := Option.some_inj.mp (hr.symm.trans hr')
      exact Or.inr ⟨rfl, hsame⟩
  · left
    rw [lookupAny_mergeRecord_of_ne c timestamp x.2 hp] at hr
    split_ifs at hr
    · obtain ⟨r', -, rfl⟩ := Option.map_eq_some_iff.mp hr
      cases hsynced
    · exact hr

theorem lookupAny_of_synced_foldl_mergeRecord {rows : List (Text × FileRow)} {c : SyncClient}
    {p : Text} {r : FileRow} (hr : (rows.foldl (mergeRecord timestamp) c).store.lookupAny p = some r)
    (hsynced : r.syncStatus = .synced) :
    c.store.lookupAny p = some r ∨ ∃ rec, (p, rec) ∈ rows ∧ SameRecord r rec := by
  induction rows generalizing c with
  | nil => exact Or.inl hr
  | cons x rows ih =>
      rcases ih hr with hmid | ⟨rec, hrec, hsame⟩
      · rcases lookupAny_of_synced_mergeRecord hmid hsynced with hbefore | ⟨rfl, hsame⟩
        · exact Or.inl hbefore
        · exact Or.inr ⟨x.2, List.mem_cons_self, hsame⟩
      · exact Or.inr ⟨rec, List.mem_cons_of_mem x hrec, hsame⟩

/-- No synced row is older than its record in the merged snapshot. -/
theorem version_le_of_synced_mergeServerMetadata {c : SyncClient} {snapshot : Files} {p : Text}
    {r rec : FileRow} (hrec : snapshot.get p = some rec)
    (hr : (c.mergeServerMetadata timestamp snapshot).store.lookupAny p = some r)
    (hsynced : r.syncStatus = .synced) : rec.version ≤ r.version := by
  obtain ⟨done, rest, hrows⟩ := List.append_of_mem (Table.mem_rows_of_get hrec)
  obtain ⟨-, hrest, hmerge⟩ := foldl_split timestamp hrows c
  rw [hmerge] at hr
  rcases lookupAny_of_synced_foldl_mergeRecord hr hsynced with hmid | ⟨rec', hrec', -⟩
  · have hbase : localBaseVersion r = r.version := by
      rw [localBaseVersion, if_neg (by rw [hsynced]; decide)]
    rcases settled_mergeRecord_self timestamp (done.foldl (mergeRecord timestamp) c) (p, rec) with
      hskip | ⟨hconflict, -⟩
    · rw [hmid] at hskip
      exact hbase ▸ le_localBaseVersion_of_skip hskip
    · obtain ⟨r', hr', -, hpending⟩ := mergeAction_conflict hconflict
      obtain rfl := Option.some_inj.mp (hmid.symm.trans hr')
      rw [localBaseVersion_lt_iff, hsynced] at hpending
      cases hpending
  · exact absurd (List.mem_map_of_mem hrec') hrest

end SyncClient

namespace World

variable {ι : Type*} [DecidableEq ι]

/-! ### What has been published -/

/-- A synced record of the device. -/
def Synced (w : World ι) (i : ι) (p : Text) (r : FileRow) : Prop :=
  (w.devices i).store.lookupAny p = some r ∧ r.syncStatus = .synced

def OnServer (w : World ι) (p : Text) (r : FileRow) : Prop :=
  ∃ snapshot, w.server.metadata = some snapshot ∧ snapshot.get p = some r

def Published (w : World ι) (p : Text) (r : FileRow) : Prop :=
  OnServer w p r ∨ ∃ i, Synced w i p r

/-- Two synced records of one path and version are the same file. -/
def VersionsAgree (w : World ι) : Prop :=
  ∀ i j p r r', Synced w i p r → Synced w j p r' → r.version = r'.version → SameFile r r'

/-- What an upload of the device sends follows what it replaces: a row that is not synced follows the
server's record of its path; where the server has none, every row follows what the devices have
synced there. -/
def Publishable (w : World ι) (i : ι) : Prop :=
  ∀ p r, (w.devices i).store.lookupAny p = some r →
    (∀ rec, OnServer w p rec → r.syncStatus ≠ .synced → Follows r rec) ∧
      ((∀ rec, ¬ OnServer w p rec) → ∀ j r', Synced w j p r' → Follows r r')

/-- The condition on a step: an upload that is accepted. -/
def UploadFollows (w : World ι) : WorldEvent ι → Prop
  | .put i => (w.devices i).lastSyncedVersion = w.server.version → Publishable w i
  | _ => True

/-- Published records agree, no synced record is newer than the server's, and a device that is level
with the server has none that is older. -/
structure Versioned (w : World ι) : Prop where
  unsent : w.server.metadata = none → ∀ i p r, ¬ Synced w i p r
  behind : ∀ i, (w.devices i).lastSyncedVersion ≤ w.server.version
  agree : ∀ p r r', Published w p r → Published w p r' → r.version = r'.version → SameFile r r'
  newest : ∀ i p r rec, OnServer w p rec → Synced w i p r → r.version ≤ rec.version
  level : ∀ i p r rec, (w.devices i).lastSyncedVersion = w.server.version → OnServer w p rec →
    Synced w i p r → rec.version ≤ r.version

omit [DecidableEq ι] in
theorem Versioned.versionsAgree {w : World ι} (h : Versioned w) : VersionsAgree w :=
  fun i j p r r' hr hr' => h.agree p r r' (Or.inr ⟨i, hr⟩) (Or.inr ⟨j, hr'⟩)

/-- A device changes and publishes nothing. -/
theorem Versioned.setDevice {w : World ι} (h : Versioned w) (i : ι) {c : SyncClient}
    (hbehind : c.lastSyncedVersion ≤ w.server.version)
    (hsynced : ∀ p r, c.store.lookupAny p = some r → r.syncStatus = .synced →
      ∃ r', Published w p r' ∧ r'.version = r.version ∧ SameFile r r')
    (hlevel : ∀ p r rec, c.lastSyncedVersion = w.server.version → OnServer w p rec →
      c.store.lookupAny p = some r → r.syncStatus = .synced → rec.version ≤ r.version) :
    Versioned (w.setDevice i c) := by
  have hpublished : ∀ p r, Published (w.setDevice i c) p r →
      ∃ r', Published w p r' ∧ r'.version = r.version ∧ SameFile r r' := by
    rintro p r (hserver | ⟨j, hr, hst⟩)
    · exact ⟨r, Or.inl hserver, rfl, SameFile.refl r⟩
    · by_cases hj : j = i
      · subst hj
        rw [devices_setDevice_self] at hr
        exact hsynced p r hr hst
      · rw [devices_setDevice_of_ne w c hj] at hr
        exact ⟨r, Or.inr ⟨j, hr, hst⟩, rfl, SameFile.refl r⟩
  refine ⟨fun hnone j p r hr => ?_, fun j => ?_, fun p r r' hr hr' hversion => ?_,
    fun j p r rec hrec hr => ?_, fun j p r rec hlast hrec hr => ?_⟩
  · obtain ⟨r', hr' | ⟨k, hk⟩, -⟩ := hpublished p r (Or.inr ⟨j, hr⟩)
    · obtain ⟨snapshot, hs, -⟩ := hr'
      exact absurd (hs.symm.trans hnone) (Option.some_ne_none snapshot)
    · exact h.unsent hnone k p r' hk
  · by_cases hj : j = i
    · subst hj
      rw [devices_setDevice_self]
      exact hbehind
    · rw [devices_setDevice_of_ne w c hj]
      exact h.behind j
  · obtain ⟨a, ha, hav, hra⟩ := hpublished p r hr
    obtain ⟨a', ha', hav', hra'⟩ := hpublished p r' hr'
    have hversions : a.version = a'.version := by
      calc a.version = r.version := hav
        _ = r'.version := hversion
        _ = a'.version := hav'.symm
    have haa' := h.agree p a a' ha ha' hversions
    exact (hra.trans haa').trans hra'.symm
  · obtain ⟨a, ha, hav, -⟩ := hpublished p r (Or.inr ⟨j, hr⟩)
    rw [← hav]
    rcases ha with hserver | ⟨k, hk⟩
    · obtain ⟨snapshot, hs, hget⟩ := hserver
      obtain ⟨snapshot', hs', hget'⟩ := hrec
      obtain rfl := Option.some_inj.mp (hs.symm.trans hs')
      obtain rfl := Option.some_inj.mp (hget.symm.trans hget')
      exact le_refl _
    · exact h.newest k p a rec hrec hk
  · obtain ⟨hr, hst⟩ := hr
    by_cases hj : j = i
    · subst hj
      rw [devices_setDevice_self] at hr hlast
      exact hlevel p r rec hlast hrec hr hst
    · rw [devices_setDevice_of_ne w c hj] at hr hlast
      exact h.level j p r rec hlast hrec ⟨hr, hst⟩

/-- The server takes the table of a device, which goes on as `c`. -/
def accept (w : World ι) (i : ι) (c : SyncClient) : World ι :=
  { w.setDevice i c with
    server := { w.server with
      version := w.server.version + 1, metadata := some (w.devices i).store.files } }

omit [DecidableEq ι] in
/-- A row that may be sent follows whatever is synced at its path. -/
theorem Versioned.follows {w : World ι} (h : Versioned w) {i : ι}
    (hlevel : ∀ p r rec, OnServer w p rec → Synced w i p r → rec.version ≤ r.version)
    (hpub : Publishable w i) {p : Text} {r : FileRow}
    (hr : (w.devices i).store.lookupAny p = some r) {j : ι} {r' : FileRow} (hr' : Synced w j p r') :
    Follows r r' := by
  by_cases hserver : ∃ rec, OnServer w p rec
  · obtain ⟨rec, hrec⟩ := hserver
    have hle : r'.version ≤ rec.version := h.newest j p r' rec hrec hr'
    have hfollows : Follows r rec := by
      by_cases hst : r.syncStatus = .synced
      · rcases (hlevel p r rec hrec ⟨hr, hst⟩).lt_or_eq with hlt | heq
        · exact Or.inl hlt
        · exact Or.inr ⟨heq, h.agree p r rec (Or.inr ⟨i, hr, hst⟩) (Or.inl hrec) heq.symm⟩
      · exact (hpub p r hr).1 rec hrec hst
    rcases (hle.trans hfollows.version_le).lt_or_eq with hlt | heq
    · exact Or.inl hlt
    · -- all three have one version
      have hmid : r'.version = rec.version := le_antisymm hle (heq ▸ hfollows.version_le)
      exact Or.inr ⟨heq, (hfollows.sameFile (heq.symm.trans hmid)).trans
        (h.agree p rec r' (Or.inl hrec) (Or.inr ⟨j, hr'⟩) hmid.symm)⟩
  · exact (hpub p r hr).2 (fun rec hrec => hserver ⟨rec, hrec⟩) j r' hr'

/-- **An upload that follows what it replaces.** -/
theorem Versioned.accept {w : World ι} (h : Versioned w) {i : ι} {c : SyncClient}
    (hlevel : ∀ p r rec, OnServer w p rec → Synced w i p r → rec.version ≤ r.version)
    (hpub : Publishable w i) (hlast : c.lastSyncedVersion = w.server.version + 1)
    (hrows : ∀ p, c.store.lookupAny p =
      ((w.devices i).store.lookupAny p).map SyncClient.uploadedRow) :
    Versioned (w.accept i c) := by
  have hserver : ∀ {p rec}, OnServer (w.accept i c) p rec →
      (w.devices i).store.lookupAny p = some rec := by
    rintro p rec ⟨snapshot, hs, hget⟩
    obtain rfl := Option.some_inj.mp hs
    exact hget
  have hother : ∀ {j}, j ≠ i → (w.accept i c).devices j = w.devices j := fun hj =>
    devices_setDevice_of_ne w _ hj
  have hself : (w.accept i c).devices i = c := devices_setDevice_self w i c
  have hown : ∀ {p r}, Synced (w.accept i c) i p r →
      ∃ l, (w.devices i).store.lookupAny p = some l ∧ l.version = r.version ∧ SameFile l r := by
    rintro p r ⟨hr, -⟩
    rw [hself, hrows p, Option.map_eq_some_iff] at hr
    obtain ⟨l, hl, rfl⟩ := hr
    exact ⟨l, hl, (SyncClient.version_uploadedRow l).symm,
      (SyncClient.sameRecord_uploadedRow l).sameFile.symm⟩
  -- what is published afterwards is a row that was sent, or is synced elsewhere as before
  have hcases : ∀ {p r}, Published (w.accept i c) p r →
      (∃ l, (w.devices i).store.lookupAny p = some l ∧ l.version = r.version ∧ SameFile l r) ∨
        ∃ j, Synced w j p r := by
    rintro p r (hr | ⟨j, hr⟩)
    · exact Or.inl ⟨r, hserver hr, rfl, SameFile.refl r⟩
    · by_cases hj : j = i
      · subst hj
        exact Or.inl (hown hr)
      · rw [Synced, hother hj] at hr
        exact Or.inr ⟨j, hr⟩
  have hrow : ∀ {p r}, Published (w.accept i c) p r → ∀ {l},
      (w.devices i).store.lookupAny p = some l → Follows l r := by
    intro p r hr l hl
    rcases hcases hr with ⟨l', hl', hversion, hsame⟩ | ⟨j, hr⟩
    · obtain rfl := Option.some_inj.mp (hl.symm.trans hl')
      exact Or.inr ⟨hversion.symm, hsame⟩
    · exact h.follows hlevel hpub hl hr
  refine ⟨fun hnone => absurd hnone (Option.some_ne_none _), fun j => ?_,
    fun p r r' hr hr' hversion => ?_, fun j p r rec hrec hr => ?_, fun j p r rec hlevel' hrec hr => ?_⟩
  · by_cases hj : j = i
    · subst hj
      rw [hself]
      exact le_of_eq hlast
    · rw [hother hj]
      exact (h.behind j).trans (Nat.le_succ _)
  · rcases hcases hr with ⟨l, hl, hlr, hsame⟩ | ⟨j, hj⟩
    · exact hsame.symm.trans ((hrow hr' hl).sameFile (hlr.trans hversion))
    · rcases hcases hr' with ⟨l, hl, hlr, hsame⟩ | ⟨j', hj'⟩
      · exact ((hrow hr hl).sameFile (hlr.trans hversion.symm)).symm.trans hsame
      · exact h.agree p r r' (Or.inr ⟨j, hj⟩) (Or.inr ⟨j', hj'⟩) hversion
  · exact (hrow (Or.inr ⟨j, hr⟩) (hserver hrec)).version_le
  · by_cases hj : j = i
    · subst hj
      obtain ⟨l, hl, hversion, -⟩ := hown hr
      obtain rfl := Option.some_inj.mp (hl.symm.trans (hserver hrec))
      exact le_of_eq hversion
    · rw [hother hj] at hlevel'
      exact absurd (hlevel' ▸ h.behind j) (Nat.not_succ_le_self _)

/-- A device changes, its version apart, without a synced row of its own making. -/
theorem Versioned.kept {w : World ι} (h : Versioned w) {i : ι} {c : SyncClient}
    (hversion : c.lastSyncedVersion = (w.devices i).lastSyncedVersion)
    (hold : ∀ p r, c.store.lookupAny p = some r → r.syncStatus = .synced → Synced w i p r) :
    Versioned (w.setDevice i c) := by
  refine h.setDevice i ?_ (fun p r hr hst => ?_) fun p r rec hlast hrec hr hst => ?_
  · rw [hversion]
    exact h.behind i
  · exact ⟨r, Or.inr ⟨i, hold p r hr hst⟩, rfl, SameFile.refl r⟩
  · rw [hversion] at hlast
    exact h.level i p r rec hlast hrec (hold p r hr hst)

/-- A local change leaves its own row pending and the others alone. -/
theorem versioned_write {w : World ι} (h : Versioned w) (i : ι) (op : LocalOp) :
    Versioned (w.setDevice i ((w.devices i).setStore (op.apply (w.devices i).store))) := by
  apply h.kept
  · rfl
  intro p r hr hst
  refine ⟨?_, hst⟩
  by_cases hp : p = op.path
  · subst hp
    rcases op.lookupAny_apply_self (w.devices i).store with ⟨-, hnone⟩ | ⟨r', hr', hpending, -⟩
    · exact absurd (hr.symm.trans hnone) (Option.some_ne_none r)
    · obtain rfl := Option.some_inj.mp (hr.symm.trans hr')
      rw [hpending] at hst
      cases hst
  · exact (op.lookupAny_apply_of_ne (w.devices i).store hp).symm.trans hr

/-- A download: the first device sends its table, one that is level with the server changes nothing,
and one behind it has its own synced rows still or those of the snapshot. -/
theorem versioned_merge {w : World ι} (h : Versioned w) (i : ι) (timestamp : Text → Text) :
    Versioned (w.mergeStep i timestamp) := by
  have hstore := (w.devices i).store_setRetention w.server.retentionDays
  unfold mergeStep
  rcases (w.devices i).downloadAndMerge_cases ⟨w.now, timestamp⟩
    (show ({ server := w.server } : Net).fates = [] from rfl) with
    ⟨hnone, hcall⟩ | ⟨snapshot, hs, hle, hcall⟩ | ⟨snapshot, hs, hlt, hcall⟩
  · have hserver : ∀ {p rec}, ¬ OnServer w p rec := by
      rintro p rec ⟨snapshot, hs, -⟩
      exact absurd (hs.symm.trans hnone) (Option.some_ne_none snapshot)
    rw [SyncClient.forceUpload_of_answered _ _ rfl] at hcall
    rw [hcall]
    dsimp only
    rw [hstore]
    refine Versioned.accept (c := SyncClient.accepted _ _ _ _) h
      (fun p r rec hrec => absurd hrec hserver) (fun p r _ => ⟨fun rec hrec => absurd hrec hserver,
        fun _ j r' hr' => absurd hr' (h.unsent hnone j p r')⟩) rfl fun p => ?_
    rw [SyncClient.lookupAny_accepted, hstore]
  · rw [hcall]
    apply h.kept
    · exact SyncClient.lastSyncedVersion_setRetention _ _
    intro p r hr hst
    rw [hstore] at hr
    exact ⟨hr, hst⟩
  · rw [hcall]
    have hrow : ∀ {p r}, (((w.devices i).setRetention w.server.retentionDays).adopt
        ⟨w.now, timestamp⟩ w.server.version snapshot).store.lookupAny p = some r →
        (((w.devices i).setRetention w.server.retentionDays).mergeServerMetadata timestamp
          snapshot).store.lookupAny p = some r :=
      fun hr => SyncClient.lookupAny_of_gcTombstones hr
    refine h.setDevice i (le_refl _) (fun p r hr hst => ?_) fun p r rec _ hrec hr hst => ?_
    · rcases SyncClient.lookupAny_of_synced_foldl_mergeRecord (hrow hr) hst with
        hbefore | ⟨rec, hrec, hsame⟩
      · rw [hstore] at hbefore
        exact ⟨r, Or.inr ⟨i, hbefore, hst⟩, rfl, SameFile.refl r⟩
      · exact ⟨rec, Or.inl ⟨snapshot, hs, Table.get_of_mem_rows hrec⟩, hsame.1.symm,
          hsame.sameFile⟩
    · obtain ⟨snapshot', hs', hget⟩ := hrec
      obtain rfl := Option.some_inj.mp (hs.symm.trans hs')
      exact SyncClient.version_le_of_synced_mergeServerMetadata hget (hrow hr) hst

/-- **One step of a run.** -/
theorem versioned_step {w w' : World ι} {e : WorldEvent ι} (h : Versioned w)
    (hok : UploadFollows w e) (hstep : w.step e = some w') : Versioned w' := by
  cases e with
  | tick now =>
      rw [step] at hstep
      split_ifs at hstep
      obtain rfl := Option.some_inj.mp hstep
      exact ⟨h.unsent, h.behind, h.agree, h.newest, h.level⟩
  | write i op =>
      obtain rfl := Option.some_inj.mp hstep
      exact versioned_write h i op
  | gc i =>
      obtain rfl := Option.some_inj.mp hstep
      apply h.kept
      · rfl
      exact fun p r hr hst => ⟨SyncClient.lookupAny_of_gcTombstones hr, hst⟩
  | put i =>
      rw [step] at hstep
      split_ifs at hstep
      obtain rfl := Option.some_inj.mp hstep
      unfold putStep
      dsimp only
      rw [Server.put_some]
      split_ifs with hlast
      · exact h.accept (fun p r rec => h.level i p r rec hlast) (hok hlast) rfl
          (SyncClient.lookupAny_accepted _ _ _)
      · exact h
  | merge i timestamp =>
      obtain rfl := Option.some_inj.mp hstep
      exact versioned_merge h i timestamp

/-- **Version agreement.** Along a run from devices that have synced nothing yet, in which every upload
follows what it replaces, two synced records of one path and version are the same file on whichever
devices they are. -/
theorem run_versionsAgree {w w' : World ι} {es : List (WorldEvent ι)}
    (hfresh : ∀ i, (w.devices i).lastSyncedVersion = 0) (hnone : w.server.metadata = none)
    (hrows : ∀ i p r, ¬ Synced w i p r)
    (hok : Transitions.StepsMeet step UploadFollows w es)
    (hrun : Transitions.run step w es = some w') : VersionsAgree w' := by
  have hserver : ∀ p r, ¬ OnServer w p r := by
    rintro p r ⟨snapshot, hs, -⟩
    exact absurd (hs.symm.trans hnone) (Option.some_ne_none snapshot)
  have hstart : Versioned w := by
    refine ⟨fun _ => hrows, fun i => by rw [hfresh i]; exact Nat.zero_le _, fun p r r' hr => ?_,
      fun i p r rec hrec => absurd hrec (hserver p rec),
      fun i p r rec _ hrec => absurd hrec (hserver p rec)⟩
    rcases hr with hr | ⟨i, hr⟩
    · exact absurd hr (hserver p r)
    · exact absurd hr (hrows i p r)
  exact (Transitions.run_invariant (fun _ _ _ => versioned_step) hstart hok hrun).versionsAgree

/-- A file is created and deleted on one device; the other hears of both. -/
def deletedFile : List (WorldEvent Bool) :=
  firstUpload ++ [.merge false fun _ => [], .write true (.delete "/a".toList 5), .put true,
    .merge false fun _ => []]

theorem deletedFile_versionsAgree : ∃ w', Transitions.run step twoDevices deletedFile = some w' ∧
    (w'.devices false).lastSyncedVersion = 2 ∧ VersionsAgree w' := by
  have hnone : ∀ i p r, ¬ Synced twoDevices i p r := by
    rintro i p r ⟨hr, -⟩
    cases hr
  have hmeet : Transitions.StepsMeet step UploadFollows twoDevices deletedFile := by
    refine ⟨trivial, fun w₁ h₁ => ⟨trivial, fun w₂ h₂ => ⟨trivial, fun w₃ h₃ => ⟨trivial,
      fun w₄ h₄ => ⟨fun _ p r hr => ?_, fun _ _ => ⟨trivial, fun _ _ => trivial⟩⟩⟩⟩⟩⟩
    obtain rfl := Option.some_inj.mp h₁
    obtain rfl := Option.some_inj.mp h₂
    obtain rfl := Option.some_inj.mp h₃
    obtain rfl := Option.some_inj.mp h₄
    obtain ⟨rfl, rfl⟩ := SyncClient.get_oneRow (r := { SyncClient.note 2 with
      deleted := true, modifiedAt := 5, syncStatus := .pending }) hr
    refine ⟨?_, fun hserver => absurd ⟨_, rfl, rfl⟩ (hserver
      { SyncClient.note 1 with syncStatus := .pending })⟩
    rintro rec ⟨snapshot, hs, hrec⟩ -
    obtain rfl := Option.some_inj.mp hs
    obtain ⟨-, rfl⟩ := SyncClient.get_oneRow (r := { SyncClient.note 1 with syncStatus := .pending })
      hrec
    exact Or.inl (by decide)
  exact ⟨_, rfl, rfl, run_versionsAgree (fun _ => rfl) rfl hnone hmeet rfl⟩

/-- The file is deleted and, after the tombstone has been collected, created again; its version starts
at 1 once more. The device that was away has the old file at that version and keeps it. -/
def recreated : List (WorldEvent Bool) :=
  firstUpload ++ [.merge false fun _ => [], .write true (.delete "/a".toList 5), .put true,
    .tick 3000000, .gc true, .write true (.insert "/a".toList "s" "y_a".toList 2 3000000 3000000 none),
    .put true, .merge false fun _ => []]

theorem recreated_file_differs : ∃ w', Transitions.run step twoDevices recreated = some w' ∧
    (∀ i, (w'.devices i).lastSyncedVersion = w'.server.version) ∧
    ((w'.devices true).store.lookup "/a".toList).map (·.fileSize) = some 2 ∧
    ((w'.devices false).store.lookup "/a".toList).map (·.fileSize) = some 1 ∧
    ¬ VersionsAgree w' := by
  have hfiles : ∃ w' r r', Transitions.run step twoDevices recreated = some w' ∧
      (∀ i, (w'.devices i).lastSyncedVersion = w'.server.version) ∧
      (w'.devices true).store.lookup "/a".toList = some r ∧
      (w'.devices false).store.lookup "/a".toList = some r' ∧ r.syncStatus = .synced ∧
      r'.syncStatus = .synced ∧ r.version = r'.version ∧ r.fileSize = 2 ∧ r'.fileSize = 1 :=
    ⟨_, _, _, rfl, by decide, rfl, rfl, rfl, rfl, rfl, rfl, rfl⟩
  obtain ⟨w', r, r', hrun, hlevel, hr, hr', hst, hst', hversion, hsize, hsize'⟩ := hfiles
  refine ⟨w', hrun, hlevel, by rw [hr, ← hsize]; rfl, by rw [hr', ← hsize']; rfl, fun h => ?_⟩
  have hsame := h true false "/a".toList r r' ⟨(MetadataStore.lookup_eq_some_iff.mp hr).1, hst⟩
    ⟨(MetadataStore.lookup_eq_some_iff.mp hr').1, hst'⟩ hversion
  rw [SameFile, hsize, hsize'] at hsame
  exact absurd hsame.2.2 (by decide)

end World

end StardustFS
