import StardustFS.SyncExchange
import StardustFS.Transitions

/-! Merging what a device has already. A record is settled where merging it changes nothing: the local
row is at least as new, or the record is in conflict and a tombstone holds the name of its copy. From
this follow what merging a device's own upload does, that a second merge of a snapshot does nothing,
and when an older snapshot that arrives late is harmless. -/

namespace StardustFS

namespace SyncClient

variable {timestamp : Text → Text}

/-- Merging the record changes nothing. -/
def Settled (timestamp : Text → Text) (c : SyncClient) (x : Text × FileRow) : Prop :=
  mergeAction (c.store.lookupAny x.1) x.2 = .skip ∨
    mergeAction (c.store.lookupAny x.1) x.2 = .conflict ∧
      c.store.lookupAny (c.conflictPath (timestamp x.1) x.1) ≠ none

theorem mergeRecord_of_settled {c : SyncClient} {x : Text × FileRow} (h : Settled timestamp c x) :
    mergeRecord timestamp c x = c := by
  unfold mergeRecord
  dsimp only
  rcases h with hskip | ⟨hconflict, htaken⟩
  · rw [hskip]
  · rw [hconflict]
    obtain ⟨r, hr, -, hpending⟩ := mergeAction_conflict hconflict
    have hsame : c.store.setSyncStatus x.1 .pending = c.store := by
      have hfiles : (c.store.files.update x.1 fun r => { r with syncStatus := .pending }) =
          c.store.files := by
        refine Table.update_eq_self fun r' hr' => ?_
        obtain rfl := Option.some_inj.mp (hr.symm.trans hr')
        rw [← localBaseVersion_lt_iff.mp hpending]
      rw [MetadataStore.setSyncStatus, hfiles]
    dsimp only [handleConflict]
    rw [ConflictResolver.resolveConflict_of_taken c.deviceName (timestamp x.1) hr htaken, hsame]
    rfl

/-- A record that is not settled changes the row of its path, which is then synced and the same as the
record. -/
theorem lookupAny_mergeRecord_of_not_settled {c : SyncClient} {p : Text} {rec : FileRow}
    (h : ¬ Settled timestamp c (p, rec)) :
    ∃ r, (mergeRecord timestamp c (p, rec)).store.lookupAny p = some r ∧ r.syncStatus = .synced ∧
      SameRecord r rec ∧ c.store.lookupAny p ≠ some r := by
  have hself := lookupAny_mergeRecord_self c timestamp p rec
  have hsame : SameRecord rec rec := ⟨rfl, rfl, rfl, rfl, rfl⟩
  cases haction : mergeAction (c.store.lookupAny p) rec with
  | skip => exact absurd (Or.inl haction) h
  | insert =>
      rw [haction] at hself
      refine ⟨_, hself, rfl, hsame, fun hr => ?_⟩
      rw [(mergeAction_insert haction).1] at hr
      cases hr
  | conflict =>
      obtain ⟨r, hr, -, hpending⟩ := mergeAction_conflict haction
      have hfree : c.store.lookupAny (c.conflictPath (timestamp p) p) = none := by
        by_contra htaken
        exact h (Or.inr ⟨haction, htaken⟩)
      rw [haction] at hself
      dsimp only at hself
      rw [if_pos hfree] at hself
      refine ⟨_, hself, rfl, hsame, fun hr' => ?_⟩
      rw [hr, Option.some_inj] at hr'
      have hstatus := localBaseVersion_lt_iff.mp hpending
      rw [hr'] at hstatus
      cases hstatus
  | update =>
      obtain ⟨r, hr, -, hlt⟩ := mergeAction_update haction
      rw [haction, hr] at hself
      refine ⟨_, hself, rfl, hsame, fun hr' => ?_⟩
      have hversion := congrArg FileRow.version (Option.some_inj.mp (hr.symm.trans hr'))
      exact absurd hlt (by rw [hversion]; exact lt_irrefl _)

/-- **A record that has been merged is settled.** -/
theorem settled_mergeRecord_self (timestamp : Text → Text) (c : SyncClient) (x : Text × FileRow) :
    Settled timestamp (mergeRecord timestamp c x) x := by
  by_cases h : Settled timestamp c x
  · rw [mergeRecord_of_settled h]
    exact h
  · obtain ⟨r, hr, hsynced, ⟨hversion, -⟩, -⟩ := lookupAny_mergeRecord_of_not_settled h
    left
    rw [hr, mergeAction_of_not_pending (by rw [hsynced]; decide), if_neg]
    omega

/-- A row stays as it is under the records of other paths. -/
theorem lookupAny_foldl_mergeRecord (timestamp : Text → Text) {rows : List (Text × FileRow)} {c : SyncClient} {p : Text}
    {r : FileRow} (hr : c.store.lookupAny p = some r) (hp : p ∉ rows.map Prod.fst) :
    (rows.foldl (mergeRecord timestamp) c).store.lookupAny p = some r := by
  induction rows generalizing c with
  | nil => exact hr
  | cons x rows ih =>
      rw [List.map_cons, List.mem_cons, not_or] at hp
      rw [List.foldl_cons]
      refine ih ?_ hp.2
      rw [lookupAny_mergeRecord_of_ne c timestamp x.2 hp.1, if_neg, hr]
      rintro ⟨-, -, hnone⟩
      rw [hr] at hnone
      cases hnone

/-- **A merge of settled records** changes nothing at all. -/
theorem foldl_mergeRecord_of_settled {rows : List (Text × FileRow)} {c : SyncClient}
    (h : ∀ x ∈ rows, Settled timestamp c x) : rows.foldl (mergeRecord timestamp) c = c := by
  induction rows with
  | nil => rfl
  | cons x rows ih =>
      rw [List.foldl_cons, mergeRecord_of_settled (h x List.mem_cons_self)]
      exact ih fun y hy => h y (List.mem_cons_of_mem x hy)

/-- Up to the first record that is not settled nothing happens. -/
theorem exists_first_unsettled {rows : List (Text × FileRow)} {c : SyncClient}
    (h : ¬ ∀ x ∈ rows, Settled timestamp c x) : ∃ done x rest, rows = done ++ x :: rest ∧
      ¬ Settled timestamp c x ∧
      rows.foldl (mergeRecord timestamp) c =
        rest.foldl (mergeRecord timestamp) (mergeRecord timestamp c x) := by
  induction rows with
  | nil => exact absurd (fun x hx => nomatch hx) h
  | cons x rows ih =>
      by_cases hx : Settled timestamp c x
      · have hrest : ¬ ∀ y ∈ rows, Settled timestamp c y := fun hall =>
          h (List.forall_mem_cons.mpr ⟨hx, hall⟩)
        obtain ⟨done, y, rest, hrows, hy, hfold⟩ := ih hrest
        refine ⟨x :: done, y, rest, by rw [hrows, List.cons_append], hy, ?_⟩
        rw [List.foldl_cons, mergeRecord_of_settled hx, hfold]
      · exact ⟨[], x, rows, rfl, hx, rfl⟩

/-- A merge leaves the `files` table as it was exactly where every record is settled. -/
theorem files_mergeServerMetadata_eq_iff (c : SyncClient) (timestamp : Text → Text)
    (snapshot : Files) : (c.mergeServerMetadata timestamp snapshot).store.files = c.store.files ↔
      ∀ x ∈ snapshot.rows, Settled timestamp c x := by
  unfold mergeServerMetadata
  constructor
  · intro h
    by_contra hno
    obtain ⟨done, ⟨p, rec⟩, rest, hrows, hx, hfold⟩ := exists_first_unsettled hno
    obtain ⟨r, hr, -, -, hchanged⟩ := lookupAny_mergeRecord_of_not_settled hx
    have hnodup := snapshot.nodup
    rw [hrows, List.map_append, List.map_cons, List.nodup_append, List.nodup_cons] at hnodup
    have hafter : (rest.foldl (mergeRecord timestamp) _).store.lookupAny p = some r :=
      lookupAny_foldl_mergeRecord timestamp hr hnodup.2.1.1
    rw [← hfold, MetadataStore.lookupAny, h] at hafter
    exact hchanged hafter
  · intro h
    rw [foldl_mergeRecord_of_settled h]

/-- A record no newer than a row that is not pending is settled. -/
theorem settled_of_current {c : SyncClient} {x : Text × FileRow} {r : FileRow}
    (hr : c.store.lookupAny x.1 = some r) (hstatus : r.syncStatus ≠ .pending)
    (hversion : x.2.version ≤ r.version) : Settled timestamp c x := by
  left
  rw [hr, mergeAction_of_not_pending hstatus, if_neg]
  omega

/-- A device with the given rows, and tables of one file for it. -/
def laptopWith (files : Files) : SyncClient where
  jbod := { metadataStore := ⟨files, Table.empty⟩, sources := Table.empty }
  deviceName := "laptop".toList

def note (version : Int) : FileRow where
  sourceId := "s"
  physicalPath := "x_a".toList
  fileSize := 1
  createdAt := 0
  modifiedAt := 0
  version := version

def oneRow (r : FileRow) : Files := Table.empty.insert "/a".toList r

theorem get_oneRow {r r' : FileRow} {p : Text} (h : (oneRow r).get p = some r') :
    p = "/a".toList ∧ r' = r := by
  rw [oneRow, Table.get_insert] at h
  split_ifs at h with hp
  · exact ⟨hp.2, (Option.some_inj.mp h).symm⟩
  · cases h

/-! ### A second merge of a snapshot -/

/-- In the course of the merge no path of the snapshot is the name the resolver generates for one of
them. -/
def NamesApart (timestamp : Text → Text) (c : SyncClient) (snapshot : Files) : Prop :=
  ∀ done rest, snapshot.rows = done ++ rest → ∀ p ∈ snapshot.keys,
    (done.foldl (mergeRecord timestamp) c).conflictPath (timestamp p) p ∉ snapshot.keys

/-- It is enough that no path of the snapshot has the form of such a name. -/
theorem namesApart_of_candidates {c : SyncClient} {snapshot : Files}
    (h : ∀ p ∈ snapshot.keys, ∀ seq, 1 ≤ seq →
      ConflictResolver.candidate c.deviceName (timestamp p) p seq ∉ snapshot.keys) :
    NamesApart timestamp c snapshot := by
  intro done rest _ p hp
  have hname : (done.foldl (mergeRecord timestamp) c).deviceName = c.deviceName :=
    (sameDevice_foldl_mergeRecord timestamp c done).deviceName
  obtain ⟨seq, hseq, hcandidate⟩ :=
    (done.foldl (mergeRecord timestamp) c).exists_seq_conflictPath (timestamp p) p
  rw [hcandidate, hname]
  exact h p hp seq hseq

/-- A settled record stays settled under the record of another path, as long as the names generated
before and after it are no paths of the snapshot. -/
theorem Settled.mergeRecord {c : SyncClient} {snapshot : Files} {x y : Text × FileRow}
    (h : Settled timestamp c x) (hne : x.1 ≠ y.1) (hx : x.1 ∈ snapshot.keys)
    (hy : y.1 ∈ snapshot.keys)
    (hbefore : ∀ p ∈ snapshot.keys, c.conflictPath (timestamp p) p ∉ snapshot.keys)
    (hafter : ∀ p ∈ snapshot.keys,
      (mergeRecord timestamp c y).conflictPath (timestamp p) p ∉ snapshot.keys) :
    Settled timestamp (SyncClient.mergeRecord timestamp c y) x := by
  have hother : ∀ q, q ≠ y.1 → (c.store.lookupAny q ≠ none ∨ q ∈ snapshot.keys) →
      (SyncClient.mergeRecord timestamp c y).store.lookupAny q = c.store.lookupAny q := by
    intro q hq hkept
    rw [lookupAny_mergeRecord_of_ne c timestamp y.2 hq, if_neg]
    rintro ⟨-, hcopy, hnone⟩
    rcases hkept with hsome | hkey
    · exact hsome hnone
    · exact hbefore y.1 hy (hcopy ▸ hkey)
  have hsame := hother x.1 hne (Or.inr hx)
  unfold Settled
  rw [hsame]
  rcases h with hskip | ⟨hconflict, htaken⟩
  · exact Or.inl hskip
  · right
    have hkept := hother (c.conflictPath (timestamp x.1) x.1)
      (fun h => hbefore x.1 hx (by rw [h]; exact hy)) (Or.inl htaken)
    have hname : (SyncClient.mergeRecord timestamp c y).conflictPath (timestamp x.1) x.1 =
        c.conflictPath (timestamp x.1) x.1 := by
      apply conflictPath_congr (sameDevice_mergeRecord timestamp c y).deviceName
      · rw [lookup_eq_of_lookupAny hkept]
        exact c.lookup_conflictPath _ _
      · by_cases hnone : c.store.lookupAny
            ((SyncClient.mergeRecord timestamp c y).conflictPath (timestamp x.1) x.1) = none
        · rw [MetadataStore.lookup, hnone]
          rfl
        · have hkept' := hother _ (fun h => hafter x.1 hx (by rw [h]; exact hy)) (Or.inl hnone)
          rw [← lookup_eq_of_lookupAny hkept']
          exact lookup_conflictPath _ _ _
    refine ⟨hconflict, ?_⟩
    rw [hname, hkept]
    exact htaken

/-- After a merge whose names are apart every record of the snapshot is settled. -/
theorem settled_mergeServerMetadata {c : SyncClient} {snapshot : Files}
    (h : NamesApart timestamp c snapshot) :
    ∀ x ∈ snapshot.rows, Settled timestamp (c.mergeServerMetadata timestamp snapshot) x := by
  have hkeys : ∀ {x}, x ∈ snapshot.rows → x.1 ∈ snapshot.keys := fun hx => List.mem_map_of_mem hx
  refine (Transitions.foldl_prefix_rule (mergeRecord timestamp) snapshot.rows
    (fun done d => d = done.foldl (mergeRecord timestamp) c ∧ ∀ x ∈ done, Settled timestamp d x)
    ⟨rfl, fun _ hx => nomatch hx⟩ ?_).2
  rintro done y rest d hrows ⟨rfl, hdone⟩
  have hstep : (done ++ [y]).foldl (mergeRecord timestamp) c =
      mergeRecord timestamp (done.foldl (mergeRecord timestamp) c) y := by
    rw [List.foldl_append, List.foldl_cons, List.foldl_nil]
  have hafter := h (done ++ [y]) rest (by rw [hrows, List.append_assoc, List.singleton_append])
  rw [hstep] at hafter
  have hnodup := snapshot.nodup
  rw [hrows, List.map_append, List.map_cons, List.nodup_append] at hnodup
  refine ⟨hstep.symm, fun x hx => ?_⟩
  rcases List.mem_append.mp hx with hin | hin
  · have hne : x.1 ≠ y.1 := hnodup.2.2 _ (List.mem_map_of_mem hin) _ List.mem_cons_self
    exact (hdone x hin).mergeRecord hne
      (hkeys (by rw [hrows]; exact List.mem_append_left _ hin))
      (hkeys (by rw [hrows]; exact List.mem_append_right _ List.mem_cons_self))
      (h done (y :: rest) hrows) hafter
  · rw [List.mem_singleton] at hin
    subst hin
    exact settled_mergeRecord_self timestamp _ x

/-- **Merging is idempotent.** Where no path of the snapshot is a name the resolver generates, the
second merge leaves the tables and the sources as the first one has left them. -/
theorem mergeServerMetadata_idempotent (c : SyncClient) (timestamp : Text → Text)
    (snapshot : Files) (h : NamesApart timestamp c snapshot) :
    (c.mergeServerMetadata timestamp snapshot).mergeServerMetadata timestamp snapshot =
      c.mergeServerMetadata timestamp snapshot :=
  foldl_mergeRecord_of_settled (settled_mergeServerMetadata h)

/-- A pending change whose conflict copy cannot be made: a tombstone has the name. -/
def refusedNote : SyncClient :=
  laptopWith ((oneRow { note 2 with syncStatus := .pending }).insert
    "/a (conflict - laptop - t)".toList { note 2 with deleted := true })

theorem refusedNote_idempotent :
    NamesApart (fun _ => "t".toList) refusedNote (oneRow (note 3)) ∧
      (refusedNote.mergeServerMetadata (fun _ => "t".toList) (oneRow (note 3))).mergeServerMetadata
          (fun _ => "t".toList) (oneRow (note 3)) =
        refusedNote.mergeServerMetadata (fun _ => "t".toList) (oneRow (note 3)) := by
  have happart : NamesApart (fun _ => "t".toList) refusedNote (oneRow (note 3)) := by
    intro done rest _ p hp hmem
    obtain ⟨r, hr⟩ := Table.mem_keys_iff.mp hp
    obtain ⟨r', hr'⟩ := Table.mem_keys_iff.mp hmem
    exact conflictPath_ne_self _ _ p ((get_oneRow hr').1.trans (get_oneRow hr).1.symm)
  exact ⟨happart, mergeServerMetadata_idempotent refusedNote _ _ happart⟩

/-! ### A device's own upload -/

/-- Two live records name the same physical file. -/
def Aliased (s : MetadataStore) (p q : Text) : Prop :=
  p ≠ q ∧ ∃ r r', s.lookup p = some r ∧ s.lookup q = some r' ∧ r.place = r'.place

/-- The records stay what they are, none is added, and no physical file gets a second name. -/
structure Harmless (before after : MetadataStore) : Prop where
  kept : ∀ p r, before.lookupAny p = some r → ∃ r', after.lookupAny p = some r' ∧
    r'.place = r.place ∧ r'.fileSize = r.fileSize ∧ r'.deleted = r.deleted
  no_copy : ∀ p, before.lookupAny p = none → after.lookupAny p = none
  no_alias : ∀ p q, Aliased after p q → Aliased before p q

theorem Harmless.refl (s : MetadataStore) : Harmless s s :=
  ⟨fun _ r hr => ⟨r, hr, rfl, rfl, rfl⟩, fun _ h => h, fun _ _ h => h⟩

/-- Against itself only a pending row is in conflict. -/
theorem settled_own_iff {c : SyncClient} {p : Text} {r : FileRow}
    (hr : c.store.lookupAny p = some r) : Settled timestamp c (p, r) ↔
      (r.syncStatus = .pending → c.store.lookupAny (c.conflictPath (timestamp p) p) ≠ none) := by
  unfold Settled
  dsimp only
  rw [hr]
  by_cases hpending : r.syncStatus = .pending
  · have haction : mergeAction (some r) r = .conflict := by
      rw [mergeAction_of_pending hpending, if_pos (le_refl _)]
    simp [haction, hpending]
  · have haction : mergeAction (some r) r = .skip := by
      rw [mergeAction_of_not_pending hpending, if_neg (lt_irrefl _)]
    simp [haction, hpending]

/-- **A device merges the snapshot it uploaded itself**, its rows not marked synced yet. That is
harmless exactly where every pending row has the name of its conflict copy held by a tombstone. -/
theorem mergeOwnUpload_harmless_iff (c : SyncClient) (timestamp : Text → Text) :
    Harmless c.store (c.mergeServerMetadata timestamp c.store.files).store ↔
      ∀ p r, c.store.lookupAny p = some r → r.syncStatus = .pending →
        c.store.lookupAny (c.conflictPath (timestamp p) p) ≠ none := by
  unfold mergeServerMetadata
  constructor
  · intro h
    by_contra hno
    have hunsettled : ¬ ∀ x ∈ c.store.files.rows, Settled timestamp c x := fun hall =>
      hno fun p r hr => (settled_own_iff hr).mp (hall (p, r) (Table.mem_rows_of_get hr))
    obtain ⟨done, ⟨p, r⟩, rest, hrows, hx, hfold⟩ := exists_first_unsettled hunsettled
    have hmem : (p, r) ∈ c.store.files.rows := by
      rw [hrows]
      exact List.mem_append_right _ List.mem_cons_self
    have hr : c.store.lookupAny p = some r := Table.get_of_mem_rows hmem
    rw [settled_own_iff hr, Classical.not_imp, not_not] at hx
    obtain ⟨hpending, hfree⟩ := hx
    have haction : mergeAction (c.store.lookupAny p) r = .conflict := by
      rw [hr, mergeAction_of_pending hpending, if_pos (le_refl _)]
    have hcopy : (mergeRecord timestamp c (p, r)).store.lookupAny (c.conflictPath (timestamp p) p) =
        some (conflictRow r) := by
      rw [lookupAny_mergeRecord_of_ne c timestamp r (c.conflictPath_ne_self _ _),
        if_pos ⟨haction, rfl, hfree⟩, hr]
      rfl
    have hkeys : c.conflictPath (timestamp p) p ∉ rest.map Prod.fst := by
      intro hin
      obtain ⟨x, hx, hxp⟩ := List.mem_map.mp hin
      have hget : c.store.lookupAny x.1 = some x.2 := Table.get_of_mem_rows (by
        rw [hrows]
        exact List.mem_append_right _ (List.mem_cons_of_mem _ hx))
      rw [hxp, hfree] at hget
      cases hget
    have hafter := h.no_copy _ hfree
    rw [hfold, lookupAny_foldl_mergeRecord timestamp hcopy hkeys] at hafter
    cases hafter
  · intro h
    rw [foldl_mergeRecord_of_settled fun x hx => (settled_own_iff (Table.get_of_mem_rows hx)).mpr
      (h x.1 x.2 (Table.get_of_mem_rows hx))]
    exact Harmless.refl _

/-- The row of a new file, uploaded and merged back, moves to a conflict copy of itself. -/
theorem ownUpload_makes_copy :
    ¬ Harmless (laptopWith (oneRow { note 1 with syncStatus := .pending })).store
      ((laptopWith (oneRow { note 1 with syncStatus := .pending })).mergeServerMetadata
        (fun _ => "t".toList) (oneRow { note 1 with syncStatus := .pending })).store :=
  fun h => absurd (h.no_copy "/a (conflict - laptop - t)".toList (by decide)) (by decide)

/-! ### An older snapshot that arrives late -/

/-- Every path of the older snapshot is in the newer one, at no lower version. -/
def SnapshotSucceeds (newer older : Files) : Prop :=
  ∀ p rec, older.get p = some rec → ∃ rec', newer.get p = some rec' ∧ rec.version ≤ rec'.version

/-- The path has an unsent change that is in conflict with the snapshot. -/
def Contested (c : SyncClient) (snapshot : Files) (p : Text) : Prop :=
  ∃ r rec, c.store.lookupAny p = some r ∧ r.syncStatus = .pending ∧ snapshot.get p = some rec ∧
    r.version ≤ rec.version

/-- The names the copy of a contested path may be given under one of two readings of the clock are no
paths of the snapshot, and no names of a copy of another contested path. -/
structure CopiesApart (timestamp late : Text → Text) (c : SyncClient) (snapshot : Files) : Prop where
  paths : ∀ p, Contested c snapshot p → ∀ seq, 1 ≤ seq → ∀ reading ∈ [timestamp p, late p],
    ConflictResolver.candidate c.deviceName reading p seq ∉ snapshot.keys
  copies : ∀ p q, Contested c snapshot p → Contested c snapshot q → p ≠ q →
    ∀ seq seq', 1 ≤ seq → 1 ≤ seq' → ∀ reading ∈ [timestamp p, late p],
      ConflictResolver.candidate c.deviceName reading p seq ≠
        ConflictResolver.candidate c.deviceName (timestamp q) q seq'

theorem contested_of_mergeAction {c : SyncClient} {snapshot : Files} {p : Text} {rec : FileRow}
    (hrec : snapshot.get p = some rec) (h : mergeAction (c.store.lookupAny p) rec = .conflict) :
    Contested c snapshot p := by
  obtain ⟨r, hr, -, hpending⟩ := mergeAction_conflict h
  have hstatus := localBaseVersion_lt_iff.mp hpending
  rw [hr, mergeAction_of_pending hstatus] at h
  split_ifs at h with hle
  exact ⟨r, rec, hr, hstatus, hrec, hle⟩

/-- The rows at a path and at the names of its copy are still those of the merge's start. -/
def Untouched (timestamp late : Text → Text) (c d : SyncClient) (snapshot : Files) (p : Text) :
    Prop :=
  d.store.lookupAny p = c.store.lookupAny p ∧
    (Contested c snapshot p → ∀ seq, 1 ≤ seq → ∀ reading ∈ [timestamp p, late p],
      d.store.lookupAny (ConflictResolver.candidate c.deviceName reading p seq) =
        c.store.lookupAny (ConflictResolver.candidate c.deviceName reading p seq))

theorem Untouched.conflictPath {c d : SyncClient} {snapshot : Files} {late : Text → Text} {p : Text}
    (h : Untouched timestamp late c d snapshot p) (hname : d.deviceName = c.deviceName)
    (hp : Contested c snapshot p) : ∀ reading ∈ [timestamp p, late p],
      d.conflictPath reading p = c.conflictPath reading p ∧
        d.store.lookupAny (d.conflictPath reading p) = c.store.lookupAny (c.conflictPath reading p) := by
  intro reading hreading
  obtain ⟨seq, hseq, hcandidate⟩ := c.exists_seq_conflictPath reading p
  obtain ⟨seq', hseq', hcandidate'⟩ := d.exists_seq_conflictPath reading p
  have hsame := h.2 hp seq hseq reading hreading
  have hsame' := h.2 hp seq' hseq' reading hreading
  rw [← hcandidate] at hsame
  rw [← hname, ← hcandidate'] at hsame'
  have heq : d.conflictPath reading p = c.conflictPath reading p := by
    apply conflictPath_congr hname
    · rw [lookup_eq_of_lookupAny hsame]
      exact c.lookup_conflictPath reading p
    · rw [← lookup_eq_of_lookupAny hsame']
      exact d.lookup_conflictPath reading p
  exact ⟨heq, by rw [heq]; exact hsame⟩

/-- **Records are merged one by one.** With the copies apart, what a merge leaves at a path of the
snapshot is what the path's own record leaves when it is merged alone, and where that record was
refused nothing has touched the names of its copy. -/
theorem lookupAny_mergeServerMetadata_of_apart {late : Text → Text} {c : SyncClient}
    {snapshot : Files} (hapart : CopiesApart timestamp late c snapshot) (p : Text) (rec : FileRow)
    (hrec : snapshot.get p = some rec) :
    (c.mergeServerMetadata timestamp snapshot).store.lookupAny p =
        (mergeRecord timestamp c (p, rec)).store.lookupAny p ∧
      (Settled timestamp c (p, rec) →
        Untouched timestamp late c (c.mergeServerMetadata timestamp snapshot) snapshot p) := by
  refine (Table.foldl_rule snapshot (mergeRecord timestamp)
    (fun d => d.deviceName = c.deviceName)
    (fun p _ d => Untouched timestamp late c d snapshot p)
    (fun p rec d =>
      d.store.lookupAny p = (mergeRecord timestamp c (p, rec)).store.lookupAny p ∧
        (Settled timestamp c (p, rec) → Untouched timestamp late c d snapshot p)) rfl
    (fun p rec _ => ⟨rfl, fun _ _ _ _ _ => rfl⟩) ?_).2 p rec hrec
  intro p rec d hrec hname hbefore
  have hdevice := (sameDevice_mergeRecord timestamp d (p, rec)).deviceName.trans hname
  have hsettled : Settled timestamp d (p, rec) ↔ Settled timestamp c (p, rec) := by
    unfold Settled
    dsimp only
    rw [hbefore.1]
    refine or_congr_right (and_congr_right fun hconflict => ?_)
    rw [(hbefore.conflictPath hname (contested_of_mergeAction hrec hconflict) (timestamp p)
      List.mem_cons_self).2]
  -- the rows that may change are the record's own and, in a conflict, that of its copy
  have hother : ∀ q, q ≠ p →
      (∀ seq, 1 ≤ seq → Contested c snapshot p →
        q ≠ ConflictResolver.candidate c.deviceName (timestamp p) p seq) →
      (mergeRecord timestamp d (p, rec)).store.lookupAny q = d.store.lookupAny q := by
    intro q hq hnot
    rw [lookupAny_mergeRecord_of_ne d timestamp rec hq, if_neg]
    rintro ⟨hconflict, hcopy, -⟩
    rw [hbefore.1] at hconflict
    obtain ⟨seq, hseq, hcandidate⟩ := d.exists_seq_conflictPath (timestamp p) p
    refine hnot seq hseq (contested_of_mergeAction hrec hconflict) ?_
    rw [hcopy, hcandidate, hname]
  refine ⟨hdevice, ⟨?_, fun h => ?_⟩, fun q rec' hq hrec' => ?_⟩
  · rw [lookupAny_mergeRecord_self, lookupAny_mergeRecord_self, hbefore.1]
    cases haction : mergeAction (c.store.lookupAny p) rec with
    | conflict =>
        dsimp only
        rw [(hbefore.conflictPath hname (contested_of_mergeAction hrec haction) (timestamp p)
          List.mem_cons_self).2]
    | skip => rfl
    | insert => rfl
    | update => rfl
  · rw [mergeRecord_of_settled (hsettled.mpr h)]
    exact hbefore
  · have hkept : Untouched timestamp late c d snapshot q →
        Untouched timestamp late c (mergeRecord timestamp d (p, rec)) snapshot q := by
      intro hq'
      refine ⟨?_, fun hcontested seq hseq reading hreading => ?_⟩
      · rw [hother q hq, hq'.1]
        intro seq hseq hcontested hcopy
        refine hapart.paths p hcontested seq hseq (timestamp p) List.mem_cons_self ?_
        rw [← hcopy]
        exact Table.mem_keys_iff.mpr ⟨rec', hrec'⟩
      · rw [hother _ (fun hcopy => ?_) fun seq' hseq' hcontested' => ?_,
          hq'.2 hcontested seq hseq reading hreading]
        · refine hapart.paths q hcontested seq hseq reading hreading ?_
          rw [hcopy]
          exact Table.mem_keys_iff.mpr ⟨rec, hrec⟩
        · exact hapart.copies q p hcontested hcontested' hq seq seq' hseq hseq' reading hreading
    have hrow : (mergeRecord timestamp d (p, rec)).store.lookupAny q = d.store.lookupAny q := by
      apply hother q hq
      intro seq hseq hcontested hcopy
      refine hapart.paths p hcontested seq hseq (timestamp p) List.mem_cons_self ?_
      rw [← hcopy]
      exact Table.mem_keys_iff.mpr ⟨rec', hrec'⟩
    exact ⟨hkept, fun ⟨hafter, hrest⟩ => ⟨hrow.trans hafter, fun h => hkept (hrest h)⟩⟩

/-- What the late record meets after the newer one: nothing, where the newer one is a tombstone that
was passed over; a pending row, where the newer one was refused; or a row that is current. -/
theorem settled_late_iff {late : Text → Text} {c : SyncClient} {newer : Files}
    (hapart : CopiesApart timestamp late c newer) {p : Text} {rec rec' : FileRow}
    (hrec' : newer.get p = some rec') (hle : rec.version ≤ rec'.version) :
    Settled late (c.mergeServerMetadata timestamp newer) (p, rec) ↔
      (c.store.lookupAny p = none → rec'.deleted = true → rec.deleted = true) ∧
        ∀ r, c.store.lookupAny p = some r → r.syncStatus = .pending → r.version ≤ rec.version →
          c.store.lookupAny (c.conflictPath (timestamp p) p) = none ∨
            c.store.lookupAny (c.conflictPath (late p) p) ≠ none := by
  obtain ⟨hrow, hrest⟩ := lookupAny_mergeServerMetadata_of_apart hapart p rec' hrec'
  rw [lookupAny_mergeRecord_self] at hrow
  cases hl : c.store.lookupAny p with
  | none =>
      rw [hl] at hrow
      cases hdeleted : rec'.deleted with
      | false =>
          rw [mergeAction, if_neg (by rw [hdeleted]; decide)] at hrow
          have hsettled : Settled late (c.mergeServerMetadata timestamp newer) (p, rec) :=
            settled_of_current hrow (by simp [insertedRow]) hle
          simp [hsettled]
      | true =>
          rw [mergeAction, if_pos hdeleted] at hrow
          unfold Settled
          dsimp only
          rw [hrow]
          cases hrec : rec.deleted <;> simp [mergeAction, hrec]
  | some r =>
      rw [hl] at hrow
      simp only [reduceCtorEq, false_implies, true_and, Option.some_inj, forall_eq']
      by_cases hpending : r.syncStatus = .pending
      · rw [mergeAction_of_pending hpending] at hrow
        by_cases hconflict : r.version ≤ rec'.version
        · rw [if_pos hconflict] at hrow
          dsimp only at hrow
          have haction : mergeAction (c.store.lookupAny p) rec' = .conflict := by
            rw [hl, mergeAction_of_pending hpending, if_pos hconflict]
          by_cases hfree : c.store.lookupAny (c.conflictPath (timestamp p) p) = none
          · rw [if_pos hfree] at hrow
            exact iff_of_true (settled_of_current hrow (by simp [insertedRow]) hle) fun _ _ =>
              Or.inl hfree
          · rw [if_neg hfree, Option.map_some] at hrow
            have hsame : stillPendingRow r = r := by
              unfold stillPendingRow
              rw [← hpending]
            have hdevice := (sameDevice_mergeServerMetadata c timestamp newer).deviceName
            have hname := ((hrest (Or.inr ⟨haction, hfree⟩)).conflictPath hdevice
              (contested_of_mergeAction hrec' haction) (late p) (by simp)).2
            unfold Settled
            dsimp only
            rw [hrow, hsame, hname, mergeAction_of_pending hpending]
            by_cases hlate : r.version ≤ rec.version
            · simp [hlate, hpending, hfree]
            · simp [hlate]
        · rw [if_neg hconflict] at hrow
          have hskip : mergeAction (some r) rec = .skip := by
            rw [mergeAction_of_pending hpending, if_neg (by omega)]
          refine iff_of_true (Or.inl ?_) fun _ h => absurd (h.trans hle) hconflict
          rw [hrow, hskip]
      · refine iff_of_true ?_ fun h => absurd h hpending
        rw [mergeAction_of_not_pending hpending] at hrow
        by_cases hlt : r.version < rec'.version
        · rw [if_pos hlt] at hrow
          exact settled_of_current hrow (by simp [updatedRow]) hle
        · rw [if_neg hlt] at hrow
          exact settled_of_current hrow hpending (hle.trans (not_lt.mp hlt))

end SyncClient

end StardustFS
