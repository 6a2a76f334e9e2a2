import StardustFS.RepeatedMerge

/-! What a merge takes over of the server and what it keeps of the device. The records are merged one
after the other, and an exception in the resolution of a conflict is logged without stopping the loop;
the base version advances once at the end, over that record too. A conflict copy is a row like any
other, so that a later record at its name replaces it. -/

namespace StardustFS

namespace SyncClient

variable {timestamp : Text → Text}

/-! ### Rows in the course of a merge -/

theorem lookupAny_mergeRecord_ne_none {c : SyncClient} {p : Text} (x : Text × FileRow)
    (h : c.store.lookupAny p ≠ none) : (mergeRecord timestamp c x).store.lookupAny p ≠ none := by
  by_cases hp : p = x.1
  · subst hp
    by_cases hsettled : Settled timestamp c x
    · rw [mergeRecord_of_settled hsettled]
      exact h
    · obtain ⟨r, hr, -⟩ := lookupAny_mergeRecord_of_not_settled hsettled
      rw [hr]
      exact Option.some_ne_none r
  · rw [lookupAny_mergeRecord_of_ne c timestamp x.2 hp, if_neg fun hcopy => h hcopy.2.2]
    exact h

/-- A merge makes no row pending. -/
theorem lookupAny_of_pending_mergeRecord {c : SyncClient} {p : Text} {r : FileRow}
    {x : Text × FileRow} (hr : (mergeRecord timestamp c x).store.lookupAny p = some r)
    (hpending : r.syncStatus = .pending) : c.store.lookupAny p = some r := by
  by_cases hp : p = x.1
  · subst hp
    by_cases hsettled : Settled timestamp c x
    · rw [mergeRecord_of_settled hsettled] at hr
      exact hr
    · obtain ⟨r', hr', hsynced, -⟩ := lookupAny_mergeRecord_of_not_settled hsettled
      obtain rfl := Option.some_inj.mp (hr.symm.trans hr')
      rw [hsynced] at hpending
      cases hpending
  · rw [lookupAny_mergeRecord_of_ne c timestamp x.2 hp] at hr
    split_ifs at hr
    · obtain ⟨r', -, rfl⟩ := Option.map_eq_some_iff.mp hr
      cases hpending
    · exact hr

theorem lookupAny_foldl_mergeRecord_ne_none {rows : List (Text × FileRow)} {c : SyncClient} {p : Text}
    (h : c.store.lookupAny p ≠ none) :
    (rows.foldl (mergeRecord timestamp) c).store.lookupAny p ≠ none := by
  induction rows generalizing c with
  | nil => exact h
  | cons x rows ih => exact ih (lookupAny_mergeRecord_ne_none x h)

theorem lookupAny_of_pending_foldl_mergeRecord {rows : List (Text × FileRow)} {c : SyncClient}
    {p : Text} {r : FileRow} (hr : (rows.foldl (mergeRecord timestamp) c).store.lookupAny p = some r)
    (hpending : r.syncStatus = .pending) : c.store.lookupAny p = some r := by
  induction rows generalizing c with
  | nil => exact hr
  | cons x rows ih => exact lookupAny_of_pending_mergeRecord (ih hr) hpending

/-- A record's place in the order of the merge: it is merged between the records before it and those
after it, none of which has its path. -/
theorem foldl_split (timestamp : Text → Text) {snapshot : Files} {done rest : List (Text × FileRow)} {p : Text}
    {rec : FileRow} (hrows : snapshot.rows = done ++ (p, rec) :: rest) (c : SyncClient) :
    p ∉ done.map Prod.fst ∧ p ∉ rest.map Prod.fst ∧
      c.mergeServerMetadata timestamp snapshot = rest.foldl (mergeRecord timestamp)
        (mergeRecord timestamp (done.foldl (mergeRecord timestamp) c) (p, rec)) := by
  have hnodup := snapshot.nodup
  rw [hrows, List.map_append, List.map_cons, List.nodup_append, List.nodup_cons] at hnodup
  refine ⟨fun h => hnodup.2.2 p h p List.mem_cons_self rfl, hnodup.2.1.1, ?_⟩
  rw [mergeServerMetadata, hrows, List.foldl_append, List.foldl_cons]

/-- What a merge makes of a row that is not pending. -/
def afterMerge (snapshot : Files) (q : Text) (l : FileRow) : FileRow :=
  match snapshot.get q with
  | none => l
  | some rec => if l.version < rec.version then updatedRow rec l else l

theorem lookupAny_mergeServerMetadata_of_sent {c : SyncClient} {snapshot : Files} {q : Text}
    {l : FileRow} (hl : c.store.lookupAny q = some l) (hst : l.syncStatus ≠ .pending) :
    (c.mergeServerMetadata timestamp snapshot).store.lookupAny q =
      some (afterMerge snapshot q l) := by
  unfold afterMerge
  cases hrec : snapshot.get q with
  | none => exact lookupAny_foldl_mergeRecord timestamp hl (Table.get_eq_none_iff.mp hrec)
  | some rec =>
      obtain ⟨done, rest, hrows⟩ := List.append_of_mem (Table.mem_rows_of_get hrec)
      obtain ⟨hdone, hrest, hmerge⟩ := foldl_split timestamp hrows c
      have hd := lookupAny_foldl_mergeRecord timestamp hl hdone
      have hself := lookupAny_mergeRecord_self (done.foldl (mergeRecord timestamp) c) timestamp q rec
      rw [hd, mergeAction_of_not_pending hst] at hself
      rw [hmerge]
      apply lookupAny_foldl_mergeRecord timestamp _ hrest
      rw [hself]
      dsimp only
      split_ifs <;> rfl

theorem Quiet.mergeRecord {c : SyncClient} (h : Quiet c) (timestamp : Text → Text)
    (x : Text × FileRow) : Quiet (SyncClient.mergeRecord timestamp c x) :=
  fun p l hl hpending => h p l (lookupAny_of_pending_mergeRecord hl hpending) hpending

theorem Quiet.foldl_mergeRecord {c : SyncClient} (h : Quiet c) (timestamp : Text → Text)
    (rows : List (Text × FileRow)) : Quiet (rows.foldl (SyncClient.mergeRecord timestamp) c) :=
  fun p l hl hpending => h p l (lookupAny_of_pending_foldl_mergeRecord hl hpending) hpending

/-- With nothing pending a record changes its own path only. -/
theorem lookupAny_mergeRecord_of_quiet {c : SyncClient} (h : Quiet c) (timestamp : Text → Text)
    {x : Text × FileRow} {q : Text} (hq : q ≠ x.1) :
    (mergeRecord timestamp c x).store.lookupAny q = c.store.lookupAny q := by
  rw [lookupAny_mergeRecord_of_ne c timestamp x.2 hq, if_neg]
  rintro ⟨hconflict, -⟩
  obtain ⟨l, hl, -, hpending⟩ := mergeAction_conflict hconflict
  exact h x.1 l hl (localBaseVersion_lt_iff.mp hpending)

theorem lookupAny_foldl_mergeRecord_of_quiet {rows : List (Text × FileRow)} {c : SyncClient}
    (h : Quiet c) (timestamp : Text → Text) {q : Text} (hq : q ∉ rows.map Prod.fst) :
    (rows.foldl (mergeRecord timestamp) c).store.lookupAny q = c.store.lookupAny q := by
  induction rows generalizing c with
  | nil => rfl
  | cons x rows ih =>
      rw [List.map_cons, List.mem_cons, not_or] at hq
      rw [List.foldl_cons, ih (h.mergeRecord timestamp x) hq.2,
        lookupAny_mergeRecord_of_quiet h timestamp hq.1]

/-- A quiet device takes over the live records of paths it does not know, and no others. -/
theorem lookupAny_mergeServerMetadata_of_unknown {c : SyncClient} (h : Quiet c)
    (timestamp : Text → Text) {snapshot : Files} {q : Text} (hq : c.store.lookupAny q = none) :
    (c.mergeServerMetadata timestamp snapshot).store.lookupAny q =
      ((snapshot.get q).filter fun rec => !rec.deleted).map insertedRow := by
  cases hrec : snapshot.get q with
  | none =>
      exact (lookupAny_foldl_mergeRecord_of_quiet h timestamp (Table.get_eq_none_iff.mp hrec)).trans hq
  | some rec =>
      obtain ⟨done, rest, hrows⟩ := List.append_of_mem (Table.mem_rows_of_get hrec)
      obtain ⟨hdone, hrest, hmerge⟩ := foldl_split timestamp hrows c
      have hd := (lookupAny_foldl_mergeRecord_of_quiet h timestamp hdone).trans hq
      have hquiet := (h.foldl_mergeRecord timestamp done).mergeRecord timestamp (q, rec)
      have hself := lookupAny_mergeRecord_self (done.foldl (mergeRecord timestamp) c) timestamp q rec
      rw [hd, mergeAction] at hself
      rw [hmerge, lookupAny_foldl_mergeRecord_of_quiet hquiet timestamp hrest, hself]
      cases hdeleted : rec.deleted <;> simp [Option.filter, hdeleted]

/-- A pending row is pending after a merge where its record, if the snapshot has one, is settled when
its turn comes: it is older, or the conflict copy is refused. -/
def StaysPending (timestamp : Text → Text) (c : SyncClient) (snapshot : Files) (p : Text) : Prop :=
  ∀ done rec rest, snapshot.rows = done ++ (p, rec) :: rest →
    Settled timestamp (done.foldl (mergeRecord timestamp) c) (p, rec)

theorem lookupAny_mergeServerMetadata_pending_iff {c : SyncClient} {snapshot : Files} {p : Text}
    {l : FileRow} (hpending : l.syncStatus = .pending) :
    (c.mergeServerMetadata timestamp snapshot).store.lookupAny p = some l ↔
      c.store.lookupAny p = some l ∧ StaysPending timestamp c snapshot p := by
  constructor
  · intro h
    refine ⟨lookupAny_of_pending_foldl_mergeRecord h hpending, fun done rec rest hrows => ?_⟩
    obtain ⟨-, hrest, hmerge⟩ := foldl_split timestamp hrows c
    by_contra hsettled
    obtain ⟨r, hr, hsynced, -⟩ := lookupAny_mergeRecord_of_not_settled hsettled
    rw [hmerge, lookupAny_foldl_mergeRecord timestamp hr hrest, Option.some_inj] at h
    rw [← h, hsynced] at hpending
    cases hpending
  · rintro ⟨hl, hstays⟩
    cases hrec : snapshot.get p with
    | none => exact lookupAny_foldl_mergeRecord timestamp hl (Table.get_eq_none_iff.mp hrec)
    | some rec =>
        obtain ⟨done, rest, hrows⟩ := List.append_of_mem (Table.mem_rows_of_get hrec)
        obtain ⟨hdone, hrest, hmerge⟩ := foldl_split timestamp hrows c
        rw [hmerge, mergeRecord_of_settled (hstays done rec rest hrows)]
        exact lookupAny_foldl_mergeRecord timestamp
          (lookupAny_foldl_mergeRecord timestamp hl hdone) hrest

/-! ### The base version -/

/-- The server's change at the path has been taken over: the row is the record, or it is derived from
a version that is no older, or there was nothing to delete. -/
def Applied (before after : MetadataStore) (x : Text × FileRow) : Prop :=
  (∃ r, after.lookupAny x.1 = some r ∧
    (SameRecord r x.2 ∨ x.2.version ≤ localBaseVersion r)) ∨
  (x.2.deleted = true ∧ before.lookupAny x.1 = none)

/-- A conflict with the record is resolved, or there is none to resolve since both sides are the
same. -/
def Resolved (timestamp : Text → Text) (c : SyncClient) (x : Text × FileRow) : Prop :=
  mergeAction (c.store.lookupAny x.1) x.2 = .conflict →
    c.store.lookupAny (c.conflictPath (timestamp x.1) x.1) = none ∨
      ∃ r, c.store.lookupAny x.1 = some r ∧ SameRecord r x.2

/-- The client at the moment a download sets its base version; the collection of tombstones comes
after it. -/
def rebased (c : SyncClient) (r : SyncReading) (version : Nat) (snapshot : Files) : SyncClient :=
  { c.mergeServerMetadata r.timestamp snapshot with lastSyncedVersion := version }

/-- A record that is skipped is no newer than what the row is derived from. -/
theorem le_localBaseVersion_of_skip {r rec : FileRow} (h : mergeAction (some r) rec = .skip) :
    rec.version ≤ localBaseVersion r := by
  unfold mergeAction at h
  dsimp only at h
  split_ifs at h with hconflict hupdate
  unfold localBaseVersion at hconflict ⊢
  split_ifs at hconflict ⊢ <;> omega

/-- **One record.** It ends up applied exactly where its conflict, if any, is resolved. -/
theorem applied_iff_resolved {snapshot : Files} {done rest : List (Text × FileRow)}
    {x : Text × FileRow} (hrows : snapshot.rows = done ++ x :: rest) (c : SyncClient) :
    Applied c.store (c.mergeServerMetadata timestamp snapshot).store x ↔
      Resolved timestamp (done.foldl (mergeRecord timestamp) c) x := by
  obtain ⟨p, rec⟩ := x
  obtain ⟨-, hrest, hmerge⟩ := foldl_split timestamp hrows c
  rw [hmerge]
  have hknown : ∀ r, (done.foldl (mergeRecord timestamp) c).store.lookupAny p = some r →
      r.syncStatus = .pending → c.store.lookupAny p ≠ none := by
    intro r hr hpending
    rw [lookupAny_of_pending_foldl_mergeRecord hr hpending]
    exact Option.some_ne_none r
  have hunknown : (done.foldl (mergeRecord timestamp) c).store.lookupAny p = none →
      c.store.lookupAny p = none := by
    intro hnone
    by_contra hsome
    exact lookupAny_foldl_mergeRecord_ne_none hsome hnone
  generalize done.foldl (mergeRecord timestamp) c = d at hknown hunknown
  by_cases hsettled : Settled timestamp d (p, rec)
  · rw [mergeRecord_of_settled hsettled]
    rcases hsettled with hskip | ⟨hconflict, htaken⟩
    · refine iff_of_true ?_ fun h => ?_
      · cases hl : d.store.lookupAny p with
        | none =>
            dsimp only at hskip
            rw [hl, mergeAction] at hskip
            split_ifs at hskip with hdeleted
            exact Or.inr ⟨hdeleted, hunknown hl⟩
        | some r =>
            dsimp only at hskip
            rw [hl] at hskip
            exact Or.inl ⟨r, lookupAny_foldl_mergeRecord timestamp hl hrest,
              Or.inr (le_localBaseVersion_of_skip hskip)⟩
      · rw [hskip] at h
        cases h
    · obtain ⟨r, hr, hbase, hpending⟩ := mergeAction_conflict hconflict
      have hfinal := lookupAny_foldl_mergeRecord timestamp hr hrest
      have hstatus := localBaseVersion_lt_iff.mp hpending
      constructor
      · rintro (⟨r', hr', hsame | hle⟩ | ⟨-, hnone⟩)
        · obtain rfl := Option.some_inj.mp (hfinal.symm.trans hr')
          exact fun _ => Or.inr ⟨r, hr, hsame⟩
        · obtain rfl := Option.some_inj.mp (hfinal.symm.trans hr')
          exact absurd hbase (not_lt.mpr hle)
        · exact absurd hnone (hknown r hr hstatus)
      · intro h
        obtain ⟨r', hr', hsame⟩ := (h hconflict).resolve_left htaken
        obtain rfl := Option.some_inj.mp (hr.symm.trans hr')
        exact Or.inl ⟨r, hfinal, Or.inl hsame⟩
  · obtain ⟨r, hr, hsynced, ⟨hversion, -⟩, -⟩ := lookupAny_mergeRecord_of_not_settled hsettled
    refine iff_of_true ?_ fun hconflict => ?_
    · refine Or.inl ⟨r, lookupAny_foldl_mergeRecord timestamp hr hrest, Or.inr ?_⟩
      rw [localBaseVersion, if_neg (by rw [hsynced]; decide), hversion]
    · by_contra hno
      exact hsettled (Or.inr ⟨hconflict, fun hfree => hno (Or.inl hfree)⟩)

/-- A download that sets the base version has merged the server's snapshot. -/
theorem downloadAndMerge_of_rebased {c : SyncClient} {r : SyncReading} {net : Net} {snapshot : Files}
    (hmeta : net.server.metadata = some snapshot)
    (hset : (c.downloadAndMerge r net).1.lastSyncedVersion ≠ c.lastSyncedVersion) :
    (c.downloadAndMerge r net).1 =
      (((c.setRetention net.server.retentionDays).rebased r net.server.version snapshot).gcTombstones
        r.now).recordSyncSuccess r.now := by
  have hstatus := net.request_fst fun server => (server.status, server)
  have hserver := net.server_request_of_reads Server.status
  unfold downloadAndMerge at hset ⊢
  rcases hreq : net.request fun server => (server.status, server) with ⟨answer, net₁⟩
  rw [hreq] at hstatus hserver hset
  dsimp only at hstatus hserver
  cases answer with
  | none => exact absurd rfl hset
  | some status =>
      split_ifs at hstatus
      rw [Option.some_inj, Server.status, hmeta, Option.map_some] at hstatus
      subst hstatus
      dsimp only at hset ⊢
      split_ifs at hset ⊢ with hle
      · exact absurd (lastSyncedVersion_setRetention c _) hset
      · have hdata := net₁.request_fst fun server => (server.metadata, server)
        rcases hreq' : net₁.request fun server => (server.metadata, server) with ⟨answer', net₂⟩
        rw [hreq'] at hdata hset
        dsimp only at hdata
        split_ifs at hdata
        · rw [hserver, hmeta] at hdata
          subst hdata
          rfl
        · subst hdata
          exact absurd (lastSyncedVersion_setRetention c _) hset

/-- **The base version advances over applied records** exactly where each record whose path is in
conflict, when its turn comes, finds the name of the conflict copy free or the local row the same as
itself. -/
theorem downloadAndMerge_applies_iff (c : SyncClient) (r : SyncReading) (net : Net) (snapshot : Files)
    (hmeta : net.server.metadata = some snapshot)
    (hset : (c.downloadAndMerge r net).1.lastSyncedVersion ≠ c.lastSyncedVersion) :
    ∃ merged, merged = (c.setRetention net.server.retentionDays).rebased r net.server.version
        snapshot ∧
      (c.downloadAndMerge r net).1 = (merged.gcTombstones r.now).recordSyncSuccess r.now ∧
      ((∀ x ∈ snapshot.rows, Applied c.store merged.store x) ↔
        Transitions.StepsMeet (fun d x => some (mergeRecord r.timestamp d x))
          (Resolved r.timestamp) (c.setRetention net.server.retentionDays) snapshot.rows) := by
  refine ⟨_, rfl, downloadAndMerge_of_rebased hmeta hset, ?_⟩
  rw [Transitions.stepsMeet_foldl_iff, ← c.store_setRetention net.server.retentionDays]
  constructor
  · intro h done x rest hrows
    exact (applied_iff_resolved hrows _).mp (h x (by rw [hrows]; simp))
  · intro h x hx
    obtain ⟨done, rest, hrows⟩ := List.append_of_mem hx
    exact (applied_iff_resolved hrows _).mpr (h done x rest hrows)

/-- A server with one snapshot, and a reading of the clock. -/
def serverWith (snapshot : Files) : Net := { server := { version := 1, metadata := some snapshot } }

def atNoon : SyncReading := ⟨0, fun _ => "t".toList⟩

theorem syncedNote_applies :
    ∃ merged, merged = ((laptopWith (oneRow (note 1))).setRetention none).rebased atNoon 1
        (oneRow (note 2)) ∧
      ((laptopWith (oneRow (note 1))).downloadAndMerge atNoon (serverWith (oneRow (note 2)))).1 =
        (merged.gcTombstones 0).recordSyncSuccess 0 ∧
      ((∀ x ∈ (oneRow (note 2)).rows, Applied (laptopWith (oneRow (note 1))).store merged.store x) ↔
        Transitions.StepsMeet (fun d x => some (mergeRecord (fun _ => "t".toList) d x))
          (Resolved fun _ => "t".toList) ((laptopWith (oneRow (note 1))).setRetention none)
          (oneRow (note 2)).rows) :=
  downloadAndMerge_applies_iff (laptopWith (oneRow (note 1))) atNoon
    (serverWith (oneRow (note 2))) (oneRow (note 2)) rfl (by decide)

/-- A tombstone has the name of the conflict copy: the exception is logged, the record is not taken
over, and the base version is the server's all the same. -/
theorem base_passes_refused_record :
    (refusedNote.downloadAndMerge atNoon (serverWith (oneRow (note 3)))).1.lastSyncedVersion = 1 ∧
      refusedNote.lastSyncedVersion = 0 ∧
      ¬ ∀ x ∈ (oneRow (note 3)).rows, Applied refusedNote.store
        ((refusedNote.setRetention none).rebased atNoon 1 (oneRow (note 3))).store x := by
  refine ⟨by decide, rfl, fun h => ?_⟩
  rcases h ("/a".toList, note 3) (by decide) with ⟨r, hr, happlied⟩ | ⟨hdeleted, -⟩
  · have hrow : ((refusedNote.setRetention none).rebased atNoon 1 (oneRow (note 3))).store.lookupAny
        "/a".toList = some { note 2 with syncStatus := .pending } := by decide
    obtain rfl := Option.some_inj.mp (hrow.symm.trans hr)
    rcases happlied with hsame | hle
    · exact absurd hsame.1 (by decide)
    · exact absurd hle (by decide)
  · cases hdeleted

/-! ### Unsent changes -/

/-- Some live row names the physical file. -/
def Represented (s : MetadataStore) (place : Place) : Prop :=
  ∃ p r, s.lookup p = some r ∧ r.place = place

/-- The row is moved to a conflict copy in the course of the merge, and a later record of the snapshot
has the copy's name and a higher version. -/
def CopyOverwritten (timestamp : Text → Text) (c : SyncClient) (snapshot : Files) (p : Text)
    (l : FileRow) : Prop :=
  ∃ done rec rest rec' d, snapshot.rows = done ++ (p, rec) :: rest ∧
    d = done.foldl (mergeRecord timestamp) c ∧
    mergeAction (d.store.lookupAny p) rec = .conflict ∧
    d.store.lookupAny (d.conflictPath (timestamp p) p) = none ∧
    (d.conflictPath (timestamp p) p, rec') ∈ rest ∧ l.version < rec'.version

/-- Neither another row nor a record of the snapshot names the physical file of the row at the path. -/
def Unaliased (c : SyncClient) (snapshot : Files) (p : Text) (l : FileRow) : Prop :=
  (∀ q r, c.store.lookupAny q = some r → r.place = l.place → q = p) ∧
    ∀ q rec, snapshot.get q = some rec → rec.place ≠ l.place

/-- What a conflict with a free name leaves: the row under the copy's name, the record at the path. -/
theorem lookupAny_mergeRecord_of_conflict {c : SyncClient} {p : Text} {l rec : FileRow}
    (hl : c.store.lookupAny p = some l)
    (hconflict : mergeAction (c.store.lookupAny p) rec = .conflict)
    (hfree : c.store.lookupAny (c.conflictPath (timestamp p) p) = none) :
    (mergeRecord timestamp c (p, rec)).store.lookupAny (c.conflictPath (timestamp p) p) =
        some (conflictRow l) ∧
      (mergeRecord timestamp c (p, rec)).store.lookupAny p = some (insertedRow rec) := by
  refine ⟨?_, ?_⟩
  · rw [lookupAny_mergeRecord_of_ne c timestamp rec (c.conflictPath_ne_self _ _),
      if_pos ⟨hconflict, rfl, hfree⟩, hl, Option.map_some]
  · rw [lookupAny_mergeRecord_self, hconflict]
    exact if_pos hfree

/-- A row that is not pending stays under records that are not newer. -/
theorem lookupAny_foldl_mergeRecord_of_current {rows : List (Text × FileRow)} {c : SyncClient}
    {p : Text} {l : FileRow} (hl : c.store.lookupAny p = some l) (hstatus : l.syncStatus ≠ .pending)
    (hrows : ∀ rec, (p, rec) ∈ rows → rec.version ≤ l.version) :
    (rows.foldl (mergeRecord timestamp) c).store.lookupAny p = some l := by
  induction rows generalizing c with
  | nil => exact hl
  | cons x rows ih =>
      obtain ⟨q, rec⟩ := x
      rw [List.foldl_cons]
      refine ih ?_ fun rec' hrec' => hrows rec' (List.mem_cons_of_mem _ hrec')
      by_cases hp : p = q
      · subst hp
        rw [mergeRecord_of_settled (settled_of_current hl hstatus (hrows rec List.mem_cons_self))]
        exact hl
      · rw [lookupAny_mergeRecord_of_ne c timestamp rec hp, if_neg, hl]
        rintro ⟨-, -, hnone⟩
        rw [hl] at hnone
        cases hnone

/-- A pending row stays at its path, or it goes to a conflict copy, where only a later and newer record
reaches it. -/
theorem represented_mergeServerMetadata {c : SyncClient} {snapshot : Files} {p : Text} {l : FileRow}
    (hl : c.store.lookup p = some l) (hpending : l.syncStatus = .pending)
    (hkept : ¬ CopyOverwritten timestamp c snapshot p l) :
    Represented (c.mergeServerMetadata timestamp snapshot).store l.place := by
  obtain ⟨hrow, hlive⟩ := MetadataStore.lookup_eq_some_iff.mp hl
  cases hrec : snapshot.get p with
  | none =>
      refine ⟨p, l, MetadataStore.lookup_eq_some_iff.mpr ⟨?_, hlive⟩, rfl⟩
      exact lookupAny_foldl_mergeRecord timestamp hrow (Table.get_eq_none_iff.mp hrec)
  | some rec =>
      obtain ⟨done, rest, hrows⟩ := List.append_of_mem (Table.mem_rows_of_get hrec)
      obtain ⟨hdone, hrest, hmerge⟩ := foldl_split timestamp hrows c
      have hd := lookupAny_foldl_mergeRecord timestamp hrow hdone
      rw [hmerge]
      obtain ⟨d, hd'⟩ : ∃ d, d = done.foldl (mergeRecord timestamp) c := ⟨_, rfl⟩
      rw [← hd'] at hd ⊢
      by_cases hsettled : Settled timestamp d (p, rec)
      · rw [mergeRecord_of_settled hsettled]
        exact ⟨p, l, MetadataStore.lookup_eq_some_iff.mpr
          ⟨lookupAny_foldl_mergeRecord timestamp hd hrest, hlive⟩, rfl⟩
      · have haction : mergeAction (d.store.lookupAny p) rec = .conflict := by
          have hnot : ¬ mergeAction (d.store.lookupAny p) rec = .skip := fun h =>
            hsettled (Or.inl h)
          rw [hd, mergeAction_of_pending hpending] at hnot ⊢
          split_ifs at hnot ⊢
          · rfl
          · exact absurd rfl hnot
        have hfree : d.store.lookupAny (d.conflictPath (timestamp p) p) = none := by
          by_contra htaken
          exact hsettled (Or.inr ⟨haction, htaken⟩)
        obtain ⟨hcopy, -⟩ := lookupAny_mergeRecord_of_conflict hd haction hfree
        refine ⟨d.conflictPath (timestamp p) p, conflictRow l,
          MetadataStore.lookup_eq_some_iff.mpr ⟨?_, hlive⟩, rfl⟩
        refine lookupAny_foldl_mergeRecord_of_current hcopy (by simp [conflictRow])
          fun rec' hrec' => ?_
        by_contra hlt
        exact hkept ⟨done, rec, rest, rec', d, hrows, hd', haction, hfree, hrec', not_le.mp hlt⟩

/-- Some row at the path, live or not, names the physical file. -/
def Holds (s : MetadataStore) (place : Place) (p : Text) : Prop :=
  ∃ r, s.lookupAny p = some r ∧ r.place = place

/-- The record of another file takes its path's row away from a physical file; only a conflict copy
carries the file to a further path. -/
theorem holds_of_mergeRecord {c : SyncClient} {x : Text × FileRow} {place : Place} {q : Text}
    (hx : x.2.place ≠ place) (h : Holds (mergeRecord timestamp c x).store place q) :
    Holds c.store place q ∧ (q = x.1 → Settled timestamp c x) ∨
      mergeAction (c.store.lookupAny x.1) x.2 = .conflict ∧
        q = c.conflictPath (timestamp x.1) x.1 ∧ Holds c.store place x.1 := by
  obtain ⟨r, hr, hplace⟩ := h
  by_cases hq : q = x.1
  · subst hq
    by_cases hsettled : Settled timestamp c x
    · rw [mergeRecord_of_settled hsettled] at hr
      exact Or.inl ⟨⟨r, hr, hplace⟩, fun _ => hsettled⟩
    · obtain ⟨r', hr', -, hsame, -⟩ := lookupAny_mergeRecord_of_not_settled hsettled
      obtain rfl := Option.some_inj.mp (hr.symm.trans hr')
      exact absurd (hsame.2.2.1.symm.trans hplace) hx
  · rw [lookupAny_mergeRecord_of_ne c timestamp x.2 hq] at hr
    split_ifs at hr with hcopy
    · obtain ⟨r', hr', rfl⟩ := Option.map_eq_some_iff.mp hr
      exact Or.inr ⟨hcopy.1, hcopy.2.1, r', hr', hplace⟩
    · exact Or.inl ⟨⟨r, hr, hplace⟩, fun h => absurd h hq⟩

/-- Records of other files and at other paths bring no further path to a physical file. -/
theorem holds_of_foldl_mergeRecord {rows : List (Text × FileRow)} {c : SyncClient} {place : Place}
    {q : Text} (hrows : ∀ x ∈ rows, x.2.place ≠ place ∧ ¬ Holds c.store place x.1)
    (h : Holds (rows.foldl (mergeRecord timestamp) c).store place q) : Holds c.store place q := by
  induction rows generalizing c with
  | nil => exact h
  | cons x rows ih =>
      have hhead := hrows x List.mem_cons_self
      have hstep : ∀ k, Holds (mergeRecord timestamp c x).store place k → Holds c.store place k := by
        intro k hk
        rcases holds_of_mergeRecord hhead.1 hk with ⟨hk, -⟩ | ⟨-, -, hx⟩
        · exact hk
        · exact absurd hx hhead.2
      refine hstep q (ih (fun y hy => ?_) h)
      have hy' := hrows y (List.mem_cons_of_mem x hy)
      exact ⟨hy'.1, fun hk => hy'.2 (hstep _ hk)⟩

/-- The only name of a physical file is lost where its conflict copy is overwritten. -/
theorem not_represented_of_overwritten {c : SyncClient} {snapshot : Files} {p : Text} {l : FileRow}
    (hl : c.store.lookupAny p = some l) (halone : Unaliased c snapshot p l)
    (hover : CopyOverwritten timestamp c snapshot p l) :
    ¬ Represented (c.mergeServerMetadata timestamp snapshot).store l.place := by
  obtain ⟨done, rec, rest, rec', d, hrows, hd', hconflict, hfree, hmem, hlt⟩ := hover
  obtain ⟨hdone, hrest, hmerge⟩ := foldl_split timestamp hrows c
  have hplace : ∀ x ∈ snapshot.rows, x.2.place ≠ l.place := fun x hx =>
    halone.2 x.1 x.2 (Table.get_of_mem_rows hx)
  rw [hrows] at hplace
  rw [hmerge, ← hd']
  have hd : d.store.lookupAny p = some l := by
    rw [hd']
    exact lookupAny_foldl_mergeRecord timestamp hl hdone
  -- before the record, the path alone holds the file
  have hbefore : ∀ q, Holds d.store l.place q → q = p := by
    intro q hq
    rw [hd'] at hq
    obtain ⟨r, hr, hr'⟩ := holds_of_foldl_mergeRecord (fun x hx => ⟨hplace x (by simp [hx]),
      fun ⟨r, hr, hr'⟩ => hdone (halone.1 _ r hr hr' ▸ List.mem_map_of_mem hx)⟩) hq
    exact halone.1 q r hr hr'
  -- after it, the copy alone does
  obtain ⟨hcopy, hself⟩ := lookupAny_mergeRecord_of_conflict hd hconflict hfree
  obtain ⟨n, hn⟩ : ∃ n, n = d.conflictPath (timestamp p) p := ⟨_, rfl⟩
  rw [← hn] at hcopy hfree hmem
  have hmoved : ∀ q, Holds (mergeRecord timestamp d (p, rec)).store l.place q → q = n := by
    intro q hq
    rcases holds_of_mergeRecord (hplace (p, rec) (by simp)) hq with ⟨hq', hsettled⟩ | ⟨-, hname, -⟩
    · rcases hsettled (hbefore q hq') with hskip | ⟨-, htaken⟩
      · exact absurd (hskip.symm.trans hconflict) (by decide)
      · exact absurd hfree (hn ▸ htaken)
    · exact hname.trans hn.symm
  -- the later record takes the copy's row
  obtain ⟨between, after, hsplit⟩ := List.append_of_mem hmem
  have hnodup := snapshot.nodup
  rw [hrows, hsplit] at hnodup
  simp only [List.map_append, List.map_cons, List.nodup_append, List.nodup_cons] at hnodup
  obtain ⟨-, ⟨-, -, ⟨hafter, -⟩, hapart⟩, -⟩ := hnodup
  have hbetween : n ∉ between.map Prod.fst := fun h => hapart n h n List.mem_cons_self rfl
  rw [hsplit, List.foldl_append, List.foldl_cons]
  have hcopy' := lookupAny_foldl_mergeRecord timestamp hcopy hbetween
  have hstill : ∀ q, Holds (between.foldl (mergeRecord timestamp)
      (mergeRecord timestamp d (p, rec))).store l.place q → q = n := by
    intro q hq
    refine hmoved q (holds_of_foldl_mergeRecord (fun x hx => ⟨hplace x (by simp [hsplit, hx]),
      fun hhold => hbetween ?_⟩) hq)
    rw [← hmoved _ hhold]
    exact List.mem_map_of_mem hx
  generalize between.foldl (mergeRecord timestamp) (mergeRecord timestamp d (p, rec)) = e at *
  have haction : mergeAction (e.store.lookupAny n) rec' = .update := by
    rw [hcopy', mergeAction_of_not_pending (by simp [conflictRow])]
    exact if_pos hlt
  have hgone : ∀ q, ¬ Holds (mergeRecord timestamp e (n, rec')).store l.place q := by
    intro q hq
    rcases holds_of_mergeRecord (hplace (n, rec') (by simp [hsplit])) hq with
      ⟨hq', hsettled⟩ | ⟨hcontra, -⟩
    · rcases hsettled (hstill q hq') with hskip | ⟨hcontra, -⟩
      · exact absurd (hskip.symm.trans haction) (by decide)
      · exact absurd (hcontra.symm.trans haction) (by decide)
    · exact absurd (hcontra.symm.trans haction) (by decide)
  rintro ⟨q, r, hr, hr'⟩
  refine hgone q (holds_of_foldl_mergeRecord (fun x hx => ⟨hplace x (by simp [hsplit, hx]),
    fun hhold => hgone x.1 hhold⟩) ⟨r, (MetadataStore.lookup_eq_some_iff.mp hr).1, hr'⟩)

/-- **Unsent changes survive a merge** where no conflict copy is overwritten by a later record at its
name; and where the physical file has no second name, one whose copy is overwritten is lost. -/
theorem mergeServerMetadata_keepsPending (c : SyncClient) (timestamp : Text → Text)
    (snapshot : Files) :
    ((∀ p l, c.store.lookup p = some l → l.syncStatus = .pending →
        ¬ CopyOverwritten timestamp c snapshot p l) →
      ∀ p l, c.store.lookup p = some l → l.syncStatus = .pending →
        Represented (c.mergeServerMetadata timestamp snapshot).store l.place) ∧
    ∀ p l, c.store.lookup p = some l → Unaliased c snapshot p l →
      CopyOverwritten timestamp c snapshot p l →
        ¬ Represented (c.mergeServerMetadata timestamp snapshot).store l.place :=
  ⟨fun h p l hl hpending => represented_mergeServerMetadata hl hpending (h p l hl hpending),
    fun _ _ hl => not_represented_of_overwritten (MetadataStore.lookup_eq_some_iff.mp hl).1⟩

/-- The note as other devices have it, in another place. -/
def noteElsewhere (version : Int) : FileRow := { note version with sourceId := "t" }

/-- Two devices of one name: the copy made on one of them has the path of a copy the other has sent,
which comes later in the snapshot. -/
theorem copy_overwritten_by_later_record :
    (laptopWith (oneRow { note 2 with syncStatus := .pending })).store.lookup "/a".toList =
        some { note 2 with syncStatus := .pending } ∧
      ¬ Represented ((laptopWith (oneRow { note 2 with syncStatus := .pending })).mergeServerMetadata
        (fun _ => "t".toList) ((oneRow (noteElsewhere 3)).insert
          "/a (conflict - laptop - t)".toList (noteElsewhere 4))).store (note 2).place := by
  refine ⟨by decide, fun ⟨q, r, hr, hplace⟩ => ?_⟩
  have hrows : ((laptopWith (oneRow { note 2 with syncStatus := .pending })).mergeServerMetadata
      (fun _ => "t".toList) ((oneRow (noteElsewhere 3)).insert
        "/a (conflict - laptop - t)".toList (noteElsewhere 4))).store.files.rows.all
          fun x => x.2.sourceId = "t" := by decide
  have hmem := Table.mem_rows_of_get (MetadataStore.lookup_eq_some_iff.mp hr).1
  have hsource : r.sourceId = "t" := by simpa using List.all_eq_true.mp hrows _ hmem
  have hplace' : r.sourceId = "s" := congrArg Place.sourceId hplace
  rw [hsource] at hplace'
  exact absurd hplace' (by decide)

end SyncClient

end StardustFS
