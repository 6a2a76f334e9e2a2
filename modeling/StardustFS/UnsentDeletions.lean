import StardustFS.Rebaseline
import StardustFS.Transitions

/-! Deletions that no snapshot of the server contains yet. Tombstones are collected by age alone, before
the PUT of an upload and after the merge of a download, so that a deletion that stays unsent for longer
than the retention period is forgotten, and the next merge takes the old record over again. -/

namespace StardustFS

/-- A deletion that is still to be sent. -/
def UnsentDeletion (s : MetadataStore) (p : Text) (r : FileRow) : Prop :=
  s.lookupAny p = some r ∧ r.deleted = true ∧ r.syncStatus = .pending

/-- A deleted path is not live. -/
theorem UnsentDeletion.lookup_eq_none {s : MetadataStore} {p : Text} {r : FileRow}
    (h : UnsentDeletion s p r) : s.lookup p = none := by
  rw [MetadataStore.lookup_eq_none_iff]
  intro r' hr'
  obtain rfl := Option.some_inj.mp (h.1.symm.trans hr')
  exact h.2.1

/-- The server once it has taken the table. -/
def Server.taking (server : Server) (files : Files) : Server :=
  { server with version := server.version + 1, metadata := some files }

/-- A PUT leaves the server alone, or is taken, whether or not the answer arrives. -/
theorem Net.request_put_cases (net : Net) (base : Option Nat) (files : Files) :
    ((net.request fun server => server.put base files).2.server = net.server ∧
      ∀ version, (net.request fun server => server.put base files).1 ≠ some (some version)) ∨
    (net.request fun server => server.put base files).2.server = net.server.taking files ∧
      (net.request fun server => server.put base files).1 ≠ some none := by
  have hput : (net.server.put base files = (some (net.server.version + 1), net.server.taking files)) ∨
      net.server.put base files = (none, net.server) := by
    unfold Server.put
    split_ifs
    · exact Or.inl rfl
    · exact Or.inr rfl
  obtain ⟨server, fates, log⟩ := net
  rcases fates with - | ⟨- | - | -, fates⟩ <;> rcases hput with h | h <;>
    simp [Net.request, h]

namespace SyncClient

/-! ### The collections of a call -/

/-- The client at the collection of a download, the merge being done. -/
def downloadPurges (c : SyncClient) (r : SyncReading) (net : Net) : List SyncClient :=
  match net.request fun server => (server.status, server) with
  | (some (some version, days), net) =>
      let c := c.setRetention days
      if version ≤ c.lastSyncedVersion then []
      else match net.request fun server => (server.metadata, server) with
        | (some (some snapshot), _) =>
            [{ c.mergeServerMetadata r.timestamp snapshot with lastSyncedVersion := version }]
        | _ => []
  | _ => []

/-- Those of the downloads between the attempts of an upload. -/
def attemptPurges (r : SyncReading) : Nat → SyncClient → Net → List SyncClient
  | 0, _, _ => []
  | attempts + 1, c, net =>
      if c.pendingPaths = [] then []
      else match (net.record (.put c.lastSyncedVersion)).request
          fun server => server.put (some c.lastSyncedVersion) c.store.files with
        | (some none, net) =>
            c.downloadPurges r net ++
              attemptPurges r attempts (c.downloadAndMerge r net).1 (c.downloadAndMerge r net).2
        | _ => []

/-- An upload collects before its first attempt. -/
def uploadPurges (c : SyncClient) (r : SyncReading) (net : Net) : List SyncClient :=
  if c.pendingPaths = [] then []
  else c :: attemptPurges r maxCasRetries (c.gcTombstones r.now) net

/-- A re-baselining collects where it uploads what it has isolated. -/
def reconcilePurges (c : SyncClient) (r : SyncReading) (net : Net) : List SyncClient :=
  let (c, net) := c.fetchRetentionDays net
  if !c.isStale r.now then []
  else
    let (d, net) := c.adoptServerCopy r net
    if 0 < (c.isolatePending r.timestamp).2 then d.uploadPurges r (net.record .rebaselined) else []

/-! ### What a call keeps -/

/-- What every part of a call keeps, a collection of a client that meets `Sp` among them. -/
structure KeptByCall (Sp : SyncClient → Prop) (Q : SyncClient → Server → Prop) (r : SyncReading) :
    Prop where
  tables : ∀ c {c' server}, c'.store = c.store → Q c server → Q c' server
  purge : ∀ {c server}, Sp c → Q c server → Q (c.gcTombstones r.now) server
  take : ∀ {c server}, Q c server → Q c (server.taking c.store.files)
  accept : ∀ {c server version}, Q c server →
    Q (c.accepted r.now version c.pendingPaths) (server.taking c.store.files)
  merge : ∀ {c server snapshot}, server.metadata = some snapshot → Q c server →
    Q (c.mergeServerMetadata r.timestamp snapshot) server
  isolate : ∀ {c server}, Q c server → Q (c.isolatePending r.timestamp).1 server

section Call

variable {Sp : SyncClient → Prop} {Q : SyncClient → Server → Prop} {r : SyncReading}

theorem KeptByCall.forceUpload (hQ : KeptByCall Sp Q r) {c : SyncClient} {net : Net}
    (h : Q c net.server) :
    Q (c.forceUpload r.now net).1 (c.forceUpload r.now net).2.server := by
  have hput := (net.record .forcePut).request_put_cases none c.store.files
  unfold SyncClient.forceUpload
  split
  · rename_i version net₁ hreq
    rw [hreq] at hput
    rcases hput with ⟨-, hnot⟩ | ⟨hserver, -⟩
    · exact absurd rfl (hnot version)
    · rw [hserver]
      exact hQ.accept h
  · rename_i ans net₁ hno hreq
    rw [hreq] at hput
    rcases hput with ⟨hserver, -⟩ | ⟨hserver, -⟩
    · rw [hserver]
      exact h
    · rw [hserver]
      exact hQ.take h

/-- What is kept is kept by a download; it holds where the download collects, too. -/
theorem KeptByCall.downloadAndMerge (hQ : KeptByCall Sp Q r) {c : SyncClient} {net : Net}
    (hSp : ∀ d ∈ c.downloadPurges r net, Sp d) (h : Q c net.server) :
    (∀ d ∈ c.downloadPurges r net, ∃ server, Q d server) ∧
      Q (c.downloadAndMerge r net).1 (c.downloadAndMerge r net).2.server := by
  have hret : ∀ {days}, Q (c.setRetention days) net.server :=
    hQ.tables c (c.store_setRetention _) h
  have hserver := net.server_request_of_reads Server.status
  unfold SyncClient.downloadPurges at hSp ⊢
  unfold SyncClient.downloadAndMerge
  cases hreq : net.request fun server => (server.status, server) with
  | mk ans net₁ =>
    rw [hreq] at hserver hSp
    dsimp only at hserver hSp
    rcases ans with - | ⟨- | version, days⟩
    · exact ⟨fun _ hd => absurd hd List.not_mem_nil, hserver ▸ h⟩
    · refine ⟨fun _ hd => absurd hd List.not_mem_nil, hQ.forceUpload ?_⟩
      rw [hserver]
      exact hret
    · dsimp only at hSp ⊢
      split_ifs at hSp ⊢
      · exact ⟨fun _ hd => absurd hd List.not_mem_nil, hserver ▸ hret⟩
      · have hserver' := net₁.server_request_of_reads Server.metadata
        have hfst := net₁.request_fst fun server => (server.metadata, server)
        cases hreq' : net₁.request fun server => (server.metadata, server) with
        | mk ans' net₂ =>
          rw [hreq'] at hserver' hSp hfst
          dsimp only at hserver' hSp hfst
          rcases ans' with - | - | snapshot
          · exact ⟨fun _ hd => absurd hd List.not_mem_nil, (hserver'.trans hserver) ▸ hret⟩
          · exact ⟨fun _ hd => absurd hd List.not_mem_nil, (hserver'.trans hserver) ▸ hret⟩
          · have hmeta : net₁.server.metadata = some snapshot := by
              split_ifs at hfst
              exact (Option.some_inj.mp hfst).symm
            obtain ⟨m, hm⟩ : ∃ m, m = { (c.setRetention days).mergeServerMetadata r.timestamp
              snapshot with lastSyncedVersion := version } := ⟨_, rfl⟩
            have hmerged : Q m net₂.server := by
              refine hQ.tables ((c.setRetention days).mergeServerMetadata r.timestamp snapshot)
                (by rw [hm]) ?_
              rw [hserver']
              exact hQ.merge hmeta (hserver ▸ hret)
            dsimp only at hSp ⊢
            rw [← hm] at hSp ⊢
            refine ⟨fun d hd => ⟨net₂.server, ?_⟩, ?_⟩
            · rw [List.mem_singleton.mp hd]
              exact hmerged
            · exact hQ.tables (m.gcTombstones r.now) rfl
                (hQ.purge (hSp m (List.mem_singleton_self m)) hmerged)

theorem KeptByCall.uploadAttempts (hQ : KeptByCall Sp Q r) (n : Nat) {c : SyncClient} {net : Net}
    (hSp : ∀ d ∈ attemptPurges r n c net, Sp d) (h : Q c net.server) :
    (∀ d ∈ attemptPurges r n c net, ∃ server, Q d server) ∧
      Q (SyncClient.uploadAttempts r n c net).1 (SyncClient.uploadAttempts r n c net).2.server := by
  induction n generalizing c net with
  | zero => exact ⟨fun _ hd => absurd hd List.not_mem_nil, h⟩
  | succ n ih =>
      have hput := (net.record (.put c.lastSyncedVersion)).request_put_cases
        (some c.lastSyncedVersion) c.store.files
      unfold SyncClient.attemptPurges at hSp ⊢
      unfold SyncClient.uploadAttempts
      dsimp only
      split_ifs at hSp ⊢ with hpending
      · exact ⟨fun _ hd => absurd hd List.not_mem_nil, h⟩
      · cases hreq : (net.record (.put c.lastSyncedVersion)).request
            fun server => server.put (some c.lastSyncedVersion) c.store.files with
        | mk ans net₁ =>
          rw [hreq] at hput hSp
          dsimp only at hput hSp
          rcases ans with - | - | version
          · refine ⟨fun _ hd => absurd hd List.not_mem_nil, ?_⟩
            rcases hput with ⟨hserver, -⟩ | ⟨hserver, -⟩
            · exact hserver ▸ h
            · rw [hserver]
              exact hQ.take h
          · have hserver : net₁.server = net.server := by
              rcases hput with ⟨hserver, -⟩ | ⟨-, hnot⟩
              · exact hserver
              · exact absurd rfl hnot
            obtain ⟨hdown, hafter⟩ := hQ.downloadAndMerge
              (fun d hd => hSp d (List.mem_append_left _ hd)) (hserver ▸ h)
            obtain ⟨hrest, hend⟩ := ih (fun d hd => hSp d (List.mem_append_right _ hd)) hafter
            refine ⟨fun d hd => ?_, hend⟩
            exact (List.mem_append.mp hd).elim (hdown d) (hrest d)
          · refine ⟨fun _ hd => absurd hd List.not_mem_nil, ?_⟩
            rcases hput with ⟨-, hnot⟩ | ⟨hserver, -⟩
            · exact absurd rfl (hnot version)
            · dsimp only
              rw [hserver]
              exact hQ.accept h

theorem KeptByCall.uploadMetadata (hQ : KeptByCall Sp Q r) {c : SyncClient} {net : Net}
    (hSp : ∀ d ∈ c.uploadPurges r net, Sp d) (h : Q c net.server) :
    (∀ d ∈ c.uploadPurges r net, ∃ server, Q d server) ∧
      Q (c.uploadMetadata r net).1 (c.uploadMetadata r net).2.server := by
  unfold SyncClient.uploadPurges at hSp ⊢
  unfold SyncClient.uploadMetadata
  split_ifs at hSp ⊢
  · exact ⟨fun _ hd => absurd hd List.not_mem_nil, h⟩
  · obtain ⟨hattempts, hend⟩ := hQ.uploadAttempts maxCasRetries
      (fun d hd => hSp d (List.mem_cons_of_mem c hd)) (hQ.purge (hSp c List.mem_cons_self) h)
    refine ⟨fun d hd => ?_, hend⟩
    rcases List.mem_cons.mp hd with rfl | hd
    · exact ⟨_, h⟩
    · exact hattempts d hd

theorem KeptByCall.initialSync (hQ : KeptByCall Sp Q r) {c : SyncClient} {net : Net}
    (h : Q c net.server) :
    Q (c.initialSync r net).1 (c.initialSync r net).2.server := by
  have hserver := net.server_request_of_reads Server.metadata
  have hfst := net.request_fst fun server => (server.metadata, server)
  unfold SyncClient.initialSync
  cases hreq : net.request fun server => (server.metadata, server) with
  | mk ans net₁ =>
    rw [hreq] at hserver hfst
    dsimp only at hserver hfst
    rcases ans with - | - | snapshot
    · exact hserver ▸ h
    · exact hQ.forceUpload (hserver ▸ h)
    · have hmeta : net.server.metadata = some snapshot := by
        split_ifs at hfst
        exact (Option.some_inj.mp hfst).symm
      have hmerged := hQ.merge hmeta h
      dsimp only
      split_ifs
      · rw [hserver]
        exact hQ.tables _ (JbodManager.metadataStore_gcOrphanFiles _) hmerged
      · rw [hserver]
        exact hmerged

theorem KeptByCall.reconcileIfStale (hQ : KeptByCall Sp Q r) {c : SyncClient} {net : Net}
    (hSp : ∀ d ∈ c.reconcilePurges r net, Sp d) (h : Q c net.server) :
    (∀ d ∈ c.reconcilePurges r net, ∃ server, Q d server) ∧
      Q (c.reconcileIfStale r net).2.1 (c.reconcileIfStale r net).2.2.server := by
  have hserver : (c.fetchRetentionDays net).2.server = net.server := by
    rw [SyncClient.fetchRetentionDays_snd, Net.server_request_of_reads]
  have hfetched : Q (c.fetchRetentionDays net).1 (c.fetchRetentionDays net).2.server := by
    rw [hserver]
    exact hQ.tables c (Rebaseline.store_fetchRetentionDays c net) h
  have hadopted : Q ((c.fetchRetentionDays net).1.adoptServerCopy r (c.fetchRetentionDays net).2).1
      ((c.fetchRetentionDays net).1.adoptServerCopy r (c.fetchRetentionDays net).2).2.server :=
    hQ.initialSync (hQ.tables ((c.fetchRetentionDays net).1.isolatePending r.timestamp).1 rfl
      (hQ.isolate hfetched))
  unfold SyncClient.reconcilePurges at hSp ⊢
  cases hstale : (c.fetchRetentionDays net).1.isStale r.now with
  | false =>
      rw [reconcileIfStale_of_fresh hstale]
      simp only [hstale, Bool.not_false, if_true]
      exact ⟨fun _ hd => absurd hd List.not_mem_nil, hfetched⟩
  | true =>
      rw [reconcileIfStale_of_stale hstale]
      simp only [hstale, Bool.not_true, Bool.false_eq_true, if_false] at hSp ⊢
      split_ifs at hSp ⊢
      · exact hQ.uploadMetadata hSp hadopted
      · exact ⟨fun _ hd => absurd hd List.not_mem_nil, hadopted⟩

end Call

/-! ### Unsent deletions in the course of a call -/

/-- A change whose conflict name is taken stays where it is. -/
theorem isolate_of_taken {timestamp : Text → Text} {acc : SyncClient × Nat} {p : Text} {l : FileRow}
    (hp : acc.1.store.lookupAny p = some l)
    (htaken : acc.1.store.lookupAny (acc.1.conflictPath (timestamp p) p) ≠ none) :
    isolate timestamp acc (p, l) = acc := by
  have hnone : acc.1.store.renamePath p (ConflictResolver.generateConflictName acc.1.store
      acc.1.deviceName (timestamp p) p) = none :=
    MetadataStore.renamePath_eq_none_iff.mpr ⟨⟨l, hp⟩, Option.ne_none_iff_exists'.mp htaken,
      (acc.1.conflictPath_ne_self (timestamp p) p).symm⟩
  unfold isolate
  dsimp only
  rw [hnone]
  split_ifs <;> rfl

/-- The isolation of pending changes makes no tombstone. -/
theorem unsentDeletion_of_isolatePending {c : SyncClient} {timestamp : Text → Text} {q : Text}
    {row : FileRow} (h : UnsentDeletion (c.isolatePending timestamp).1.store q row) :
    UnsentDeletion c.store q row := by
  have hfold := (Rebaseline.pendingTable c.store).foldl_rule (b := (c, 0)) (isolate timestamp)
    (fun acc => ∀ k row, acc.1.store.lookupAny k = some row → row.deleted = true →
      c.store.lookupAny k = some row)
    (fun p l acc => acc.1.store.lookupAny p = some l) (fun _ _ _ => True)
    (fun _ _ hk _ => hk) (fun p l hp => (Rebaseline.get_pendingTable.mp hp).1) ?_
  · rw [Rebaseline.rows_pendingTable] at hfold
    exact ⟨hfold.1 q row h.1 h.2.1, h.2⟩
  · intro p l acc hp hback hhere
    refine ⟨fun k row hk hdel => ?_, trivial, fun k _ hne _ =>
      ⟨fun h => Rebaseline.lookupAny_isolate_of_some hhere h hne, id⟩⟩
    cases hlive : l.deleted with
    | true =>
        rw [isolate, if_pos hlive] at hk
        exact hback k row hk hdel
    | false =>
        by_cases hfree : acc.1.store.lookupAny (acc.1.conflictPath (timestamp p) p) = none
        · rw [Rebaseline.lookupAny_isolate timestamp hlive (Rebaseline.get_pendingTable.mp hp).2 hhere
            hfree] at hk
          split_ifs at hk
          · rw [← Option.some_inj.mp hk, hlive] at hdel
            cases hdel
          · exact hback k row hk hdel
        · rw [isolate_of_taken hhere hfree] at hk
          exact hback k row hk hdel

/-- It leaves a tombstone where it is. -/
theorem lookupAny_isolatePending_of_deleted {c : SyncClient} {timestamp : Text → Text} {q : Text}
    {row : FileRow} (hrow : c.store.lookupAny q = some row) (hdel : row.deleted = true) :
    (c.isolatePending timestamp).1.store.lookupAny q = some row := by
  have hfold := (Rebaseline.pendingTable c.store).foldl_rule (b := (c, 0)) (isolate timestamp)
    (fun acc => acc.1.store.lookupAny q = some row)
    (fun p l acc => acc.1.store.lookupAny p = some l) (fun _ _ _ => True)
    hrow (fun p l hp => (Rebaseline.get_pendingTable.mp hp).1) ?_
  · rw [Rebaseline.rows_pendingTable] at hfold
    exact hfold.1
  · intro p l acc hp hq hhere
    refine ⟨?_, trivial, fun k _ hne _ =>
      ⟨fun h => Rebaseline.lookupAny_isolate_of_some hhere h hne, id⟩⟩
    by_cases hne : q = p
    · subst hne
      obtain rfl := Option.some_inj.mp (hq.symm.trans hhere)
      rw [isolate, if_pos hdel]
      exact hq
    · exact Rebaseline.lookupAny_isolate_of_some hhere hq hne

/-- A row that has been merged is still there, or the record has taken its place. -/
theorem lookupAny_mergeServerMetadata_cases {c : SyncClient} (timestamp : Text → Text)
    {snapshot : Files} {p : Text} {l : FileRow} (hl : c.store.lookupAny p = some l) :
    (c.mergeServerMetadata timestamp snapshot).store.lookupAny p = some l ∨
      ∃ rec l', snapshot.get p = some rec ∧ l.version ≤ rec.version ∧
        (c.mergeServerMetadata timestamp snapshot).store.lookupAny p = some l' ∧
        l'.syncStatus = .synced ∧ SameRecord l' rec := by
  cases hrec : snapshot.get p with
  | none => exact Or.inl (lookupAny_foldl_mergeRecord timestamp hl (Table.get_eq_none_iff.mp hrec))
  | some rec =>
      obtain ⟨done, rest, hrows⟩ := List.append_of_mem (Table.mem_rows_of_get hrec)
      obtain ⟨hdone, hrest, hmerge⟩ := foldl_split timestamp hrows c
      have hd := lookupAny_foldl_mergeRecord timestamp hl hdone
      rw [hmerge]
      by_cases hsettled : Settled timestamp (done.foldl (mergeRecord timestamp) c) (p, rec)
      · left
        rw [mergeRecord_of_settled hsettled]
        exact lookupAny_foldl_mergeRecord timestamp hd hrest
      · right
        obtain ⟨l', hl', hsynced, hsame, -⟩ := lookupAny_mergeRecord_of_not_settled hsettled
        refine ⟨rec, l', rfl, ?_, lookupAny_foldl_mergeRecord timestamp hl' hrest, hsynced, hsame⟩
        by_contra hlt
        rw [not_le] at hlt
        apply hsettled
        left
        show mergeAction ((done.foldl (mergeRecord timestamp) c).store.lookupAny p) rec = .skip
        have hbase : l.version - 1 ≤ localBaseVersion l := by
          unfold localBaseVersion
          split_ifs <;> omega
        rw [hd, mergeAction, if_neg (by omega), if_neg (by omega)]

/-- The server's snapshot has a record of the path that is no older than the version. -/
def Known (server : Server) (p : Text) (version : Int) : Prop :=
  ∃ snapshot rec, server.metadata = some snapshot ∧ snapshot.get p = some rec ∧ version ≤ rec.version

/-- The server has the deletion itself. -/
def HasDeletion (server : Server) (p : Text) (r : FileRow) : Prop :=
  ∃ snapshot rec, server.metadata = some snapshot ∧ snapshot.get p = some rec ∧ SameRecord rec r

/-- In the course of a call the server it began with knows of the deletion or something newer; or the
device still has it, pending unless it is on the server by now. -/
def Remembered (p : Text) (r : FileRow) (before : Server) (c : SyncClient) (server : Server) : Prop :=
  Known before p r.version ∨ ∃ l, c.store.lookupAny p = some l ∧ SameRecord l r ∧
    (HasDeletion server p r ∨ l.syncStatus = .pending ∧ server.metadata = before.metadata)

theorem keptByCall_remembered {p : Text} {r : FileRow} (hdel : r.deleted = true) (before : Server)
    (reading : SyncReading) : KeptByCall
      (fun d => MetadataStore.expired r reading.now d.retentionSeconds = false)
      (Remembered p r before) reading where
  tables c c' server hstore h := by
    refine h.imp_right ?_
    rintro ⟨l, hl, hrest⟩
    exact ⟨l, by rw [hstore]; exact hl, hrest⟩
  purge hexp h := by
    refine h.imp_right ?_
    rintro ⟨l, hl, hsame, hserver⟩
    refine ⟨l, lookupAny_gcTombstones_of_kept hl ?_, hsame, hserver⟩
    rw [MetadataStore.expired, hsame.2.1, hsame.2.2.2.2, ← MetadataStore.expired, hexp]
  take h := by
    refine h.imp_right ?_
    rintro ⟨l, hl, hsame, -⟩
    exact ⟨l, hl, hsame, Or.inl ⟨_, l, rfl, hl, hsame⟩⟩
  accept h := by
    refine h.imp_right ?_
    rintro ⟨l, hl, hsame, -⟩
    refine ⟨uploadedRow l, ?_, (sameRecord_uploadedRow l).trans hsame,
      Or.inl ⟨_, l, rfl, hl, hsame⟩⟩
    rw [lookupAny_accepted, hl, Option.map_some]
  merge hmeta h := by
    rcases h with hknown | ⟨l, hl, hsame, hserver⟩
    · exact Or.inl hknown
    · rcases lookupAny_mergeServerMetadata_cases reading.timestamp hl with
        hstays | ⟨rec, l', hrec, hle, hl', hsynced, hsame'⟩
      · exact Or.inr ⟨l, hstays, hsame, hserver⟩
      · rcases hserver with ⟨snapshot', rec', hmeta', hrec', hdeletion⟩ | ⟨-, hbefore⟩
        · obtain rfl := Option.some_inj.mp (hmeta.symm.trans hmeta')
          obtain rfl := Option.some_inj.mp (hrec.symm.trans hrec')
          exact Or.inr ⟨l', hl', hsame'.trans hdeletion, Or.inl ⟨_, _, hmeta, hrec, hdeletion⟩⟩
        · exact Or.inl ⟨_, rec, hbefore.symm.trans hmeta, hrec, hsame.1 ▸ hle⟩
  isolate h := by
    refine h.imp_right ?_
    rintro ⟨l, hl, hsame, hserver⟩
    exact ⟨l, lookupAny_isolatePending_of_deleted hl (hsame.2.1.trans hdel), hsame, hserver⟩

/-- What is an unsent deletion in the course of a call is one when it begins. -/
theorem keptByCall_unsent (before : MetadataStore) (reading : SyncReading) :
    KeptByCall (fun _ => True)
      (fun c _ => ∀ p l, UnsentDeletion c.store p l → UnsentDeletion before p l) reading where
  tables c c' server hstore h := by
    rw [hstore]
    exact h
  purge _ h p l hl := h p l ⟨lookupAny_of_gcTombstones hl.1, hl.2⟩
  take h := h
  accept h p l hl := by
    rw [UnsentDeletion, lookupAny_accepted, Option.map_eq_some_iff] at hl
    obtain ⟨⟨l', -, rfl⟩, -, hpending⟩ := hl
    exact absurd hpending (syncStatus_uploadedRow l')
  merge _ h p l hl := h p l ⟨lookupAny_of_pending_foldl_mergeRecord hl.1 hl.2.2, hl.2⟩
  isolate h p l hl := h p l (unsentDeletion_of_isolatePending hl)

end SyncClient

/-- A device, the server as it finds it, and the clock. -/
structure LoneDevice where
  client : SyncClient
  server : Server
  now : Time

/-- What the device does, with the texts of the clock and the fates of the requests of a call, and what
others do to the server between its calls. -/
inductive LoneEvent where
  | tick (now : Time)
  | delete (virtualPath : Text)
  | upload (timestamp : Text → Text) (fates : List Fate)
  | download (timestamp : Text → Text) (fates : List Fate)
  | reconcile (timestamp : Text → Text) (fates : List Fate)
  | others (server : Server)

namespace LoneDevice

def reading (s : LoneDevice) (timestamp : Text → Text) : SyncReading := ⟨s.now, timestamp⟩

def net (s : LoneDevice) (fates : List Fate) : Net := { server := s.server, fates }

def after (s : LoneDevice) (out : SyncClient × Net) : LoneDevice :=
  { s with client := out.1, server := out.2.server }

def step (s : LoneDevice) : LoneEvent → Option LoneDevice
  | .tick now => if s.now ≤ now then some { s with now } else none
  | .delete p => some { s with client := s.client.setStore (s.client.store.delete p s.now) }
  | .upload timestamp fates =>
      some (s.after (s.client.uploadMetadata (s.reading timestamp) (s.net fates)))
  | .download timestamp fates =>
      some (s.after (s.client.downloadAndMerge (s.reading timestamp) (s.net fates)))
  | .reconcile timestamp fates =>
      some (s.after (s.client.reconcileIfStale (s.reading timestamp) (s.net fates)).2)
  | .others server => some { s with server }

/-- The clients whose tombstones a step collects. -/
def purges (s : LoneDevice) : LoneEvent → List SyncClient
  | .upload timestamp fates => s.client.uploadPurges (s.reading timestamp) (s.net fates)
  | .download timestamp fates => s.client.downloadPurges (s.reading timestamp) (s.net fates)
  | .reconcile timestamp fates => s.client.reconcilePurges (s.reading timestamp) (s.net fates)
  | _ => []

/-- No collection of the step removes an unsent deletion. -/
def SparesUnsent (s : LoneDevice) (e : LoneEvent) : Prop :=
  ∀ d ∈ s.purges e, ∀ p r, UnsentDeletion d.store p r →
    (d.gcTombstones s.now).store.lookupAny p = some r

/-- When the step comes to a collection, the retention period in force there has not passed since any
of the deletions that were unsent before the step. -/
def CollectsInTime (s : LoneDevice) (e : LoneEvent) : Prop :=
  ∀ d ∈ s.purges e, ∀ p r, UnsentDeletion s.client.store p r →
    MetadataStore.expired r s.now d.retentionSeconds = false

/-- The path is not live and the deletion still unsent, or the server has known of it, or of something
newer, at some time. -/
def DeletionStands (s : LoneDevice) (es : List LoneEvent) (s' : LoneDevice) (p : Text) (r : FileRow) :
    Prop :=
  (s'.client.store.lookup p = none ∧
    ∃ r', UnsentDeletion s'.client.store p r' ∧ r.version ≤ r'.version) ∨
    ∃ done rest m, es = done ++ rest ∧ Transitions.run step s done = some m ∧
      SyncClient.Known m.server p r.version

/-- A collection in time spares what is unsent. -/
theorem sparesUnsent_of_collectsInTime {s : LoneDevice} {e : LoneEvent} (h : s.CollectsInTime e) :
    s.SparesUnsent e := by
  have hstart : ∀ p l, UnsentDeletion s.client.store p l → UnsentDeletion s.client.store p l :=
    fun _ _ => id
  have hbefore : ∀ d ∈ s.purges e, ∀ p l, UnsentDeletion d.store p l →
      UnsentDeletion s.client.store p l := by
    intro d hd
    have hkept := SyncClient.keptByCall_unsent s.client.store
    have hall : ∀ l : List SyncClient, ∀ d ∈ l, True := fun _ _ _ => trivial
    cases e with
    | upload timestamp fates =>
        obtain ⟨server, hQ⟩ := ((hkept _).uploadMetadata (hall _) hstart).1 d hd
        exact hQ
    | download timestamp fates =>
        obtain ⟨server, hQ⟩ := ((hkept _).downloadAndMerge (hall _) hstart).1 d hd
        exact hQ
    | reconcile timestamp fates =>
        obtain ⟨server, hQ⟩ := ((hkept _).reconcileIfStale (hall _) hstart).1 d hd
        exact hQ
    | tick => exact absurd hd List.not_mem_nil
    | delete => exact absurd hd List.not_mem_nil
    | others => exact absurd hd List.not_mem_nil
  intro d hd p r hr
  exact SyncClient.lookupAny_gcTombstones_of_kept hr.1 (h d hd p r (hbefore d hd p r hr))

/-- **One step** that collects in time. -/
theorem deletion_step {s s' : LoneDevice} {e : LoneEvent} (h : s.CollectsInTime e)
    (hstep : s.step e = some s') {p : Text} {r : FileRow} (hr : UnsentDeletion s.client.store p r) :
    (∃ r', UnsentDeletion s'.client.store p r' ∧ r.version ≤ r'.version) ∨
      SyncClient.Known s.server p r.version ∨ SyncClient.Known s'.server p r.version := by
  have hsame : SameRecord r r := ⟨rfl, rfl, rfl, rfl, rfl⟩
  have hstart : SyncClient.Remembered p r s.server s.client s.server :=
    Or.inr ⟨r, hr.1, hsame, Or.inr ⟨hr.2.2, rfl⟩⟩
  have hSp : ∀ d ∈ s.purges e, MetadataStore.expired r s.now d.retentionSeconds = false :=
    fun d hd => h d hd p r hr
  have hend : SyncClient.Remembered p r s.server s'.client s'.server →
      (∃ r', UnsentDeletion s'.client.store p r' ∧ r.version ≤ r'.version) ∨
        SyncClient.Known s.server p r.version ∨ SyncClient.Known s'.server p r.version := by
    rintro (hknown | ⟨l, hl, hsame, ⟨snapshot, rec, hmeta, hrec, hrecsame⟩ | ⟨hpending, -⟩⟩)
    · exact Or.inr (Or.inl hknown)
    · exact Or.inr (Or.inr ⟨snapshot, rec, hmeta, hrec, hrecsame.1.symm.le⟩)
    · exact Or.inl ⟨l, ⟨hl, hsame.2.1.trans hr.2.1, hpending⟩, hsame.1.symm.le⟩
  have hkept := SyncClient.keptByCall_remembered (p := p) hr.2.1 s.server
  cases e with
  | tick now =>
      rw [step] at hstep
      split_ifs at hstep
      obtain rfl := Option.some_inj.mp hstep
      exact Or.inl ⟨r, hr, le_refl _⟩
  | delete q =>
      obtain rfl := Option.some_inj.mp hstep
      left
      by_cases hq : p = q
      · subst hq
        refine ⟨MetadataStore.tombstone r s.now, ⟨?_, rfl, rfl⟩, ?_⟩
        · exact (MetadataStore.lookupAny_delete_self _ _ _).trans (congrArg _ hr.1)
        · exact (Int.lt_succ r.version).le
      · exact ⟨r, ⟨(MetadataStore.lookupAny_delete_of_ne _ _ hq).trans hr.1, hr.2⟩, le_refl _⟩
  | upload timestamp fates =>
      obtain rfl := Option.some_inj.mp hstep
      exact hend ((hkept (s.reading timestamp)).uploadMetadata hSp hstart).2
  | download timestamp fates =>
      obtain rfl := Option.some_inj.mp hstep
      exact hend ((hkept (s.reading timestamp)).downloadAndMerge hSp hstart).2
  | reconcile timestamp fates =>
      obtain rfl := Option.some_inj.mp hstep
      exact hend ((hkept (s.reading timestamp)).reconcileIfStale hSp hstart).2
  | others server =>
      obtain rfl := Option.some_inj.mp hstep
      exact Or.inl ⟨r, hr, le_refl _⟩

/-- **Unsent deletions.** In a run in which every collection comes before the retention period has passed
since the deletions that are unsent then, no collection removes an unsent deletion, and each deletion
stands until the server has known of it or of something newer. -/
theorem run_deletionsStand {s s' : LoneDevice} {es : List LoneEvent}
    (hok : Transitions.StepsMeet step CollectsInTime s es)
    (hrun : Transitions.run step s es = some s') :
    Transitions.StepsMeet step SparesUnsent s es ∧
      ∀ p r, UnsentDeletion s.client.store p r → DeletionStands s es s' p r := by
  refine ⟨hok.mono fun _ _ => sparesUnsent_of_collectsInTime, fun p r hr => ?_⟩
  induction es generalizing s r with
  | nil =>
      obtain rfl := Option.some_inj.mp hrun
      exact Or.inl ⟨hr.lookup_eq_none, r, hr, le_refl _⟩
  | cons e es ih =>
      obtain ⟨m, hm, hrest⟩ := Transitions.run_cons_eq_some.mp hrun
      rcases deletion_step hok.1 hm hr with ⟨r', hr', hle⟩ | hknown | hknown
      · rcases ih (hok.2 m hm) hrest r' hr' with
          ⟨hgone, r'', hr'', hle'⟩ | ⟨done, rest, m', hes, hm', hk⟩
        · exact Or.inl ⟨hgone, r'', hr'', hle.trans hle'⟩
        · obtain ⟨snapshot, rec, hmeta, hrec, hv⟩ := hk
          exact Or.inr ⟨e :: done, rest, m', by rw [hes, List.cons_append],
            Transitions.run_cons_eq_some.mpr ⟨m, hm, hm'⟩, snapshot, rec, hmeta, hrec, hle.trans hv⟩
      · exact Or.inr ⟨[], e :: es, s, rfl, rfl, hknown⟩
      · exact Or.inr ⟨[e], es, m, rfl, Transitions.run_cons_eq_some.mpr ⟨m, hm, rfl⟩, hknown⟩

/-- The device and the server have one file. -/
def oneFile : LoneDevice where
  client := { SyncClient.laptopWith (SyncClient.oneRow (SyncClient.note 1)) with lastSyncedVersion := 1 }
  server := { version := 1, metadata := some (SyncClient.oneRow (SyncClient.note 1)) }
  now := 0

/-- The file is deleted, and the next upload comes after the given time. -/
def deletedAndSent (later : Time) : List LoneEvent :=
  [.delete "/a".toList, .tick later, .upload (fun _ => []) []]

theorem sentInTime_deletionStands : ∃ s', Transitions.run step oneFile (deletedAndSent 86400) = some s' ∧
    s'.server.version = 2 ∧ Transitions.StepsMeet step SparesUnsent oneFile (deletedAndSent 86400) ∧
    ∀ p r, UnsentDeletion oneFile.client.store p r →
      DeletionStands oneFile (deletedAndSent 86400) s' p r := by
  have hmeet : Transitions.StepsMeet step CollectsInTime oneFile (deletedAndSent 86400) := by
    refine ⟨fun _ hd => absurd hd List.not_mem_nil, fun s₁ h₁ =>
      ⟨fun _ hd => absurd hd List.not_mem_nil, fun s₂ h₂ => ⟨fun d hd p r hr => ?_,
        fun _ _ => trivial⟩⟩⟩
    obtain rfl := Option.some_inj.mp h₁
    obtain rfl := Option.some_inj.mp h₂
    obtain rfl := List.mem_singleton.mp hd
    obtain ⟨-, rfl⟩ := SyncClient.get_oneRow (r := { SyncClient.note 2 with
      deleted := true, syncStatus := .pending }) hr.1
    decide
  exact ⟨_, rfl, rfl, run_deletionsStand hmeet rfl⟩

/-- After a month offline the upload collects the tombstone it was to send, and the server's next
snapshot brings the file back. -/
def deletedTooLate : List LoneEvent :=
  deletedAndSent (31 * 86400) ++
    [.others { version := 2, metadata := some (SyncClient.oneRow (SyncClient.note 1)) },
      .download (fun _ => []) []]

theorem unsent_deletion_is_forgotten : ∃ s', Transitions.run step oneFile deletedTooLate = some s' ∧
    s'.client.store.lookup "/a".toList = some (SyncClient.note 1) ∧
    ¬ Transitions.StepsMeet step SparesUnsent oneFile deletedTooLate := by
  have hrun : ∃ s', Transitions.run step oneFile deletedTooLate = some s' ∧
      s'.client.store.lookup "/a".toList = some (SyncClient.note 1) := ⟨_, rfl, by decide⟩
  obtain ⟨s', hrun, hlive⟩ := hrun
  refine ⟨s', hrun, hlive, fun h => ?_⟩
  have hspares := ((h.2 _ rfl).2 _ rfl).1 _ List.mem_cons_self "/a".toList
    { SyncClient.note 2 with deleted := true, syncStatus := .pending } ⟨by decide, rfl, rfl⟩
  exact absurd hspares (by decide)

end LoneDevice

end StardustFS
