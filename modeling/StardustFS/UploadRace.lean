import StardustFS.SyncMerge
import StardustFS.Transitions

/-! Two processes on one database: an upload that reads its pending list, then the blob, sends it and
marks the listed paths synced one by one, while another process inserts, updates and deletes between
any two of these steps. A flight carries, as a history variable, the paths the other process has
changed since the blob was read. -/

namespace StardustFS

/-- The blob of a PUT, and the paths changed since it was read. -/
structure Flight where
  blob : Files
  changed : List Text

/-- Where `upload_metadata` or `_force_upload` stands. -/
inductive UploadPhase where
  | atRest
  | ready (attempts : Nat)
  | listed (attempts : Nat) (pending : List Text)
  | sending (attempts : Nat) (pending : List Text) (flight : Flight)
  | conflicted (attempts : Nat)
  | forceSending (flight : Flight)
  | forceAccepted (flight : Flight)
  | marking (flight : Flight) (left : List Text)
  | done (flight : Flight)

structure UploadRace where
  client : SyncClient
  server : Server
  phase : UploadPhase := .atRest

inductive RaceEvent where
  | other (op : LocalOp)
  | elsewhere (snapshot : Files)
  | begin (now : Time)
  | list
  | readBlob
  | put
  | merge (r : SyncReading)
  | forceRead
  | forcePut
  | forceList
  | lose
  | mark
  | finish (now : Time)

namespace UploadPhase

def flight? : UploadPhase → Option Flight
  | sending _ _ f => some f
  | forceSending f => some f
  | forceAccepted f => some f
  | marking f _ => some f
  | done f => some f
  | _ => none

/-- The path is noted in the flight, if there is one. -/
def note (p : Text) : UploadPhase → UploadPhase
  | sending n pending f => sending n pending { f with changed := p :: f.changed }
  | forceSending f => forceSending { f with changed := p :: f.changed }
  | forceAccepted f => forceAccepted { f with changed := p :: f.changed }
  | marking f left => marking { f with changed := p :: f.changed } left
  | done f => done { f with changed := p :: f.changed }
  | phase => phase

/-- No upload is under way. -/
def isAtRest : UploadPhase → Bool
  | atRest => true
  | done _ => true
  | _ => false

theorem flight?_note (p : Text) (phase : UploadPhase) :
    (phase.note p).flight? = phase.flight?.map fun f => { f with changed := p :: f.changed } := by
  cases phase <;> rfl

end UploadPhase

namespace UploadRace

/-- A change by the other process is noted where it changes the row of its path. -/
def otherWrites (s : UploadRace) (op : LocalOp) : UploadRace :=
  let store := op.apply s.client.store
  { s with
    client := s.client.setStore store
    phase := if store.lookupAny op.path = s.client.store.lookupAny op.path then s.phase
      else s.phase.note op.path }

def step (s : UploadRace) : RaceEvent → Option UploadRace
  | .other op => some (s.otherWrites op)
  | .elsewhere snapshot =>
      some { s with server := (s.server.put none snapshot).2 }
  | .begin now =>
      if s.phase.isAtRest && s.client.pendingPaths != [] then
        some { s with client := s.client.gcTombstones now, phase := .ready SyncClient.maxCasRetries }
      else none
  | .list => match s.phase with
      | .ready 0 => some { s with phase := .atRest }
      | .ready (n + 1) =>
          if s.client.pendingPaths = [] then some { s with phase := .atRest }
          else some { s with phase := .listed n s.client.pendingPaths }
      | _ => none
  | .readBlob => match s.phase with
      | .listed n pending => some { s with phase := .sending n pending ⟨s.client.store.files, []⟩ }
      | _ => none
  | .put => match s.phase with
      | .sending n pending f =>
          match s.server.put (some s.client.lastSyncedVersion) f.blob with
          | (some version, server) =>
              some { client := { s.client with lastSyncedVersion := version }, server,
                     phase := .marking f pending }
          | (none, _) => some { s with phase := .conflicted n }
      | _ => none
  | .merge r => match s.phase with
      | .conflicted n =>
          let (client, net) := s.client.downloadAndMerge r { server := s.server }
          some { client, server := net.server, phase := .ready n }
      | _ => none
  | .forceRead =>
      if s.phase.isAtRest then some { s with phase := .forceSending ⟨s.client.store.files, []⟩ }
      else none
  | .forcePut => match s.phase with
      | .forceSending f =>
          match s.server.put none f.blob with
          | (some version, server) =>
              some { client := { s.client with lastSyncedVersion := version }, server,
                     phase := .forceAccepted f }
          | (none, _) => none
      | _ => none
  | .forceList => match s.phase with
      | .forceAccepted f => some { s with phase := .marking f s.client.pendingPaths }
      | _ => none
  | .lose => match s.phase with
      | .sending _ _ _ => some { s with phase := .atRest }
      | .forceSending _ => some { s with phase := .atRest }
      | _ => none
  | .mark => match s.phase with
      | .marking f (p :: left) =>
          some { s with
            client := s.client.setStore (s.client.store.setSyncStatus p .synced)
            phase := .marking f left }
      | _ => none
  | .finish now => match s.phase with
      | .marking f [] => some { s with client := s.client.recordSyncSuccess now, phase := .done f }
      | _ => none

/-! ### Without the other process the race is the upload -/

theorem run_marks (c : SyncClient) (server : Server) (f : Flight) (left : List Text) :
    Transitions.run step ⟨c, server, .marking f left⟩ (List.replicate left.length .mark) =
      some ⟨c.setStore (SyncClient.markSynced c.store left), server, .marking f []⟩ := by
  induction left generalizing c with
  | nil => rfl
  | cons p left ih =>
      rw [List.length_cons, List.replicate_succ, Transitions.run_cons_eq_some]
      exact ⟨_, rfl, ih _⟩

/-- One accepted attempt of `upload_metadata`, step by step and in one call. -/
theorem run_attempt (c : SyncClient) (server server' : Server) (n version : Nat) (r : SyncReading)
    (hpending : c.pendingPaths ≠ [])
    (hput : server.put (some c.lastSyncedVersion) c.store.files = (some version, server')) :
    Transitions.run step ⟨c, server, .ready (n + 1)⟩
        ([.list, .readBlob, .put] ++ List.replicate c.pendingPaths.length .mark ++
          [.finish r.now]) =
      some ⟨(SyncClient.uploadAttempts r (n + 1) c { server }).1, server',
        .done ⟨c.store.files, []⟩⟩ := by
  have hcall : SyncClient.uploadAttempts r (n + 1) c { server } =
      (c.accepted r.now version c.pendingPaths,
        { server := server', log := [.put c.lastSyncedVersion] }) := by
    rw [SyncClient.uploadAttempts]
    simp [hpending, Net.request, Net.record, hput]
  rw [hcall, List.append_assoc, Transitions.run_append_eq_some]
  refine ⟨⟨{ c with lastSyncedVersion := version }, server',
    .marking ⟨c.store.files, []⟩ c.pendingPaths⟩, ?_, ?_⟩
  · simp [Transitions.run, step, hpending, hput]
  · rw [Transitions.run_append_eq_some]
    exact ⟨_, run_marks _ server' _ c.pendingPaths, rfl⟩

/-! ### What is marked synced -/

/-- From the acceptance of a PUT on: a synced row is in the accepted blob with the same version, and
what was changed since the blob was read is pending, so that the next upload lists it. -/
def SyncedAsUploaded (s : UploadRace) : Prop :=
  match s.phase with
  | .marking f _ | .done f =>
      (∀ p r, s.client.store.lookupAny p = some r → r.syncStatus = .synced →
        ∃ r', f.blob.get p = some r' ∧ r'.version = r.version) ∧
      ∀ p ∈ f.changed, p ∈ s.client.pendingPaths
  | _ => True

/-- The step does not mark a path that was changed since the blob was read. -/
def MarksUnchanged (s : UploadRace) (e : RaceEvent) : Prop :=
  match s.phase, e with
  | .marking f (p :: _), .mark => p ∉ f.changed
  | _, _ => True

/-- A store against a blob read from it: rows that were not changed since have the version they have
in the blob, changed ones are pending and ahead of it. -/
structure Ahead (store : MetadataStore) (f : Flight) : Prop where
  unchanged : ∀ p, p ∉ f.changed →
    (store.lookupAny p).map FileRow.version = (f.blob.get p).map FileRow.version
  changed : ∀ p ∈ f.changed, ∃ r, store.lookupAny p = some r ∧ r.syncStatus = .pending ∧
    ∀ r', f.blob.get p = some r' → r'.version < r.version

/-- The invariant of the race. -/
def Inv (s : UploadRace) : Prop := ∀ f, s.phase.flight? = some f → Ahead s.client.store f

theorem ahead_readBlob (store : MetadataStore) : Ahead store ⟨store.files, []⟩ :=
  ⟨fun _ _ => rfl, fun _ h => absurd h List.not_mem_nil⟩

/-- A change that is noted keeps the store ahead of the blob. -/
theorem Ahead.apply {store : MetadataStore} {f : Flight} (h : Ahead store f) (op : LocalOp) :
    Ahead (op.apply store) { f with changed := op.path :: f.changed } ∨
      (op.apply store).lookupAny op.path = none ∧ store.lookupAny op.path = none := by
  rcases op.lookupAny_apply_self store with ⟨hnone, hnone'⟩ | ⟨r, hr, hpending, hversion⟩
  · exact Or.inr ⟨hnone', hnone⟩
  · refine Or.inl ⟨fun p hp => ?_, fun p hp => ?_⟩
    · rw [List.mem_cons, not_or] at hp
      rw [op.lookupAny_apply_of_ne store hp.1]
      exact h.unchanged p hp.2
    · by_cases hpath : p = op.path
      · subst hpath
        refine ⟨r, hr, hpending, fun r' hr' => ?_⟩
        by_cases hmem : op.path ∈ f.changed
        · obtain ⟨r₀, hr₀, -, hlt⟩ := h.changed _ hmem
          have hlt := hlt r' hr'
          rw [hr₀, Option.map_some, Option.getD_some] at hversion
          omega
        · have hsame := h.unchanged _ hmem
          rw [hr', Option.map_some] at hsame
          rw [hsame, Option.getD_some] at hversion
          omega
      · rw [op.lookupAny_apply_of_ne store hpath]
        exact h.changed p ((List.mem_cons.mp hp).resolve_left hpath)

/-- Marking an unchanged path keeps the store ahead of the blob. -/
theorem Ahead.mark {store : MetadataStore} {f : Flight} (h : Ahead store f) {p : Text}
    (hp : p ∉ f.changed) : Ahead (store.setSyncStatus p .synced) f := by
  refine ⟨fun q hq => ?_, fun q hq => ?_⟩
  · rw [MetadataStore.lookupAny_setSyncStatus, ← h.unchanged q hq]
    split_ifs
    · rw [Option.map_map]
      rfl
    · rfl
  · have hne : q ≠ p := fun he => hp (he ▸ hq)
    rw [MetadataStore.lookupAny_setSyncStatus_of_ne _ _ hne]
    exact h.changed q hq

theorem inv_otherWrites {s : UploadRace} (hs : s.Inv) (op : LocalOp) : (s.otherWrites op).Inv := by
  intro f hf
  unfold otherWrites at hf ⊢
  dsimp only at hf ⊢
  split_ifs at hf with hsame
  · have h := hs f hf
    refine ⟨fun p hp => ?_, fun p hp => ?_⟩
    all_goals
      have heq : (op.apply s.client.store).lookupAny p = s.client.store.lookupAny p := by
        by_cases hpath : p = op.path
        · rw [hpath, hsame]
        · exact op.lookupAny_apply_of_ne _ hpath
    · show ((op.apply s.client.store).lookupAny p).map _ = _
      rw [heq]
      exact h.unchanged p hp
    · show ∃ r, (op.apply s.client.store).lookupAny p = some r ∧ _
      rw [heq]
      exact h.changed p hp
  · rw [UploadPhase.flight?_note, Option.map_eq_some_iff] at hf
    obtain ⟨f₀, hf₀, rfl⟩ := hf
    rcases (hs f₀ hf₀).apply op with h | ⟨h1, h2⟩
    · exact h
    · exact absurd (h1.trans h2.symm) hsame

/-- A state whose phase has no flight satisfies the invariant. -/
theorem inv_of_no_flight {s : UploadRace} (h : s.phase.flight? = none) : s.Inv := by
  intro f hf
  rw [h] at hf
  cases hf

/-- The next phase keeps the flight of the last one, and the table is the same. -/
theorem inv_of_same_flight {s s' : UploadRace} (hs : s.Inv)
    (hstore : s'.client.store = s.client.store) (hflight : s'.phase.flight? = s.phase.flight?) :
    s'.Inv := by
  intro f hf
  rw [hstore]
  exact hs f (hflight ▸ hf)

/-- **One step of the race.** -/
theorem inv_step {s s' : UploadRace} {e : RaceEvent} (hs : s.Inv) (hok : s.MarksUnchanged e)
    (h : s.step e = some s') : s'.Inv := by
  cases e with
  | other op =>
      rw [step, Option.some_inj] at h
      exact h ▸ inv_otherWrites hs op
  | elsewhere snapshot =>
      rw [step, Option.some_inj] at h
      exact h ▸ inv_of_same_flight hs rfl rfl
  | begin now =>
      rw [step] at h
      split_ifs at h
      rw [Option.some_inj] at h
      exact h ▸ inv_of_no_flight rfl
  | list =>
      simp only [step] at h
      split at h
      · rw [Option.some_inj] at h
        exact h ▸ inv_of_no_flight rfl
      · split_ifs at h <;> rw [Option.some_inj] at h <;> exact h ▸ inv_of_no_flight rfl
      · cases h
  | readBlob =>
      simp only [step] at h
      split at h
      · rw [Option.some_inj] at h
        subst h
        intro f hf
        rw [UploadPhase.flight?, Option.some_inj] at hf
        exact hf ▸ ahead_readBlob s.client.store
      · cases h
  | put =>
      simp only [step] at h
      split at h
      · rename_i hphase
        split at h
        · rw [Option.some_inj] at h
          exact h ▸ inv_of_same_flight hs rfl (by rw [hphase]; rfl)
        · rw [Option.some_inj] at h
          exact h ▸ inv_of_no_flight rfl
      · cases h
  | merge r =>
      simp only [step] at h
      split at h
      · rw [Option.some_inj] at h
        exact h ▸ inv_of_no_flight rfl
      · cases h
  | forceRead =>
      rw [step] at h
      split_ifs at h
      rw [Option.some_inj] at h
      subst h
      intro f hf
      rw [UploadPhase.flight?, Option.some_inj] at hf
      exact hf ▸ ahead_readBlob s.client.store
  | forcePut =>
      simp only [step] at h
      split at h
      · rename_i hphase
        split at h
        · rw [Option.some_inj] at h
          exact h ▸ inv_of_same_flight hs rfl (by rw [hphase]; rfl)
        · cases h
      · cases h
  | forceList =>
      simp only [step] at h
      split at h
      · rename_i hphase
        rw [Option.some_inj] at h
        exact h ▸ inv_of_same_flight hs rfl (by rw [hphase]; rfl)
      · cases h
  | lose =>
      simp only [step] at h
      split at h
      · rw [Option.some_inj] at h
        exact h ▸ inv_of_no_flight rfl
      · rw [Option.some_inj] at h
        exact h ▸ inv_of_no_flight rfl
      · cases h
  | mark =>
      simp only [step] at h
      split at h
      · rename_i f p left hphase
        rw [Option.some_inj] at h
        subst h
        simp only [MarksUnchanged, hphase] at hok
        intro f' hf'
        rw [UploadPhase.flight?, Option.some_inj] at hf'
        exact hf' ▸ (hs f (by rw [hphase]; rfl)).mark hok
      · cases h
  | finish now =>
      simp only [step] at h
      split at h
      · rename_i hphase
        rw [Option.some_inj] at h
        exact h ▸ inv_of_same_flight hs rfl (by rw [hphase]; rfl)
      · cases h

/-- A store ahead of the accepted blob has no row that is synced without being in it. -/
theorem Ahead.syncedAsUploaded {c : SyncClient} {f : Flight} (h : Ahead c.store f) :
    (∀ p r, c.store.lookupAny p = some r → r.syncStatus = .synced →
        ∃ r', f.blob.get p = some r' ∧ r'.version = r.version) ∧
      ∀ p ∈ f.changed, p ∈ c.pendingPaths := by
  refine ⟨fun p r hr hsynced => ?_, fun p hp => ?_⟩
  · have hp : p ∉ f.changed := by
      intro hp
      obtain ⟨r', hr', hpending, -⟩ := h.changed p hp
      rw [hr, Option.some_inj] at hr'
      rw [← hr', hsynced] at hpending
      cases hpending
    have hsame := h.unchanged p hp
    rw [hr, Option.map_some] at hsame
    exact Option.map_eq_some_iff.mp hsame.symm
  · obtain ⟨r, hr, hpending, -⟩ := h.changed p hp
    exact List.mem_map.mpr ⟨(p, r), MetadataStore.mem_getPendingFiles.mpr ⟨hr, hpending⟩, rfl⟩

theorem syncedAsUploaded_of_inv {s : UploadRace} (hs : s.Inv) : s.SyncedAsUploaded := by
  unfold SyncedAsUploaded
  split
  · rename_i hphase
    exact (hs _ (by rw [hphase]; rfl)).syncedAsUploaded
  · rename_i hphase
    exact (hs _ (by rw [hphase]; rfl)).syncedAsUploaded
  · trivial

/-- A changed path that is marked is synced at a version the accepted blob does not have. -/
theorem not_syncedAsUploaded_of_mark {s s' : UploadRace} {e : RaceEvent} (hs : s.Inv)
    (hno : ¬ s.MarksUnchanged e) (h : s.step e = some s') : ¬ s'.SyncedAsUploaded := by
  unfold MarksUnchanged at hno
  split at hno
  · rename_i f p left hphase
    rw [not_not] at hno
    simp only [step, hphase, Option.some_inj] at h
    subst h
    obtain ⟨r, hr, -, hlt⟩ := (hs f (by rw [hphase]; rfl)).changed p hno
    intro hgood
    obtain ⟨r', hr', hversion⟩ := hgood.1 p { r with syncStatus := .synced }
      (by rw [SyncClient.store_setStore, MetadataStore.lookupAny_setSyncStatus_self, hr]; rfl) rfl
    have := hlt r' hr'
    dsimp only at hversion
    omega
  · exact absurd trivial hno

/-- **What is synced was uploaded**, in every state of an interleaving that starts with no upload
under way, exactly when no listed path is changed by the other process between the reading of the
blob and the moment it is marked. -/
theorem run_syncedAsUploaded_iff {s s' : UploadRace} {es : List RaceEvent}
    (hrest : s.phase = .atRest) (hrun : Transitions.run step s es = some s') :
    Transitions.StatesMeet step SyncedAsUploaded s es ↔
      Transitions.StepsMeet step MarksUnchanged s es :=
  Transitions.statesMeet_iff_stepsMeet (fun _ => syncedAsUploaded_of_inv)
    (fun _ _ _ => inv_step) (fun _ _ _ => not_syncedAsUploaded_of_mark)
    (inv_of_no_flight (by rw [hrest]; rfl)) hrun

/-- A device with one file that was never uploaded, and a server without metadata. -/
def oneNewFile : UploadRace where
  client := {
    jbod := {
      metadataStore := MetadataStore.initial.insert "/a".toList "s" "x_a".toList 1 0 0 none
      sources := Table.empty }
    deviceName := "laptop".toList }
  server := {}

theorem oneNewFile_syncedAsUploaded_iff : ∃ s,
    Transitions.run step oneNewFile [.begin 1, .list, .readBlob, .put, .mark, .finish 2] = some s ∧
      (Transitions.StatesMeet step SyncedAsUploaded oneNewFile
          [.begin 1, .list, .readBlob, .put, .mark, .finish 2] ↔
        Transitions.StepsMeet step MarksUnchanged oneNewFile
          [.begin 1, .list, .readBlob, .put, .mark, .finish 2]) :=
  ⟨_, rfl, run_syncedAsUploaded_iff rfl rfl⟩

/-- A second write lands between the reading of the blob and the mark: the row is synced at a version
no server has seen, and no later upload lists it. -/
theorem write_in_flight_is_marked_synced : ∃ s,
    Transitions.run step oneNewFile
      [.begin 1, .list, .readBlob, .other (.update "/a".toList ⟨9, 1, none, none, none⟩), .put,
        .mark, .finish 2] = some s ∧
      ¬ s.SyncedAsUploaded ∧ s.client.pendingPaths = [] := by
  refine ⟨_, rfl, fun h => ?_, by decide⟩
  obtain ⟨r', hr', hversion⟩ := h.1 "/a".toList _ rfl rfl
  cases hr'
  exact absurd hversion (by decide)

end UploadRace

end StardustFS
