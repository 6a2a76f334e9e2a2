import StardustFS.SyncExchange
import StardustFS.Transitions

/-! Any number of devices against one server, each merge and each read-blob-then-PUT one step. A PUT
is accepted from a device that has applied the present snapshot; what that device still has of the
snapshot is what the next one has. -/

namespace StardustFS

/-- The devices of an account, their server and the clock. -/
structure World (ι : Type*) where
  devices : ι → SyncClient
  server : Server
  now : Time

/-- The steps of a run. An `upload_metadata` is a collection of tombstones and PUTs with merges
between them (`run_uploadAttempts`); a merge is `_download_and_merge`. -/
inductive WorldEvent (ι : Type*) where
  | tick (now : Time)
  | write (i : ι) (op : LocalOp)
  | gc (i : ι)
  | put (i : ι)
  | merge (i : ι) (timestamp : Text → Text)

namespace World

variable {ι : Type*} [DecidableEq ι]

def setDevice (w : World ι) (i : ι) (c : SyncClient) : World ι :=
  { w with devices := Function.update w.devices i c }

@[simp] theorem devices_setDevice_self (w : World ι) (i : ι) (c : SyncClient) :
    (w.setDevice i c).devices i = c := Function.update_self ..

theorem devices_setDevice_of_ne (w : World ι) {i j : ι} (c : SyncClient) (h : j ≠ i) :
    (w.setDevice i c).devices j = w.devices j := Function.update_of_ne h ..

/-- One attempt of an upload. -/
def putStep (w : World ι) (i : ι) : World ι :=
  let c := w.devices i
  match w.server.put (some c.lastSyncedVersion) c.store.files with
  | (some version, server) =>
      { w.setDevice i (c.accepted w.now version c.pendingPaths) with server }
  | (none, _) => w

def mergeStep (w : World ι) (i : ι) (timestamp : Text → Text) : World ι :=
  let (c, net) := (w.devices i).downloadAndMerge ⟨w.now, timestamp⟩ { server := w.server }
  { w.setDevice i c with server := net.server }

def step (w : World ι) : WorldEvent ι → Option (World ι)
  | .tick now => if w.now ≤ now then some { w with now } else none
  | .write i op => some (w.setDevice i ((w.devices i).setStore (op.apply (w.devices i).store)))
  | .gc i => some (w.setDevice i ((w.devices i).gcTombstones w.now))
  | .put i => if (w.devices i).pendingPaths = [] then none else some (w.putStep i)
  | .merge i timestamp => some (w.mergeStep i timestamp)

/-- The attempts of an upload, with every request answered, are a run of PUTs and merges. -/
theorem run_uploadAttempts (w : World ι) (i : ι) (timestamp : Text → Text) (n : Nat)
    (log : List Event) :
    ∃ es, Transitions.run step w es = some
      { w.setDevice i (SyncClient.uploadAttempts ⟨w.now, timestamp⟩ n (w.devices i)
          { server := w.server, log }).1 with
        server := (SyncClient.uploadAttempts ⟨w.now, timestamp⟩ n (w.devices i)
          { server := w.server, log }).2.server } := by
  have hself : ∀ w : World ι, w = { w.setDevice i (w.devices i) with server := w.server } := by
    intro w
    simp only [setDevice, Function.update_eq_self]
  induction n generalizing w log with
  | zero => exact ⟨[], congrArg some (hself w)⟩
  | succ n ih =>
      rw [SyncClient.uploadAttempts]
      by_cases hpending : (w.devices i).pendingPaths = []
      · simp only [hpending, if_true]
        exact ⟨[], congrArg some (hself w)⟩
      · have hput : w.step (.put i) = some (w.putStep i) := if_neg hpending
        by_cases hlast : (w.devices i).lastSyncedVersion = w.server.version
        · refine ⟨[.put i], ?_⟩
          simp [Transitions.run, hput, putStep, hpending, Net.request, Net.record,
            Server.put_some, hlast]
        · -- the attempt is refused: the merge is the next step, the other attempts follow it
          have hsame : w.putStep i = w := by
            unfold putStep
            dsimp only
            rw [Server.put_some, if_neg hlast]
          obtain ⟨log₁, hlog₁⟩ : ∃ l, l = log ++ [Event.put (w.devices i).lastSyncedVersion] :=
            ⟨_, rfl⟩
          obtain ⟨hc, hserver⟩ :=
            (w.devices i).downloadAndMerge_log ⟨w.now, timestamp⟩ w.server log₁
          have hfates := SyncClient.fates_downloadAndMerge (w.devices i) ⟨w.now, timestamp⟩
            (show ({ server := w.server, log := log₁ } : Net).fates = [] from rfl)
          simp only [hpending, if_false, Net.request, Net.record, Server.put_some, hlast, ← hlog₁]
          generalize (w.devices i).downloadAndMerge ⟨w.now, timestamp⟩
            { server := w.server, log := log₁ } = out at hc hserver hfates ⊢
          obtain ⟨c, server, fates, log'⟩ := out
          dsimp only at hc hserver hfates
          subst hfates
          have hmerge : w.mergeStep i timestamp = { w.setDevice i c with server } := by
            rw [mergeStep]
            simp only [hc, hserver]
          obtain ⟨es, hes⟩ := ih (w.mergeStep i timestamp) log'
          refine ⟨.merge i timestamp :: es,
            Transitions.run_cons_eq_some.mpr ⟨w.mergeStep i timestamp, rfl, hes.trans ?_⟩⟩
          rw [hmerge]
          simp [setDevice]

/-! ### What a step must not forget -/

/-- A path of a snapshot is covered by a row at least as new, unless its record is a tombstone older
than the retention period. -/
def CoversRecord (retention now : Time) (s : MetadataStore) (x : Text × FileRow) : Prop :=
  (∃ r, s.lookupAny x.1 = some r ∧ x.2.version ≤ r.version) ∨
    MetadataStore.expired x.2 now retention = true

def Covers (retention now : Time) (s : MetadataStore) (snapshot : Files) : Prop :=
  ∀ x ∈ snapshot.rows, CoversRecord retention now s x

/-- The merge of the record neither passes over an unexpired tombstone for a path without a row, nor
fails to make the conflict copy of a row that is older than the record. -/
def RecordApplied (retention now : Time) (timestamp : Text → Text) (c : SyncClient)
    (x : Text × FileRow) : Prop :=
  (c.store.lookupAny x.1 = none → x.2.deleted = true →
    MetadataStore.expired x.2 now retention = true) ∧
  ∀ r, c.store.lookupAny x.1 = some r → SyncClient.mergeAction (some r) x.2 = .conflict →
    r.version < x.2.version → c.store.lookupAny (c.conflictPath (timestamp x.1) x.1) = none

/-- The records of the snapshot are all applied, one after the other. -/
def MergeApplies (retention now : Time) (timestamp : Text → Text) (c : SyncClient)
    (snapshot : Files) : Prop :=
  Transitions.StepsMeet (fun c x => some (SyncClient.mergeRecord timestamp c x))
    (RecordApplied retention now timestamp) c snapshot.rows

/-- Where the collection of the device's tombstones removes a row, the snapshot has an expired
tombstone too, or nothing. -/
def PurgeCovered (retention now : Time) (c : SyncClient) (snapshot : Files) : Prop :=
  ∀ p rec r, snapshot.get p = some rec → c.store.lookupAny p = some r →
    MetadataStore.expired r now c.retentionSeconds = true →
    MetadataStore.expired rec now retention = true

/-- The condition on a step: a device that has applied the server's snapshot, or applies it in this
step, forgets nothing of it. -/
def Retains (retention : Time) (w : World ι) : WorldEvent ι → Prop
  | .gc i => ∀ snapshot, w.server.metadata = some snapshot →
      (w.devices i).lastSyncedVersion = w.server.version →
      PurgeCovered retention w.now (w.devices i) snapshot
  | .merge i timestamp => ∀ snapshot, w.server.metadata = some snapshot →
      (w.devices i).lastSyncedVersion < w.server.version →
      MergeApplies retention w.now timestamp
        ((w.devices i).setRetention w.server.retentionDays) snapshot ∧
      PurgeCovered retention w.now (((w.devices i).setRetention w.server.retentionDays)
        |>.mergeServerMetadata timestamp snapshot) snapshot
  | _ => True

/-! ### Coverage of a store -/

variable {retention now : Time}

theorem expired_mono {r : FileRow} {later : Time} (h : now ≤ later)
    (he : MetadataStore.expired r now retention = true) :
    MetadataStore.expired r later retention = true := by
  rw [MetadataStore.expired, Bool.and_eq_true, decide_eq_true_eq] at he ⊢
  exact ⟨he.1, lt_of_lt_of_le he.2 (Int.sub_le_sub_right h retention)⟩

theorem Covers.mono {s : MetadataStore} {snapshot : Files} {later : Time}
    (h : Covers retention now s snapshot) (hle : now ≤ later) :
    Covers retention later s snapshot :=
  fun x hx => (h x hx).imp_right (expired_mono hle)

/-- Rows that only grow newer keep covering. -/
theorem Covers.of_le {s s' : MetadataStore} {snapshot : Files} (h : Covers retention now s snapshot)
    (hle : ∀ p r, s.lookupAny p = some r → ∃ r', s'.lookupAny p = some r' ∧ r.version ≤ r'.version) :
    Covers retention now s' snapshot := by
  intro x hx
  rcases h x hx with ⟨r, hr, hv⟩ | hexp
  · obtain ⟨r', hr', hv'⟩ := hle x.1 r hr
    exact Or.inl ⟨r', hr', hv.trans hv'⟩
  · exact Or.inr hexp

theorem covers_self (s : MetadataStore) : Covers retention now s s.files :=
  fun x hx => Or.inl ⟨x.2, Table.get_of_mem_rows hx, le_refl _⟩

/-- A local change makes no row older. -/
theorem version_le_apply (op : LocalOp) (s : MetadataStore) (p : Text) (r : FileRow)
    (hr : s.lookupAny p = some r) :
    ∃ r', (op.apply s).lookupAny p = some r' ∧ r.version ≤ r'.version := by
  by_cases hp : p = op.path
  · subst hp
    rcases op.lookupAny_apply_self s with ⟨hnone, -⟩ | ⟨r', hr', -, hversion⟩
    · rw [hr] at hnone
      cases hnone
    · rw [hr, Option.map_some, Option.getD_some] at hversion
      exact ⟨r', hr', by omega⟩
  · exact ⟨r, (op.lookupAny_apply_of_ne s hp).trans hr, le_refl _⟩

/-- Marking rows synced after an upload makes no row older. -/
theorem version_le_accepted (c : SyncClient) (now : Time) (version : Nat) (p : Text) (r : FileRow)
    (hr : c.store.lookupAny p = some r) :
    ∃ r', (c.accepted now version c.pendingPaths).store.lookupAny p = some r' ∧
      r.version ≤ r'.version := by
  refine ⟨SyncClient.uploadedRow r, ?_, ?_⟩
  · rw [SyncClient.lookupAny_accepted, hr, Option.map_some]
  · unfold SyncClient.uploadedRow
    split_ifs <;> exact le_refl _

/-- A collection that removes only what the snapshot has expired as well keeps covering it. -/
theorem Covers.gcTombstones {c : SyncClient} {snapshot : Files}
    (h : Covers retention now c.store snapshot) (hpurge : PurgeCovered retention now c snapshot) :
    Covers retention now (c.gcTombstones now).store snapshot := by
  intro x hx
  rcases h x hx with ⟨r, hr, hv⟩ | hexp
  · by_cases hr' : MetadataStore.expired r now c.retentionSeconds = true
    · exact Or.inr (hpurge x.1 x.2 r (Table.get_of_mem_rows hx) hr hr')
    · rw [Bool.not_eq_true] at hr'
      exact Or.inl ⟨r, SyncClient.lookupAny_gcTombstones_of_kept hr hr', hv⟩
  · exact Or.inr hexp

/-- **One record of a merge**: applied, it is covered from then on. -/
theorem coversRecord_mergeRecord {timestamp : Text → Text} {c : SyncClient} {x : Text × FileRow}
    (h : RecordApplied retention now timestamp c x) :
    CoversRecord retention now (SyncClient.mergeRecord timestamp c x).store x := by
  obtain ⟨p, rec⟩ := x
  have hself := c.lookupAny_mergeRecord_self timestamp p rec
  cases hlocal : c.store.lookupAny p with
  | none =>
      rw [hlocal, SyncClient.mergeAction] at hself
      cases hdel : rec.deleted with
      | true => exact Or.inr (h.1 hlocal hdel)
      | false =>
          rw [hdel] at hself
          exact Or.inl ⟨_, hself, le_refl _⟩
  | some r =>
      rw [hlocal] at hself
      cases haction : SyncClient.mergeAction (some r) rec with
      | insert =>
          unfold SyncClient.mergeAction at haction
          dsimp only at haction
          split_ifs at haction
      | update =>
          rw [haction] at hself
          exact Or.inl ⟨_, hself, le_refl _⟩
      | skip =>
          rw [haction] at hself
          refine Or.inl ⟨r, hself, ?_⟩
          unfold SyncClient.mergeAction at haction
          dsimp only at haction
          split_ifs at haction with h1 h2
          exact not_lt.mp h2
      | conflict =>
          rw [haction] at hself
          by_cases hlt : r.version < rec.version
          · dsimp only at hself
            rw [if_pos (h.2 r hlocal haction hlt)] at hself
            exact Or.inl ⟨_, hself, le_refl _⟩
          · dsimp only at hself
            split_ifs at hself
            · exact Or.inl ⟨_, hself, le_refl _⟩
            · exact Or.inl ⟨_, hself, not_lt.mp hlt⟩

/-- The merge of another record keeps a covered one covered. -/
theorem CoversRecord.mergeRecord {timestamp : Text → Text} {c : SyncClient}
    {x y : Text × FileRow} (h : CoversRecord retention now c.store x) (hne : x.1 ≠ y.1) :
    CoversRecord retention now (SyncClient.mergeRecord timestamp c y).store x := by
  rcases h with ⟨r, hr, hv⟩ | hexp
  · refine Or.inl ⟨r, ?_, hv⟩
    rw [show y = (y.1, y.2) from rfl, c.lookupAny_mergeRecord_of_ne timestamp y.2 hne, if_neg, hr]
    rintro ⟨-, -, hnone⟩
    rw [hr] at hnone
    cases hnone
  · exact Or.inr hexp

/-- **A merge that applies every record covers the snapshot.** -/
theorem covers_mergeServerMetadata {timestamp : Text → Text} {c : SyncClient} {snapshot : Files}
    (h : MergeApplies retention now timestamp c snapshot) :
    Covers retention now (c.mergeServerMetadata timestamp snapshot).store snapshot := by
  have key : ∀ (l : List (Text × FileRow)) (c : SyncClient), (l.map Prod.fst).Nodup →
      Transitions.StepsMeet (fun c x => some (SyncClient.mergeRecord timestamp c x))
        (RecordApplied retention now timestamp) c l →
      (∀ x ∈ l, CoversRecord retention now
        (l.foldl (SyncClient.mergeRecord timestamp) c).store x) ∧
      ∀ x, CoversRecord retention now c.store x → x.1 ∉ l.map Prod.fst →
        CoversRecord retention now (l.foldl (SyncClient.mergeRecord timestamp) c).store x := by
    intro l
    induction l with
    | nil => exact fun c _ _ => ⟨fun x hx => absurd hx List.not_mem_nil, fun x hx _ => hx⟩
    | cons y l ih =>
        intro c hnodup hmeet
        rw [List.map_cons, List.nodup_cons] at hnodup
        obtain ⟨hall, hkeep⟩ := ih (SyncClient.mergeRecord timestamp c y) hnodup.2 (hmeet.2 _ rfl)
        refine ⟨fun x hx => ?_, fun x hx hnot => ?_⟩
        · rcases List.mem_cons.mp hx with rfl | hx
          · exact hkeep x (coversRecord_mergeRecord hmeet.1) hnodup.1
          · exact hall x hx
        · rw [List.map_cons, List.mem_cons, not_or] at hnot
          exact hkeep x (hx.mergeRecord hnot.1) hnot.2
  exact (key snapshot.rows c snapshot.nodup h).1

/-! ### Runs -/

/-- No device is ahead of the server, and one that is level with it covers its snapshot. -/
structure Inv (retention : Time) (w : World ι) : Prop where
  behind : ∀ i, (w.devices i).lastSyncedVersion ≤ w.server.version
  level : ∀ i snapshot, w.server.metadata = some snapshot →
    (w.devices i).lastSyncedVersion = w.server.version →
    Covers retention w.now (w.devices i).store snapshot

/-- The server's snapshot is the same or is succeeded by one that covers it. -/
def Succeeds (retention : Time) (w : World ι) (_ : WorldEvent ι) (w' : World ι) : Prop :=
  ∀ snapshot, w.server.metadata = some snapshot → ∃ snapshot', w'.server.metadata = some snapshot' ∧
    Covers retention w.now ⟨snapshot', Table.empty⟩ snapshot

omit [DecidableEq ι] in
theorem succeeds_of_same_server {w w' : World ι} {e : WorldEvent ι}
    (h : w'.server.metadata = w.server.metadata) : Succeeds retention w e w' :=
  fun snapshot hs => ⟨snapshot, h.trans hs, covers_self ⟨snapshot, Table.empty⟩⟩

/-- A device changes and the server does not. -/
theorem Inv.setDevice {w : World ι} (h : Inv retention w) (i : ι) {c : SyncClient}
    (hbehind : c.lastSyncedVersion ≤ w.server.version)
    (hlevel : ∀ snapshot, w.server.metadata = some snapshot →
      c.lastSyncedVersion = w.server.version → Covers retention w.now c.store snapshot) :
    Inv retention (w.setDevice i c) := by
  refine ⟨fun j => ?_, fun j snapshot hs hlast => ?_⟩
  · by_cases hj : j = i
    · subst hj
      rw [World.devices_setDevice_self]
      exact hbehind
    · rw [World.devices_setDevice_of_ne w c hj]
      exact h.behind j
  · by_cases hj : j = i
    · subst hj
      rw [World.devices_setDevice_self] at hlast ⊢
      exact hlevel snapshot hs hlast
    · rw [World.devices_setDevice_of_ne w c hj] at hlast ⊢
      exact h.level j snapshot hs hlast

/-- The server takes the blob of a device; every other device is behind it then. -/
theorem Inv.accepted {w : World ι} (h : Inv retention w) (i : ι) {c : SyncClient}
    {blob : Files} (hlast : c.lastSyncedVersion = w.server.version + 1)
    (hcovers : Covers retention w.now c.store blob) :
    Inv retention { w.setDevice i c with
      server := { w.server with version := w.server.version + 1, metadata := some blob } } := by
  refine ⟨fun j => ?_, fun j snapshot hs hlevel => ?_⟩
  · by_cases hj : j = i
    · subst hj
      exact (World.devices_setDevice_self w j c).symm ▸ hlast.le
    · exact (World.devices_setDevice_of_ne w c hj).symm ▸ (h.behind j).trans (Nat.le_succ _)
  · by_cases hj : j = i
    · subst hj
      obtain rfl := Option.some_inj.mp hs
      exact (World.devices_setDevice_self w j c).symm ▸ hcovers
    · have hlast' : (w.devices j).lastSyncedVersion = w.server.version + 1 :=
        World.devices_setDevice_of_ne w c hj ▸ hlevel
      have := h.behind j
      omega

/-- The blob of a device covers what the device covers. -/
theorem covers_blob {s : MetadataStore} {snapshot : Files}
    (h : Covers retention now s snapshot) :
    Covers retention now ⟨s.files, Table.empty⟩ snapshot :=
  h

/-- **One step of a run.** -/
theorem inv_step {w w' : World ι} {e : WorldEvent ι} (h : Inv retention w)
    (hok : Retains retention w e) (hstep : w.step e = some w') :
    Inv retention w' ∧ Succeeds retention w e w' := by
  cases e with
  | tick now =>
      rw [step] at hstep
      split_ifs at hstep with hle
      rw [Option.some_inj] at hstep
      subst hstep
      exact ⟨⟨h.behind, fun i snapshot hs hlast => (h.level i snapshot hs hlast).mono hle⟩,
        succeeds_of_same_server rfl⟩
  | write i op =>
      rw [step, Option.some_inj] at hstep
      subst hstep
      refine ⟨h.setDevice i (h.behind i) fun snapshot hs hlast => ?_, succeeds_of_same_server rfl⟩
      exact (h.level i snapshot hs hlast).of_le (version_le_apply op (w.devices i).store)
  | gc i =>
      rw [step, Option.some_inj] at hstep
      subst hstep
      refine ⟨h.setDevice i (h.behind i) fun snapshot hs hlast => ?_, succeeds_of_same_server rfl⟩
      exact (h.level i snapshot hs hlast).gcTombstones (hok snapshot hs hlast)
  | put i =>
      rw [step] at hstep
      split_ifs at hstep with hpending
      rw [Option.some_inj] at hstep
      subst hstep
      by_cases hlast : (w.devices i).lastSyncedVersion = w.server.version
      · have hcovers : Covers retention w.now ((w.devices i).accepted w.now (w.server.version + 1)
            (w.devices i).pendingPaths).store (w.devices i).store.files :=
          (covers_self _).of_le (version_le_accepted (w.devices i) w.now _)
        have hw : w.putStep i = { w.setDevice i ((w.devices i).accepted w.now
            (w.server.version + 1) (w.devices i).pendingPaths) with
            server := { w.server with
              version := w.server.version + 1, metadata := some (w.devices i).store.files } } := by
          unfold putStep
          dsimp only
          rw [Server.put_some, if_pos hlast]
        rw [hw]
        refine ⟨h.accepted i rfl hcovers, fun snapshot hs => ?_⟩
        exact ⟨_, rfl, covers_blob (h.level i snapshot hs hlast)⟩
      · have hw : w.putStep i = w := by
          unfold putStep
          dsimp only
          rw [Server.put_some, if_neg hlast]
        rw [hw]
        exact ⟨h, succeeds_of_same_server rfl⟩
  | merge i timestamp =>
      rw [step, Option.some_inj] at hstep
      subst hstep
      unfold mergeStep
      rcases (w.devices i).downloadAndMerge_cases ⟨w.now, timestamp⟩
        (show ({ server := w.server } : Net).fates = [] from rfl) with
        ⟨hnone, hcall⟩ | ⟨snapshot, hs, hle, hcall⟩ | ⟨snapshot, hs, hlt, hcall⟩
      · rw [SyncClient.forceUpload_of_answered _ _ rfl] at hcall
        rw [hcall]
        refine ⟨h.accepted i rfl ?_, fun snapshot hs => ?_⟩
        · exact (covers_self _).of_le (version_le_accepted _ w.now _)
        · rw [hs] at hnone
          cases hnone
      · rw [hcall]
        refine ⟨h.setDevice i ?_ fun snapshot' hs' hlast => ?_, succeeds_of_same_server rfl⟩
        · rw [SyncClient.lastSyncedVersion_setRetention]
          exact h.behind i
        · rw [SyncClient.lastSyncedVersion_setRetention] at hlast
          rw [SyncClient.store_setRetention]
          exact h.level i snapshot' hs' hlast
      · rw [hcall]
        refine ⟨h.setDevice i (le_refl _) fun snapshot' hs' _ => ?_, succeeds_of_same_server rfl⟩
        obtain ⟨happlies, hpurge⟩ := hok snapshot hs hlt
        have hsame : snapshot' = snapshot := by
          have := hs'.symm.trans hs
          rwa [Option.some_inj] at this
        rw [hsame]
        exact Covers.gcTombstones (covers_mergeServerMetadata happlies) hpurge

/-- Two devices that have not met the server yet. -/
def twoDevices : World Bool where
  devices := fun b => {
    jbod := { metadataStore := MetadataStore.initial, sources := Table.empty }
    deviceName := if b then "desktop".toList else "laptop".toList }
  server := {}
  now := 0

/-- The first device creates a file and uploads it. -/
def firstUpload : List (WorldEvent Bool) :=
  [.write true (.insert "/a".toList "s" "x_a".toList 1 0 0 none), .merge true fun _ => []]

end World

end StardustFS
