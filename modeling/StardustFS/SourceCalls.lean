import StardustFS.DirectoryRemoval

/-! The calls a volume makes on its local sources, in their order and with the physical paths it passes.
What an operation does to the sources is what these calls do. -/

namespace StardustFS

inductive SourceOp where
  | read
  | write (data : Bytes)
  | delete
  | exists
  | mkdir
  | rmdir
  deriving DecidableEq

structure SourceCall where
  sourceId : SourceId
  op : SourceOp
  physicalPath : Text
  deriving DecidableEq

namespace SourceCall

/-- What the call leaves of its source. -/
def apply (c : SourceCall) (s : StorageSource) : StorageSource :=
  match c.op with
  | .read => (s.read c.physicalPath).2
  | .write data => (s.write c.physicalPath data).2
  | .delete => (s.delete c.physicalPath).2
  | .exists => s
  | .mkdir => (s.mkdir c.physicalPath).2
  | .rmdir => (s.rmdir c.physicalPath).2

@[simp] theorem apply_read (id : SourceId) (p : Text) (s : StorageSource) :
    apply ⟨id, .read, p⟩ s = (s.read p).2 := rfl

@[simp] theorem apply_write (id : SourceId) (data : Bytes) (p : Text) (s : StorageSource) :
    apply ⟨id, .write data, p⟩ s = (s.write p data).2 := rfl

@[simp] theorem apply_delete (id : SourceId) (p : Text) (s : StorageSource) :
    apply ⟨id, .delete, p⟩ s = (s.delete p).2 := rfl

@[simp] theorem apply_exists (id : SourceId) (p : Text) (s : StorageSource) :
    apply ⟨id, .exists, p⟩ s = s := rfl

@[simp] theorem apply_mkdir (id : SourceId) (p : Text) (s : StorageSource) :
    apply ⟨id, .mkdir, p⟩ s = (s.mkdir p).2 := rfl

@[simp] theorem apply_rmdir (id : SourceId) (p : Text) (s : StorageSource) :
    apply ⟨id, .rmdir, p⟩ s = (s.rmdir p).2 := rfl

/-- The calls on one source, one after the other. -/
def replay (id : SourceId) (calls : List SourceCall) (s : StorageSource) : StorageSource :=
  calls.foldl (fun s c => if c.sourceId = id then c.apply s else s) s

@[simp] theorem replay_nil (id : SourceId) (s : StorageSource) : replay id [] s = s := rfl

@[simp] theorem replay_cons (id : SourceId) (c : SourceCall) (calls : List SourceCall)
    (s : StorageSource) :
    replay id (c :: calls) s = replay id calls (if c.sourceId = id then c.apply s else s) := rfl

theorem replay_append (id : SourceId) (a b : List SourceCall) (s : StorageSource) :
    replay id (a ++ b) s = replay id b (replay id a s) := List.foldl_append

/-- Calls on other sources leave a source alone. -/
theorem replay_of_ne {id : SourceId} {calls : List SourceCall} (h : ∀ c ∈ calls, c.sourceId ≠ id)
    (s : StorageSource) : replay id calls s = s := by
  induction calls with
  | nil => rfl
  | cons c calls ih =>
      rw [replay_cons, if_neg (h c List.mem_cons_self)]
      exact ih fun c' hc' => h c' (List.mem_cons_of_mem c hc')

end SourceCall

namespace JbodManager

open SourceCall

/-- The calls of a write at a new path; what is left of a failed one is looked for and deleted. -/
def writeNewCalls (j : JbodManager) (reading : Reading) (virtualPath : Text) (encrypted : Bytes) :
    List SourceCall :=
  match j.selectSource reading.diskFree encrypted.length with
  | none => []
  | some sourceId =>
      let physicalPath := generatePhysicalPath reading.uuid virtualPath
      match j.sources.get sourceId with
      | none => []
      | some s =>
          match s.write physicalPath encrypted with
          | (.ok _, _) => [⟨sourceId, .write encrypted, physicalPath⟩]
          | (.error _, s) =>
              match s.exists physicalPath with
              | .ok true =>
                  [⟨sourceId, .write encrypted, physicalPath⟩, ⟨sourceId, .exists, physicalPath⟩,
                    ⟨sourceId, .delete, physicalPath⟩]
              | _ =>
                  [⟨sourceId, .write encrypted, physicalPath⟩, ⟨sourceId, .exists, physicalPath⟩]

/-- The call on the source of a record, where that is in service. -/
def recordCalls (j : JbodManager) (row : FileRow) (op : SourceOp) : List SourceCall :=
  match j.sources.get row.sourceId with
  | none => []
  | some s => if s.isActive then [⟨row.sourceId, op, row.physicalPath⟩] else []

def readFileCalls (j : JbodManager) (virtualPath : Text) : List SourceCall :=
  match j.metadataStore.lookup virtualPath with
  | none => []
  | some row => if j.ownedElsewhere row then [] else j.recordCalls row .read

def writeFileCalls (j : JbodManager) (reading : Reading) (virtualPath : Text) (data : Bytes) :
    List SourceCall :=
  let encrypted := j.encrypt reading.iv data
  match j.metadataStore.lookup virtualPath with
  | some existing =>
      if j.ownedElsewhere existing then j.writeNewCalls reading virtualPath encrypted
      else j.recordCalls existing (.write encrypted)
  | none => j.writeNewCalls reading virtualPath encrypted

def deleteFileCalls (j : JbodManager) (virtualPath : Text) : List SourceCall :=
  match j.metadataStore.lookup virtualPath with
  | none => []
  | some row => if j.ownedElsewhere row then [] else j.recordCalls row .delete

def copyFileCalls (j : JbodManager) (remote : RemoteRead) (reading : Reading)
    (srcPath dstPath : Text) : List SourceCall :=
  j.readFileCalls srcPath ++
    match j.readFile remote srcPath with
    | (.error _, _) => []
    | (.ok data, j) => j.writeFileCalls reading dstPath data

/-- The calls of a loop over the active sources. -/
def everySourceCalls (j : JbodManager) (calls : SourceId → StorageSource → List SourceCall) :
    List SourceCall :=
  j.sources.rows.flatMap fun x => if x.2.isActive then calls x.1 x.2 else []

def createDirectoryCalls (j : JbodManager) (virtualPath : Text) : List SourceCall :=
  j.everySourceCalls fun id _ => [⟨id, .mkdir, Text.lstrip '/' virtualPath⟩]

/-- The calls for one entry of a directory that is deleted; `below` are those of a subdirectory. -/
def deleteEntryCalls (below : JbodManager → Text → List SourceCall) (virtualPath : Text)
    (acc : Result Unit) (entry : EntryInfo) : List SourceCall :=
  match acc with
  | (.error _, _) => []
  | (.ok _, j) =>
      let childPath := Text.rstrip '/' virtualPath ++ '/' :: entry.name
      if entry.isDirectory then below j childPath else j.deleteFileCalls childPath

/-- The recursion of a directory's deletion, beside the volume it leaves. -/
def deleteDirectoryCalls (now : Time) : Nat → JbodManager → Text → List SourceCall
  | 0, _, _ => []
  | depth + 1, j, virtualPath =>
      let child := (j.metadataStore.listEntries virtualPath).foldl
        (fun (acc : Result Unit × List SourceCall) entry =>
          (deleteEntry now depth virtualPath acc.1 entry,
            acc.2 ++ deleteEntryCalls (fun j p => deleteDirectoryCalls now depth j p) virtualPath
              acc.1 entry)) ((.ok (), j), [])
      match child.1 with
      | (.error _, _) => child.2
      | (.ok _, j) =>
          child.2 ++ j.everySourceCalls fun id _ => [⟨id, .rmdir, Text.lstrip '/' virtualPath⟩]

/-- The physical half of a directory move on one source. -/
def moveSourceCalls (srcPhysical dstPhysical : Text) (id : SourceId) (s : StorageSource) :
    List SourceCall :=
  match s.mkdir dstPhysical with
  | (.error _, _) => [⟨id, .mkdir, dstPhysical⟩]
  | (.ok _, s) =>
      match s.exists srcPhysical with
      | .ok true =>
          [⟨id, .mkdir, dstPhysical⟩, ⟨id, .exists, srcPhysical⟩, ⟨id, .rmdir, srcPhysical⟩]
      | _ => [⟨id, .mkdir, dstPhysical⟩, ⟨id, .exists, srcPhysical⟩]

def moveDirectoryCalls (j : JbodManager) (srcPath dstPath : Text) : List SourceCall :=
  match (j.moveDirectory srcPath dstPath).1 with
  | .error _ => []
  | .ok _ =>
      j.everySourceCalls (moveSourceCalls (Text.lstrip '/' srcPath) (Text.lstrip '/' dstPath))

/-! ### The calls account for the sources -/

/-- The sources after are the ones before, each after the calls made on it. -/
def Accounts (j j' : JbodManager) (calls : List SourceCall) : Prop :=
  ∀ id, j'.sources.get id = (j.sources.get id).map (replay id calls)

theorem Accounts.of_sources {j j' : JbodManager} (h : j'.sources = j.sources) : Accounts j j' [] := by
  intro id
  rw [h]
  exact Option.map_id'.symm

theorem Accounts.trans {j j' j'' : JbodManager} {a b : List SourceCall} (h : Accounts j j' a)
    (h' : Accounts j' j'' b) : Accounts j j'' (a ++ b) := by
  intro id
  rw [h' id, h id, Option.map_map]
  exact Option.map_congr fun s _ => (replay_append id a b s).symm

/-- Calls on one source alone. -/
theorem Accounts.update {j j' : JbodManager} {id : SourceId} {s : StorageSource} (s' : StorageSource)
    {calls : List SourceCall} (hs : j.sources.get id = some s)
    (hcalls : ∀ c ∈ calls, c.sourceId = id) (hreplay : replay id calls s = s')
    (h : j'.sources = j.sources.update id fun _ => s') : Accounts j j' calls := by
  intro id'
  rw [h]
  by_cases hid : id' = id
  · rw [hid, Table.get_update_self, hs, Option.map_some, Option.map_some, hreplay]
  · rw [Table.get_update_of_ne _ _ hid]
    cases hs' : j.sources.get id' with
    | none => rfl
    | some s₁ =>
        rw [Option.map_some, replay_of_ne fun c hc heq => hid (heq.symm.trans (hcalls c hc))]

/-- Of a loop over the rows, a source sees its own turn. -/
theorem replay_flatMap {rows : List (SourceId × StorageSource)}
    (hnodup : (rows.map Prod.fst).Nodup) {f : SourceId × StorageSource → List SourceCall}
    (hf : ∀ x, ∀ c ∈ f x, c.sourceId = x.1) {x : SourceId × StorageSource} (hx : x ∈ rows) :
    replay x.1 (rows.flatMap f) x.2 = replay x.1 (f x) x.2 := by
  induction rows with
  | nil => cases hx
  | cons y rows ih =>
      rw [List.map_cons, List.nodup_cons] at hnodup
      rw [List.flatMap_cons, replay_append]
      rcases List.mem_cons.mp hx with rfl | hx
      · refine replay_of_ne (fun c hc heq => ?_) _
        obtain ⟨z, hz, hcz⟩ := List.mem_flatMap.mp hc
        exact hnodup.1 (List.mem_map.mpr ⟨z, hz, ((hf z c hcz).symm.trans heq)⟩)
      · have hne : y.1 ≠ x.1 := fun heq => hnodup.1 (heq ▸ List.mem_map_of_mem hx)
        rw [replay_of_ne (fun c hc heq => hne ((hf y c hc).symm.trans heq)), ih hnodup.2 hx]

theorem accounts_everySource {j j' : JbodManager} (op : StorageSource → StorageSource)
    {calls : SourceId → StorageSource → List SourceCall}
    (hcalls : ∀ id s, ∀ c ∈ calls id s, c.sourceId = id)
    (hreplay : ∀ id s, replay id (calls id s) s = op s)
    (h : j'.sources = (j.onEverySource op).sources) : Accounts j j' (j.everySourceCalls calls) := by
  intro id
  rw [h, onEverySource, Table.get_mapRows]
  cases hs : j.sources.get id with
  | none => rfl
  | some s =>
      have hturn := replay_flatMap (x := (id, s)) j.sources.nodup
        (f := fun x => if x.2.isActive then calls x.1 x.2 else []) (fun x c hc => by
          split_ifs at hc
          · exact hcalls x.1 x.2 c hc
          · cases hc) (Table.mem_rows_of_get hs)
      rw [Option.map_some, Option.map_some, everySourceCalls, hturn]
      dsimp only
      split_ifs
      · rw [hreplay]
      · rfl

theorem recordCalls_eq (j : JbodManager) (row : FileRow) (op : SourceOp) :
    (∀ s, j.sources.get row.sourceId = some s → s.isActive = false) ∧ j.recordCalls row op = [] ∨
      ∃ s, j.sources.get row.sourceId = some s ∧ s.isActive = true ∧
        j.recordCalls row op = [⟨row.sourceId, op, row.physicalPath⟩] := by
  unfold recordCalls
  cases hs : j.sources.get row.sourceId with
  | none => exact Or.inl ⟨fun s h => absurd h (Option.some_ne_none s).symm, rfl⟩
  | some s =>
      cases hactive : s.isActive with
      | false =>
          refine Or.inl ⟨fun s' h => ?_, by simp [hactive]⟩
          exact Option.some_inj.mp h ▸ hactive
      | true => exact Or.inr ⟨s, rfl, hactive, by simp [hactive]⟩

/-- One call on the source of a record. -/
theorem accounts_record {j j' : JbodManager} {row : FileRow} {op : SourceOp}
    (hidle : (∀ s, j.sources.get row.sourceId = some s → s.isActive = false) →
      j'.sources = j.sources)
    (hcall : ∀ s, j.sources.get row.sourceId = some s → s.isActive = true →
      j'.sources = j.sources.update row.sourceId
        fun _ => SourceCall.apply ⟨row.sourceId, op, row.physicalPath⟩ s) :
    Accounts j j' (j.recordCalls row op) := by
  rcases j.recordCalls_eq row op with ⟨hnone, hcalls⟩ | ⟨s, hs, hactive, hcalls⟩
  · rw [hcalls]
    exact Accounts.of_sources (hidle hnone)
  · rw [hcalls]
    refine Accounts.update _ hs (fun c hc => ?_) ?_ (hcall s hs hactive)
    · rw [List.mem_singleton.mp hc]
    · rw [replay_cons, if_pos rfl, replay_nil]

theorem accounts_deleteFile (j : JbodManager) (now : Time) (p : Text) :
    Accounts j (j.deleteFile now p).2 (j.deleteFileCalls p) := by
  unfold deleteFile deleteFileCalls
  cases hlookup : j.metadataStore.lookup p with
  | none => exact Accounts.of_sources rfl
  | some row =>
      dsimp only
      split_ifs with howner
      · exact Accounts.of_sources rfl
      · refine accounts_record (fun hidle => ?_) fun s hs hactive => ?_
        · cases hs : j.sources.get row.sourceId with
          | none => rfl
          | some s => simp [hidle s hs]
        · simp only [hs, hactive, onSource, apply_delete, Bool.not_true, Bool.false_eq_true,
            if_false]
          rcases s.delete row.physicalPath with ⟨_ | _, s'⟩
          · rename_i e
            rcases e with (_ | _ | _ | _) | _ | _ <;> rfl
          · rfl

theorem accounts_readFile (j : JbodManager) (remote : RemoteRead) (p : Text) :
    Accounts j (j.readFile remote p).2 (j.readFileCalls p) := by
  have hlocal : ∀ row, Accounts j (j.readLocal row).2 (j.recordCalls row .read) := by
    intro row
    refine accounts_record (fun hidle => ?_) fun s hs hactive => ?_
    · unfold readLocal
      cases hs : j.sources.get row.sourceId with
      | none => rfl
      | some s => simp [hidle s hs]
    · simp only [readLocal, hs, hactive, onSource, apply_read, Bool.not_true, Bool.false_eq_true,
        if_false]
      rcases s.read row.physicalPath with ⟨_ | _, s'⟩ <;> rfl
  unfold readFile readFileCalls
  cases hlookup : j.metadataStore.lookup p with
  | none => exact Accounts.of_sources rfl
  | some row =>
      dsimp only
      cases howner : row.deviceId with
      | none =>
          simp only [ownedElsewhere, howner, Option.isSome_none, Bool.false_and, Bool.false_eq_true,
            if_false]
          exact hlocal row
      | some owner =>
          by_cases hself : some owner = j.deviceId
          · simp only [ownedElsewhere, howner, hself, if_true, bne_self_eq_false, Bool.and_false,
              Bool.false_eq_true, if_false]
            exact hlocal row
          · simp only [ownedElsewhere, howner, hself, if_false, Option.isSome_some, Bool.true_and,
              bne_iff_ne, ne_eq, not_false_eq_true, if_true]
            apply Accounts.of_sources
            unfold readRemote
            cases remote owner row.sourceId row.physicalPath with
            | none => rfl
            | some data => rfl

theorem accounts_writeNew (j : JbodManager) (reading : Reading) (p : Text) (encrypted : Bytes)
    (failure : SourceError → JbodError) {record : JbodManager → SourceId → JbodManager}
    (hrecord : ∀ j id, (record j id).sources = j.sources) :
    Accounts j (j.writeNew reading p encrypted failure record).2
      (j.writeNewCalls reading p encrypted) := by
  unfold writeNew writeNewCalls
  cases j.selectSource reading.diskFree encrypted.length with
  | none => exact Accounts.of_sources rfl
  | some id =>
      dsimp only
      cases hs : j.sources.get id with
      | none => exact Accounts.of_sources rfl
      | some s =>
          simp only [onSource]
          obtain ⟨result, s', hwrite⟩ : ∃ result s',
              s.write (generatePhysicalPath reading.uuid p) encrypted = (result, s') := ⟨_, _, rfl⟩
          cases result with
          | ok _ =>
              simp only [hwrite]
              refine Accounts.update _ hs (fun c hc => ?_) ?_ (hrecord _ _)
              · rw [List.mem_singleton.mp hc]
              · rw [replay_cons, if_pos rfl, replay_nil, apply_write, hwrite]
          | error e =>
              simp only [hwrite, discardPartial, Table.get_update_self, hs, Option.map_some]
              cases hexists : s'.exists (generatePhysicalPath reading.uuid p) with
              | error e' =>
                  refine Accounts.update _ hs ?_ ?_ rfl
                  · simp
                  · simp [hwrite]
              | ok found =>
                  cases found with
                  | false =>
                      refine Accounts.update _ hs ?_ ?_ rfl
                      · simp
                      · simp [hwrite]
                  | true =>
                      simp only [onSource]
                      obtain ⟨result, s'', hdelete⟩ : ∃ result s'',
                          s'.delete (generatePhysicalPath reading.uuid p) = (result, s'') :=
                        ⟨_, _, rfl⟩
                      refine Accounts.update s'' hs ?_ ?_ ?_
                      · simp
                      · simp [hwrite, hdelete]
                      · cases result with
                        | ok _ => simp only [hdelete, Table.update_update]
                        | error e'' => simp only [hdelete, Table.update_update]

theorem accounts_writeFile (j : JbodManager) (reading : Reading) (p : Text) (data : Bytes) :
    Accounts j (j.writeFile reading p data).2 (j.writeFileCalls reading p data) := by
  unfold writeFile writeFileCalls
  dsimp only
  cases hlookup : j.metadataStore.lookup p with
  | none =>
      rw [createFile_eq]
      exact j.accounts_writeNew reading p _ _ fun _ _ => rfl
  | some existing =>
      dsimp only
      split_ifs with howner
      · rw [takeoverWrite_eq]
        exact j.accounts_writeNew reading p _ _ fun _ _ => rfl
      · unfold overwrite
        refine accounts_record (fun hidle => ?_) fun s hs hactive => ?_
        · cases hs : j.sources.get existing.sourceId with
          | none => rfl
          | some s => simp [hidle s hs]
        · simp only [hs, hactive, onSource, apply_write, Bool.not_true, Bool.false_eq_true, if_false]
          rcases s.write existing.physicalPath (j.encrypt reading.iv data) with ⟨_ | _, s'⟩ <;> rfl

theorem accounts_copyFile (j : JbodManager) (remote : RemoteRead) (reading : Reading)
    (src dst : Text) : Accounts j (j.copyFile remote reading src dst).2
      (j.copyFileCalls remote reading src dst) := by
  have hread := j.accounts_readFile remote src
  unfold copyFile copyFileCalls
  obtain ⟨result, j', hj'⟩ : ∃ result j', j.readFile remote src = (result, j') := ⟨_, _, rfl⟩
  rw [hj'] at hread ⊢
  cases result with
  | error e =>
      rw [List.append_nil]
      exact hread
  | ok data => exact hread.trans (j'.accounts_writeFile reading dst data)

theorem accounts_createDirectory (j : JbodManager) (now : Time) (p : Text) :
    Accounts j (j.createDirectory now p) (j.createDirectoryCalls p) :=
  accounts_everySource (fun s => (s.mkdir (Text.lstrip '/' p)).2) (by simp) (by simp) rfl

theorem replay_moveSourceCalls (src dst : Text) (id : SourceId) (s : StorageSource) :
    replay id (moveSourceCalls src dst id s) s = moveSourceDirectory src dst s := by
  unfold moveSourceCalls moveSourceDirectory
  obtain ⟨result, s', hmkdir⟩ : ∃ result s', s.mkdir dst = (result, s') := ⟨_, _, rfl⟩
  rw [hmkdir]
  cases result with
  | error e => simp [hmkdir]
  | ok _ =>
      dsimp only
      cases s'.exists src with
      | error e => simp [hmkdir]
      | ok found =>
          cases found with
          | false => simp [hmkdir]
          | true => simp [hmkdir]

theorem mem_moveSourceCalls {src dst : Text} {id : SourceId} {s : StorageSource} {c : SourceCall}
    (h : c ∈ moveSourceCalls src dst id s) :
    c.sourceId = id ∧ (c.physicalPath = src ∨ c.physicalPath = dst) := by
  unfold moveSourceCalls at h
  split at h
  · simp only [List.mem_singleton] at h
    subst h
    exact ⟨rfl, Or.inr rfl⟩
  · split at h
    · simp only [List.mem_cons, List.not_mem_nil, or_false] at h
      rcases h with rfl | rfl | rfl
      · exact ⟨rfl, Or.inr rfl⟩
      · exact ⟨rfl, Or.inl rfl⟩
      · exact ⟨rfl, Or.inl rfl⟩
    · simp only [List.mem_cons, List.not_mem_nil, or_false] at h
      rcases h with rfl | rfl
      · exact ⟨rfl, Or.inr rfl⟩
      · exact ⟨rfl, Or.inl rfl⟩

theorem accounts_moveDirectory (j : JbodManager) (src dst : Text) :
    Accounts j (j.moveDirectory src dst).2 (j.moveDirectoryCalls src dst) := by
  unfold moveDirectoryCalls moveDirectory
  dsimp only
  obtain ⟨store, done, hrename⟩ : ∃ store done, j.metadataStore.renameDirectory
      (MetadataStore.withSlash src) (MetadataStore.withSlash dst) = (store, done) := ⟨_, _, rfl⟩
  rw [hrename]
  cases done with
  | false => exact Accounts.of_sources rfl
  | true =>
      dsimp only
      cases store.directories.rename? (Text.rstrip '/' src) (Text.rstrip '/' dst) with
      | none => exact Accounts.of_sources rfl
      | some directories =>
          exact accounts_everySource _ (fun id s c hc => (mem_moveSourceCalls hc).1)
            (fun id s => replay_moveSourceCalls _ _ id s) rfl

theorem accounts_deleteEntry {now : Time} {depth : Nat} {p : Text} (acc : Result Unit)
    (entry : EntryInfo)
    (hbelow : ∀ j p, Accounts j (deleteDirectory now depth j p).2
      (deleteDirectoryCalls now depth j p)) :
    Accounts acc.2 (deleteEntry now depth p acc entry).2
      (deleteEntryCalls (fun j p => deleteDirectoryCalls now depth j p) p acc entry) := by
  obtain ⟨result, j⟩ := acc
  unfold deleteEntry deleteEntryCalls
  cases result with
  | error e => exact Accounts.of_sources rfl
  | ok _ =>
      dsimp only
      split_ifs
      · exact hbelow j _
      · have hfile := j.accounts_deleteFile now (Text.rstrip '/' p ++ '/' :: entry.name)
        split
        · rename_i hdelete
          rwa [hdelete] at hfile
        · exact hfile

/-- The loop over the entries, beside the calls. -/
def deleteEntries (now : Time) (depth : Nat) (virtualPath : Text) (entries : List EntryInfo)
    (acc : Result Unit × List SourceCall) : Result Unit × List SourceCall :=
  entries.foldl (fun acc entry => (deleteEntry now depth virtualPath acc.1 entry,
    acc.2 ++ deleteEntryCalls (fun j p => deleteDirectoryCalls now depth j p) virtualPath acc.1
      entry)) acc

theorem fst_deleteEntries (now : Time) (depth : Nat) (p : Text) (entries : List EntryInfo)
    (acc : Result Unit × List SourceCall) : (deleteEntries now depth p entries acc).1 =
      entries.foldl (deleteEntry now depth p) acc.1 := by
  induction entries generalizing acc with
  | nil => rfl
  | cons entry entries ih => exact ih _

/-- What every entry's turn preserves, the loop preserves. -/
theorem deleteEntries_rule (now : Time) (depth : Nat) (p : Text) (entries : List EntryInfo)
    {Q : JbodManager → List SourceCall → Prop}
    (hentry : ∀ acc calls, ∀ entry ∈ entries, Q acc.2 calls →
      Q (deleteEntry now depth p acc entry).2
        (calls ++ deleteEntryCalls (fun j p => deleteDirectoryCalls now depth j p) p acc entry))
    (acc : Result Unit × List SourceCall) (h : Q acc.1.2 acc.2) :
    Q (deleteEntries now depth p entries acc).1.2 (deleteEntries now depth p entries acc).2 := by
  induction entries generalizing acc with
  | nil => exact h
  | cons entry entries ih =>
      exact ih (fun acc calls e he => hentry acc calls e (List.mem_cons_of_mem entry he)) _
        (hentry acc.1 acc.2 entry List.mem_cons_self h)

/-- A deletion ends with the loop, or goes on to the directory itself. -/
theorem deleteDirectory_calls_cases (now : Time) (depth : Nat) (j : JbodManager) (p : Text) :
    let child := deleteEntries now depth p (j.metadataStore.listEntries p) ((.ok (), j), [])
    ((deleteDirectory now (depth + 1) j p).2 = child.1.2 ∧
      deleteDirectoryCalls now (depth + 1) j p = child.2) ∨
    ((deleteDirectory now (depth + 1) j p).2 =
        { child.1.2.onEverySource fun s => (s.rmdir (Text.lstrip '/' p)).2 with
          metadataStore := child.1.2.metadataStore.deleteDirectoryEntry (Text.rstrip '/' p) } ∧
      deleteDirectoryCalls now (depth + 1) j p =
        child.2 ++ child.1.2.everySourceCalls fun id _ => [⟨id, .rmdir, Text.lstrip '/' p⟩]) := by
  intro child
  have hunfold : deleteDirectory now (depth + 1) j p =
      match (j.metadataStore.listEntries p).foldl (deleteEntry now depth p) (.ok (), j) with
      | (.error e, j) => (.error e, j)
      | (.ok _, j) =>
          let j := j.onEverySource fun s => (s.rmdir (Text.lstrip '/' p)).2
          (.ok (), { j with
            metadataStore := j.metadataStore.deleteDirectoryEntry (Text.rstrip '/' p) }) := rfl
  have hcalls : deleteDirectoryCalls now (depth + 1) j p =
      match child.1 with
      | (.error _, _) => child.2
      | (.ok _, j) =>
          child.2 ++ j.everySourceCalls fun id _ => [⟨id, .rmdir, Text.lstrip '/' p⟩] := rfl
  have hfst : (j.metadataStore.listEntries p).foldl (deleteEntry now depth p) (.ok (), j) =
      child.1 :=
    (fst_deleteEntries now depth p (j.metadataStore.listEntries p) ((.ok (), j), [])).symm
  rw [hunfold, hcalls, hfst]
  obtain ⟨⟨result, j'⟩, calls⟩ := child
  cases result with
  | error e => exact Or.inl ⟨rfl, rfl⟩
  | ok _ => exact Or.inr ⟨rfl, rfl⟩

theorem accounts_deleteDirectory (now : Time) (depth : Nat) (j : JbodManager) (p : Text) :
    Accounts j (deleteDirectory now depth j p).2 (deleteDirectoryCalls now depth j p) := by
  induction depth generalizing j p with
  | zero => exact Accounts.of_sources rfl
  | succ depth ih =>
      have hchild := deleteEntries_rule now depth p (j.metadataStore.listEntries p)
        (Q := fun j' calls => Accounts j j' calls)
        (fun acc calls entry _ h => h.trans (accounts_deleteEntry acc entry ih))
        ((.ok (), j), []) (Accounts.of_sources rfl)
      rcases deleteDirectory_calls_cases now depth j p with ⟨hdelete, hcalls⟩ | ⟨hdelete, hcalls⟩
      · rw [hdelete, hcalls]
        exact hchild
      · rw [hdelete, hcalls]
        exact hchild.trans (accounts_everySource
          (fun s => (s.rmdir (Text.lstrip '/' p)).2) (by simp) (by simp) rfl)

end JbodManager

end StardustFS
