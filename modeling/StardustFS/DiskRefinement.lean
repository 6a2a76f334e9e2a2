import StardustFS.MountedTrees
import StardustFS.PathConfinement
import StardustFS.RequestConfinement
import StardustFS.Simulation

/-! The local sources of a volume share the file system of their device. The volume sees a tree of its own
for each source; whatever commands it is given, the calls they make leave just these trees below the data
roots, end as the volume has it, and change nothing beside the roots. -/

namespace StardustFS

open Text
open PosixFiles (SameOutside)

/-- What a call on a source answers. -/
inductive SourceAnswer where
  | contents (data : Bytes)
  | found (there : Bool)
  | done
  deriving DecidableEq

def StorageSource.call (s : StorageSource) (op : SourceOp) (p : Text) :
    Except SourceError SourceAnswer × StorageSource :=
  match op with
  | .read => ((s.read p).1.map .contents, (s.read p).2)
  | .write data => ((s.write p data).1.map fun _ => .done, (s.write p data).2)
  | .delete => ((s.delete p).1.map fun _ => .done, (s.delete p).2)
  | .exists => ((s.exists p).map .found, s)
  | .mkdir => ((s.mkdir p).1.map fun _ => .done, (s.mkdir p).2)
  | .rmdir => ((s.rmdir p).1.map fun _ => .done, (s.rmdir p).2)

theorem StorageSource.call_snd (s : StorageSource) (c : SourceCall) :
    (s.call c.op c.physicalPath).2 = c.apply s := by
  unfold StorageSource.call SourceCall.apply
  cases c.op with
  | read => rfl
  | write data => rfl
  | delete => rfl
  | «exists» => rfl
  | mkdir => rfl
  | rmdir => rfl

namespace Mount

def call (m : Mount) (t : PosixFiles.Tree Bytes) (op : SourceOp) (p : Text) : Effect SourceAnswer :=
  match op with
  | .read => ((m.read t p).1.map .contents, (m.read t p).2)
  | .write data => ((m.write t p data).1.map fun _ => .done, (m.write t p data).2)
  | .delete => ((m.delete t p).1.map fun _ => .done, (m.delete t p).2)
  | .exists => ((m.pathExists t p).map .found, m, t)
  | .mkdir => ((m.mkdir t p).1.map fun _ => .done, (m.mkdir t p).2)
  | .rmdir => ((m.rmdir t p).1.map fun _ => .done, (m.rmdir t p).2)

/-- What a call may be given: a path of names, to make or remove a directory also with slashes behind. -/
def TakesCall (m : Mount) (op : SourceOp) (p : Text) : Prop :=
  match op with
  | .mkdir => ∃ q k, p = q ++ List.replicate k '/' ∧ m.Takes q k
  | .rmdir => ∃ q k, p = q ++ List.replicate k '/' ∧ m.Takes q k
  | _ => m.Takes p 0

/-- At or below the data root. -/
def inside (m : Mount) (q : List Text) : Prop := location m.root <+: q

theorem downward_inside (m : Mount) : PosixFiles.Downward m.inside := fun _ _ hp hq => hp.trans hq

section

variable {m m' : Mount} {t t' : PosixFiles.Tree Bytes} {s : StorageSource} {p : Text} {k : Nat}

theorem Takes.of_source (h : m.Takes p k) (hsource : m'.source = m.source) : m'.Takes p k := by
  have hroot : m'.root = m.root := congrArg LocalSource.sourceDataRoot hsource
  exact ⟨hroot ▸ h.rooted, hroot ▸ h.plain, h.tidy, hroot ▸ h.fits, hroot ▸ h.null⟩

theorem TakesCall.of_source {op : SourceOp} (h : m.TakesCall op p) (hsource : m'.source = m.source) :
    m'.TakesCall op p := by
  cases op with
  | mkdir =>
      obtain ⟨q, k, hp, hq⟩ := h
      exact ⟨q, k, hp, hq.of_source hsource⟩
  | rmdir =>
      obtain ⟨q, k, hp, hq⟩ := h
      exact ⟨q, k, hp, hq.of_source hsource⟩
  | read => exact Takes.of_source h hsource
  | write data => exact Takes.of_source h hsource
  | delete => exact Takes.of_source h hsource
  | «exists» => exact Takes.of_source h hsource

theorem Refines.map {α β : Type} {e : Effect α} {r : Except SourceError α × StorageSource}
    (h : Refines e r) (f : α → β) : Refines (e.1.map f, e.2) (r.1.map f, r.2) := by
  refine ⟨?_, h.mirrors⟩
  rw [h.result]
  cases r.1 with
  | ok a => rfl
  | error e => rfl

/-- **One call** on the disk and on the tree. -/
theorem Mirrors.call (h : m.Mirrors t s) {op : SourceOp} (hp : m.TakesCall op p) :
    Refines (m.call t op p) (s.call op p) := by
  cases op with
  | read => exact (h.read hp).map _
  | write data => exact (h.write hp data).map _
  | delete => exact (h.delete hp).map _
  | «exists» =>
      refine ⟨?_, h⟩
      show (m.pathExists t p).map SourceAnswer.found = ((s.exists p).map SourceAnswer.found).mapError SourceError.raised
      rw [h.pathExists hp]
      cases s.exists p with
      | ok there => rfl
      | error e => rfl
  | mkdir =>
      obtain ⟨q, k, rfl, hq⟩ := hp
      exact (h.mkdir hq).map _
  | rmdir =>
      obtain ⟨q, k, rfl, hq⟩ := hp
      exact (h.rmdir hq).map _

/-- What the path leads to lies below the data root, and above that are directories. -/
theorem admitted (h : m.Mirrors t s) (hp : m.Takes p k) :
    Admitted m.inside t (m.source.resolve (p ++ List.replicate k '/')) := by
  have hlocation : location (m.source.resolve (p ++ List.replicate k '/')) =
      location m.root ++ (StorageSource.resolve p).map Subtype.val := by
    rw [LocalSource.resolve_eq, joinPath_append_slashes hp.tidy, PosixFiles.location_append_slashes,
      hp.location_eq]
  refine ⟨?_, ?_, fun q hq hout => ?_⟩
  · rw [LocalSource.resolve_eq, joinPath_append_slashes hp.tidy]
    exact PosixFiles.plain_append_slashes (plain_joinPath hp.plain hp.tidy.plain) k
  · rw [hlocation]
    exact List.prefix_append _ _
  · rw [hlocation] at hq
    rcases DirectoryTree.Holds.prefix_cases hq with ⟨habove, hne⟩ | ⟨r, hr, rfl⟩
    · exact h.holds.above q habove hne
    · exact absurd (List.prefix_append _ _) hout

theorem keeps_call (h : m.Mirrors t s) {op : SourceOp} (hp : m.TakesCall op p) :
    Keeps m.inside m t (m.call t op p) := by
  have hfile : ∀ {p : Text}, m.Takes p 0 → Admitted m.inside t (m.source.resolve p) := by
    intro p hp
    have := admitted h hp
    rwa [List.replicate_zero, List.append_nil] at this
  cases op with
  | read => exact keeps_read
  | write data => exact keeps_write (hfile hp) data
  | delete => exact keeps_delete (hfile hp)
  | «exists» => exact keeps_same _
  | mkdir =>
      obtain ⟨q, k, rfl, hq⟩ := hp
      exact keeps_mkdir (admitted h hq)
  | rmdir =>
      obtain ⟨q, k, rfl, hq⟩ := hp
      exact keeps_rmdir (admitted h hq) m.downward_inside

/-- A source beside another one does not see its calls. -/
theorem Mirrors.beside (h : m.Mirrors t s) (hsame : SameOutside m'.inside t t')
    (hbelow : ¬location m'.root <+: location m.root) (habove : ¬location m.root <+: location m'.root) :
    m.Mirrors t' s := by
  have hout : ∀ q, q <+: location m.root → ¬m'.inside q := fun q hq hin => hbelow (hin.trans hq)
  have hdown : ∀ q, ¬m'.inside (location m.root ++ q) := by
    intro q hin
    rcases List.prefix_or_prefix_of_prefix hin (List.prefix_append _ _) with h' | h'
    · exact hbelow h'
    · exact habove h'
  refine ⟨h.kind, h.isActive, h.usedBytes, h.holds.of_get (fun q hq _ => hsame q (hout q hq)) h.holds.noFile
    fun q => ?_⟩
  rw [h.holds.get, hsame _ (hdown _)]

end

end Mount

/-! ### The sources of a device -/

/-- The local sources of a device in service, over its one file system. -/
structure Disk where
  mounts : Table SourceId Mount
  tree : PosixFiles.Tree Bytes

namespace Disk

open Simulation (outputs after)

/-- A call on the disk; nothing is asked where no source has the id. -/
def call (d : Disk) (c : SourceCall) : Option (Except SourceRaised SourceAnswer) × Disk :=
  match d.mounts.get c.sourceId with
  | none => (none, d)
  | some m =>
      let (answer, m, tree) := m.call d.tree c.op c.physicalPath
      (some answer, { mounts := d.mounts.update c.sourceId fun _ => m, tree })

/-- The same call on the trees of the volume. -/
def callTrees (sources : Table SourceId StorageSource) (c : SourceCall) :
    Option (Except SourceRaised SourceAnswer) × Table SourceId StorageSource :=
  match sources.get c.sourceId with
  | none => (none, sources)
  | some s =>
      let (answer, s) := s.call c.op c.physicalPath
      (some (answer.mapError SourceError.raised), sources.update c.sourceId fun _ => s)

/-- The disk holds what the volume sees, and no data root lies at or below another one. -/
structure Mirrors (d : Disk) (sources : Table SourceId StorageSource) : Prop where
  same : ∀ id, (d.mounts.get id).isSome = (sources.get id).isSome
  mirrors : ∀ id m s, d.mounts.get id = some m → sources.get id = some s → m.Mirrors d.tree s
  apart : ∀ id id' m m', d.mounts.get id = some m → d.mounts.get id' = some m' → id ≠ id' →
    ¬location m.root <+: location m'.root

/-- The call is one that the source of its id may be given. -/
def Takes (d : Disk) (c : SourceCall) : Prop :=
  ∀ m, d.mounts.get c.sourceId = some m → m.TakesCall c.op c.physicalPath

/-- At or below one of the data roots. -/
def inside (d : Disk) (q : List Text) : Prop := ∃ id m, d.mounts.get id = some m ∧ m.inside q

/-- The sources are where they were, and beside their data roots nothing has changed. -/
structure Stays (d d' : Disk) : Prop where
  placed : ∀ id, (d'.mounts.get id).map Mount.source = (d.mounts.get id).map Mount.source
  outside : SameOutside d.inside d.tree d'.tree

variable {d d' d'' : Disk} {sources sources' : Table SourceId StorageSource} {c : SourceCall}

theorem Stays.refl (d : Disk) : d.Stays d := ⟨fun _ => rfl, SameOutside.refl _ _⟩

theorem Stays.exists_mount (h : d.Stays d') {id : SourceId} {m' : Mount} (hm' : d'.mounts.get id = some m') :
    ∃ m, d.mounts.get id = some m ∧ m.source = m'.source := by
  have hplaced := h.placed id
  rw [hm', Option.map_some] at hplaced
  exact Option.map_eq_some_iff.mp hplaced.symm

theorem Stays.inside (h : d.Stays d') {q : List Text} (hq : d'.inside q) : d.inside q := by
  obtain ⟨id, m', hm', hin⟩ := hq
  obtain ⟨m, hm, hsource⟩ := h.exists_mount hm'
  refine ⟨id, m, hm, ?_⟩
  rw [Mount.inside, Mount.root, hsource]
  exact hin

theorem Stays.trans (h : d.Stays d') (h' : d'.Stays d'') : d.Stays d'' where
  placed id := (h'.placed id).trans (h.placed id)
  outside q hq := (h'.outside q fun hin => hq (h.inside hin)).trans (h.outside q hq)

theorem Takes.of_stays (h : d.Takes c) (hstays : d.Stays d') : d'.Takes c := by
  intro m' hm'
  obtain ⟨m, hm, hsource⟩ := hstays.exists_mount hm'
  exact (h m hm).of_source hsource.symm

theorem Mirrors.congr (h : d.Mirrors sources) (hget : ∀ id, sources'.get id = sources.get id) :
    d.Mirrors sources' where
  same id := by rw [hget, h.same]
  mirrors id m s hm hs := h.mirrors id m s hm (hget id ▸ hs)
  apart := h.apart

/-- The disk after a call on one source. -/
theorem stays_update {id : SourceId} {m m' : Mount} {tree : PosixFiles.Tree Bytes}
    (hm : d.mounts.get id = some m) (hsource : m'.source = m.source)
    (hsame : SameOutside m.inside d.tree tree) :
    d.Stays { mounts := d.mounts.update id fun _ => m', tree } where
  placed id' := by
    rw [Table.get_update]
    split_ifs with hid
    · rw [hid, hm, Option.map_some, Option.map_some, Option.map_some, hsource]
    · rfl
  outside q hq := hsame q fun hin => hq ⟨id, m, hm, hin⟩

theorem Stays.apart (h : d.Stays d')
    (hapart : ∀ id id' m m', d.mounts.get id = some m → d.mounts.get id' = some m' → id ≠ id' →
      ¬location m.root <+: location m'.root) (id id' : SourceId) (m m' : Mount)
    (hm : d'.mounts.get id = some m) (hm' : d'.mounts.get id' = some m') (hne : id ≠ id') :
    ¬location m.root <+: location m'.root := by
  obtain ⟨m₀, hm₀, hsource⟩ := h.exists_mount hm
  obtain ⟨m₀', hm₀', hsource'⟩ := h.exists_mount hm'
  have hnot := hapart id id' m₀ m₀' hm₀ hm₀' hne
  rwa [Mount.root, Mount.root, hsource, hsource'] at hnot

/-- **One call.** It is answered alike, the disk still holds what the volume sees, and it stays. -/
theorem Mirrors.call (h : d.Mirrors sources) (hc : d.Takes c) :
    (d.call c).1 = (callTrees sources c).1 ∧ (d.call c).2.Mirrors (callTrees sources c).2 ∧
      d.Stays (d.call c).2 := by
  have hsame := h.same c.sourceId
  unfold Disk.call callTrees
  cases hm : d.mounts.get c.sourceId with
  | none =>
      rw [hm, Option.isSome_none] at hsame
      rw [Option.isNone_iff_eq_none.mp (Option.isSome_eq_false_iff.mp hsame.symm)]
      exact ⟨rfl, h, Stays.refl d⟩
  | some m =>
      rw [hm, Option.isSome_some] at hsame
      obtain ⟨s, hs⟩ := Option.isSome_iff_exists.mp hsame.symm
      have hmirrors := h.mirrors _ m s hm hs
      have hrefines := hmirrors.call (hc m hm)
      obtain ⟨hsource, houtside⟩ := Mount.keeps_call hmirrors (hc m hm)
      rw [hs]
      dsimp only
      have hstays := stays_update hm hsource houtside
      refine ⟨congrArg some hrefines.result, ⟨fun id => ?_, fun id m' s' hm' hs' => ?_,
        hstays.apart h.apart⟩, hstays⟩
      · rw [Table.get_update, Table.get_update]
        split_ifs with hid
        · rw [Option.isSome_map, Option.isSome_map, h.same]
        · exact h.same id
      · by_cases hid : id = c.sourceId
        · subst hid
          rw [Table.get_update_self, hm, Option.map_some, Option.some_inj] at hm'
          rw [Table.get_update_self, hs, Option.map_some, Option.some_inj] at hs'
          rw [← hm', ← hs']
          exact hrefines.mirrors
        · rw [Table.get_update_of_ne _ _ hid] at hm' hs'
          exact (h.mirrors id m' s' hm' hs').beside houtside (h.apart _ _ _ _ hm hm' (Ne.symm hid))
            (h.apart _ _ _ _ hm' hm hid)

/-! ### Runs -/

/-- **The calls of a run**, whatever they are. -/
theorem Mirrors.calls (h : d.Mirrors sources) {calls : List SourceCall} (hcalls : ∀ c ∈ calls, d.Takes c) :
    outputs Disk.call d calls = outputs callTrees sources calls ∧
      (after Disk.call d calls).Mirrors (after callTrees sources calls) ∧
      d.Stays (after Disk.call d calls) := by
  obtain ⟨houtputs, hafter⟩ := Simulation.simulates
    (f := Disk.call) (g := callTrees)
    (R := fun rest d' sources' => d'.Mirrors sources' ∧ d.Stays d' ∧ ∀ c ∈ rest, d.Takes c)
    (fun c rest d' sources' hR => by
      obtain ⟨hmirrors, hstays, htakes⟩ := hR
      obtain ⟨hc, hrest⟩ := List.forall_mem_cons.mp htakes
      obtain ⟨hanswer, hmirrors', hstays'⟩ := hmirrors.call (hc.of_stays hstays)
      exact ⟨hanswer, hmirrors', hstays.trans hstays', hrest⟩)
    ⟨h, Stays.refl d, hcalls⟩
  obtain ⟨hmirrors, hstays, -⟩ := hafter calls [] (List.append_nil calls).symm
  exact ⟨houtputs, hmirrors, hstays⟩

theorem get_after_callTrees (calls : List SourceCall) (id : SourceId) :
    (after callTrees sources calls).get id = (sources.get id).map (SourceCall.replay id calls) := by
  induction calls generalizing sources with
  | nil => exact Option.map_id'.symm
  | cons c calls ih =>
      have hone : (callTrees sources c).2.get id =
          (sources.get id).map fun s => if c.sourceId = id then c.apply s else s := by
        unfold callTrees
        cases hs : sources.get c.sourceId with
        | none =>
            by_cases hid : c.sourceId = id
            · rw [← hid, hs]
              rfl
            · simp [hid]
        | some s =>
            dsimp only
            rw [Table.get_update]
            by_cases hid : c.sourceId = id
            · rw [if_pos hid.symm, ← hid, hs, Option.map_some, Option.map_some, s.call_snd c]
              simp
            · rw [if_neg (Ne.symm hid)]
              simp [hid]
      rw [Simulation.after, List.foldl_cons]
      exact (ih).trans (by rw [hone, Option.map_map]; rfl)

/-- **The commands of a volume on the disk.** Whatever commands run, the calls they make on the sources are
answered by the disk as the volume has it; afterwards the disk holds below the data roots what the volume
sees, and beside them it is as it was. -/
theorem follows_commands {j : JbodManager} (h : d.Mirrors j.sources) {commands : List CliPaths.Command}
    {s : CliPaths.Session} (hrun : Transitions.run CliPaths.step { jbod := j } commands = some s)
    (hcalls : ∀ c ∈ s.calls, d.Takes c) :
    outputs Disk.call d s.calls = outputs callTrees j.sources s.calls ∧
      (after Disk.call d s.calls).Mirrors s.jbod.sources ∧ d.Stays (after Disk.call d s.calls) := by
  obtain ⟨houtputs, hmirrors, hstays⟩ := h.calls hcalls
  refine ⟨houtputs, hmirrors.congr fun id => ?_, hstays⟩
  rw [CliPaths.accounts_run hrun id, get_after_callTrees]

/-- A laptop with one directory source, and nothing in it. -/
def laptopDisk : Disk where
  mounts := Table.empty.put "disk" { source := .directory "/data".toList }
  tree := (DirectoryTree.root.makedirs ["data".toList]).toOption.getD DirectoryTree.root

theorem get_laptopDisk (q : List Text) :
    laptopDisk.tree.get q = if q <+: ["data".toList] then some .directory else none := by
  have hmake : (DirectoryTree.root : PosixFiles.Tree Bytes).makedirs ["data".toList] = .ok laptopDisk.tree :=
    rfl
  have hroot : (DirectoryTree.root : PosixFiles.Tree Bytes).get q = if q = [] then some .directory else none := by
    show (Table.empty.insert [] DirectoryTree.Node.directory).get q = _
    rw [Table.get_insert, Table.get_empty]
    simp
  rw [DirectoryTree.get_makedirs hmake, hroot]
  by_cases hq : q = []
  · rw [hq, if_pos rfl, if_pos List.nil_prefix]
    simp
  · rw [if_neg hq]
    simp

theorem holds_laptopDisk : DirectoryTree.Holds Subtype.val ["data".toList] laptopDisk.tree
    (DirectoryTree.root : DirectoryTree FileName Bytes) where
  above q hq _ := by
    rw [DirectoryTree.isDirectory_iff, get_laptopDisk, if_pos hq]
  noFile := by decide
  get p := by
    rw [get_laptopDisk]
    show (Table.empty.insert [] DirectoryTree.Node.directory).get p = _
    rw [Table.get_insert, Table.get_empty]
    cases p with
    | nil => rfl
    | cons name p =>
        rw [if_neg (by simp), if_neg]
        intro hprefix
        have := hprefix.length_le
        simp at this

theorem mirrors_laptopDisk : laptopDisk.Mirrors CliPaths.freshSession.jbod.sources where
  same id := by
    unfold laptopDisk CliPaths.freshSession
    rw [Table.get_put, Table.get_put]
    split_ifs <;> rfl
  mirrors id m s hm hs := by
    unfold CliPaths.freshSession at hs
    rw [laptopDisk, Table.get_put] at hm
    rw [Table.get_put] at hs
    split_ifs at hm hs
    · obtain rfl := Option.some.inj hm
      obtain rfl := Option.some.inj hs
      exact ⟨rfl, rfl, fun hne => absurd rfl hne, holds_laptopDisk⟩
    · cases hm
  apart id id' m m' hm hm' hne := by
    rw [laptopDisk, Table.get_put] at hm hm'
    split_ifs at hm hm' with hid hid'
    · exact absurd (hid.trans hid'.symm) hne
    · cases hm'
    · cases hm
    · cases hm

/-- A directory, and a file put into it. -/
def docsCommands : List CliPaths.Command :=
  [.mkdir 1 "docs".toList, .put CliPaths.freshReading "a.txt".toList "docs/a.txt".toList [7]]

def docsCalls : List SourceCall :=
  [⟨"disk", .mkdir, "docs".toList⟩,
    ⟨"disk", .write [7], "docs/".toList ++ List.replicate 32 'a' ++ "_a.txt".toList⟩]

theorem exists_run_docs : ∃ s, Transitions.run CliPaths.step { jbod := CliPaths.freshSession.jbod }
    docsCommands = some s ∧ s.calls = docsCalls :=
  ⟨_, rfl, by decide +kernel⟩

theorem takes_docs : ∀ c ∈ docsCalls, laptopDisk.Takes c := by
  intro c hc m hm
  unfold docsCalls at hc
  simp only [List.mem_cons, List.not_mem_nil, or_false] at hc
  rcases hc with rfl | rfl
  · obtain rfl := Option.some.inj hm
    exact ⟨"docs".toList, 0, rfl, by decide, by decide, by decide, by decide, by decide⟩
  · obtain rfl := Option.some.inj hm
    exact ⟨by decide, by decide, by decide, by decide +kernel, by decide⟩

/-- The disk answers both calls, and holds what the volume sees. -/
theorem laptopDisk_follows : ∃ s : CliPaths.Session,
    Transitions.run CliPaths.step { jbod := CliPaths.freshSession.jbod } docsCommands = some s ∧
      outputs Disk.call laptopDisk s.calls = [some (.ok .done), some (.ok .done)] ∧
      (after Disk.call laptopDisk s.calls).Mirrors s.jbod.sources := by
  obtain ⟨s, hrun, hcalls⟩ := exists_run_docs
  obtain ⟨houtputs, hmirrors, -⟩ := follows_commands mirrors_laptopDisk hrun (hcalls ▸ takes_docs)
  refine ⟨s, hrun, ?_, hmirrors⟩
  rw [houtputs, hcalls]
  decide +kernel

end Disk

end StardustFS
