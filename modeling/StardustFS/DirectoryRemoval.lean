import StardustFS.DirectoryListing
import StardustFS.Transitions
import StardustFS.VolumePlaces

/-! What the removal of files and directories leaves of a volume, and the recursive deletion of a directory
as one such removal: of the files and the directories that the recursion over the listings comes to. A
source deletes whatever lies below a physical directory, and a directory source goes out of service where
it does not have the directory. -/

namespace StardustFS

open MetadataStore (child Below)

namespace StorageSource

theorem resolve_lstrip (x : Text) : resolve (Text.lstrip '/' x) = resolve x := by
  induction x with
  | nil => rfl
  | cons c x ih =>
      by_cases hc : c = '/'
      · subst hc
        have hslash : resolve ('/' :: x) = resolve x := resolve_append_slash [] x
        rw [hslash, ← ih, Text.lstrip, List.dropWhile_cons]
        rfl
      · rw [Text.lstrip, List.dropWhile_cons, if_neg (by simpa using hc)]

theorem resolve_child (x : Text) (name : FileName) : resolve (child x name) = resolve x ++ [name] := by
  rw [child, resolve_append_slash, resolve_name]

/-- The place of a file can be deleted: there is a file, or nothing and no file on the way. -/
def Removable (t : DirectoryTree FileName Bytes) (path : List FileName) : Prop :=
  (∃ b, t.get path = some (.file b)) ∨ t.get path = none ∧ path.inits.any t.isFile = false

theorem Removable.not_isDirectory {t : DirectoryTree FileName Bytes} {path : List FileName}
    (h : Removable t path) : t.isDirectory path = false := by
  unfold DirectoryTree.isDirectory
  rcases h with ⟨b, hb⟩ | ⟨hnone, -⟩
  · rw [hb]
  · rw [hnone]

/-- A tree that only loses nodes keeps its places removable. -/
theorem Removable.of_shrinks {t t' : DirectoryTree FileName Bytes} {path : List FileName}
    (h : Removable t path) (hshrinks : ∀ q, t'.get q = none ∨ t'.get q = t.get q) :
    Removable t' path := by
  have hnofile : path.inits.any t.isFile = false → path.inits.any t'.isFile = false := by
    intro hno
    rw [List.any_eq_false] at hno ⊢
    intro q hq
    have hqno := hno q hq
    rw [DirectoryTree.isFile, DirectoryTree.file?] at hqno ⊢
    rcases hshrinks q with hnone | hsame
    · rw [hnone]
      exact Bool.false_ne_true
    · rw [hsame]
      exact hqno
  rcases h with ⟨b, hb⟩ | ⟨hnone, hno⟩
  · rcases hshrinks path with hgone | hsame
    · refine Or.inr ⟨hgone, List.any_eq_false.mpr fun q hq => ?_⟩
      rw [DirectoryTree.isFile, DirectoryTree.file?]
      rcases hshrinks q with hqnone | hqsame
      · rw [hqnone]
        exact Bool.false_ne_true
      · by_cases hqp : q = path
        · rw [hqp, hgone]
          exact Bool.false_ne_true
        · have hdir : t.get q = some .directory :=
            t.closed path _ hb q ((List.mem_inits _ _).mp hq) hqp
          rw [hqsame, hdir]
          exact Bool.false_ne_true
    · exact Or.inl ⟨b, hsame.trans hb⟩
  · refine Or.inr ⟨?_, hnofile hno⟩
    rcases hshrinks path with hgone | hsame
    · exact hgone
    · exact hsame.trans hnone

/-- Directories and the places of files have been removed from a source. A directory source goes out of
service where it does not have one of the directories. -/
structure Pruned (dirs : Text → Prop) (places : List FileName → Prop) (s s' : StorageSource) :
    Prop where
  kind : s'.kind = s.kind
  shrinks : ∀ q, s'.tree.get q = none ∨ s'.tree.get q = s.tree.get q
  kept : ∀ q, ¬ places q → (∀ z, dirs z → s.tree.isDirectory (resolve z) = true →
    ¬ resolve z <+: q) → s'.tree.get q = s.tree.get q
  cleared : s'.isActive = true → ∀ z q, dirs z → s.tree.isDirectory (resolve z) = true →
    resolve z <+: q → s'.tree.get q = none
  active_iff : s'.isActive = true ↔ s.isActive = true ∧
    (s.kind = .directory → ∀ z, dirs z → s.tree.isDirectory (resolve z) = true)

namespace Pruned

variable {dirs dirs' : Text → Prop} {places places' : List FileName → Prop}
  {s s' s'' : StorageSource}

theorem same (s : StorageSource) : Pruned (fun _ => False) places s s :=
  ⟨rfl, fun _ => Or.inr rfl, fun _ _ _ => rfl, fun _ _ _ h => h.elim,
    ⟨fun h => ⟨h, fun _ _ h => h.elim⟩, And.left⟩⟩

/-- A source out of service is left alone. -/
theorem inactive (h : s.isActive = false) : Pruned dirs places s s :=
  ⟨rfl, fun _ => Or.inr rfl, fun _ _ _ => rfl, fun hactive => absurd hactive (by rw [h]; decide),
    ⟨fun hactive => absurd hactive (by rw [h]; decide), And.left⟩⟩

theorem mono (h : Pruned dirs places s s') (himp : ∀ q, places q → places' q) :
    Pruned dirs places' s s' :=
  ⟨h.kind, h.shrinks, fun q hq => h.kept q fun hp => hq (himp q hp), h.cleared, h.active_iff⟩

/-- A directory that is there afterwards has been there before. -/
theorem isDirectory_of (h : Pruned dirs places s s') {q : List FileName}
    (hdir : s'.tree.isDirectory q = true) : s.tree.isDirectory q = true := by
  rw [DirectoryTree.isDirectory_iff] at hdir ⊢
  rcases h.shrinks q with hnone | hsame
  · rw [hnone] at hdir
    cases hdir
  · exact hsame.symm.trans hdir

/-- One removal after another, where the first leaves the directories of the second in place. -/
theorem trans (h : Pruned dirs places s s') (h' : Pruned dirs' places' s' s'')
    (hapart : ∀ z z', dirs z → dirs' z' → ¬ resolve z <+: resolve z')
    (hplaces : s.isActive = true → ∀ z, dirs' z → s.tree.isDirectory (resolve z) = true →
      ¬ places (resolve z)) :
    Pruned (fun z => dirs z ∨ dirs' z) (fun q => places q ∨ places' q) s s'' := by
  have hstays : s.isActive = true → ∀ z, dirs' z → s.tree.isDirectory (resolve z) = true →
      s'.tree.isDirectory (resolve z) = true := by
    intro hactive z hz hdir
    have hget := h.kept (resolve z) (hplaces hactive z hz hdir) fun z' hz' _ => hapart z' z hz' hz
    rw [DirectoryTree.isDirectory_iff] at hdir ⊢
    exact hget.trans hdir
  refine ⟨h'.kind.trans h.kind, fun q => ?_, fun q hq hdirs => ?_, fun hactive z q hz hdir hpre => ?_,
    ?_⟩
  · rcases h'.shrinks q with hnone | hsame
    · exact Or.inl hnone
    · rw [hsame]
      exact h.shrinks q
  · rw [not_or] at hq
    rw [h'.kept q hq.2 fun z hz hdir => hdirs z (Or.inr hz) (h.isDirectory_of hdir)]
    exact h.kept q hq.1 fun z hz => hdirs z (Or.inl hz)
  · have hactive' := (h'.active_iff.mp hactive).1
    rcases hz with hz | hz
    · rcases h'.shrinks q with hnone | hsame
      · exact hnone
      · exact hsame.trans (h.cleared hactive' z q hz hdir hpre)
    · exact h'.cleared hactive z q hz (hstays (h.active_iff.mp hactive').1 z hz hdir) hpre
  · rw [h'.active_iff, h.active_iff, h.kind]
    constructor
    · rintro ⟨⟨hactive, hfirst⟩, hsecond⟩
      refine ⟨hactive, fun hkind z hz => ?_⟩
      rcases hz with hz | hz
      · exact hfirst hkind z hz
      · exact h.isDirectory_of (hsecond hkind z hz)
    · rintro ⟨hactive, hboth⟩
      exact ⟨⟨hactive, fun hkind z hz => hboth hkind z (Or.inl hz)⟩,
        fun hkind z hz => hstays hactive z hz (hboth hkind z (Or.inr hz))⟩

end Pruned

/-- The deletion of a file of an active source. -/
theorem delete_of_removable {s : StorageSource} (hactive : s.isActive = true) {p : Text}
    (h : Removable s.tree (resolve p)) :
    ∃ s', (s.delete p = (.ok (), s') ∨ s.delete p = (.error (.os .fileNotFound), s')) ∧
      Pruned (fun _ => False) (· = resolve p) s s' := by
  unfold delete
  rw [hactive]
  dsimp only
  rcases h with ⟨b, hb⟩ | ⟨hnone, hno⟩
  · obtain ⟨t, ht⟩ := DirectoryTree.exists_remove hb
    have hget := DirectoryTree.get_remove ht
    rw [ht]
    refine ⟨_, Or.inl rfl, rfl, fun q => ?_, fun q hq _ => ?_, fun _ _ _ hz => hz.elim, ?_⟩
    · rw [hget]
      split_ifs
      · exact Or.inl rfl
      · exact Or.inr rfl
    · exact (hget q).trans (if_neg hq)
    · exact ⟨fun _ => ⟨hactive, fun _ _ hz => hz.elim⟩, fun _ => rfl⟩
  · have hmissing : s.tree.remove (resolve p) = .error .fileNotFound := by
      unfold DirectoryTree.remove
      split
      · rename_i heq
        rw [hnone] at heq
        cases heq
      · rename_i heq
        rw [hnone] at heq
        cases heq
      · rw [DirectoryTree.missing, hno]
        rfl
    rw [hmissing]
    dsimp only
    cases hkind : s.kind with
    | directory =>
        refine ⟨s, Or.inr ?_, Pruned.same s⟩
        rw [raised, hkind]
        rfl
    | loopback sizeBytes => exact ⟨s, Or.inl rfl, Pruned.same s⟩

theorem rmtree_of_not_directory {t : DirectoryTree FileName Bytes} {path : List FileName}
    (h : t.isDirectory path = false) : ∃ e, t.rmtree path = .error e := by
  unfold DirectoryTree.rmtree
  rw [h, if_neg Bool.false_ne_true]
  split_ifs
  · exact ⟨_, rfl⟩
  · exact ⟨_, rfl⟩

/-- The deletion of a directory on an active source. -/
theorem rmdir_pruned {s : StorageSource} (hactive : s.isActive = true) {p x : Text}
    (hpath : resolve p = resolve x) : Pruned (· = x) (fun _ => False) s (s.rmdir p).2 := by
  unfold rmdir
  rw [hactive, hpath]
  cases hdir : s.tree.isDirectory (resolve x) with
  | true =>
      obtain ⟨t, ht⟩ : ∃ t, s.tree.rmtree (resolve x) = .ok t := ⟨_, if_pos hdir⟩
      have hget := DirectoryTree.get_rmtree ht
      rw [ht]
      refine ⟨rfl, fun q => ?_, fun q _ hq => ?_, fun _ z q hz _ hpre => ?_, ?_⟩
      · by_cases hq : resolve x <+: q
        · exact Or.inl ((hget q).trans (if_pos hq))
        · exact Or.inr ((hget q).trans (if_neg hq))
      · exact (hget q).trans (if_neg (hq x rfl hdir))
      · exact (hget q).trans (if_pos (hz ▸ hpre))
      · exact ⟨fun _ => ⟨hactive, fun _ z hz => hz ▸ hdir⟩, fun _ => rfl⟩
  | false =>
      obtain ⟨e, he⟩ := rmtree_of_not_directory hdir
      rw [he]
      cases hkind : s.kind with
      | directory =>
          -- the source goes out of service
          have hraised : (s.raised e false).isActive = false := by
            rw [raised, hkind]
            rfl
          have hpruned : Pruned (· = x) (fun _ => False) s (s.raised e false) := by
            refine ⟨raised_kind s e false, fun q => Or.inr (by rw [raised_tree]),
              fun q _ _ => by rw [raised_tree], fun h => ?_, fun h => ?_, fun h => ?_⟩
            · exact absurd h (by rw [hraised]; decide)
            · exact absurd h (by rw [hraised]; decide)
            · have hall := h.2 hkind x rfl
              rw [hdir] at hall
              cases hall
          exact hpruned
      | loopback sizeBytes =>
          have hpruned : Pruned (· = x) (fun _ => False) s s := by
            refine ⟨rfl, fun q => Or.inr rfl, fun q _ _ => rfl, fun _ z q hz hzdir _ => ?_,
              ⟨fun h => ⟨h, fun hd => ?_⟩, And.left⟩⟩
            · rw [hz, hdir] at hzdir
              cases hzdir
            · rw [hkind] at hd
              cases hd
          exact hpruned

end StorageSource

namespace MetadataStore

/-- What lies below a directory is at or below one name only. -/
theorem AtOrBelow.name_unique {x p : Text} {name name' : FileName} (h : AtOrBelow (child x name) p)
    (h' : AtOrBelow (child x name') p) : name = name' := by
  have hfirst : ∀ {name : FileName}, AtOrBelow (child x name) p →
      ∃ r, p = x ++ '/' :: r ∧ firstName r = name.val := by
    rintro name (rfl | h)
    · exact ⟨name.val, rfl, firstName_of_not_mem name.property.2.2⟩
    · obtain ⟨r, rfl⟩ := below_iff.mp h
      exact ⟨name.val ++ '/' :: r, child_append x name r, firstName_append name.property.2.2 r⟩
  obtain ⟨r, rfl, hr⟩ := hfirst h
  obtain ⟨r', heq, hr'⟩ := hfirst h'
  obtain rfl := (List.cons.inj (List.append_cancel_left heq)).2
  exact Subtype.ext (hr.symm.trans hr')

theorem resolve_of_reached {s : MetadataStore} {x z : Text} (h : s.Reached x z) :
    StorageSource.resolve x <+: StorageSource.resolve z := by
  induction h with
  | self => exact List.prefix_refl _
  | step _ _ ih =>
      rw [StorageSource.resolve_child]
      exact ih.trans (List.prefix_append _ _)

/-- What the recursion needs of the records: every listing on its way shows what lies below the
directory, and the stack of the interpreter is deep enough. -/
structure Plain (s : MetadataStore) (x : Text) (depth : Nat) : Prop where
  noSlash : Text.endsWith x '/' = false
  like : ∀ z p, s.Reached x z → s.Live p ∨ s.Registered p →
    LikePattern.likePrefix (z ++ ['/']) p = true → Below z p
  names : ∀ r, s.Live (x ++ '/' :: r) ∨ s.Registered (x ++ '/' :: r) → ProperNames r
  deep : ∀ z, s.Reached x z → z.count '/' < x.count '/' + depth

namespace Plain

variable {s s' : MetadataStore} {x : Text} {depth : Nat}

theorem listsBelow (h : s.Plain x depth) : s.ListsBelow x :=
  ⟨h.noSlash, fun p => h.like x p Reached.self, h.names⟩

/-- A subdirectory meets the same with one level less, also once other parts have been deleted. -/
theorem child {name : FileName} (h : s.Plain x (depth + 1))
    (hshown : s.ShowsDirectory (child x name)) (hlive : ∀ p, s'.Live p → s.Live p)
    (hdirs : ∀ p, s'.Registered p → s.Registered p)
    (hreached : ∀ z, s'.Reached (MetadataStore.child x name) z →
      s.Reached (MetadataStore.child x name) z) :
    s'.Plain (MetadataStore.child x name) depth := by
  have hfrom : ∀ {z}, s'.Reached (MetadataStore.child x name) z → s.Reached x z := fun hz =>
    (Reached.step Reached.self hshown).trans (hreached _ hz)
  refine ⟨?_, fun z p hz hp => ?_, fun r hr => ?_, fun z hz => ?_⟩
  · have hlast : (MetadataStore.child x name).getLast? = name.val.getLast? := by
      rw [MetadataStore.child, List.getLast?_append_of_ne_nil _ (List.cons_ne_nil _ _),
        List.getLast?_cons_of_ne_nil name.property.1]
    rw [Text.endsWith, hlast, beq_eq_false_iff_ne]
    intro heq
    exact name.property.2.2 (List.mem_of_getLast? heq)
  · exact h.like z p (hfrom hz) (hp.imp (hlive p) (hdirs p))
  · rw [child_append] at hr
    exact (h.names _ (hr.imp (hlive _) (hdirs _))).tail
  · have hcount : (MetadataStore.child x name).count '/' = x.count '/' + 1 := by
      rw [MetadataStore.child, List.count_append, List.count_cons_self,
        List.count_eq_zero.mpr name.property.2.2]
    have := h.deep z (hfrom hz)
    omega

end Plain

end MetadataStore

namespace JbodManager

open MetadataStore (AtOrBelow Reached ReachesFile ShowsDirectory Plain)

/-! ### What a deletion leaves -/

/-- Files and directories have been removed from a volume, and nothing else. -/
structure Removed (files dirs : Text → Prop) (j j' : JbodManager) : Prop where
  deviceId : j'.deviceId = j.deviceId
  engine : j'.encryptionEngine = j.encryptionEngine
  fileGone : ∀ p, files p → j'.metadataStore.lookup p = none
  fileKept : ∀ p, ¬ files p → j'.metadataStore.lookup p = j.metadataStore.lookup p
  dirGone : ∀ z, dirs z → j'.metadataStore.directories.get z = none
  dirKept : ∀ z, ¬ dirs z →
    j'.metadataStore.directories.get z = j.metadataStore.directories.get z
  sources : ∀ id s, j.sources.get id = some s → ∃ s', j'.sources.get id = some s' ∧
    s.Pruned dirs (fun q => ∃ p row, files p ∧ j.Held p row ∧ row.location = (id, q)) s'
  noSource : ∀ id, j.sources.get id = none → j'.sources.get id = none

/-- The places of the files of this device can be deleted. -/
def AllRemovable (j : JbodManager) : Prop :=
  ∀ p row s, j.Held p row → j.sources.get row.sourceId = some s → s.isActive = true →
    StorageSource.Removable s.tree row.location.2

namespace Removed

variable {files dirs files' dirs' : Text → Prop} {j j' j'' : JbodManager}

theorem refl (j : JbodManager) : Removed (fun _ => False) (fun _ => False) j j :=
  ⟨rfl, rfl, fun _ h => h.elim, fun _ _ => rfl, fun _ h => h.elim, fun _ _ => rfl,
    fun _ s hs => ⟨s, hs, StorageSource.Pruned.same s⟩, fun _ h => h⟩

theorem congr (h : Removed files dirs j j') (hfiles : ∀ p, files p ↔ files' p)
    (hdirs : ∀ z, dirs z ↔ dirs' z) : Removed files' dirs' j j' := by
  obtain rfl : files = files' := funext fun p => propext (hfiles p)
  obtain rfl : dirs = dirs' := funext fun z => propext (hdirs z)
  exact h

theorem live (h : Removed files dirs j j') {p : Text} {row : FileRow}
    (hrow : j'.metadataStore.lookup p = some row) : ¬ files p ∧ j.metadataStore.lookup p = some row := by
  by_cases hp : files p
  · rw [h.fileGone p hp] at hrow
    cases hrow
  · exact ⟨hp, (h.fileKept p hp).symm.trans hrow⟩

theorem registered (h : Removed files dirs j j') {z : Text} (hz : j'.metadataStore.Registered z) :
    ¬ dirs z ∧ j.metadataStore.Registered z := by
  obtain ⟨t, ht⟩ := hz
  by_cases hgone : dirs z
  · rw [h.dirGone z hgone] at ht
    cases ht
  · exact ⟨hgone, t, (h.dirKept z hgone).symm.trans ht⟩

theorem held (h : Removed files dirs j j') {p : Text} {row : FileRow} (hrow : j'.Held p row) :
    ¬ files p ∧ j.Held p row := by
  obtain ⟨hlookup, howned⟩ := hrow
  obtain ⟨hnot, hlive⟩ := h.live hlookup
  refine ⟨hnot, hlive, ?_⟩
  rw [ownedElsewhere, h.deviceId] at howned
  exact howned

theorem source_before (h : Removed files dirs j j') {id : SourceId} {s' : StorageSource}
    (hs' : j'.sources.get id = some s') : ∃ s, j.sources.get id = some s ∧
      s.Pruned dirs (fun q => ∃ p row, files p ∧ j.Held p row ∧ row.location = (id, q)) s' := by
  cases hs : j.sources.get id with
  | none =>
      rw [h.noSource id hs] at hs'
      cases hs'
  | some s =>
      obtain ⟨t, ht, hpruned⟩ := h.sources id s hs
      obtain rfl := Option.some_inj.mp (hs'.symm.trans ht)
      exact ⟨s, rfl, hpruned⟩

theorem allRemovable (h : Removed files dirs j j') (hplaces : j.AllRemovable) : j'.AllRemovable := by
  intro p row s' hheld hs' hactive
  obtain ⟨s, hs, hpruned⟩ := h.source_before hs'
  exact (hplaces p row s (h.held hheld).2 hs (hpruned.active_iff.mp hactive).1).of_shrinks
    hpruned.shrinks

/-- One removal after another, where the first leaves the directories of the second in place. -/
theorem trans (h : Removed files dirs j j') (h' : Removed files' dirs' j' j'')
    (hapart : ∀ z z', dirs z → dirs' z' →
      ¬ StorageSource.resolve z <+: StorageSource.resolve z') (hplaces : j.AllRemovable) :
    Removed (fun p => files p ∨ files' p) (fun z => dirs z ∨ dirs' z) j j'' := by
  refine ⟨h'.deviceId.trans h.deviceId, h'.engine.trans h.engine, fun p hp => ?_, fun p hp => ?_,
    fun z hz => ?_, fun z hz => ?_, fun id s hs => ?_,
    fun id hs => h'.noSource id (h.noSource id hs)⟩
  · by_cases hp' : files' p
    · exact h'.fileGone p hp'
    · rw [h'.fileKept p hp']
      exact h.fileGone p (hp.resolve_right hp')
  · rw [not_or] at hp
    rw [h'.fileKept p hp.2, h.fileKept p hp.1]
  · by_cases hz' : dirs' z
    · exact h'.dirGone z hz'
    · rw [h'.dirKept z hz']
      exact h.dirGone z (hz.resolve_right hz')
  · rw [not_or] at hz
    rw [h'.dirKept z hz.2, h.dirKept z hz.1]
  · obtain ⟨s', hs', hpruned⟩ := h.sources id s hs
    obtain ⟨s'', hs'', hpruned'⟩ := h'.sources id s' hs'
    refine ⟨s'', hs'', (hpruned.trans hpruned' hapart fun hactive z hz hdir => ?_).mono fun q hq => ?_⟩
    · -- a file is not where a directory is
      rintro ⟨p, row, hp, hheld, hplace⟩
      obtain ⟨hid, hpath⟩ := Prod.mk.inj hplace
      have hnot := (hplaces p row s hheld (hid ▸ hs) hactive).not_isDirectory
      rw [show row.location.2 = StorageSource.resolve z from hpath, hdir] at hnot
      cases hnot
    · rcases hq with ⟨p, row, hp, hheld, hplace⟩ | ⟨p, row, hp, hheld, hplace⟩
      · exact ⟨p, row, Or.inl hp, hheld, hplace⟩
      · exact ⟨p, row, Or.inr hp, (h.held hheld).2, hplace⟩

end Removed

theorem lookup_delete_of_ne (s : MetadataStore) {p q : Text} (now : Time) (hq : q ≠ p) :
    (s.delete p now).lookup q = s.lookup q := by
  rw [MetadataStore.lookup, MetadataStore.lookup, MetadataStore.lookupAny_delete_of_ne _ _ hq]

theorem lookup_delete_self (s : MetadataStore) (p : Text) (now : Time) :
    (s.delete p now).lookup p = none := by
  cases hrow : (s.delete p now).lookup p with
  | none => rfl
  | some row => exact absurd rfl (lookup_delete hrow).1

/-- **The deletion of a live file** whose place can be deleted. -/
theorem deleteFile_removed {j : JbodManager} (now : Time) {p : Text} {row : FileRow}
    (hrow : j.metadataStore.lookup p = some row) (hplaces : j.AllRemovable) :
    ∃ j', j.deleteFile now p = (.ok (), j') ∧ Removed (· = p) (fun _ => False) j j' := by
  have hburied : ∀ {sources : Table SourceId StorageSource},
      (∀ id s, j.sources.get id = some s → ∃ s', sources.get id = some s' ∧
        s.Pruned (fun _ => False)
          (fun q => ∃ p' row, p' = p ∧ j.Held p' row ∧ row.location = (id, q)) s') →
      (∀ id, j.sources.get id = none → sources.get id = none) →
      Removed (· = p) (fun _ => False) j
        { j with sources, metadataStore := j.metadataStore.delete p now } := by
    intro sources hsources hnone
    refine ⟨rfl, rfl, fun q hq => ?_, fun q hq => lookup_delete_of_ne _ now hq, fun _ hz => hz.elim,
      fun _ _ => rfl, hsources, hnone⟩
    rw [hq]
    exact lookup_delete_self _ p now
  have hsame : Removed (· = p) (fun _ => False) j
      { j with metadataStore := j.metadataStore.delete p now } :=
    hburied (fun _ s hs => ⟨s, hs, StorageSource.Pruned.same s⟩) fun _ h => h
  unfold deleteFile
  rw [hrow]
  dsimp only
  cases howner : j.ownedElsewhere row with
  | true => exact ⟨_, rfl, hsame⟩
  | false =>
      cases hs : j.sources.get row.sourceId with
      | none => exact ⟨_, rfl, hsame⟩
      | some s =>
          cases hactive : s.isActive with
          | false =>
              refine ⟨_, ?_, hsame⟩
              simp [hactive]
          | true =>
              obtain ⟨s', hdelete, hpruned⟩ := StorageSource.delete_of_removable hactive
                (hplaces p row s ⟨hrow, howner⟩ hs hactive)
              refine ⟨{ j with
                sources := j.sources.update row.sourceId fun _ => s'
                metadataStore := j.metadataStore.delete p now }, ?_,
                hburied (fun id t ht => ?_) fun id ht => ?_⟩
              · rcases hdelete with hdelete | hdelete <;>
                  simp [hactive, onSource, hdelete]
              · rw [Table.get_update]
                split_ifs with hid
                · subst hid
                  obtain rfl := Option.some_inj.mp (hs.symm.trans ht)
                  rw [hs]
                  refine ⟨s', rfl, hpruned.mono fun q hq => ⟨p, row, rfl, ⟨hrow, howner⟩, ?_⟩⟩
                  rw [hq]
                  rfl
                · exact ⟨t, ht, StorageSource.Pruned.same t⟩
              · rw [Table.get_update]
                split_ifs with hid
                · rw [ht, Option.map_none]
                · exact ht

/-- **The removal of the directory itself**, on every source and from the records. -/
theorem removeDirectory_removed (j : JbodManager) {x : Text} (hslash : Text.endsWith x '/' = false) :
    Removed (fun _ => False) (· = x) j
      { j.onEverySource fun s => (s.rmdir (Text.lstrip '/' x)).2 with
        metadataStore := j.metadataStore.deleteDirectoryEntry (Text.rstrip '/' x) } := by
  have hstrip := Text.rstrip_of_not_endsWith hslash
  have hdirs : ∀ z, (j.metadataStore.deleteDirectoryEntry x).directories.get z =
      (j.metadataStore.directories.get z).filter fun _ => !decide (z = x) := fun z =>
    Table.get_deleteWhere _ _ z
  rw [hstrip]
  refine ⟨rfl, rfl, fun _ h => h.elim, fun _ _ => rfl, fun z hz => ?_, fun z hz => ?_,
    fun id s hs => ?_, fun id hs => ?_⟩
  · refine (hdirs z).trans ?_
    rw [hz]
    simp
  · refine (hdirs z).trans ?_
    cases j.metadataStore.directories.get z <;> simp [hz]
  · refine ⟨if s.isActive then (s.rmdir (Text.lstrip '/' x)).2 else s, ?_, ?_⟩
    · unfold onEverySource
      rw [Table.get_mapRows, hs]
      rfl
    · cases hactive : s.isActive with
      | false => exact StorageSource.Pruned.inactive hactive
      | true =>
          exact (StorageSource.rmdir_pruned hactive (StorageSource.resolve_lstrip x)).mono
            fun _ hq => hq.elim
  · unfold onEverySource
    rw [Table.get_mapRows, hs]
    rfl

/-! ### The recursion -/

/-- The body of the loop over the entries. -/
def deleteEntry (now : Time) (depth : Nat) (virtualPath : Text) (acc : Result Unit)
    (entry : EntryInfo) : Result Unit :=
  match acc with
  | (.error e, j) => (.error e, j)
  | (.ok _, j) =>
      let childPath := Text.rstrip '/' virtualPath ++ '/' :: entry.name
      if entry.isDirectory then deleteDirectory now depth j childPath
      else match j.deleteFile now childPath with
        | (.error .fileNotFound, j) => (.ok (), j)
        | result => result

theorem deleteDirectory_of_entries {now : Time} {depth : Nat} {j j' : JbodManager} {x : Text}
    (h : (j.metadataStore.listEntries x).foldl (deleteEntry now depth x) (.ok (), j) =
      (.ok (), j')) :
    deleteDirectory now (depth + 1) j x = (.ok (),
      { j'.onEverySource fun s => (s.rmdir (Text.lstrip '/' x)).2 with
        metadataStore := j'.metadataStore.deleteDirectoryEntry (Text.rstrip '/' x) }) := by
  have hunfold : deleteDirectory now (depth + 1) j x =
      match (j.metadataStore.listEntries x).foldl (deleteEntry now depth x) (.ok (), j) with
      | (.error e, j) => (.error e, j)
      | (.ok _, j) =>
          let j := j.onEverySource fun s => (s.rmdir (Text.lstrip '/' x)).2
          (.ok (), { j with
            metadataStore := j.metadataStore.deleteDirectoryEntry (Text.rstrip '/' x) }) := rfl
  rw [hunfold, h]
  rfl

/-- The files that the recursion deletes for one entry of the listing of `x`. -/
def EntryFiles (s : MetadataStore) (x : Text) (e : EntryInfo) (p : Text) : Prop :=
  e.isDirectory = false ∧ p = x ++ '/' :: e.name ∨
    e.isDirectory = true ∧ s.ReachesFile (x ++ '/' :: e.name) p

/-- The directories that it deletes for the entry. -/
def EntryDirs (s : MetadataStore) (x : Text) (e : EntryInfo) (z : Text) : Prop :=
  e.isDirectory = true ∧ s.Reached (x ++ '/' :: e.name) z

theorem EntryFiles.atOrBelow {s : MetadataStore} {x p : Text} {e : EntryInfo} {name : FileName}
    (hname : e.name = name.val) (h : EntryFiles s x e p) : AtOrBelow (child x name) p := by
  rcases h with ⟨-, rfl⟩ | ⟨-, -, z, last, hz, rfl⟩
  · exact Or.inl (by rw [hname, child])
  · rw [hname] at hz
    exact Or.inr (hz.atOrBelow.below_child last)

theorem EntryDirs.atOrBelow {s : MetadataStore} {x z : Text} {e : EntryInfo} {name : FileName}
    (hname : e.name = name.val) (h : EntryDirs s x e z) : AtOrBelow (child x name) z := by
  have hz := h.2
  rw [hname] at hz
  exact hz.atOrBelow

theorem EntryDirs.resolve_above {s : MetadataStore} {x z : Text} {e : EntryInfo} {name : FileName}
    (hname : e.name = name.val) (h : EntryDirs s x e z) :
    StorageSource.resolve x ++ [name] <+: StorageSource.resolve z := by
  have hz := h.2
  rw [hname] at hz
  have hprefix := MetadataStore.resolve_of_reached hz
  rw [← child, StorageSource.resolve_child] at hprefix
  exact hprefix

/-- All entries together are what the recursion comes to below the directory. -/
theorem exists_entryFiles_iff {s : MetadataStore} {x : Text} (h : s.ListsBelow x) (p : Text) :
    (∃ e ∈ s.listEntries x, EntryFiles s x e p) ↔ s.ReachesFile x p := by
  constructor
  · rintro ⟨e, he, hfile⟩
    obtain ⟨name, hname, hcase⟩ := MetadataStore.mem_listEntries h he
    rcases hfile with ⟨hd, rfl⟩ | ⟨hd, hlive, z, last, hz, rfl⟩
    · rcases hcase with ⟨-, hlive⟩ | ⟨hd', -⟩
      · rw [hname]
        exact ⟨hlive, x, name, Reached.self, rfl⟩
      · rw [hd] at hd'
        cases hd'
    · rcases hcase with ⟨hd', -⟩ | ⟨-, hshown⟩
      · rw [hd] at hd'
        cases hd'
      · rw [hname] at hz
        exact ⟨hlive, z, last, (Reached.step Reached.self hshown).trans hz, rfl⟩
  · rintro ⟨hlive, z, last, hz, rfl⟩
    rcases hz.head with rfl | ⟨first, hshown, hz'⟩
    · obtain ⟨e, he, hname⟩ := MetadataStore.exists_mem_listEntries h (Or.inl hlive)
      obtain ⟨name, hname', hcase⟩ := MetadataStore.mem_listEntries h he
      obtain rfl := Subtype.ext (hname.symm.trans hname')
      refine ⟨e, he, Or.inl ?_⟩
      rcases hcase with ⟨hd, -⟩ | ⟨-, hshown⟩
      · exact ⟨hd, by rw [hname, child]⟩
      · exact absurd hlive hshown.1
    · obtain ⟨e, he, hname⟩ := MetadataStore.exists_mem_listEntries h (Or.inr hshown)
      obtain ⟨name, hname', hcase⟩ := MetadataStore.mem_listEntries h he
      obtain rfl := Subtype.ext (hname.symm.trans hname')
      refine ⟨e, he, Or.inr ?_⟩
      rcases hcase with ⟨-, hfile⟩ | ⟨hd, -⟩
      · exact absurd hfile hshown.1
      · exact ⟨hd, hlive, z, last, by rw [hname]; exact hz', rfl⟩

theorem exists_entryDirs_iff {s : MetadataStore} {x : Text} (h : s.ListsBelow x) (z : Text) :
    (∃ e ∈ s.listEntries x, EntryDirs s x e z) ∨ z = x ↔ s.Reached x z := by
  constructor
  · rintro (⟨e, he, hd, hz⟩ | rfl)
    · obtain ⟨name, hname, ⟨hd', -⟩ | ⟨-, hshown⟩⟩ := MetadataStore.mem_listEntries h he
      · rw [hd] at hd'
        cases hd'
      · rw [hname] at hz
        exact (Reached.step Reached.self hshown).trans hz
    · exact Reached.self
  · intro hz
    rcases hz.head with rfl | ⟨first, hshown, hz'⟩
    · exact Or.inr rfl
    · obtain ⟨e, he, hname⟩ := MetadataStore.exists_mem_listEntries h (Or.inr hshown)
      obtain ⟨name, hname', hcase⟩ := MetadataStore.mem_listEntries h he
      obtain rfl := Subtype.ext (hname.symm.trans hname')
      rcases hcase with ⟨-, hfile⟩ | ⟨hd, -⟩
      · exact absurd hfile hshown.1
      · exact Or.inl ⟨e, he, hd, by rw [hname]; exact hz'⟩

section Entry

variable {s : MetadataStore} {x : Text} {done rest : List EntryInfo} {e : EntryInfo} {name : FileName}

/-- The names of the entries differ, so what has been done is elsewhere. -/
theorem name_ne_of_done (hlists : s.ListsBelow x) (hentries : s.listEntries x = done ++ e :: rest)
    {e' : EntryInfo} (he' : e' ∈ done) : e'.name ≠ e.name := by
  have hnodup := MetadataStore.nodup_listEntries hlists
  rw [hentries, List.map_append, List.map_cons, List.nodup_append] at hnodup
  exact hnodup.2.2 _ (List.mem_map_of_mem he') _ List.mem_cons_self

theorem exists_name_of_done (hlists : s.ListsBelow x)
    (hentries : s.listEntries x = done ++ e :: rest) (hname : e.name = name.val) {e' : EntryInfo}
    (he' : e' ∈ done) : ∃ name' : FileName, e'.name = name'.val ∧ name' ≠ name := by
  obtain ⟨name', hname', -⟩ :=
    MetadataStore.mem_listEntries hlists (hentries ▸ List.mem_append_left _ he')
  refine ⟨name', hname', ?_⟩
  rintro rfl
  exact name_ne_of_done hlists hentries he' (hname'.trans hname.symm)

theorem not_entryFiles_of_done (hlists : s.ListsBelow x)
    (hentries : s.listEntries x = done ++ e :: rest) (hname : e.name = name.val) {p : Text}
    (hp : AtOrBelow (child x name) p) : ¬ ∃ e' ∈ done, EntryFiles s x e' p := by
  rintro ⟨e', he', hfile⟩
  obtain ⟨name', hname', hne⟩ := exists_name_of_done hlists hentries hname he'
  exact hne ((hfile.atOrBelow hname').name_unique hp)

theorem not_entryDirs_of_done (hlists : s.ListsBelow x)
    (hentries : s.listEntries x = done ++ e :: rest) (hname : e.name = name.val) {z : Text}
    (hz : AtOrBelow (child x name) z) : ¬ ∃ e' ∈ done, EntryDirs s x e' z := by
  rintro ⟨e', he', hdir⟩
  obtain ⟨name', hname', hne⟩ := exists_name_of_done hlists hentries hname he'
  exact hne ((hdir.atOrBelow hname').name_unique hz)

/-- One entry more. Two names below one directory are not above each other. -/
theorem Removed.entry {j j₁ j₂ : JbodManager} (hlists : s.ListsBelow x)
    (hentries : s.listEntries x = done ++ e :: rest) (hname : e.name = name.val)
    (hplaces : j.AllRemovable)
    (hdone : Removed (fun p => ∃ e ∈ done, EntryFiles s x e p)
      (fun z => ∃ e ∈ done, EntryDirs s x e z) j j₁)
    (hentry : Removed (EntryFiles s x e) (EntryDirs s x e) j₁ j₂) :
    Removed (fun p => ∃ e' ∈ done ++ [e], EntryFiles s x e' p)
      (fun z => ∃ e' ∈ done ++ [e], EntryDirs s x e' z) j j₂ := by
  refine (hdone.trans hentry (fun z z' hz hz' hprefix => ?_) hplaces).congr (fun p => ?_) fun z => ?_
  · obtain ⟨e', he', hz⟩ := hz
    obtain ⟨name', hname', hne⟩ := exists_name_of_done hlists hentries hname he'
    have hz₁ := (hz.resolve_above hname').trans hprefix
    have hz₂ := hz'.resolve_above hname
    have heq := (List.prefix_of_prefix_length_le hz₁ hz₂ (by simp)).eq_of_length (by simp)
    exact hne (List.singleton_inj.mp (List.append_cancel_left heq))
  · simp [or_and_right, exists_or]
  · simp [or_and_right, exists_or]

/-- An entry that is a file. -/
theorem deleteEntry_file {j₁ : JbodManager} {row : FileRow} (now : Time) (depth : Nat)
    (hstrip : Text.rstrip '/' x = x) (hname : e.name = name.val) (hd : e.isDirectory = false)
    (hrow : j₁.metadataStore.lookup (child x name) = some row) (hplaces : j₁.AllRemovable) :
    ∃ j₂, deleteEntry now depth x (.ok (), j₁) e = (.ok (), j₂) ∧
      Removed (EntryFiles s x e) (EntryDirs s x e) j₁ j₂ := by
  obtain ⟨j₂, hdelete, hremoved⟩ := deleteFile_removed now hrow hplaces
  refine ⟨j₂, ?_, hremoved.congr (fun p => ?_) fun z => ?_⟩
  · unfold deleteEntry
    dsimp only
    rw [hd, hstrip, hname, ← child, hdelete]
    rfl
  · simp [EntryFiles, hd, hname, child]
  · simp [EntryDirs, hd]

/-- An entry that is a directory: the recursion below it finds what the listing has been made from. -/
theorem deleteEntry_directory {j₁ j₂ : JbodManager} {now : Time} {depth : Nat}
    (hstrip : Text.rstrip '/' x = x) (hname : e.name = name.val) (hd : e.isDirectory = true)
    (hdelete : deleteDirectory now depth j₁ (child x name) = (.ok (), j₂))
    (hremoved : Removed (j₁.metadataStore.ReachesFile (child x name))
      (j₁.metadataStore.Reached (child x name)) j₁ j₂)
    (hfiles : ∀ p, j₁.metadataStore.ReachesFile (child x name) p ↔ s.ReachesFile (child x name) p)
    (hdirs : ∀ z, j₁.metadataStore.Reached (child x name) z ↔ s.Reached (child x name) z) :
    deleteEntry now depth x (.ok (), j₁) e = (.ok (), j₂) ∧
      Removed (EntryFiles s x e) (EntryDirs s x e) j₁ j₂ := by
  refine ⟨?_, hremoved.congr (fun p => ?_) fun z => ?_⟩
  · unfold deleteEntry
    dsimp only
    rw [hd, hstrip, hname, ← child, hdelete]
    rfl
  · rw [hfiles, EntryFiles, hd, hname, ← child]
    simp
  · rw [hdirs, EntryDirs, hd, hname, ← child]
    simp

end Entry

/-- **The recursion** removes the files and the directories that it comes to, and nothing else. -/
theorem deleteDirectory_removed (now : Time) {depth : Nat} {x : Text} {j : JbodManager}
    (hplain : j.metadataStore.Plain x depth) (hplaces : j.AllRemovable) :
    ∃ j', deleteDirectory now depth j x = (.ok (), j') ∧
      Removed (j.metadataStore.ReachesFile x) (j.metadataStore.Reached x) j j' := by
  induction depth generalizing x j with
  | zero =>
      have hdeep := hplain.deep x Reached.self
      omega
  | succ depth ih =>
      obtain ⟨s, hs⟩ : ∃ s, s = j.metadataStore := ⟨_, rfl⟩
      rw [← hs] at hplain ⊢
      have hlists := hplain.listsBelow
      have hstrip := Text.rstrip_of_not_endsWith hplain.noSlash
      have hfold := Transitions.foldl_prefix_rule (deleteEntry now depth x) (s.listEntries x)
        (fun done acc => ∃ j', acc = (.ok (), j') ∧
          Removed (fun p => ∃ e ∈ done, EntryFiles s x e p) (fun z => ∃ e ∈ done, EntryDirs s x e z)
            j j') (b := (.ok (), j))
        ⟨j, rfl, (Removed.refl j).congr (fun _ => by simp) fun _ => by simp⟩ ?_
      · obtain ⟨j', hj', hremoved⟩ := hfold
        have hself := removeDirectory_removed j' hplain.noSlash
        refine ⟨_, deleteDirectory_of_entries (hs ▸ hj'),
          (hremoved.trans hself (fun z z' hz hz' hprefix => ?_) hplaces).congr
            (fun p => ?_) fun z => ?_⟩
        · obtain ⟨e, he, hz⟩ := hz
          obtain ⟨name, hname, -⟩ := MetadataStore.mem_listEntries hlists he
          have hlength := ((hz.resolve_above hname).trans hprefix).length_le
          rw [hz', List.length_append, List.length_singleton] at hlength
          omega
        · rw [or_false, exists_entryFiles_iff hlists]
        · exact exists_entryDirs_iff hlists z
      · rintro done e rest acc hentries ⟨j₁, rfl, hdone⟩
        obtain ⟨name, hname, hcase⟩ := MetadataStore.mem_listEntries hlists
          (hentries ▸ List.mem_append_right _ List.mem_cons_self)
        have hfiles : ∀ p, AtOrBelow (child x name) p → ¬ ∃ e' ∈ done, EntryFiles s x e' p :=
          fun _ => not_entryFiles_of_done hlists hentries hname
        have hdirs : ∀ z, AtOrBelow (child x name) z → ¬ ∃ e' ∈ done, EntryDirs s x e' z :=
          fun _ => not_entryDirs_of_done hlists hentries hname
        have hplaces₁ := hdone.allRemovable hplaces
        rcases hcase with ⟨hd, row, hrow⟩ | ⟨hd, hshown⟩
        · have hrow₁ : j₁.metadataStore.lookup (child x name) = some row := by
            rw [hdone.fileKept _ (hfiles _ (Or.inl rfl)), ← hs, hrow]
          obtain ⟨j₂, hcall, hentry⟩ := deleteEntry_file now depth hstrip hname hd hrow₁ hplaces₁
          exact ⟨j₂, hcall, hdone.entry hlists hentries hname hplaces hentry⟩
        · have hlive : ∀ p, Below (child x name) p → (j₁.metadataStore.Live p ↔ s.Live p) := by
            intro p hp
            rw [MetadataStore.Live, hdone.fileKept p (hfiles p (Or.inr hp)), ← hs]
            rfl
          have hregistered : ∀ p, Below (child x name) p →
              (j₁.metadataStore.Registered p ↔ s.Registered p) := by
            intro p hp
            rw [MetadataStore.Registered, hdone.dirKept p (hdirs p (Or.inr hp)), ← hs]
            rfl
          have hreached : ∀ z, j₁.metadataStore.Reached (child x name) z ↔
              s.Reached (child x name) z := fun z =>
            ⟨Reached.congr hlive hregistered,
              Reached.congr (fun p hp => (hlive p hp).symm) fun p hp => (hregistered p hp).symm⟩
          have hreachesFile : ∀ p, j₁.metadataStore.ReachesFile (child x name) p ↔
              s.ReachesFile (child x name) p := fun p =>
            ⟨ReachesFile.congr hlive hregistered,
              ReachesFile.congr (fun p hp => (hlive p hp).symm) fun p hp => (hregistered p hp).symm⟩
          have hplain₁ : j₁.metadataStore.Plain (child x name) depth := by
            refine hplain.child hshown ?_ (fun p hp => hs ▸ (hdone.registered hp).2)
              fun z hz => (hreached z).mp hz
            rintro p ⟨row, hrow⟩
            exact ⟨row, hs ▸ (hdone.live hrow).2⟩
          obtain ⟨j₂, hdelete, hremoved⟩ := ih hplain₁ hplaces₁
          obtain ⟨hcall, hentry⟩ :=
            deleteEntry_directory hstrip hname hd hdelete hremoved hreachesFile hreached
          exact ⟨j₂, hcall, hdone.entry hlists hentries hname hplaces hentry⟩

end JbodManager

end StardustFS
