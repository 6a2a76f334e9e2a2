import StardustFS.MergeCoverage

/-! The re-baselining of a stale device. Its unsent changes are renamed to conflict copies, and the
server's snapshot is merged record by record; a merge visits the paths of the snapshot only, so a row
the server no longer has stays. The names of the copies and the versions on both sides decide whether
the merge adopts the server's copy. -/

namespace StardustFS

namespace Rebaseline

/-! ### What a re-baselining is for -/

/-- The path holds a live row that waits to be sent. -/
def Unsent (s : MetadataStore) (p : Text) (l : FileRow) : Prop :=
  s.lookup p = some l ∧ l.syncStatus = .pending

/-- The same record, whatever the device's own columns say of it. -/
def Same (r rec : FileRow) : Prop :=
  { r with syncStatus := rec.syncStatus, replicationStatus := rec.replicationStatus } = rec

theorem Same.refl (r : FileRow) : Same r r := rfl

/-- The conflict copies of a call, by path and sequence number. -/
def copyName (deviceName : Text) (timestamp : Text → Text) (p : Text) (seq : Nat) : Text :=
  ConflictResolver.candidate deviceName (timestamp p) p seq

/-- The live records after a re-baselining are those of the snapshot and one conflict copy for each
unsent one; the copies take no path of another record. -/
structure AdoptsServerCopy (name : Text → Nat → Text) (before after : MetadataStore)
    (snapshot : Files) (copy : Text → Text) : Prop where
  named : ∀ p l, Unsent before p l → ∃ seq, 1 ≤ seq ∧ copy p = name p seq
  distinct : ∀ p l p' l', Unsent before p l → Unsent before p' l' → copy p = copy p' → p = p'
  vacant : ∀ p l, Unsent before p l →
    (∀ rec, snapshot.get (copy p) = some rec → rec.deleted = true) ∧
      ∀ l', before.lookup (copy p) = some l' → l'.syncStatus = .pending
  copied : ∀ p l, Unsent before p l → ∃ r, after.lookup (copy p) = some r ∧ Same r l
  adopted : ∀ p rec, snapshot.get p = some rec → rec.deleted = false →
    ∃ r, after.lookup p = some r ∧ Same r rec
  only : ∀ p r, after.lookup p = some r →
    (∃ rec, snapshot.get p = some rec ∧ rec.deleted = false) ∨
      ∃ p' l', Unsent before p' l' ∧ p = copy p'

/-- What the merge of the record makes of the row is the record: the row is older and has the
record's creation time, which a merge does not touch, or it is the record already; a tombstone that
waits to be sent is no newer. Where the record is a tombstone, only a live row that is no older
survives. -/
def Yields (l rec : FileRow) : Prop :=
  if l.syncStatus = .pending then rec.deleted = true ∨ l.version ≤ rec.version
  else if l.version < rec.version then rec.deleted = true ∨ l.createdAt = rec.createdAt
  else (l.deleted = true ∧ rec.deleted = true) ∨
    (l.deleted = false ∧ rec.deleted = false ∧ Same l rec)

/-- Every live row that does not wait to be sent yields to a record of the server. -/
def SentRowsYield (before : MetadataStore) (snapshot : Files) : Prop :=
  ∀ p l, before.lookup p = some l → l.syncStatus ≠ .pending →
    ∃ rec, snapshot.get p = some rec ∧ Yields l rec

/-- The tombstones yield as well, and the names of conflict copies are new on both sides and differ
between paths. -/
structure Reconcilable (name : Text → Nat → Text) (before : MetadataStore) (snapshot : Files) :
    Prop where
  sent : SentRowsYield before snapshot
  dead : ∀ p l rec, before.lookupAny p = some l → l.deleted = true → snapshot.get p = some rec →
    Yields l rec
  newHere : ∀ p l seq, before.lookupAny p = some l → l.syncStatus = .pending → 1 ≤ seq →
    before.lookupAny (name p seq) = none
  newThere : ∀ p l seq, before.lookupAny p = some l → l.syncStatus = .pending → 1 ≤ seq →
    snapshot.get (name p seq) = none
  namesDiffer : ∀ p l p' l' seq seq', before.lookupAny p = some l → l.syncStatus = .pending →
    before.lookupAny p' = some l' → l'.syncStatus = .pending → 1 ≤ seq → 1 ≤ seq' →
    name p seq = name p' seq' → p = p'

/-! ### The merge -/

/-- The row at a path of the snapshot before its record is merged. A pending one is a tombstone of the
local table, whose conflict name is free where the record is live. -/
def Ready (name : Text → Nat → Text) (before : MetadataStore) (q : Text) (rec : FileRow)
    (s : MetadataStore) : Prop :=
  ∀ l, s.lookupAny q = some l → Yields l rec ∧ (l.syncStatus = .pending →
    l.deleted = true ∧ (∃ l₀, before.lookupAny q = some l₀ ∧ l₀.syncStatus = .pending) ∧
      (rec.deleted = false → ∀ seq, 1 ≤ seq → s.lookupAny (name q seq) = none))

/-- The row there after it. -/
def Done (before : MetadataStore) (q : Text) (rec : FileRow) (s : MetadataStore) : Prop :=
  (rec.deleted = false → ∃ r, s.lookupAny q = some r ∧ r.deleted = false ∧
    r.syncStatus ≠ .pending ∧ Same r rec) ∧
  (rec.deleted = true → ∀ r, s.lookupAny q = some r → r.deleted = true ∧
    (r.syncStatus = .pending → ∃ l₀, before.lookupAny q = some l₀ ∧ l₀.syncStatus = .pending))

theorem Same.version {r rec : FileRow} (h : Same r rec) : r.version = rec.version := by
  rw [← h]

theorem Same.deleted {r rec : FileRow} (h : Same r rec) : r.deleted = rec.deleted := by
  rw [← h]

theorem Same.createdAt {r rec : FileRow} (h : Same r rec) : r.createdAt = rec.createdAt := by
  rw [← h]

theorem same_insertedRow (rec : FileRow) : Same (SyncClient.insertedRow rec) rec := rfl

theorem same_updatedRow {rec l : FileRow} (h : l.createdAt = rec.createdAt) :
    Same (SyncClient.updatedRow rec l) rec := by
  rw [Same, SyncClient.updatedRow, h]

theorem Done.ready {name : Text → Nat → Text} {before s : MetadataStore} {q : Text}
    {rec : FileRow} (h : Done before q rec s) : Ready name before q rec s := by
  intro l hl
  cases hdel : rec.deleted with
  | false =>
      obtain ⟨r, hr, hlive, hst, hsame⟩ := h.1 hdel
      obtain rfl := Option.some_inj.mp (hr.symm.trans hl)
      refine ⟨?_, fun hp => absurd hp hst⟩
      rw [Yields, if_neg hst, if_neg (by rw [hsame.version]; exact lt_irrefl _)]
      exact Or.inr ⟨hlive, hdel, hsame⟩
  | true =>
      obtain ⟨hdead, hpending⟩ := h.2 hdel l hl
      refine ⟨?_, fun hp => ⟨hdead, hpending hp, fun hf => nomatch hf⟩⟩
      rw [Yields]
      split_ifs
      · exact Or.inl hdel
      · exact Or.inl hdel
      · exact Or.inl ⟨hdead, hdel⟩

theorem conflictPath_eq_copyName (c : SyncClient) (timestamp : Text → Text) (q : Text) :
    ∃ seq, 1 ≤ seq ∧
      c.conflictPath (timestamp q) q = copyName c.deviceName timestamp q seq :=
  ConflictResolver.exists_seq_generateConflictName c.store c.deviceName (timestamp q) q

/-- **One record of the merge.** -/
theorem done_mergeRecord {name : Text → Nat → Text} {before : MetadataStore} {c : SyncClient}
    {timestamp : Text → Text} {q : Text} {rec : FileRow}
    (hname : ∀ seq, name q seq = copyName c.deviceName timestamp q seq)
    (h : Ready name before q rec c.store) :
    Done before q rec (SyncClient.mergeRecord timestamp c (q, rec)).store := by
  have hself := c.lookupAny_mergeRecord_self timestamp q rec
  cases hl : c.store.lookupAny q with
  | none =>
      rw [hl, SyncClient.mergeAction] at hself
      cases hdel : rec.deleted with
      | false =>
          rw [hdel] at hself
          exact And.intro
            (fun _ => ⟨_, hself, hdel, by simp [SyncClient.insertedRow], same_insertedRow rec⟩)
            fun hd => absurd (hdel.symm.trans hd) (by decide)
      | true =>
          rw [hdel] at hself
          refine ⟨fun hd => absurd (hdel.symm.trans hd) (by decide), fun _ r hr => ?_⟩
          rw [hself] at hr
          cases hr
  | some l =>
      obtain ⟨hyields, hpend⟩ := h l hl
      rw [Yields] at hyields
      by_cases hp : l.syncStatus = .pending
      · rw [hl, SyncClient.mergeAction_of_pending hp] at hself
        rw [if_pos hp] at hyields
        obtain ⟨hdead, hlocal, hfree⟩ := hpend hp
        by_cases hle : l.version ≤ rec.version
        · rw [if_pos hle] at hself
          change _ = if c.store.lookupAny (c.conflictPath (timestamp q) q) = none then
            some (SyncClient.insertedRow rec) else some (SyncClient.stillPendingRow l) at hself
          refine ⟨fun hd => ?_, fun hd r hr => ?_⟩
          · obtain ⟨seq, hseq, hpath⟩ := conflictPath_eq_copyName c timestamp q
            rw [hpath, ← hname, hfree hd seq hseq, if_pos rfl] at hself
            exact ⟨_, hself, hd, by simp [SyncClient.insertedRow], same_insertedRow rec⟩
          · rw [hself] at hr
            split_ifs at hr
            · obtain rfl := Option.some_inj.mp hr
              exact ⟨hd, fun hs => absurd hs (by simp [SyncClient.insertedRow])⟩
            · obtain rfl := Option.some_inj.mp hr
              exact ⟨hdead, fun _ => hlocal⟩
        · rw [if_neg hle] at hself
          have hrec := hyields.resolve_right hle
          refine ⟨fun hd => absurd (hrec.symm.trans hd) (by decide), fun _ r hr => ?_⟩
          obtain rfl := Option.some_inj.mp (hself.symm.trans hr)
          exact ⟨hdead, fun _ => hlocal⟩
      · rw [hl, SyncClient.mergeAction_of_not_pending hp] at hself
        rw [if_neg hp] at hyields
        by_cases hlt : l.version < rec.version
        · rw [if_pos hlt] at hself hyields
          change _ = some (SyncClient.updatedRow rec l) at hself
          refine ⟨fun hd => ?_, fun hd r hr => ?_⟩
          · obtain hc := hyields.resolve_left (by rw [hd]; simp)
            exact ⟨_, hself, hd, by simp [SyncClient.updatedRow], same_updatedRow hc⟩
          · obtain rfl := Option.some_inj.mp (hself.symm.trans hr)
            exact ⟨hd, fun hs => absurd hs (by simp [SyncClient.updatedRow])⟩
        · rw [if_neg hlt] at hself hyields
          refine ⟨fun hd => ?_, fun hd r hr => ?_⟩
          · rcases hyields with ⟨-, hrec⟩ | ⟨hlive, -, hsame⟩
            · exact absurd (hd.symm.trans hrec) (by decide)
            · exact ⟨l, hself, hlive, hp, hsame⟩
          · obtain rfl := Option.some_inj.mp (hself.symm.trans hr)
            rcases hyields with ⟨hdead, -⟩ | ⟨-, hrec, -⟩
            · exact ⟨hdead, fun hs => absurd hs hp⟩
            · exact absurd (hd.symm.trans hrec) (by decide)

/-- At the other paths it leaves what was there, or moves a tombstone to a name that was free. -/
theorem lookupAny_mergeRecord_other {name : Text → Nat → Text} {before : MetadataStore}
    {c : SyncClient} {timestamp : Text → Text} {q k : Text} {rec : FileRow}
    (hname : ∀ seq, name q seq = copyName c.deviceName timestamp q seq)
    (h : Ready name before q rec c.store) (hk : k ≠ q) :
    (SyncClient.mergeRecord timestamp c (q, rec)).store.lookupAny k = c.store.lookupAny k ∨
      (c.store.lookupAny k = none ∧
        (∃ l₀, before.lookupAny q = some l₀ ∧ l₀.syncStatus = .pending) ∧
        (∃ seq, 1 ≤ seq ∧ k = name q seq) ∧
        ∃ r, (SyncClient.mergeRecord timestamp c (q, rec)).store.lookupAny k = some r ∧
          r.deleted = true) := by
  rw [c.lookupAny_mergeRecord_of_ne timestamp rec hk]
  split_ifs with hmoved
  · right
    obtain ⟨haction, hpath, hfree⟩ := hmoved
    obtain ⟨l, hl, -, hpending⟩ := SyncClient.mergeAction_conflict haction
    rw [SyncClient.localBaseVersion_lt_iff] at hpending
    obtain ⟨hdead, hlocal, -⟩ := (h l hl).2 hpending
    obtain ⟨seq, hseq, hcopy⟩ := conflictPath_eq_copyName c timestamp q
    refine ⟨hfree, hlocal, ⟨seq, hseq, ?_⟩, SyncClient.conflictRow l, ?_, hdead⟩
    · rw [hpath, hcopy, hname]
    · rw [hl, Option.map_some]
  · exact Or.inl rfl

/-- What holds all along, whatever has been merged: every copy is there, and a live row is at a path
of the snapshot or is a copy. -/
structure Kept (before : MetadataStore) (snapshot : Files) (copy : Text → Text)
    (s : MetadataStore) : Prop where
  copied : ∀ p l, Unsent before p l → ∃ r, s.lookupAny (copy p) = some r ∧ r.deleted = false ∧
    Same r l
  only : ∀ q r, s.lookupAny q = some r → r.deleted = false →
    snapshot.get q ≠ none ∨ ∃ p l, Unsent before p l ∧ q = copy p

section Merge

variable {name : Text → Nat → Text} {before : MetadataStore} {snapshot : Files}
  {copy : Text → Text} {timestamp : Text → Text}

/-- **The merge of a snapshot**, from a table where every path of it is ready. -/
theorem done_mergeServerMetadata {c : SyncClient} (hR : Reconcilable name before snapshot)
    (hname : ∀ p seq, name p seq = copyName c.deviceName timestamp p seq)
    (hcopy : ∀ p l, Unsent before p l → snapshot.get (copy p) = none)
    (hready : ∀ q rec, snapshot.get q = some rec → Ready name before q rec c.store)
    (hkept : Kept before snapshot copy c.store) :
    Kept before snapshot copy (c.mergeServerMetadata timestamp snapshot).store ∧
      ∀ q rec, snapshot.get q = some rec →
        Done before q rec (c.mergeServerMetadata timestamp snapshot).store := by
  have hfold := snapshot.foldl_rule (SyncClient.mergeRecord timestamp)
    (fun c' => c'.deviceName = c.deviceName ∧ Kept before snapshot copy c'.store)
    (fun q rec c' => Ready name before q rec c'.store) (fun q rec c' => Done before q rec c'.store)
    ⟨rfl, hkept⟩ hready ?_
  · exact ⟨hfold.1.2, hfold.2⟩
  · rintro q rec c' hrec ⟨hdevice, hkept'⟩ hq
    have hname' : ∀ seq, name q seq = copyName c'.deviceName timestamp q seq := by
      rw [hdevice]
      exact hname q
    have hother : ∀ k, k ≠ q → _ := fun k => lookupAny_mergeRecord_other hname' hq
    refine ⟨⟨?_, ?_, ?_⟩, done_mergeRecord hname' hq, fun k rec' hk hrec' => ?_⟩
    · exact (SyncClient.sameDevice_mergeRecord timestamp c' (q, rec)).deviceName.trans hdevice
    · intro p l hp
      obtain ⟨r, hr, hlive, hsame⟩ := hkept'.copied p l hp
      have hne : copy p ≠ q := fun h => by
        rw [← h, hcopy p l hp] at hrec
        exact nomatch hrec
      rcases hother _ hne with heq | ⟨hnone, -⟩
      · exact ⟨r, heq.trans hr, hlive, hsame⟩
      · rw [hr] at hnone
        exact nomatch hnone
    · intro k r hr hlive
      by_cases hk : k = q
      · subst hk
        rw [hrec]
        exact Or.inl (Option.some_ne_none _)
      · rcases hother _ hk with heq | ⟨-, -, -, r', hr', hdead⟩
        · exact hkept'.only k r (heq.symm.trans hr) hlive
        · obtain rfl := Option.some_inj.mp (hr'.symm.trans hr)
          exact nomatch hdead.symm.trans hlive
    · have hsame : (SyncClient.mergeRecord timestamp c' (q, rec)).store.lookupAny k =
          c'.store.lookupAny k := by
        rcases hother _ hk with heq | ⟨-, ⟨l₀, hl₀, hst⟩, ⟨seq, hseq, rfl⟩, -⟩
        · exact heq
        · rw [hR.newThere q l₀ seq hl₀ hst hseq] at hrec'
          exact nomatch hrec'
      refine ⟨fun h l hl => ?_, fun h => ?_⟩
      · rw [hsame] at hl
        obtain ⟨hyields, hpend⟩ := h l hl
        refine ⟨hyields, fun hst => ?_⟩
        obtain ⟨hdead, ⟨l₁, hl₁, hst₁⟩, hfree⟩ := hpend hst
        refine ⟨hdead, ⟨l₁, hl₁, hst₁⟩, fun hlive seq hseq => ?_⟩
        have hne : name k seq ≠ q := fun h => by
          rw [← h, hR.newThere k l₁ seq hl₁ hst₁ hseq] at hrec
          exact nomatch hrec
        rcases hother _ hne with heq | ⟨-, ⟨l₀, hl₀, hst₀⟩, ⟨seq', hseq', hnames⟩, -⟩
        · exact heq.trans (hfree hlive seq hseq)
        · exact (hk (hR.namesDiffer k l₁ q l₀ seq seq' hl₁ hst₁ hl₀ hst₀ hseq hseq' hnames)).elim
      · rw [Done, hsame]
        exact h

end Merge

/-! ### The isolation of unsent changes -/

/-- The pending rows as a table. -/
def pendingTable (s : MetadataStore) : Files :=
  s.files.deleteWhere fun _ r => !decide (r.syncStatus = .pending)

theorem rows_pendingTable (s : MetadataStore) : (pendingTable s).rows = s.getPendingFiles := by
  simp [pendingTable, Table.deleteWhere, MetadataStore.getPendingFiles]

theorem get_pendingTable {s : MetadataStore} {p : Text} {l : FileRow} :
    (pendingTable s).get p = some l ↔ s.lookupAny p = some l ∧ l.syncStatus = .pending := by
  rw [Table.get_eq_some_iff, rows_pendingTable, MetadataStore.mem_getPendingFiles]

/-- A live row whose conflict name is free moves there. -/
theorem lookupAny_isolate (timestamp : Text → Text) {acc : SyncClient × Nat} {p : Text}
    {l : FileRow} (hlive : l.deleted = false) (hst : l.syncStatus = .pending)
    (hp : acc.1.store.lookupAny p = some l)
    (hfree : acc.1.store.lookupAny (acc.1.conflictPath (timestamp p) p) = none) (k : Text) :
    (SyncClient.isolate timestamp acc (p, l)).1.store.lookupAny k =
      if k = acc.1.conflictPath (timestamp p) p then some l
      else if k = p then none else acc.1.store.lookupAny k := by
  obtain ⟨c, isolated⟩ := acc
  obtain ⟨s, hs⟩ := MetadataStore.renamePath_of_free p hfree
  have hget := MetadataStore.lookupAny_renamePath hp (c.conflictPath_ne_self (timestamp p) p).symm
    hs k
  have hs' : c.store.renamePath p (ConflictResolver.generateConflictName c.store c.deviceName
      (timestamp p) p) = some s := hs
  have hsame : ({ l with syncStatus := .pending } : FileRow) = l := by rw [← hst]
  simp only [SyncClient.isolate, hlive, Bool.false_eq_true, if_false, hs']
  show (s.setSyncStatus (c.conflictPath (timestamp p) p) .pending).lookupAny k = _
  rw [MetadataStore.lookupAny_setSyncStatus, hget]
  split_ifs
  · exact congrArg some hsame
  · rfl
  · rfl

theorem deviceName_isolate (timestamp : Text → Text) (acc : SyncClient × Nat) (x : Text × FileRow) :
    (SyncClient.isolate timestamp acc x).1.deviceName = acc.1.deviceName := by
  unfold SyncClient.isolate
  dsimp only
  split_ifs
  · rfl
  · split <;> rfl

/-- A pending row before its turn, and after it: it is still there, or it has moved to one of its
names. -/
def Waiting (name : Text → Nat → Text) (p : Text) (l : FileRow) (s : MetadataStore) : Prop :=
  s.lookupAny p = some l ∧ ∀ seq, 1 ≤ seq → s.lookupAny (name p seq) = none

def Moved (name : Text → Nat → Text) (p : Text) (l : FileRow) (s : MetadataStore) : Prop :=
  s.lookupAny p = none ∧ ∃ seq, 1 ≤ seq ∧
    s.lookupAny (name p seq) = some l ∧
    ∀ seq', 1 ≤ seq' → name p seq' ≠ name p seq → s.lookupAny (name p seq') = none

/-- The table after the isolation. -/
structure Isolated (name : Text → Nat → Text) (before s : MetadataStore) : Prop where
  origin : ∀ q r, s.lookupAny q = some r → before.lookupAny q = some r ∨
    ∃ p l seq, Unsent before p l ∧ 1 ≤ seq ∧ q = name p seq
  pending : ∀ p l, before.lookupAny p = some l → l.syncStatus = .pending →
    if l.deleted then Waiting name p l s else Moved name p l s

theorem isolated_isolatePending {name : Text → Nat → Text} {c : SyncClient} {snapshot : Files}
    {timestamp : Text → Text} (hR : Reconcilable name c.store snapshot)
    (hname : ∀ p seq, name p seq = copyName c.deviceName timestamp p seq) :
    Isolated name c.store (c.isolatePending timestamp).1.store := by
  have hfold := (pendingTable c.store).foldl_rule (b := (c, 0)) (SyncClient.isolate timestamp)
    (fun acc => acc.1.deviceName = c.deviceName ∧ ∀ q r, acc.1.store.lookupAny q = some r →
      c.store.lookupAny q = some r ∨ ∃ p l seq, Unsent c.store p l ∧ 1 ≤ seq ∧ q = name p seq)
    (fun p l acc => Waiting name p l acc.1.store)
    (fun p l acc => if l.deleted then Waiting name p l acc.1.store else Moved name p l acc.1.store)
    ⟨rfl, fun q r hr => Or.inl hr⟩ (fun p l hp => ?_) ?_
  · rw [rows_pendingTable] at hfold
    exact ⟨hfold.1.2, fun p l hl hst => hfold.2 p l (get_pendingTable.mpr ⟨hl, hst⟩)⟩
  · obtain ⟨hl, hst⟩ := get_pendingTable.mp hp
    exact ⟨hl, fun seq hseq => hR.newHere p l seq hl hst hseq⟩
  · rintro p l acc hp ⟨hdevice, horigin⟩ ⟨hhere, hnames⟩
    obtain ⟨hl, hst⟩ := get_pendingTable.mp hp
    have hdevice' := (deviceName_isolate timestamp acc (p, l)).trans hdevice
    cases hdead : l.deleted with
    | true =>
        have hskip : SyncClient.isolate timestamp acc (p, l) = acc := by
          simp only [SyncClient.isolate, hdead, if_true]
        rw [hskip, if_pos rfl]
        exact ⟨⟨hdevice, horigin⟩, ⟨hhere, hnames⟩, fun k l' _ _ => ⟨id, id⟩⟩
    | false =>
        obtain ⟨seq, hseq, hpath⟩ := conflictPath_eq_copyName acc.1 timestamp p
        rw [hdevice, ← hname] at hpath
        have hget := lookupAny_isolate timestamp hdead hst hhere
          (by rw [hpath]; exact hnames seq hseq)
        rw [hpath] at hget
        have hfree := hnames seq hseq
        have hnp : ∀ seq', 1 ≤ seq' → name p seq' ≠ p := fun seq' hseq' h => by
          rw [← h, hnames seq' hseq'] at hhere
          exact nomatch hhere
        rw [if_neg (by simp)]
        refine ⟨⟨hdevice', fun q r hr => ?_⟩, ⟨?_, seq, hseq, ?_, fun seq' hseq' hne => ?_⟩,
          fun k l' hk hk' => ?_⟩
        · rw [hget] at hr
          split_ifs at hr with h1
          · exact Or.inr ⟨p, l, seq, ⟨MetadataStore.lookup_eq_some_iff.mpr ⟨hl, hdead⟩, hst⟩, hseq, h1⟩
          · exact horigin q r hr
        · rw [hget, if_neg (hnp seq hseq).symm, if_pos rfl]
        · rw [hget, if_pos rfl]
        · rw [hget, if_neg hne, if_neg (hnp seq' hseq')]
          exact hnames seq' hseq'
        · obtain ⟨hl', hst'⟩ := get_pendingTable.mp hk'
          have hkn : k ≠ name p seq := fun h => by
            rw [h, hR.newHere p l seq hl hst hseq] at hl'
            exact nomatch hl'
          have hkeep : (SyncClient.isolate timestamp acc (p, l)).1.store.lookupAny k =
              acc.1.store.lookupAny k := by
            rw [hget, if_neg hkn, if_neg hk]
          have hkeepName : ∀ seq', 1 ≤ seq' →
              (SyncClient.isolate timestamp acc (p, l)).1.store.lookupAny (name k seq') =
                acc.1.store.lookupAny (name k seq') := by
            intro seq' hseq'
            rw [hget, if_neg, if_neg]
            · rintro h
              have hnew := hR.newHere k l' seq' hl' hst' hseq'
              rw [h, hl] at hnew
              exact nomatch hnew
            · exact fun h => hk
                (hR.namesDiffer k l' p l seq' seq hl' hst' hl hst hseq' hseq h)
          have hwait : Waiting name k l' acc.1.store →
              Waiting name k l' (SyncClient.isolate timestamp acc (p, l)).1.store := fun h =>
            ⟨hkeep.trans h.1, fun seq' hseq' => (hkeepName seq' hseq').trans (h.2 seq' hseq')⟩
          refine ⟨hwait, fun h => ?_⟩
          split_ifs at h ⊢
          · exact hwait h
          · obtain ⟨hgone, seq', hseq', hcopy, hothers⟩ := h
            exact ⟨hkeep.trans hgone, seq', hseq', (hkeepName seq' hseq').trans hcopy,
              fun seq'' hseq'' hne => (hkeepName seq'' hseq'').trans (hothers seq'' hseq'' hne)⟩

/-! ### The upload that follows -/

/-- What every part of an upload preserves while the server has the snapshot. -/
structure KeptByUpload (Q : SyncClient → Prop) (r : SyncReading) (snapshot : Files) : Prop where
  tables : ∀ c c', c'.store = c.store → c'.deviceName = c.deviceName → Q c → Q c'
  purge : ∀ c, Q c → Q (c.gcTombstones r.now)
  accept : ∀ c version, Q c → Q (c.accepted r.now version c.pendingPaths)
  merge : ∀ c, Q c → Q (c.mergeServerMetadata r.timestamp snapshot)

theorem store_fetchRetentionDays (c : SyncClient) (net : Net) :
    (c.fetchRetentionDays net).1.store = c.store := by
  rw [SyncClient.fetchRetentionDays_fst]
  split_ifs
  · exact c.store_setRetention _
  · rfl

theorem deviceName_fetchRetentionDays (c : SyncClient) (net : Net) :
    (c.fetchRetentionDays net).1.deviceName = c.deviceName := by
  rw [SyncClient.fetchRetentionDays_fst]
  split_ifs
  · exact SyncClient.deviceName_setRetention c _
  · rfl

theorem deviceName_isolatePending (c : SyncClient) (timestamp : Text → Text) :
    (c.isolatePending timestamp).1.deviceName = c.deviceName := by
  unfold SyncClient.isolatePending
  refine List.foldlRecOn _ _ (motive := fun acc : SyncClient × Nat => acc.1.deviceName = c.deviceName) rfl ?_
  exact fun acc h x _ => (deviceName_isolate timestamp acc x).trans h

section Upload

variable {Q : SyncClient → Prop} {r : SyncReading} {snapshot : Files}

theorem KeptByUpload.downloadAndMerge (hQ : KeptByUpload Q r snapshot) {c : SyncClient} (net : Net)
    (hmeta : net.server.metadata = some snapshot) (h : Q c) :
    Q (c.downloadAndMerge r net).1 ∧
      (c.downloadAndMerge r net).2.server.metadata = some snapshot := by
  have hret : ∀ days, Q (c.setRetention days) := fun days =>
    hQ.tables c _ (c.store_setRetention days)
      (SyncClient.deviceName_setRetention c days) h
  have hfst := net.request_fst fun server => (server.status, server)
  have hserver := net.server_request_of_reads Server.status
  unfold SyncClient.downloadAndMerge
  split
  · rename_i net₁ hreq
    rw [hreq] at hserver
    exact ⟨h, hserver ▸ hmeta⟩
  · rename_i version days net₁ hreq
    rw [hreq] at hserver hfst
    have hmeta₁ : net₁.server.metadata = some snapshot := hserver ▸ hmeta
    have hversion : version = some net.server.version := by
      split_ifs at hfst
      rw [(Prod.mk.inj (Option.some_inj.mp hfst)).1, hmeta]
      rfl
    rw [hversion]
    dsimp only
    split_ifs
    · exact ⟨hret days, hmeta₁⟩
    · have hfst' := net₁.request_fst fun server => (server.metadata, server)
      have hserver' := net₁.server_request_of_reads Server.metadata
      split
      · rename_i found net₂ hget
        rw [hget] at hfst' hserver'
        have hfound : found = snapshot := by
          split_ifs at hfst'
          exact Option.some_inj.mp ((Option.some_inj.mp hfst').trans hmeta₁)
        refine ⟨?_, hserver' ▸ hmeta₁⟩
        refine hQ.tables ({ (c.setRetention days).mergeServerMetadata r.timestamp found with
          lastSyncedVersion := net.server.version }.gcTombstones r.now) _ rfl rfl (hQ.purge _ ?_)
        rw [hfound]
        exact hQ.tables ((c.setRetention days).mergeServerMetadata r.timestamp snapshot) _ rfl rfl
          (hQ.merge _ (hret days))
      · rename_i net₂ hno hget
        rw [hget] at hserver'
        exact ⟨hret days, hserver' ▸ hmeta₁⟩

theorem KeptByUpload.uploadAttempts (hQ : KeptByUpload Q r snapshot) (n : Nat) {c : SyncClient}
    {net : Net} (hmeta : net.server.metadata = some snapshot) (h : Q c) :
    Q (SyncClient.uploadAttempts r n c net).1 := by
  induction n generalizing c net with
  | zero => exact h
  | succ n ih =>
      unfold SyncClient.uploadAttempts
      dsimp only
      split_ifs
      · exact h
      · split
        · exact hQ.accept c _ h
        · rename_i net₁ hreq
          have hserver := Net.server_request_of_refused hreq
          have hdown := hQ.downloadAndMerge net₁ (hserver ▸ hmeta) h
          exact ih hdown.2 hdown.1
        · exact h

theorem KeptByUpload.uploadMetadata (hQ : KeptByUpload Q r snapshot) {c : SyncClient} {net : Net}
    (hmeta : net.server.metadata = some snapshot) (h : Q c) : Q (c.uploadMetadata r net).1 := by
  unfold SyncClient.uploadMetadata
  split_ifs
  · exact h
  · exact hQ.uploadAttempts _ hmeta (hQ.purge c h)

/-- **The rule of a re-baselining** whose download of the snapshot is answered: the merge brings the
isolated table to `Q`, and the upload keeps it. -/
theorem KeptByUpload.reconcileIfStale (hQ : KeptByUpload Q r snapshot) {c : SyncClient} {net : Net}
    (hdone : (c.reconcileIfStale r net).1 = true)
    (hget : net.fates.tail.head?.getD .ok = .ok) (hmeta : net.server.metadata = some snapshot)
    (hmerge : ∀ c' : SyncClient,
      c'.store = ((c.fetchRetentionDays net).1.isolatePending r.timestamp).1.store →
      c'.deviceName = c.deviceName → Q (c'.mergeServerMetadata r.timestamp snapshot)) :
    Q (c.reconcileIfStale r net).2.1 := by
  have hstale : (c.fetchRetentionDays net).1.isStale r.now = true := by
    by_contra hno
    rw [SyncClient.reconcileIfStale_of_fresh (Bool.eq_false_iff.mpr hno)] at hdone
    exact nomatch hdone
  have hserver : (c.fetchRetentionDays net).2.server = net.server := by
    rw [SyncClient.fetchRetentionDays_snd, Net.server_request_of_reads]
  have hfate : (c.fetchRetentionDays net).2.nextFate = .ok := by
    rw [SyncClient.fetchRetentionDays_snd, Net.nextFate, Net.fates_request, hget]
  have hdevice : ((c.fetchRetentionDays net).1.isolatePending r.timestamp).1.deviceName =
      c.deviceName := by
    rw [deviceName_isolatePending, deviceName_fetchRetentionDays]
  rw [SyncClient.reconcileIfStale_of_stale hstale]
  generalize c.fetchRetentionDays net = fetched at hmerge hserver hfate hdevice
  have hadopt : Q (fetched.1.adoptServerCopy r fetched.2).1 ∧
      (fetched.1.adoptServerCopy r fetched.2).2.server.metadata = some snapshot := by
    have hfst := fetched.2.request_fst fun server => (server.metadata, server)
    have hafter := fetched.2.server_request_of_reads Server.metadata
    rw [if_pos hfate, hserver, hmeta] at hfst
    rw [hserver] at hafter
    unfold SyncClient.adoptServerCopy SyncClient.initialSync
    split
    · rename_i hreq
      rw [hreq] at hfst
      exact nomatch hfst
    · rename_i hreq
      rw [hreq] at hfst
      exact nomatch hfst
    · rename_i found net₁ hreq
      rw [hreq] at hfst hafter
      obtain rfl : found = snapshot := Option.some_inj.mp (Option.some_inj.mp hfst)
      have hQ' := hmerge { (fetched.1.isolatePending r.timestamp).1 with
        lastSyncedVersion := 0 } rfl hdevice
      dsimp only
      split_ifs
      · exact ⟨hQ.tables _ _ (JbodManager.metadataStore_gcOrphanFiles _) rfl hQ', hafter ▸ hmeta⟩
      · exact ⟨hQ', hafter ▸ hmeta⟩
  dsimp only
  split_ifs
  · exact hQ.uploadMetadata hadopt.2 hadopt.1
  · exact hadopt.1

end Upload

/-! ### The server's copy is adopted -/

/-- The table during the upload: every record of the snapshot is merged and every copy is there. -/
def Adopted (before : MetadataStore) (snapshot : Files) (copy : Text → Text)
    (s : MetadataStore) : Prop :=
  Kept before snapshot copy s ∧ ∀ q rec, snapshot.get q = some rec → Done before q rec s

section Adoption

variable {before : MetadataStore} {snapshot : Files} {copy : Text → Text}

theorem same_uploadedRow {r rec : FileRow} (h : Same r rec) :
    Same (SyncClient.uploadedRow r) rec := by
  unfold SyncClient.uploadedRow
  split_ifs
  · exact h
  · exact h

/-- The collection of tombstones and the marking of what was sent change no live record. -/
theorem Adopted.map {s s' : MetadataStore} (h : Adopted before snapshot copy s)
    (hrow : ∀ q r, s.lookupAny q = some r → r.deleted = false →
      ∃ r', s'.lookupAny q = some r' ∧ r'.deleted = false ∧ (∀ rec, Same r rec → Same r' rec) ∧
        (r.syncStatus ≠ .pending → r'.syncStatus ≠ .pending))
    (hback : ∀ q r', s'.lookupAny q = some r' → ∃ r, s.lookupAny q = some r ∧
      r'.deleted = r.deleted ∧ (r'.syncStatus = .pending → r.syncStatus = .pending)) :
    Adopted before snapshot copy s' := by
  refine ⟨⟨fun p l hp => ?_, fun q r' hr' hlive => ?_⟩, fun q rec hrec =>
    ⟨fun hlive => ?_, fun hdead r' hr' => ?_⟩⟩
  · obtain ⟨r, hr, hlive, hsame⟩ := h.1.copied p l hp
    obtain ⟨r', hr', hlive', hsame', -⟩ := hrow _ r hr hlive
    exact ⟨r', hr', hlive', hsame' l hsame⟩
  · obtain ⟨r, hr, hdel, -⟩ := hback q r' hr'
    exact h.1.only q r hr (hdel ▸ hlive)
  · obtain ⟨r, hr, hlive', hst, hsame⟩ := (h.2 q rec hrec).1 hlive
    obtain ⟨r', hr', hlive'', hsame', hst'⟩ := hrow q r hr hlive'
    exact ⟨r', hr', hlive'', hst' hst, hsame' rec hsame⟩
  · obtain ⟨r, hr, hdel, hst⟩ := hback q r' hr'
    obtain ⟨hdead', hpending⟩ := (h.2 q rec hrec).2 hdead r hr
    exact ⟨hdel.trans hdead', fun hp => hpending (hst hp)⟩

theorem Adopted.gcTombstones {c : SyncClient} (h : Adopted before snapshot copy c.store)
    (now : Time) : Adopted before snapshot copy (c.gcTombstones now).store := by
  refine h.map (fun q r hr hlive => ⟨r, ?_, hlive, fun _ => id, id⟩) fun q r' hr' => ?_
  · exact SyncClient.lookupAny_gcTombstones_of_kept hr (SyncClient.expired_of_live hlive _ _)
  · exact ⟨r', SyncClient.lookupAny_of_gcTombstones hr', rfl, id⟩

theorem Adopted.accepted {c : SyncClient} (h : Adopted before snapshot copy c.store) (now : Time)
    (version : Nat) :
    Adopted before snapshot copy (c.accepted now version c.pendingPaths).store := by
  refine h.map (fun q r hr hlive => ⟨SyncClient.uploadedRow r, ?_, ?_, fun _ => same_uploadedRow,
    fun _ => SyncClient.syncStatus_uploadedRow r⟩) fun q r' hr' => ?_
  · rw [SyncClient.lookupAny_accepted, hr, Option.map_some]
  · rw [SyncClient.deleted_uploadedRow, hlive]
  · rw [SyncClient.lookupAny_accepted, Option.map_eq_some_iff] at hr'
    obtain ⟨r, hr, rfl⟩ := hr'
    exact ⟨r, hr, SyncClient.deleted_uploadedRow r, fun hp => absurd hp (SyncClient.syncStatus_uploadedRow r)⟩

theorem keptByUpload_adopted {c : SyncClient} {r : SyncReading}
    (hR : Reconcilable (copyName c.deviceName r.timestamp) before snapshot)
    (hcopy : ∀ p l, Unsent before p l → snapshot.get (copy p) = none) :
    KeptByUpload (fun c' => c'.deviceName = c.deviceName ∧ Adopted before snapshot copy c'.store) r
      snapshot where
  tables c₁ c₂ hstore hdevice h := ⟨hdevice.trans h.1, hstore ▸ h.2⟩
  purge c₁ h := ⟨h.1, h.2.gcTombstones r.now⟩
  accept c₁ version h := ⟨h.1, h.2.accepted r.now version⟩
  merge c₁ h := by
    refine ⟨(SyncClient.sameDevice_mergeServerMetadata c₁ _ _).deviceName.trans h.1, ?_⟩
    exact done_mergeServerMetadata hR (fun p seq => by rw [h.1]) hcopy
      (fun q rec hrec => (h.2.2 q rec hrec).ready) h.2.1

/-- The isolated table is ready for the merge. -/
theorem Isolated.ready {name : Text → Nat → Text} {s : MetadataStore}
    (hR : Reconcilable name before snapshot) (h : Isolated name before s) {q : Text} {rec : FileRow}
    (hrec : snapshot.get q = some rec) : Ready name before q rec s := by
  intro l hl
  rcases h.origin q l hl with hbefore | ⟨p, l', seq, ⟨hp, hst⟩, hseq, rfl⟩
  · cases hdead : l.deleted with
    | true =>
        refine ⟨hR.dead q l rec hbefore hdead hrec, fun hst => ⟨rfl, ⟨l, hbefore, hst⟩, ?_⟩⟩
        have hwait := h.pending q l hbefore hst
        rw [if_pos hdead] at hwait
        exact fun _ => hwait.2
    | false =>
        have hsent : l.syncStatus ≠ .pending := by
          intro hst
          have hmoved := h.pending q l hbefore hst
          rw [hdead, if_neg (by simp)] at hmoved
          rw [hmoved.1] at hl
          exact nomatch hl
        obtain ⟨rec', hrec', hyields⟩ :=
          hR.sent q l (MetadataStore.lookup_eq_some_iff.mpr ⟨hbefore, hdead⟩) hsent
        obtain rfl := Option.some_inj.mp (hrec'.symm.trans hrec)
        exact ⟨hyields, fun hst => absurd hst hsent⟩
  · rw [hR.newThere p l' seq (MetadataStore.lookup_eq_some_iff.mp hp).1 hst hseq] at hrec
    exact nomatch hrec

/-- Where every unsent change has gone. -/
theorem Isolated.exists_copy {name : Text → Nat → Text} {s : MetadataStore}
    (hR : Reconcilable name before snapshot) (h : Isolated name before s) :
    ∃ copy : Text → Text,
      (∀ p l, Unsent before p l → ∃ seq, 1 ≤ seq ∧ copy p = name p seq) ∧
      Kept before snapshot copy s := by
  classical
  have hmoved : ∀ p l, Unsent before p l → Moved name p l s := by
    intro p l ⟨hp, hst⟩
    obtain ⟨hl, hlive⟩ := MetadataStore.lookup_eq_some_iff.mp hp
    have := h.pending p l hl hst
    rwa [hlive, if_neg (by simp)] at this
  have hex : ∀ p, ∃ q, ∀ l, Unsent before p l → (∃ seq, 1 ≤ seq ∧ q = name p seq) ∧
      s.lookupAny q = some l ∧
      ∀ seq', 1 ≤ seq' → name p seq' ≠ q → s.lookupAny (name p seq') = none := by
    intro p
    by_cases hp : ∃ l, Unsent before p l
    · obtain ⟨l, hl⟩ := hp
      obtain ⟨-, seq, hseq, hcopy, hothers⟩ := hmoved p l hl
      refine ⟨name p seq, fun l' hl' => ?_⟩
      obtain rfl := Option.some_inj.mp (hl.1.symm.trans hl'.1)
      exact ⟨⟨seq, hseq, rfl⟩, hcopy, hothers⟩
    · exact ⟨p, fun l hl => (hp ⟨l, hl⟩).elim⟩
  choose copy hcopy using hex
  refine ⟨copy, fun p l hp => (hcopy p l hp).1, fun p l hp => ?_, fun q r hr hlive => ?_⟩
  · exact ⟨l, (hcopy p l hp).2.1, (MetadataStore.lookup_eq_some_iff.mp hp.1).2, Same.refl l⟩
  · rcases h.origin q r hr with hbefore | ⟨p, l, seq, hp, hseq, rfl⟩
    · have hlookup := MetadataStore.lookup_eq_some_iff.mpr ⟨hbefore, hlive⟩
      by_cases hst : r.syncStatus = .pending
      · rw [(hmoved q r ⟨hlookup, hst⟩).1] at hr
        exact nomatch hr
      · obtain ⟨rec, hrec, -⟩ := hR.sent q r hlookup hst
        exact Or.inl (by rw [hrec]; exact Option.some_ne_none _)
    · refine Or.inr ⟨p, l, hp, ?_⟩
      by_contra hne
      rw [(hcopy p l hp).2.2 seq hseq hne] at hr
      exact nomatch hr

end Adoption

section Reconcile

variable {c : SyncClient} {r : SyncReading} {net : Net} {snapshot : Files}

theorem adopts_of_adopted {name : Text → Nat → Text} {before after : MetadataStore}
    {copy : Text → Text} (hR : Reconcilable name before snapshot)
    (hcopy : ∀ p l, Unsent before p l → ∃ seq, 1 ≤ seq ∧ copy p = name p seq)
    (h : Adopted before snapshot copy after) :
    AdoptsServerCopy name before after snapshot copy where
  named := hcopy
  distinct p l p' l' hp hp' heq := by
    obtain ⟨seq, hseq, hcp⟩ := hcopy p l hp
    obtain ⟨seq', hseq', hcp'⟩ := hcopy p' l' hp'
    exact hR.namesDiffer p l p' l' seq seq' (MetadataStore.lookup_eq_some_iff.mp hp.1).1 hp.2
      (MetadataStore.lookup_eq_some_iff.mp hp'.1).1 hp'.2 hseq hseq' (hcp ▸ hcp' ▸ heq)
  vacant p l hp := by
    obtain ⟨seq, hseq, hcp⟩ := hcopy p l hp
    have hl := (MetadataStore.lookup_eq_some_iff.mp hp.1).1
    rw [hcp, hR.newThere p l seq hl hp.2 hseq]
    refine ⟨fun _ h => (nomatch h), fun l' hl' => ?_⟩
    rw [MetadataStore.lookup_eq_some_iff, hR.newHere p l seq hl hp.2 hseq] at hl'
    exact nomatch hl'.1
  copied p l hp := by
    obtain ⟨row, hrow, hlive, hsame⟩ := h.1.copied p l hp
    exact ⟨row, MetadataStore.lookup_eq_some_iff.mpr ⟨hrow, hlive⟩, hsame⟩
  adopted p rec hrec hlive := by
    obtain ⟨row, hrow, hlive', -, hsame⟩ := (h.2 p rec hrec).1 hlive
    exact ⟨row, MetadataStore.lookup_eq_some_iff.mpr ⟨hrow, hlive'⟩, hsame⟩
  only p row hrow := by
    obtain ⟨hrow, hlive⟩ := MetadataStore.lookup_eq_some_iff.mp hrow
    refine (h.1.only p row hrow hlive).imp (fun hsome => ?_) id
    obtain ⟨rec, hrec⟩ := Option.ne_none_iff_exists'.mp hsome
    refine ⟨rec, hrec, Bool.eq_false_iff.mpr fun hdead => ?_⟩
    exact nomatch hlive.symm.trans ((h.2 p rec hrec).2 hdead row hrow).1

theorem exists_adopts (hR : Reconcilable (copyName c.deviceName r.timestamp) c.store snapshot)
    (hdone : (c.reconcileIfStale r net).1 = true) (hget : net.fates.tail.head?.getD .ok = .ok)
    (hmeta : net.server.metadata = some snapshot) :
    ∃ copy, AdoptsServerCopy (copyName c.deviceName r.timestamp) c.store
      (c.reconcileIfStale r net).2.1.store snapshot copy := by
  have hisolated : Isolated (copyName c.deviceName r.timestamp) c.store
      ((c.fetchRetentionDays net).1.isolatePending r.timestamp).1.store := by
    rw [← store_fetchRetentionDays c net] at hR ⊢
    exact isolated_isolatePending hR fun p seq => by rw [deviceName_fetchRetentionDays]
  obtain ⟨copy, hcopy, hkept⟩ := hisolated.exists_copy hR
  have hnone : ∀ p l, Unsent c.store p l → snapshot.get (copy p) = none := by
    intro p l hp
    obtain ⟨seq, hseq, hcp⟩ := hcopy p l hp
    rw [hcp]
    exact hR.newThere p l seq (MetadataStore.lookup_eq_some_iff.mp hp.1).1 hp.2 hseq
  have hend := (keptByUpload_adopted hR hnone).reconcileIfStale hdone hget hmeta
    fun c' hstore hdevice => by
      refine ⟨(SyncClient.sameDevice_mergeServerMetadata c' _ _).deviceName.trans hdevice, ?_⟩
      refine done_mergeServerMetadata hR (fun p seq => by rw [hdevice]) hnone ?_ ?_
      · intro q rec hrec
        rw [hstore]
        exact hisolated.ready hR hrec
      · rw [hstore]
        exact hkept
  exact ⟨copy, adopts_of_adopted hR hcopy hend.2⟩

/-! ### A row that was sent -/

theorem lookupAny_isolate_of_some {timestamp : Text → Text} {acc : SyncClient × Nat} {p k : Text}
    {l row : FileRow} (hp : acc.1.store.lookupAny p = some l)
    (hk : acc.1.store.lookupAny k = some row) (hne : k ≠ p) :
    (SyncClient.isolate timestamp acc (p, l)).1.store.lookupAny k = some row := by
  obtain ⟨c, isolated⟩ := acc
  unfold SyncClient.isolate
  dsimp only
  split_ifs
  · exact hk
  · split
    · rename_i s hs
      have hpath := (c.conflictPath_ne_self (timestamp p) p).symm
      have hkn : k ≠ c.conflictPath (timestamp p) p := by
        rintro rfl
        have hnone := MetadataStore.renamePath_eq_none_iff.mpr ⟨⟨l, hp⟩, ⟨row, hk⟩, hpath⟩
        exact nomatch hs.symm.trans hnone
      show (s.setSyncStatus (c.conflictPath (timestamp p) p) .pending).lookupAny k = _
      rw [MetadataStore.lookupAny_setSyncStatus_of_ne _ _ hkn,
        MetadataStore.lookupAny_renamePath hp hpath hs, if_neg hkn, if_neg hne]
      exact hk
    · exact hk

theorem lookupAny_isolatePending_of_sent {timestamp : Text → Text} {q : Text} {l : FileRow}
    (hl : c.store.lookupAny q = some l) (hst : l.syncStatus ≠ .pending) :
    (c.isolatePending timestamp).1.store.lookupAny q = some l := by
  have hfold := (pendingTable c.store).foldl_rule (b := (c, 0)) (SyncClient.isolate timestamp)
    (fun acc => acc.1.store.lookupAny q = some l)
    (fun p row acc => acc.1.store.lookupAny p = some row) (fun _ _ _ => True)
    hl (fun p row hp => (get_pendingTable.mp hp).1) ?_
  · rw [rows_pendingTable] at hfold
    exact hfold.1
  · intro p row acc hp hq hhere
    have hne : q ≠ p := by
      rintro rfl
      obtain ⟨hrow, hpending⟩ := get_pendingTable.mp hp
      obtain rfl := Option.some_inj.mp (hrow.symm.trans hl)
      exact hst hpending
    exact ⟨lookupAny_isolate_of_some hhere hq hne, trivial,
      fun k _ hk _ => ⟨fun h => lookupAny_isolate_of_some hhere h hk, id⟩⟩

/-- A live row that was sent and that no record supersedes is there to stay. -/
theorem keptByUpload_row {q : Text} {row : FileRow} (hlive : row.deleted = false)
    (hst : row.syncStatus ≠ .pending) (hstay : SyncClient.afterMerge snapshot q row = row) :
    KeptByUpload (fun c' => c'.store.lookupAny q = some row) r snapshot where
  tables c₁ c₂ hstore _ h := by
    show c₂.store.lookupAny q = some row
    rw [hstore]
    exact h
  purge c₁ h :=
    SyncClient.lookupAny_gcTombstones_of_kept h (SyncClient.expired_of_live hlive _ _)
  accept c₁ version h := by
    rw [SyncClient.lookupAny_accepted, h, Option.map_some, SyncClient.uploadedRow, if_neg hst]
  merge c₁ h := by
    rw [SyncClient.lookupAny_mergeServerMetadata_of_sent h hst, hstay]

theorem sentRowsYield_of_adopts {copy : Text → Text}
    (hdone : (c.reconcileIfStale r net).1 = true) (hget : net.fates.tail.head?.getD .ok = .ok)
    (hmeta : net.server.metadata = some snapshot)
    (h : AdoptsServerCopy (copyName c.deviceName r.timestamp) c.store
      (c.reconcileIfStale r net).2.1.store snapshot copy) :
    SentRowsYield c.store snapshot := by
  intro q l hl hst
  obtain ⟨hrow, hlive⟩ := MetadataStore.lookup_eq_some_iff.mp hl
  have hend : ∀ row, SyncClient.afterMerge snapshot q l = row → row.deleted = false →
      row.syncStatus ≠ .pending → SyncClient.afterMerge snapshot q row = row →
      (c.reconcileIfStale r net).2.1.store.lookup q = some row := by
    intro row hmerged hlive' hst' hstay
    refine MetadataStore.lookup_eq_some_iff.mpr ⟨?_, hlive'⟩
    refine (keptByUpload_row hlive' hst' hstay).reconcileIfStale hdone hget hmeta
      fun c' hstore _ => ?_
    show (c'.mergeServerMetadata r.timestamp snapshot).store.lookupAny q = _
    rw [SyncClient.lookupAny_mergeServerMetadata_of_sent ?_ hst, hmerged]
    rw [hstore]
    refine lookupAny_isolatePending_of_sent ?_ hst
    rw [store_fetchRetentionDays]
    exact hrow
  have hserved : ∀ row, (c.reconcileIfStale r net).2.1.store.lookup q = some row →
      ∃ rec, snapshot.get q = some rec ∧ rec.deleted = false ∧ Same row rec := by
    intro row hlookup
    rcases h.only q row hlookup with ⟨rec, hrec, hreclive⟩ | ⟨p, l', hp, rfl⟩
    · obtain ⟨row', hrow', hsame⟩ := h.adopted q rec hrec hreclive
      obtain rfl := Option.some_inj.mp (hrow'.symm.trans hlookup)
      exact ⟨rec, hrec, hreclive, hsame⟩
    · exact (hst ((h.vacant p l' hp).2 l hl)).elim
  cases hrec : snapshot.get q with
  | none =>
      have hafter : SyncClient.afterMerge snapshot q l = l := by rw [SyncClient.afterMerge, hrec]
      obtain ⟨rec, hrec', -⟩ := hserved l (hend l hafter hlive hst hafter)
      exact nomatch hrec.symm.trans hrec'
  | some rec =>
      refine ⟨rec, rfl, ?_⟩
      rw [Yields, if_neg hst]
      split_ifs with hlt
      · cases hdead : rec.deleted with
        | true => exact Or.inl rfl
        | false =>
            right
            have hafter : SyncClient.afterMerge snapshot q l = SyncClient.updatedRow rec l := by
              rw [SyncClient.afterMerge, hrec]
              exact if_pos hlt
            have hstay : SyncClient.afterMerge snapshot q (SyncClient.updatedRow rec l) =
                SyncClient.updatedRow rec l := by
              rw [SyncClient.afterMerge, hrec]
              exact if_neg (lt_irrefl _)
            obtain ⟨rec', hrec', -, hsame⟩ := hserved _ (hend _ hafter hdead (by
              simp [SyncClient.updatedRow]) hstay)
            obtain rfl := Option.some_inj.mp (hrec.symm.trans hrec')
            exact hsame.createdAt
      · have hafter : SyncClient.afterMerge snapshot q l = l := by
          rw [SyncClient.afterMerge, hrec]
          exact if_neg hlt
        obtain ⟨rec', hrec', hreclive, hsame⟩ := hserved l (hend l hafter hlive hst hafter)
        obtain rfl := Option.some_inj.mp (hrec.symm.trans hrec')
        exact Or.inr ⟨hlive, hreclive, hsame⟩

end Reconcile

/-- A device back after 31 days, with a change of `/a` to send and a copy of `/b`, and a server that
has a newer `/b`. -/
def unsentRow : FileRow :=
  { sourceId := "s", physicalPath := "x_a".toList, fileSize := 1, createdAt := 0, modifiedAt := 0,
    syncStatus := .pending }

def sentRow : FileRow :=
  { sourceId := "s", physicalPath := "x_b".toList, fileSize := 1, createdAt := 0, modifiedAt := 0 }

def newerSnapshot : Files := Table.empty.insert "/b".toList { sentRow with version := 2 }

def returning (files : Files) : SyncClient where
  jbod :=
    { metadataStore := ⟨files, Table.empty⟩, sources := Table.empty, deviceId := some "laptop" }
  deviceName := "laptop".toList
  lastSyncAt := some 0

def monthLater : SyncReading := ⟨31 * 86400, fun _ => "t".toList⟩

def unsentAndSent : Files :=
  (Table.empty.insert "/a".toList unsentRow).insert "/b".toList sentRow

theorem length_copyName (deviceName : Text) (timestamp : Text → Text) (p : Text) (seq : Nat) :
    2 < (copyName deviceName timestamp p seq).length := by
  unfold copyName ConflictResolver.candidate Text.joinPath
  dsimp only
  split_ifs <;> simp [ConflictResolver.mark] <;> omega

theorem get_of_long {t : Files} {p : Text} (ht : ∀ q l, t.get q = some l → q.length ≤ 2)
    (hp : 2 < p.length) : t.get p = none := by
  rw [Option.eq_none_iff_forall_ne_some]
  intro l hl
  exact absurd (ht p l hl) (by omega)

def newer : Net := { server := { version := 2, metadata := some newerSnapshot } }

/-- A server that has collected the tombstone of `/b`. -/
def collected : Net := { server := { version := 3, metadata := some Table.empty } }

end Rebaseline

end StardustFS
