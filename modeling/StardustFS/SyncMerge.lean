import StardustFS.SyncClient

/-! What the merge of one server record leaves at each path. Only the record's own path and, in a
conflict, the path of the conflict copy change; everything else a merge does is outside the `files`
table. -/

namespace StardustFS

/-- Equal in every column that a merge takes over. -/
def SameRecord (r rec : FileRow) : Prop :=
  r.version = rec.version ∧ r.deleted = rec.deleted ∧ r.place = rec.place ∧
    r.fileSize = rec.fileSize ∧ r.modifiedAt = rec.modifiedAt

theorem SameRecord.trans {a b c : FileRow} (h : SameRecord a b) (h' : SameRecord b c) :
    SameRecord a c :=
  ⟨h.1.trans h'.1, h.2.1.trans h'.2.1, h.2.2.1.trans h'.2.2.1, h.2.2.2.1.trans h'.2.2.2.1,
    h.2.2.2.2.trans h'.2.2.2.2⟩

theorem SameRecord.symm {a b : FileRow} (h : SameRecord a b) : SameRecord b a :=
  ⟨h.1.symm, h.2.1.symm, h.2.2.1.symm, h.2.2.2.1.symm, h.2.2.2.2.symm⟩

namespace SyncClient

@[simp] theorem store_setStore (c : SyncClient) (s : MetadataStore) : (c.setStore s).store = s := rfl

@[simp] theorem store_detectOwnershipLoss (c : SyncClient) (localRec serverRec : FileRow) :
    (c.detectOwnershipLoss localRec serverRec).store = c.store := by
  unfold detectOwnershipLoss
  split_ifs <;> rfl

@[simp] theorem store_deletePhysical (c : SyncClient) (p : Text) :
    (c.deletePhysical p).store = c.store := by
  unfold deletePhysical
  split
  · rfl
  · split
    · rfl
    · split_ifs <;> rfl

/-- The path the local row of a conflict would move to. -/
def conflictPath (c : SyncClient) (timestamp virtualPath : Text) : Text :=
  ConflictResolver.generateConflictName c.store c.deviceName timestamp virtualPath

theorem conflictPath_ne_self (c : SyncClient) (timestamp virtualPath : Text) :
    c.conflictPath timestamp virtualPath ≠ virtualPath :=
  ConflictResolver.generateConflictName_ne_self c.store c.deviceName timestamp virtualPath

theorem lookup_conflictPath (c : SyncClient) (timestamp virtualPath : Text) :
    c.store.lookup (c.conflictPath timestamp virtualPath) = none :=
  ConflictResolver.lookup_generateConflictName c.store c.deviceName timestamp virtualPath

theorem exists_seq_conflictPath (c : SyncClient) (timestamp virtualPath : Text) :
    ∃ seq, 1 ≤ seq ∧ c.conflictPath timestamp virtualPath =
      ConflictResolver.candidate c.deviceName timestamp virtualPath seq :=
  ConflictResolver.exists_seq_generateConflictName c.store c.deviceName timestamp virtualPath

theorem conflictPath_congr {c c' : SyncClient} {timestamp virtualPath : Text}
    (hname : c'.deviceName = c.deviceName)
    (h : c'.store.lookup (c.conflictPath timestamp virtualPath) = none)
    (h' : c.store.lookup (c'.conflictPath timestamp virtualPath) = none) :
    c'.conflictPath timestamp virtualPath = c.conflictPath timestamp virtualPath := by
  unfold conflictPath at h h' ⊢
  rw [hname] at h' ⊢
  exact ConflictResolver.generateConflictName_congr h h'

/-- A row that differs in nothing is live in both stores or in neither. -/
theorem lookup_eq_of_lookupAny {s s' : MetadataStore} {p : Text}
    (h : s'.lookupAny p = s.lookupAny p) : s'.lookup p = s.lookup p := by
  rw [MetadataStore.lookup, MetadataStore.lookup, h]

theorem lookupAny_insertFromServer_self (s : MetadataStore) (p : Text) (rec : FileRow) :
    (insertFromServer s p rec).lookupAny p =
      some (((s.lookupAny p).map (overwrittenRow rec)).getD (insertedRow rec)) := by
  unfold insertFromServer
  cases h : s.lookupAny p with
  | none => exact Table.get_insert_self h
  | some r =>
      have hg : s.files.get p = some r := h
      simp [MetadataStore.lookupAny, hg]

theorem lookupAny_insertFromServer_of_ne (s : MetadataStore) {p q : Text} (rec : FileRow)
    (hq : q ≠ p) : (insertFromServer s p rec).lookupAny q = s.lookupAny q := by
  unfold insertFromServer
  cases s.lookupAny p with
  | none => exact Table.get_insert_of_ne _ _ hq
  | some r => exact Table.get_update_of_ne _ _ hq

theorem lookupAny_updateFromServer (c : SyncClient) (p q : Text) (rec : FileRow) :
    (c.updateFromServer p rec).store.lookupAny q =
      if q = p then (c.store.lookupAny q).map (updatedRow rec) else c.store.lookupAny q := by
  have hstore : (if rec.deleted && c.jbodAttached then c.deletePhysical p else c).store =
      c.store := by
    split_ifs
    · exact store_deletePhysical c p
    · rfl
  unfold updateFromServer
  dsimp only
  rw [store_setStore, hstore]
  exact Table.get_update _ _ _ _

/-- The local row after a conflict whose copy was made, and at its old path after one whose copy was
refused. -/
def conflictRow (r : FileRow) : FileRow := { r with syncStatus := .conflict }
def stillPendingRow (r : FileRow) : FileRow := { r with syncStatus := .pending }

theorem lookupAny_handleConflict (c : SyncClient) (timestamp p q : Text) (rec : FileRow)
    {r : FileRow} (hr : c.store.lookupAny p = some r) :
    (c.handleConflict timestamp p rec).store.lookupAny q =
      if c.store.lookupAny (c.conflictPath timestamp p) = none then
        if q = p then some (insertedRow rec)
        else if q = c.conflictPath timestamp p then some (conflictRow r)
        else c.store.lookupAny q
      else if q = p then some (stillPendingRow r) else c.store.lookupAny q := by
  have hne : p ≠ c.conflictPath timestamp p := (c.conflictPath_ne_self timestamp p).symm
  unfold handleConflict
  split_ifs with hfree hqp hqc hqp
  · obtain ⟨s', hres, hget⟩ :=
      ConflictResolver.resolveConflict_of_free c.deviceName timestamp hr hfree
    have hp : s'.lookupAny p = none := by
      rw [hget p, if_neg, if_pos rfl]
      exact hne
    rw [hres, hqp]
    dsimp only
    rw [store_setStore, lookupAny_insertFromServer_self, hp]
    rfl
  · obtain ⟨s', hres, hget⟩ :=
      ConflictResolver.resolveConflict_of_free c.deviceName timestamp hr hfree
    rw [hres]
    dsimp only
    rw [store_setStore, lookupAny_insertFromServer_of_ne _ _ hqp, hget]
    exact if_pos hqc
  · obtain ⟨s', hres, hget⟩ :=
      ConflictResolver.resolveConflict_of_free c.deviceName timestamp hr hfree
    rw [hres]
    dsimp only
    rw [store_setStore, lookupAny_insertFromServer_of_ne _ _ hqp, hget]
    exact (if_neg hqc).trans (if_neg hqp)
  · rw [ConflictResolver.resolveConflict_of_taken c.deviceName timestamp hr hfree, hqp]
    dsimp only
    rw [store_setStore, MetadataStore.lookupAny_setSyncStatus_self, hr]
    rfl
  · rw [ConflictResolver.resolveConflict_of_taken c.deviceName timestamp hr hfree]
    exact MetadataStore.lookupAny_setSyncStatus_of_ne _ _ hqp

theorem mergeAction_conflict {l : Option FileRow} {rec : FileRow}
    (h : mergeAction l rec = .conflict) :
    ∃ r, l = some r ∧ localBaseVersion r < rec.version ∧ localBaseVersion r < r.version := by
  unfold mergeAction at h
  split at h
  · split_ifs at h
  · rename_i r
    split_ifs at h with h1
    exact ⟨r, rfl, h1⟩

/-- Only a pending row is taken for one that was changed locally. -/
theorem localBaseVersion_lt_iff {r : FileRow} :
    localBaseVersion r < r.version ↔ r.syncStatus = .pending := by
  unfold localBaseVersion
  split_ifs with h
  · simp only [h, iff_true]
    omega
  · simp only [h, iff_false]
    omega

/-- A row that is not pending is never in conflict: it is brought up to date, or it stays. -/
theorem mergeAction_of_not_pending {r rec : FileRow} (h : r.syncStatus ≠ .pending) :
    mergeAction (some r) rec = if r.version < rec.version then .update else .skip := by
  rw [mergeAction, if_neg fun hc => h (localBaseVersion_lt_iff.mp hc.2)]

/-- A pending row is in conflict with every server version that is not below its own. -/
theorem mergeAction_of_pending {r rec : FileRow} (h : r.syncStatus = .pending) :
    mergeAction (some r) rec = if r.version ≤ rec.version then .conflict else .skip := by
  have hbase : localBaseVersion r = r.version - 1 := if_pos h
  rw [mergeAction, hbase]
  split_ifs <;> first | rfl | omega

theorem mergeAction_insert {l : Option FileRow} {rec : FileRow} (h : mergeAction l rec = .insert) :
    l = none ∧ rec.deleted = false := by
  unfold mergeAction at h
  split at h
  · split_ifs at h with hdeleted
    exact ⟨rfl, by simpa using hdeleted⟩
  · split_ifs at h

/-- Only a row that is older and not pending is brought up to date. -/
theorem mergeAction_update {l : Option FileRow} {rec : FileRow} (h : mergeAction l rec = .update) :
    ∃ r, l = some r ∧ r.syncStatus ≠ .pending ∧ r.version < rec.version := by
  cases l with
  | none =>
      unfold mergeAction at h
      split_ifs at h
  | some r =>
      by_cases hpending : r.syncStatus = .pending
      · rw [mergeAction_of_pending hpending] at h
        split_ifs at h
      · rw [mergeAction_of_not_pending hpending] at h
        split_ifs at h with hlt
        exact ⟨r, rfl, hpending, hlt⟩

/-- **One record of a merge.** What it leaves at the record's own path. -/
theorem lookupAny_mergeRecord_self (c : SyncClient) (timestamp : Text → Text) (p : Text)
    (rec : FileRow) :
    (mergeRecord timestamp c (p, rec)).store.lookupAny p =
      match mergeAction (c.store.lookupAny p) rec with
      | .skip => c.store.lookupAny p
      | .insert => some (insertedRow rec)
      | .conflict =>
          if c.store.lookupAny (c.conflictPath (timestamp p) p) = none then some (insertedRow rec)
          else (c.store.lookupAny p).map stillPendingRow
      | .update => (c.store.lookupAny p).map (updatedRow rec) := by
  unfold mergeRecord
  dsimp only
  cases haction : mergeAction (c.store.lookupAny p) rec with
  | skip => rfl
  | insert =>
      have hnone : c.store.lookupAny p = none := by
        unfold mergeAction at haction
        split at haction
        · rename_i h
          exact h
        · split_ifs at haction
      dsimp only
      rw [store_setStore, lookupAny_insertFromServer_self, hnone]
      rfl
  | conflict =>
      obtain ⟨r, hr, -⟩ := mergeAction_conflict haction
      dsimp only
      rw [lookupAny_handleConflict c (timestamp p) p p rec hr]
      simp [hr]
  | update =>
      dsimp only
      cases hr : c.store.lookupAny p with
      | none =>
          dsimp only
          rw [lookupAny_updateFromServer, if_pos rfl, hr]
      | some r =>
          dsimp only
          rw [lookupAny_updateFromServer, if_pos rfl, store_detectOwnershipLoss, hr]

/-- What the merge of a record leaves at the other paths: a conflict copy at its name, every other
row as it was. -/
theorem lookupAny_mergeRecord_of_ne (c : SyncClient) (timestamp : Text → Text) {p q : Text}
    (rec : FileRow) (hq : q ≠ p) :
    (mergeRecord timestamp c (p, rec)).store.lookupAny q =
      if mergeAction (c.store.lookupAny p) rec = .conflict ∧
          q = c.conflictPath (timestamp p) p ∧ c.store.lookupAny q = none then
        (c.store.lookupAny p).map conflictRow
      else c.store.lookupAny q := by
  unfold mergeRecord
  dsimp only
  cases haction : mergeAction (c.store.lookupAny p) rec with
  | skip => simp
  | insert => simp [lookupAny_insertFromServer_of_ne _ _ hq]
  | conflict =>
      obtain ⟨r, hr, -⟩ := mergeAction_conflict haction
      dsimp only
      rw [lookupAny_handleConflict c (timestamp p) p q rec hr, hr]
      by_cases hqc : q = c.conflictPath (timestamp p) p
      · subst hqc
        split_ifs <;> simp_all
      · simp [hq, hqc]
  | update =>
      dsimp only
      cases hr : c.store.lookupAny p with
      | none =>
          dsimp only
          rw [lookupAny_updateFromServer, if_neg hq]
          simp
      | some r =>
          dsimp only
          rw [lookupAny_updateFromServer, if_neg hq, store_detectOwnershipLoss]
          simp

end SyncClient

end StardustFS
