import StardustFS.SyncMerge

/-! Concurrent edits of one path. The merge does not keep the version a row was synchronised at; it
takes a pending row to be one edit ahead of it. With more edits the server's change passes for an
older version as long as its version is below the local one. -/

namespace StardustFS

namespace SyncClient

/-- Local edits of one path, one after the other. -/
def editAll (c : SyncClient) (virtualPath : Text) (edits : List Edit) : SyncClient :=
  c.setStore (edits.foldl (fun s e => s.update virtualPath e.fileSize e.modifiedAt e.deviceId
    e.sourceId e.physicalPath) c.store)

/-- Both sides of a concurrent change are there after a merge: the path carries the server record,
and a path that had no row carries the local one as a conflict copy. -/
structure BothPreserved (before after : SyncClient) (virtualPath : Text) (serverRec : FileRow) :
    Prop where
  server : after.store.lookupAny virtualPath = some (insertedRow serverRec)
  local_ : ∃ copy, copy ≠ virtualPath ∧ before.store.lookupAny copy = none ∧
    after.store.lookupAny copy = (before.store.lookupAny virtualPath).map conflictRow

/-- Every edit raises the version by one and leaves the row pending. -/
theorem lookupAny_editAll {c : SyncClient} {p : Text} {r : FileRow} (hr : c.store.lookupAny p = some r)
    (edits : List Edit) :
    ∃ r', (c.editAll p edits).store.lookupAny p = some r' ∧
      r'.version = r.version + edits.length ∧ (edits ≠ [] → r'.syncStatus = .pending) := by
  unfold editAll
  rw [store_setStore]
  generalize c.store = s at hr ⊢
  induction edits generalizing s r with
  | nil => exact ⟨r, hr, by simp, fun h => absurd rfl h⟩
  | cons e edits ih =>
      have hstep := MetadataStore.lookupAny_update_self s p e.fileSize e.modifiedAt e.deviceId
        e.sourceId e.physicalPath
      rw [hr, Option.map_some] at hstep
      obtain ⟨r', hr', hv, hpending⟩ := ih _ hstep
      refine ⟨r', hr', ?_, fun _ => ?_⟩
      · rw [hv, List.length_cons]
        show r.version + 1 + _ = _
        push_cast
        omega
      · cases edits with
        | nil =>
            rw [List.foldl_nil, hstep, Option.some_inj] at hr'
            rw [← hr']
            rfl
        | cons e' edits => exact hpending (List.cons_ne_nil e' edits)

/-- **Detection of concurrent edits.** A row that was edited at least once after version `r.version`
survives the merge of a server record, together with that record, exactly when the server is at
least as many versions ahead as the device and no tombstone holds the name of the conflict copy. -/
theorem mergeRecord_bothPreserved_iff (c : SyncClient) (timestamp : Text → Text) (p : Text)
    (r rec : FileRow) (edits : List Edit) (hr : c.store.lookupAny p = some r) (hedits : edits ≠ []) :
    BothPreserved (c.editAll p edits) (mergeRecord timestamp (c.editAll p edits) (p, rec)) p rec ↔
      r.version + edits.length ≤ rec.version ∧
        (c.editAll p edits).store.lookupAny
          ((c.editAll p edits).conflictPath (timestamp p) p) = none := by
  obtain ⟨r', hr', hversion, hpending⟩ := lookupAny_editAll hr edits
  generalize c.editAll p edits = d at hr' ⊢
  have haction : mergeAction (some r') rec = if r'.version ≤ rec.version then .conflict else .skip :=
    mergeAction_of_pending (hpending hedits)
  have hself := lookupAny_mergeRecord_self d timestamp p rec
  rw [hr', haction] at hself
  rw [← hversion]
  constructor
  · rintro ⟨hserver, copy, hne, hfree, hcopy⟩
    have hother := lookupAny_mergeRecord_of_ne d timestamp rec hne
    rw [hcopy, hr', haction, Option.map_some, hfree] at hother
    by_cases hle : r'.version ≤ rec.version
    · rw [if_pos hle] at hother
      split_ifs at hother with hcond
      exact ⟨hle, hcond.2.1 ▸ hfree⟩
    · rw [if_neg hle, if_neg fun h => MergeAction.noConfusion h.1] at hother
      cases hother
  · rintro ⟨hle, hfree⟩
    rw [if_pos hle] at haction hself
    refine ⟨?_, d.conflictPath (timestamp p) p, d.conflictPath_ne_self _ p, hfree, ?_⟩
    · rw [hself]
      exact if_pos hfree
    · rw [lookupAny_mergeRecord_of_ne d timestamp rec (d.conflictPath_ne_self _ p), hr', haction,
        if_pos ⟨rfl, rfl, hfree⟩]

/-- A device that has synchronised one file at version 1. -/
def oneFile : SyncClient where
  jbod := {
    metadataStore := ⟨Table.empty.insert "/a".toList
      { sourceId := "s", physicalPath := "x_a".toList, fileSize := 1, createdAt := 0,
        modifiedAt := 0 }, Table.empty⟩
    sources := Table.empty }
  deviceName := "laptop".toList

/-- The same file as another device has changed it, at the given version. -/
def changedElsewhere (version : Int) : FileRow where
  sourceId := "t"
  physicalPath := "y_a".toList
  fileSize := 2
  createdAt := 0
  modifiedAt := 5
  version := version
  deviceId := some "other"

theorem oneFile_bothPreserved_at_three :
    BothPreserved (oneFile.editAll "/a".toList [⟨3, 1, none, none, none⟩, ⟨4, 2, none, none, none⟩])
      (mergeRecord (fun _ => "t".toList)
        (oneFile.editAll "/a".toList [⟨3, 1, none, none, none⟩, ⟨4, 2, none, none, none⟩])
        ("/a".toList, changedElsewhere 3)) "/a".toList (changedElsewhere 3) :=
  (mergeRecord_bothPreserved_iff oneFile (fun _ => "t".toList) "/a".toList
    { sourceId := "s", physicalPath := "x_a".toList, fileSize := 1, createdAt := 0, modifiedAt := 0 }
    (changedElsewhere 3) [⟨3, 1, none, none, none⟩, ⟨4, 2, none, none, none⟩] (by decide)
    (by decide)).mpr ⟨by decide, by decide⟩

/-- Two edits against one: the server's change is taken for an old one and ignored. -/
theorem two_edits_hide_server_change :
    (∃ r, oneFile.store.lookupAny "/a".toList = some r ∧ r.syncStatus = .synced ∧
      r.version < (changedElsewhere 2).version) ∧
    ¬ BothPreserved
      (oneFile.editAll "/a".toList [⟨3, 1, none, none, none⟩, ⟨4, 2, none, none, none⟩])
      (mergeRecord (fun _ => "t".toList)
        (oneFile.editAll "/a".toList [⟨3, 1, none, none, none⟩, ⟨4, 2, none, none, none⟩])
        ("/a".toList, changedElsewhere 2)) "/a".toList (changedElsewhere 2) :=
  ⟨⟨_, rfl, rfl, by decide⟩, fun h => absurd h.server (by decide)⟩

end SyncClient

end StardustFS
