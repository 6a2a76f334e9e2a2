import StardustFS.LoopbackSource

/-! One process with a loopback source of its own: what its counter says about the companion
directory in every run, and what is left of the size for a new file. -/

namespace StardustFS

namespace Loopback

/-- The counter is exact and within the size, and what is left of it is left to the write of a new
file for which a volume selects the source. -/
structure Exact (s : Loopback Unit) : Prop where
  used : (s.handle ()).usedBytes = s.storedBytes
  limit : s.storedBytes ≤ s.sizeBytes
  selected : ∀ (j : JbodManager) (diskFree : SourceId → Nat) (id : SourceId) (p : Text) (data : Bytes),
    j.selectSource diskFree data.length = some id → j.sources.get id = some (s.source ()) →
      (s.source ()).contents p = none →
        ((s.source ()).write p data).1 ≠ .error .insufficientSpace

/-- A directory that is removed holds no bytes. -/
def RemovesNothing (s : Loopback Unit) : LoopbackEvent Unit → Prop
  | .call _ c => c.op = .rmdir → (s.handle ()).isActive = true →
      s.companion.isDirectory (StorageSource.resolve c.physicalPath) = true →
        s.companion.sizeBelow List.length (StorageSource.resolve c.physicalPath) = 0
  | .initializeSource _ _ => True

/-- What the counter is in every run: no less than what is there, and within the size. -/
structure Bounded (s : Loopback Unit) : Prop where
  stored : s.storedBytes ≤ (s.handle ()).usedBytes
  used : (s.handle ()).usedBytes ≤ (s.sizeBytes : Nat)
  absent : s.fileExists = false → (s.handle ()).isActive = false ∧ s.storedBytes = 0

theorem bounded_fresh (sizeBytes : LoopbackSize) (fileExists : Bool) :
    (fresh sizeBytes fileExists : Loopback Unit).Bounded where
  stored := Int.le_refl 0
  used := Int.natCast_nonneg _
  absent _ := ⟨rfl, rfl⟩

variable {s s' : Loopback Unit}

theorem Bounded.limit (h : s.Bounded) : s.storedBytes ≤ s.sizeBytes := by
  have hle : (s.storedBytes : Int) ≤ (s.sizeBytes : Nat) := by
    calc (s.storedBytes : Int) ≤ (s.handle ()).usedBytes := h.stored
      _ ≤ (s.sizeBytes : Nat) := h.used
  exact Int.ofNat_le.mp hle

theorem Bounded.initializeSource (h : s.Bounded) (creation : Creation) :
    (s.initializeSource () creation).Bounded := by
  have hstored₀ := h.stored
  have hused₀ := h.used
  cases s.initialize_effect () creation with
  | mounted hsize hfile hstored hhandle =>
      refine ⟨?_, ?_, fun hno => ?_⟩
      · rw [hhandle, Function.update_self, hstored]
      · rw [hhandle, Function.update_self, hsize]
        exact Int.le_trans hstored₀ hused₀
      · rw [hfile] at hno
        cases hno
  | raised _ hsize hfile hstored hhandle =>
      refine ⟨?_, ?_, fun hno => ?_⟩
      · rw [hhandle, hstored]
        exact hstored₀
      · rw [hhandle, hsize]
        exact hused₀
      · rw [hfile] at hno
        cases hno
  | cleaned hfile hsize hstored hhandle =>
      -- Nothing was there when the creation began, so nothing is there now.
      have hnone : s.storedBytes = 0 := (h.absent hfile).2
      refine ⟨?_, ?_, fun _ => ⟨?_, by omega⟩⟩
      · rw [hhandle, Function.update_self]
        dsimp only
        omega
      · rw [hhandle, Function.update_self, hsize]
        exact hused₀
      · rw [hhandle, Function.update_self]

theorem Bounded.call (h : s.Bounded) (c : SourceCall) : (s.call () c).Bounded := by
  have hstored := h.stored
  have hused := h.used
  have hscan : (s.source ()).scanUsedSpace = s.storedBytes := rfl
  have husedOf : (s.source ()).usedBytes = (s.handle ()).usedBytes := rfl
  have hbound : (s.call () c).storedBytes ≤ ((s.call () c).handle ()).usedBytes ∧
      ((s.call () c).handle ()).usedBytes ≤ (s.sizeBytes : Nat) := by
    rw [storedBytes_call, usedBytes_call]
    cases s.call_effect () c with
    | same hused' hscan' =>
        rw [hused', hscan']
        exact ⟨hstored, hused⟩
    | @written id p data _ hactive hwritable hroom hused' hscan' =>
        have hroom' := (StorageSource.hasRoom_iff rfl _ _).mp hroom
        have hsize : (s.source ()).existingSize p ≤ (s.source ()).scanUsedSpace :=
          DirectoryTree.sizeAt_le_totalSize List.length _ _
        rw [hused']
        omega
    | @deleted id p _ hused' hscan' =>
        rw [hused']
        omega
    | removed _ _ hused' hscan' =>
        rw [hused']
        omega
  refine ⟨hbound.1, hbound.2, fun hfile => ?_⟩
  obtain ⟨hinactive, hnone⟩ := h.absent hfile
  rw [call_of_inactive hinactive]
  exact ⟨hinactive, hnone⟩

/-- The bounds hold after every step. -/
theorem Bounded.step (h : s.Bounded) {e : LoopbackEvent Unit} (he : s.step e = some s') :
    s'.Bounded := by
  cases e with
  | initializeSource i creation =>
      obtain rfl := Option.some_inj.mp he
      exact h.initializeSource creation
  | call i c =>
      obtain rfl := Option.some_inj.mp he
      exact h.call c.toSourceCall

/-- **The reserved size is kept in every run of one process.** -/
theorem storedBytes_le_sizeBytes {sizeBytes : LoopbackSize} {fileExists : Bool}
    {es : List (LoopbackEvent Unit)}
    (hrun : Transitions.run step (fresh sizeBytes fileExists) es = some s) :
    s.storedBytes ≤ s.sizeBytes := by
  have hbounded : s.Bounded :=
    Transitions.run_preserves (fun _ _ _ h he => h.step he) (bounded_fresh sizeBytes fileExists) hrun
  exact hbounded.limit

/-! ### When the counter is exact -/

/-- What a volume selects a source for, the source accepts as a new file. -/
theorem write_of_selected {ι : Type} {s : Loopback ι} {i : ι} {j : JbodManager}
    {diskFree : SourceId → Nat} {id : SourceId} {p : Text} {data : Bytes}
    (hselect : j.selectSource diskFree data.length = some id)
    (hsource : j.sources.get id = some (s.source i)) (hnew : (s.source i).contents p = none) :
    ((s.source i).write p data).1 ≠ .error .insufficientSpace := by
  obtain ⟨source, hget, hactive, hspace⟩ := JbodManager.selectSource_spec hselect
  obtain rfl := Option.some_inj.mp (hget.symm.trans hsource)
  have hsize : (s.source i).existingSize p = 0 := by
    unfold StorageSource.existingSize DirectoryTree.sizeAt
    rw [show (s.source i).tree.file? (StorageSource.resolve p) = none from hnew]
    rfl
  have hspace' : data.length ≤ ((s.sizeBytes : Nat) - (s.source i).usedBytes).toNat := hspace
  intro hrefused
  have hroom := (StorageSource.write_refused_iff hactive).mp hrefused
  have hfits : (s.source i).hasRoom ((s.source i).existingSize p) data.length = true := by
    refine (StorageSource.hasRoom_iff rfl _ _).mpr fun hgrows => ?_
    rw [hsize] at hgrows ⊢
    omega
  rw [hfits] at hroom
  cases hroom

theorem Bounded.exact (h : s.Bounded) (hused : (s.handle ()).usedBytes ≤ s.storedBytes) :
    s.Exact where
  used := Int.le_antisymm hused h.stored
  limit := h.limit
  selected _ _ _ _ _ := write_of_selected

/-- An initialization leaves the counter exact. -/
theorem used_initializeSource (h : s.Bounded) (hused : (s.handle ()).usedBytes ≤ s.storedBytes)
    (creation : Creation) :
    ((s.initializeSource () creation).handle ()).usedBytes ≤
      (s.initializeSource () creation).storedBytes := by
  cases s.initialize_effect () creation with
  | mounted _ _ hstored hhandle => rw [hhandle, Function.update_self, hstored]
  | raised _ _ _ hstored hhandle =>
      rw [hhandle, hstored]
      exact hused
  | cleaned hfile _ hstored hhandle =>
      have hnone : s.storedBytes = 0 := (h.absent hfile).2
      rw [hhandle, Function.update_self]
      dsimp only
      omega

/-- A call that removes no bytes with a directory changes the counter as it changes the companion
directory. -/
theorem used_call (hused : (s.handle ()).usedBytes ≤ s.storedBytes) {c : SourceCall}
    (hremoves : c.op = .rmdir → (s.handle ()).isActive = true →
      s.companion.isDirectory (StorageSource.resolve c.physicalPath) = true →
        s.companion.sizeBelow List.length (StorageSource.resolve c.physicalPath) = 0) :
    ((s.call () c).handle ()).usedBytes ≤ (s.call () c).storedBytes := by
  have hscan : (s.source ()).scanUsedSpace = s.storedBytes := rfl
  have husedOf : (s.source ()).usedBytes = (s.handle ()).usedBytes := rfl
  rw [storedBytes_call, usedBytes_call]
  cases s.call_effect () c with
  | same hused' hscan' =>
      rw [hused', hscan']
      exact hused
  | written hactive hwritable hroom hused' hscan' =>
      rw [hused']
      omega
  | deleted hused' hscan' =>
      rw [hused']
      omega
  | @removed id p _ hactive hdir hused' hscan' =>
      have hnone : (s.source ()).tree.sizeBelow List.length (StorageSource.resolve p) = 0 :=
        hremoves rfl hactive hdir
      rw [hused']
      omega

/-- A step that removes no bytes with a directory leaves the counter no higher than what is there. -/
theorem used_step (h : s.Bounded) (hused : (s.handle ()).usedBytes ≤ s.storedBytes)
    {e : LoopbackEvent Unit} (hremoves : s.RemovesNothing e) (he : s.step e = some s') :
    (s'.handle ()).usedBytes ≤ s'.storedBytes := by
  cases e with
  | initializeSource i creation =>
      obtain rfl := Option.some_inj.mp he
      exact used_initializeSource h hused creation
  | call i c =>
      obtain rfl := Option.some_inj.mp he
      exact used_call hused hremoves

/-- A directory that is removed with bytes in it leaves the counter above what is there. -/
theorem not_exact_of_removes (hused : (s.handle ()).usedBytes = s.storedBytes)
    {e : LoopbackEvent Unit} (hremoves : ¬ s.RemovesNothing e) (he : s.step e = some s') :
    ¬ s'.Exact := by
  intro hexact
  cases e with
  | initializeSource i creation => exact hremoves trivial
  | call i c =>
      obtain rfl := Option.some_inj.mp he
      refine hremoves fun hop hactive hdir => ?_
      have happly : c.toSourceCall.apply (s.source i) = ((s.source i).rmdir c.physicalPath).2 := by
        unfold SourceCall.apply
        rw [hop]
      obtain ⟨husedAfter, hscan⟩ := StorageSource.rmdir_of_directory (s := s.source i) hactive hdir
      have hafter := hexact.used
      rw [storedBytes_call, usedBytes_call, happly, husedAfter] at hafter
      have hbefore : (s.source i).usedBytes = (s.source i).scanUsedSpace := hused
      show (s.source i).tree.sizeBelow List.length (StorageSource.resolve c.physicalPath) = 0
      omega

/-- **A loopback source of one process counts exactly in the runs that remove no bytes with a
directory, and in no others.** -/
theorem exact_iff_removesNothing (sizeBytes : LoopbackSize) (fileExists : Bool)
    (es : List (LoopbackEvent Unit)) :
    Transitions.StatesMeet step Exact (fresh sizeBytes fileExists) es ↔
      Transitions.StepsMeet step RemovesNothing (fresh sizeBytes fileExists) es := by
  refine Transitions.statesMeet_iff_stepsMeet_of_total
    (I := fun s => s.Bounded ∧ (s.handle ()).usedBytes ≤ s.storedBytes) exists_step
    (fun s h => h.1.exact h.2) (fun s e s' h hremoves he => ?_) (fun s e s' h hremoves he => ?_)
    ⟨bounded_fresh sizeBytes fileExists, Int.le_refl 0⟩ es
  · exact ⟨h.1.step he, used_step h.1 h.2 hremoves he⟩
  · exact not_exact_of_removes (Int.le_antisymm h.2 h.1.stored) hremoves he

/-- A directory with a file of one byte is made and removed: the companion directory is empty, and
the counter stays at one byte. -/
theorem removed_directory_counted :
    ∃ s : Loopback Unit,
      Transitions.run step (fresh ⟨minLoopbackSize, by decide⟩ false)
        [.initializeSource () .created,
          .call () ⟨⟨"s", .write [7], "d/a".toList⟩, by decide, by decide,
            (by decide : ¬ Text.Silent ['a'])⟩,
          .call () ⟨⟨"s", .rmdir, "d".toList⟩, by decide, by decide, trivial⟩] = some s ∧
      s.storedBytes = 0 ∧ (s.handle ()).usedBytes = 1 ∧ ¬ s.Exact := by
  refine ⟨_, rfl, by decide, by decide, fun h => ?_⟩
  have := h.used
  revert this
  decide

end Loopback

end StardustFS
