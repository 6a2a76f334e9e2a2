import StardustFS.FaultyVolume
import StardustFS.VolumePlaces

/-! What a storage source does when it fails: how far a write gets, and the exception a deletion meets,
both read off the source before the operation, and what the operation leaves of the source. -/

namespace DirectoryTree

variable {α β : Type*} [DecidableEq α]

/-- Making the parents of a path leaves what is at the path. -/
theorem get_of_makedirs_dropLast {t t' : DirectoryTree α β} {p : List α}
    (h : t.makedirs p.dropLast = .ok t') (hp : p ≠ []) : t'.get p = t.get p := by
  have hnot : ¬ p <+: p.dropLast := by
    intro hpre
    have hlen := hpre.length_le
    have hpos := List.length_pos_iff.mpr hp
    rw [List.length_dropLast] at hlen
    omega
  rw [get_makedirs h, if_neg fun hc => hnot hc.2]

/-- Making the parents puts a directory at the path only where it is the root. -/
theorem isDirectory_of_makedirs {t t' : DirectoryTree α β} {p : List α}
    (h : t.makedirs p.dropLast = .ok t') :
    t'.isDirectory p = (decide (p = []) || t.isDirectory p) := by
  by_cases hp : p = []
  · subst hp
    rw [decide_eq_true rfl, Bool.true_or]
    exact isDirectory_makedirs h
  · rw [isDirectory, isDirectory, get_of_makedirs_dropLast h hp, decide_eq_false hp, Bool.false_or]

/-- Where the parents have been made, a file can be written unless a directory is in its place. -/
theorem write_of_makedirs {t t' : DirectoryTree α β} {p : List α}
    (h : t.makedirs p.dropLast = .ok t') (b : β) :
    if t'.isDirectory p then t'.write p b = .error .isADirectory
    else ∃ t'', t'.write p b = .ok t'' := by
  have hparent : t'.isDirectory p.dropLast = true := isDirectory_makedirs h
  unfold write
  split_ifs with hdir
  · rfl
  · exact ⟨_, rfl⟩

theorem remove_of_not_isFile {t : DirectoryTree α β} {p : List α} (h : t.isFile p = false) :
    t.remove p = .error (if t.isDirectory p then .isADirectory else t.missing p) := by
  unfold isFile file? at h
  unfold remove isDirectory
  split
  · rename_i b hnode
    simp [hnode] at h
  · rename_i hnode
    simp [hnode]
  · rename_i hnode
    simp [hnode]

end DirectoryTree

namespace StardustFS

/-- How far the write of a source gets. -/
inductive Reach where
  /-- The source is out of service, or full. -/
  | refused
  /-- An exception comes before the file is opened. -/
  | unopened (r : Raised)
  /-- An exception comes after this many bytes. -/
  | opened (n : Nat) (r : Raised)
  | written
  deriving DecidableEq, Repr

namespace StorageSource

/-- A directory source takes itself out of service on the exception. -/
def withdraws (s : StorageSource) (r : Raised) : Bool := s.kind = .directory && r = .os

/-- How far a write gets. Where nothing fails from outside, a file on the way or a directory in the
place of the file stops it. -/
def reach (s : StorageSource) (fault : Option (WritePoint × Raised)) (physicalPath : Text)
    (size : Nat) : Reach :=
  let path := resolve physicalPath
  if !s.isActive || !s.hasRoom (((s.tree.file? path).map List.length).getD 0) size then .refused
  else match fault with
    | some (.makingParents, r) => .unopened r
    | _ =>
        if path.dropLast.inits.any s.tree.isFile then .unopened .os
        else match fault with
          | some (.opening, r) => .unopened r
          | _ =>
              if path = [] || s.tree.isDirectory path then .unopened .os
              else match fault with
                | some (.writing n, r) => .opened n r
                | _ => .written

/-- The exception a deletion meets. A loopback source passes over what is no file. -/
def deletion (s : StorageSource) (fault : Option Raised) (physicalPath : Text) : Option Raised :=
  let path := resolve physicalPath
  if s.tree.isFile path then fault
  else if s.kind ≠ .directory then none
  else match fault with
    | some r => some r
    | none =>
        if s.tree.isDirectory path || s.tree.missing path ≠ .fileNotFound then some .os
        else some .missing

/-- What a step leaves of a source: its files, and whether it is in service. -/
structure Leaves (s s' : StorageSource) (withdrawn : Bool) (files : List FileName → Option Bytes) :
    Prop where
  active : s'.isActive = (s.isActive && !withdrawn)
  files : s'.tree.file? = files

theorem Leaves.refl (s : StorageSource) : Leaves s s false s.tree.file? := ⟨by simp, rfl⟩

theorem Leaves.trans {s s₁ s₂ : StorageSource} {withdrawn withdrawn' : Bool}
    {files files' : List FileName → Option Bytes} (h : Leaves s s₁ withdrawn files)
    (h' : Leaves s₁ s₂ withdrawn' files') : Leaves s s₂ (withdrawn || withdrawn') files' := by
  refine ⟨?_, h'.files⟩
  rw [h'.active, h.active, Bool.not_or, Bool.and_assoc]

theorem leaves_withdrawn (s : StorageSource) (r : Raised) :
    Leaves s (s.withdrawn r) (s.withdraws r) s.tree.file? := by
  unfold withdrawn withdraws
  cases hkind : s.kind with
  | loopback _ => exact ⟨by simp, rfl⟩
  | directory =>
      cases r with
      | os => exact ⟨by simp, rfl⟩
      | missing => exact ⟨by simp, rfl⟩
      | other => exact ⟨by simp, rfl⟩

@[simp] theorem withdrawn_tree (s : StorageSource) (r : Raised) : (s.withdrawn r).tree = s.tree := by
  unfold withdrawn
  split <;> rfl

theorem leaves_raised (s : StorageSource) {e : DirectoryTree.Error} (he : e ≠ .fileNotFound) :
    Leaves s (s.raised e true) (s.withdraws .os) s.tree.file? := by
  refine ⟨?_, congrArg _ (raised_tree s e true)⟩
  unfold raised withdraws
  cases hkind : s.kind with
  | loopback _ => simp
  | directory => simp [he]

/-- A write that was opened has put its bytes at the path and nothing else. -/
theorem file?_write {t t' t'' : DirectoryTree FileName Bytes} {path : List FileName} {b : Bytes}
    (hdirs : t.makedirs path.dropLast = .ok t') (h : t'.write path b = .ok t'') :
    t''.file? = Function.update t.file? path (some b) := by
  funext q
  rw [Function.update_apply, ← file?_makedirs hdirs q, DirectoryTree.file?,
    DirectoryTree.get_write h q]
  split_ifs
  · rfl
  · rfl

/-- **What a write does**, by how far it gets. -/
inductive Writes (s : StorageSource) (path : List FileName) (data : Bytes) :
    Reach → Except Failure Unit × StorageSource → Prop where
  | refused (e : Failure) : Writes s path data .refused (.error e, s)
  | unopened {r : Raised} {e : Failure} {s' : StorageSource}
      (h : Leaves s s' (s.withdraws r) s.tree.file?)
      (hnode : path ≠ [] → s'.tree.get path = s.tree.get path) :
      Writes s path data (.unopened r) (.error e, s')
  | opened {n : Nat} {r : Raised} {e : Failure} {s' : StorageSource}
      (h : Leaves s s' (s.withdraws r) (Function.update s.tree.file? path (some (data.take n)))) :
      Writes s path data (.opened n r) (.error e, s')
  | written {s' : StorageSource}
      (h : Leaves s s' false (Function.update s.tree.file? path (some data))) :
      Writes s path data .written (.ok (), s')

theorem writeUnder_writes (s : StorageSource) (fault : Option (WritePoint × Raised)) (p : Text)
    (data : Bytes) :
    Writes s (resolve p) data (s.reach fault p data.length) (s.writeUnder fault p data) := by
  unfold reach writeUnder
  dsimp only
  by_cases hactive : (!s.isActive) = true
  · rw [if_pos hactive, if_pos (by rw [hactive, Bool.true_or])]
    exact .refused _
  by_cases hroom :
      (!s.hasRoom (((s.tree.file? (resolve p)).map List.length).getD 0) data.length) = true
  · rw [if_neg hactive, if_pos hroom, if_pos (by rw [hroom, Bool.or_true])]
    exact .refused _
  rw [if_neg hactive, if_neg hroom, if_neg (by
    rw [Bool.or_eq_true]
    exact not_or.mpr ⟨hactive, hroom⟩)]
  have hlater : ∀ tree : DirectoryTree FileName Bytes, tree.file? = s.tree.file? →
      (resolve p ≠ [] → tree.get (resolve p) = s.tree.get (resolve p)) → ∀ r e,
        Writes s (resolve p) data (.unopened r) (.error e, { s with tree }.withdrawn r) := by
    intro tree htree hnode r e
    have h := leaves_withdrawn { s with tree } r
    refine .unopened ⟨h.active, h.files.trans htree⟩ fun hpath => ?_
    rw [withdrawn_tree]
    exact hnode hpath
  have hnatural : ∀ tree : DirectoryTree FileName Bytes, tree.file? = s.tree.file? →
      (resolve p ≠ [] → tree.get (resolve p) = s.tree.get (resolve p)) → ∀ e f,
        e ≠ .fileNotFound →
        Writes s (resolve p) data (.unopened .os) (.error f, { s with tree }.raised e true) := by
    intro tree htree hnode e f he
    have h := leaves_raised { s with tree } he
    refine .unopened ⟨h.active, h.files.trans htree⟩ fun hpath => ?_
    rw [raised_tree]
    exact hnode hpath
  have hparents : ∀ r e, Writes s (resolve p) data (.unopened r) (.error e, s.withdrawn r) :=
    hlater s.tree rfl fun _ => rfl
  cases hdirs : s.tree.makedirs (resolve p).dropLast with
  | error e =>
      have hblocked : (resolve p).dropLast.inits.any s.tree.isFile = true := by
        by_contra hfree
        obtain ⟨t', ht'⟩ := DirectoryTree.makedirs_eq_ok_iff.mpr (Bool.not_eq_true _ ▸ hfree)
        rw [hdirs] at ht'
        cases ht'
      have hstopped := fun f =>
        hnatural s.tree rfl (fun _ => rfl) e f (DirectoryTree.ne_fileNotFound_of_makedirs hdirs)
      rw [if_pos hblocked]
      cases fault with
      | none => exact hstopped _
      | some fault =>
          obtain ⟨point, r⟩ := fault
          cases point with
          | makingParents => exact hparents r _
          | opening => exact hstopped _
          | writing n => exact hstopped _
  | ok tree =>
      have hfree : ¬ (resolve p).dropLast.inits.any s.tree.isFile = true := by
        rw [DirectoryTree.makedirs_eq_ok_iff.mp ⟨tree, hdirs⟩]
        decide
      have htree : tree.file? = s.tree.file? := funext (file?_makedirs hdirs)
      have hopen := fun b => DirectoryTree.write_of_makedirs hdirs b
      rw [DirectoryTree.isDirectory_of_makedirs hdirs] at hopen
      have hnode := DirectoryTree.get_of_makedirs_dropLast hdirs
      have hstopped := fun f => hnatural tree htree hnode .isADirectory f (by decide)
      rw [if_neg hfree]
      -- a directory in the place of the file stops what is not interrupted before
      split_ifs at hopen ⊢ with hdir
      · cases fault with
        | none =>
            dsimp only
            rw [hopen]
            exact hstopped _
        | some fault =>
            obtain ⟨point, r⟩ := fault
            cases point with
            | makingParents => exact hparents r _
            | opening => exact hlater tree htree hnode r _
            | writing n =>
                dsimp only
                rw [hopen]
                exact hstopped _
      · cases fault with
        | none =>
            dsimp only
            obtain ⟨t, ht⟩ := hopen data
            rw [ht]
            exact .written ⟨(Bool.and_true _).symm, file?_write hdirs ht⟩
        | some fault =>
            obtain ⟨point, r⟩ := fault
            cases point with
            | makingParents => exact hparents r _
            | opening => exact hlater tree htree hnode r _
            | writing n =>
                dsimp only
                obtain ⟨t, ht⟩ := hopen (data.take n)
                rw [ht]
                have h := leaves_withdrawn { s with tree := t } r
                exact .opened ⟨h.active, h.files.trans (file?_write hdirs ht)⟩

/-- **What a deletion does**, by the exception it meets. -/
inductive Deletes (s : StorageSource) (path : List FileName) :
    Option Raised → Except Failure Unit × StorageSource → Prop where
  | deleted {s' : StorageSource}
      (h : Leaves s s' false (Function.update s.tree.file? path none)) :
      Deletes s path none (.ok (), s')
  | notFound : Deletes s path (some .missing) (.error (.own (.source (.os .fileNotFound))), s)
  | missing : Deletes s path (some .missing) (.error (.injected .missing), s)
  | failed {r : Raised} {e : Failure} {s' : StorageSource} (hr : r ≠ .missing)
      (he : e ≠ .own (.source (.os .fileNotFound)) ∧ e ≠ .injected .missing)
      (h : Leaves s s' (s.withdraws r) s.tree.file?) : Deletes s path (some r) (.error e, s')

theorem withdrawn_deletes (s : StorageSource) (path : List FileName) (r : Raised) :
    Deletes s path (some r) (.error (.injected r), s.withdrawn r) := by
  by_cases hr : r = .missing
  · subst hr
    have hsame : s.withdrawn .missing = s := by
      unfold withdrawn
      cases s.kind <;> rfl
    rw [hsame]
    exact .missing
  · exact .failed hr (by simpa using hr) (leaves_withdrawn s r)

theorem deleteUnder_deletes {s : StorageSource} (hactive : s.isActive = true)
    (fault : Option Raised) (p : Text) :
    Deletes s (resolve p) (s.deletion fault p) (s.deleteUnder fault p) := by
  have hgone : ∀ {s'}, s.delete p = (.ok (), s') →
      Deletes s (resolve p) none (.ok (), s') := by
    intro s' hdelete
    obtain ⟨-, hactive', hfiles⟩ := delete_ok hdelete
    refine .deleted ⟨by rw [hactive', hactive]; rfl, funext fun q => ?_⟩
    rw [hfiles, Function.update_apply]
  have hinactive : ¬ (!s.isActive) = true := by simp [hactive]
  cases hfile : s.tree.isFile (resolve p) with
  | true =>
      have hblock : ¬ (s.kind ≠ .directory ∧ (!s.tree.isFile (resolve p)) = true) := by simp [hfile]
      unfold deletion
      rw [if_pos hfile]
      cases fault with
      | none =>
          obtain ⟨b, hb⟩ := Option.isSome_iff_exists.mp hfile
          obtain ⟨tree, htree⟩ := DirectoryTree.exists_remove (DirectoryTree.file?_eq_some_iff.mp hb)
          obtain ⟨s', hdelete⟩ : ∃ s', s.delete p = (.ok (), s') := by
            unfold delete
            dsimp only
            rw [if_neg hinactive, htree]
            exact ⟨_, rfl⟩
          unfold deleteUnder
          rw [hdelete]
          exact hgone hdelete
      | some r =>
          unfold deleteUnder
          dsimp only
          rw [if_neg hinactive, if_neg hblock]
          exact withdrawn_deletes s _ r
  | false =>
      have hremove := DirectoryTree.remove_of_not_isFile hfile
      have hnot : ¬ s.tree.isFile (resolve p) = true := by simp [hfile]
      unfold deletion
      rw [if_neg hnot]
      by_cases hkind : s.kind = .directory
      · have hblock : ¬ (s.kind ≠ .directory ∧ (!s.tree.isFile (resolve p)) = true) :=
          fun h => h.1 hkind
        rw [if_neg (fun h => h hkind)]
        cases fault with
        | none =>
            have hdelete : ∀ e, s.tree.remove (resolve p) = .error e →
                s.delete p = (.error (.os e), s.raised e true) := by
              intro e he
              unfold delete
              dsimp only
              rw [if_neg hinactive, he]
              simp only [hkind]
            unfold deleteUnder
            rw [hdelete _ hremove]
            have hfail : ∀ e : DirectoryTree.Error, e ≠ .fileNotFound → Deletes s (resolve p)
                (some .os) (.error (.own (.source (.os e))), s.raised e true) := fun e he =>
              .failed (by decide) (by simpa using he) (leaves_raised s he)
            cases hdir : s.tree.isDirectory (resolve p) with
            | true => exact hfail .isADirectory (by decide)
            | false =>
                by_cases hmissing : s.tree.missing (resolve p) = .fileNotFound
                · have hsame : s.raised .fileNotFound true = s := by simp [raised, hkind]
                  simp only [hmissing, Bool.false_or, ne_eq, not_true_eq_false, decide_false,
                    Bool.false_eq_true, reduceIte, hsame]
                  exact .notFound
                · simp only [hmissing, Bool.false_or, ne_eq, not_false_eq_true, decide_true,
                    Bool.false_eq_true, reduceIte]
                  exact hfail _ hmissing
        | some r =>
            unfold deleteUnder
            dsimp only
            rw [if_neg hinactive, if_neg hblock]
            exact withdrawn_deletes s _ r
      · have hblock : s.kind ≠ .directory ∧ (!s.tree.isFile (resolve p)) = true :=
          ⟨hkind, by rw [hfile]; rfl⟩
        have hdelete : s.delete p = (.ok (), s) := by
          unfold delete
          dsimp only
          rw [if_neg hinactive, hremove]
          cases hloop : s.kind with
          | directory => exact absurd hloop hkind
          | loopback _ => rfl
        rw [if_pos hkind]
        cases fault with
        | none =>
            unfold deleteUnder
            rw [hdelete]
            exact hgone hdelete
        | some r =>
            unfold deleteUnder
            dsimp only
            rw [if_neg hinactive, if_pos hblock]
            exact hgone hdelete

theorem isActive_of_reach {s : StorageSource} {fault : Option (WritePoint × Raised)} {p : Text}
    {size : Nat} (h : s.reach fault p size ≠ .refused) : s.isActive = true := by
  cases hactive : s.isActive with
  | true => rfl
  | false =>
      refine absurd ?_ h
      unfold reach
      exact if_pos (by rw [hactive]; rfl)

end StorageSource

end StardustFS
