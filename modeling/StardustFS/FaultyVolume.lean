import StardustFS.JbodOperations

/-! The writes and deletions of a volume with exceptions from outside: a step of a storage source or
of the database raises at a point of choice, and the call goes through its `except` blocks, whose own
steps may raise as well. Without a fault the calls are the ones of the volume. -/

namespace StardustFS

/-- The kind of an exception, as the `except` clauses tell it. -/
inductive Raised where
  /-- A `FileNotFoundError`. -/
  | missing
  /-- Any other `OSError`. -/
  | os
  /-- No `OSError`. -/
  | other
  deriving DecidableEq, Repr

/-- Where the write of a source is interrupted. -/
inductive WritePoint where
  | makingParents
  | opening
  /-- The file has been opened, which empties or makes it, and this many bytes have reached it. -/
  | writing (n : Nat)
  deriving DecidableEq, Repr

/-- How a statement of the database fails. -/
inductive StatementFault where
  /-- Nothing has been changed, or the change has been taken back. -/
  | undone
  /-- The statement's own commit raises: its transaction stays open until a rollback, and the
  connection reads the change. -/
  | leftOpen
  deriving DecidableEq, Repr

/-- The exceptions the steps of one call meet: of the source's write, of the statement that records
the call, of the commit after it, of the source's deletion. -/
structure Faults where
  write : Option (WritePoint × Raised) := none
  statement : Option StatementFault := none
  commit : Bool := false
  delete : Option Raised := none
  deriving DecidableEq, Repr

/-- The exception a call ends with: one of its own, or one from outside. -/
inductive Failure where
  | own (e : JbodError)
  | injected (r : Raised)
  | database
  deriving DecidableEq, Repr

namespace StorageSource

/-- The source after an exception from outside, in the part of an operation that is guarded. -/
def withdrawn (s : StorageSource) (r : Raised) : StorageSource :=
  match s.kind, r with
  | .directory, .os => { s with isActive := false }
  | _, _ => s

/-- `write` with an exception from outside. -/
def writeUnder (s : StorageSource) (fault : Option (WritePoint × Raised)) (physicalPath : Text)
    (data : Bytes) : Except Failure Unit × StorageSource :=
  let path := resolve physicalPath
  let existingSize := ((s.tree.file? path).map List.length).getD 0
  if !s.isActive then (.error (.own (.source .inactive)), s)
  else if !s.hasRoom existingSize data.length then (.error (.own (.source .insufficientSpace)), s)
  else match fault with
    | some (.makingParents, r) => (.error (.injected r), s.withdrawn r)
    | _ =>
        match s.tree.makedirs path.dropLast with
        | .error e => (.error (.own (.source (.os e))), s.raised e true)
        | .ok tree =>
            match fault with
            | some (.opening, r) => (.error (.injected r), { s with tree }.withdrawn r)
            | some (.writing n, r) =>
                match tree.write path (data.take n) with
                | .error e => (.error (.own (.source (.os e))), { s with tree }.raised e true)
                | .ok tree => (.error (.injected r), { s with tree }.withdrawn r)
            | _ =>
                match tree.write path data with
                | .error e => (.error (.own (.source (.os e))), { s with tree }.raised e true)
                | .ok tree =>
                    (.ok (), { s with tree, usedBytes := s.usedBytes + (data.length - existingSize) })

/-- `delete` with an exception from outside. A loopback source does nothing where there is no file. -/
def deleteUnder (s : StorageSource) (fault : Option Raised) (physicalPath : Text) :
    Except Failure Unit × StorageSource :=
  match fault with
  | none =>
      match s.delete physicalPath with
      | (.ok _, s) => (.ok (), s)
      | (.error e, s) => (.error (.own (.source e)), s)
  | some r =>
      if !s.isActive then (.error (.own (.source .inactive)), s)
      else if s.kind ≠ .directory ∧ !s.tree.isFile (resolve physicalPath) then (.ok (), s)
      else (.error (.injected r), s.withdrawn r)

theorem writeUnder_none (s : StorageSource) (p : Text) (data : Bytes) :
    s.writeUnder none p data =
      match s.write p data with
      | (.ok _, s) => (.ok (), s)
      | (.error e, s) => (.error (.own (.source e)), s) := by
  unfold writeUnder write
  dsimp only
  split_ifs
  · rfl
  · rfl
  · cases s.tree.makedirs (resolve p).dropLast with
    | error e => rfl
    | ok tree =>
        dsimp only
        cases tree.write (resolve p) data <;> rfl

end StorageSource

namespace JbodManager

/-- The result of a call under faults, and the volume after it. -/
abbrev Outcome := Except Failure Unit × JbodManager

def withSource (j : JbodManager) (sourceId : SourceId) (s : StorageSource) : JbodManager :=
  { j with sources := j.sources.update sourceId fun _ => s }

/-- The cleanup after a failed write: its own exceptions come first. -/
def discardPartialUnder (j : JbodManager) (faults : Faults) (sourceId : SourceId)
    (physicalPath : Text) (e : Failure) : Outcome :=
  match j.sources.get sourceId with
  | none => (.error e, j)
  | some s =>
      match s.exists physicalPath with
      | .error e' => (.error (.own (.source e')), j)
      | .ok false => (.error e, j)
      | .ok true =>
          match s.deleteUnder faults.delete physicalPath with
          | (.error e', s) => (.error e', j.withSource sourceId s)
          | (.ok _, s) => (.error e, j.withSource sourceId s)

/-- A write at a new place under faults. A rollback undoes the statement where the statement raised;
after the statement's own commit there is nothing to roll back. -/
def writeNewUnder (j : JbodManager) (faults : Faults) (reading : Reading) (virtualPath : Text)
    (encrypted : Bytes) (failure : Failure → Failure)
    (record : JbodManager → SourceId → MetadataStore) (done : JbodManager → JbodManager) :
    Outcome :=
  match j.selectSource reading.diskFree encrypted.length with
  | none => (.error (.own .insufficientStorage), j)
  | some sourceId =>
      let physicalPath := generatePhysicalPath reading.uuid virtualPath
      match j.sources.get sourceId with
      | none => (.error (.own .insufficientStorage), j)
      | some s =>
          match s.writeUnder faults.write physicalPath encrypted with
          | (.error e, s) =>
              (j.withSource sourceId s).discardPartialUnder faults sourceId physicalPath (failure e)
          | (.ok _, s) =>
              let j := j.withSource sourceId s
              if faults.statement.isSome then
                j.discardPartialUnder faults sourceId physicalPath .database
              else
                let j := { j with metadataStore := record j sourceId }
                if faults.commit then
                  j.discardPartialUnder faults sourceId physicalPath .database
                else (.ok (), done j)

/-- A full loopback source is reported as missing storage. -/
def storageFailure : Failure → Failure
  | .own (.source .insufficientSpace) => .own .insufficientStorage
  | e => e

def takeoverWriteUnder (j : JbodManager) (faults : Faults) (reading : Reading) (virtualPath : Text)
    (encrypted : Bytes) (plainSize : Nat) : Outcome :=
  j.writeNewUnder faults reading virtualPath encrypted storageFailure
    (fun j sourceId => j.metadataStore.update virtualPath plainSize reading.now j.deviceId
      (some sourceId) (some (generatePhysicalPath reading.uuid virtualPath)))
    (fun j => { j with gcNeeded := true })

def createFileUnder (j : JbodManager) (faults : Faults) (reading : Reading) (virtualPath : Text)
    (encrypted : Bytes) (plainSize : Nat) : Outcome :=
  j.writeNewUnder faults reading virtualPath encrypted id
    (fun j sourceId => j.metadataStore.insert virtualPath sourceId
      (generatePhysicalPath reading.uuid virtualPath) plainSize reading.now reading.now j.deviceId)
    id

/-- The write in place under faults; nothing is cleaned up. -/
def overwriteUnder (j : JbodManager) (faults : Faults) (reading : Reading) (virtualPath : Text)
    (existing : FileRow) (encrypted : Bytes) (plainSize : Nat) : Outcome :=
  match j.sources.get existing.sourceId with
  | none => (.error (.own .sourceInactive), j)
  | some s =>
      if !s.isActive then (.error (.own .sourceInactive), j)
      else match s.writeUnder faults.write existing.physicalPath encrypted with
        | (.error e, s) => (.error (storageFailure e), j.withSource existing.sourceId s)
        | (.ok _, s) =>
            let j := j.withSource existing.sourceId s
            if faults.statement.isSome then (.error .database, j)
            else
              let j := { j with
                metadataStore := j.metadataStore.update virtualPath plainSize reading.now
                  j.deviceId none none }
              if faults.commit then (.error .database, j) else (.ok (), j)

def writeFileUnder (j : JbodManager) (faults : Faults) (reading : Reading) (virtualPath : Text)
    (data : Bytes) : Outcome :=
  let encrypted := j.encrypt reading.iv data
  match j.metadataStore.lookup virtualPath with
  | some existing =>
      if j.ownedElsewhere existing then
        j.takeoverWriteUnder faults reading virtualPath encrypted data.length
      else j.overwriteUnder faults reading virtualPath existing encrypted data.length
  | none => j.createFileUnder faults reading virtualPath encrypted data.length

/-- The tombstone of a deletion. No rollback follows it where it raises. -/
def buryUnder (j : JbodManager) (faults : Faults) (now : Time) (virtualPath : Text) : Outcome :=
  let buried := { j with metadataStore := j.metadataStore.delete virtualPath now }
  match faults.statement with
  | none => (.ok (), buried)
  | some .undone => (.error .database, j)
  | some .leftOpen => (.error .database, buried)

def deleteFileUnder (j : JbodManager) (faults : Faults) (now : Time) (virtualPath : Text) :
    Outcome :=
  match j.metadataStore.lookup virtualPath with
  | none => (.error (.own .fileNotFound), j)
  | some metadata =>
      if j.ownedElsewhere metadata then j.buryUnder faults now virtualPath
      else match j.sources.get metadata.sourceId with
        | none => j.buryUnder faults now virtualPath
        | some s =>
            if !s.isActive then j.buryUnder faults now virtualPath
            else match s.deleteUnder faults.delete metadata.physicalPath with
              | (.ok _, s) =>
                  (j.withSource metadata.sourceId s).buryUnder faults now virtualPath
              | (.error (.own (.source (.os .fileNotFound))), s)
              | (.error (.injected .missing), s) =>
                  (j.withSource metadata.sourceId s).buryUnder faults now virtualPath
              | (.error e, s) => (.error e, j.withSource metadata.sourceId s)

/-- The result of a call as the volume without faults gives it. -/
def owned (x : Except JbodError Unit × JbodManager) : Outcome :=
  (x.1.mapError Failure.own, x.2)

theorem discardPartialUnder_none (j : JbodManager) (sourceId : SourceId) (p : Text) (e : JbodError) :
    j.discardPartialUnder {} sourceId p (.own e) = owned (j.discardPartial sourceId p e) := by
  unfold discardPartialUnder discardPartial
  cases j.sources.get sourceId with
  | none => rfl
  | some s =>
      dsimp only
      cases s.exists p with
      | error e' => rfl
      | ok found =>
          cases found with
          | false => rfl
          | true =>
              dsimp only [StorageSource.deleteUnder, onSource]
              obtain ⟨result, s', hdelete⟩ : ∃ result s', s.delete p = (result, s') := ⟨_, _, rfl⟩
              rw [hdelete]
              cases result <;> rfl

theorem writeNewUnder_none (j : JbodManager) (reading : Reading) (p : Text) (encrypted : Bytes)
    {failure : Failure → Failure} {failure' : SourceError → JbodError}
    {record : JbodManager → SourceId → MetadataStore} {done : JbodManager → JbodManager}
    {record' : JbodManager → SourceId → JbodManager}
    (hfailure : ∀ e, failure (.own (.source e)) = .own (failure' e))
    (hrecord : ∀ j sourceId, done { j with metadataStore := record j sourceId } =
      record' j sourceId) :
    j.writeNewUnder {} reading p encrypted failure record done =
      owned (j.writeNew reading p encrypted failure' record') := by
  unfold writeNewUnder writeNew
  cases j.selectSource reading.diskFree encrypted.length with
  | none => rfl
  | some sourceId =>
      dsimp only
      cases j.sources.get sourceId with
      | none => rfl
      | some s =>
          dsimp only [onSource]
          rw [StorageSource.writeUnder_none]
          obtain ⟨result, s', hwrite⟩ : ∃ result s', s.write (generatePhysicalPath reading.uuid p)
              encrypted = (result, s') := ⟨_, _, rfl⟩
          rw [hwrite]
          cases result with
          | error e =>
              dsimp only
              rw [hfailure]
              exact discardPartialUnder_none _ sourceId _ _
          | ok _ => exact congrArg (Prod.mk _) (hrecord _ sourceId)

theorem storageFailure_source (e : SourceError) :
    storageFailure (.own (.source e)) = .own (storageError e) := by
  cases e <;> rfl

/-- Without a fault a write is the volume's. -/
theorem writeFileUnder_none (j : JbodManager) (reading : Reading) (p : Text) (data : Bytes) :
    j.writeFileUnder {} reading p data = owned (j.writeFile reading p data) := by
  unfold writeFileUnder writeFile
  dsimp only
  cases j.metadataStore.lookup p with
  | none =>
      dsimp only
      rw [createFile_eq]
      exact j.writeNewUnder_none reading p _ (fun _ => rfl) fun _ _ => rfl
  | some existing =>
      dsimp only
      split_ifs
      · rw [takeoverWrite_eq]
        exact j.writeNewUnder_none reading p _ storageFailure_source fun _ _ => rfl
      · unfold overwriteUnder overwrite
        cases j.sources.get existing.sourceId with
        | none => rfl
        | some s =>
            simp only [onSource, Option.isSome_none, Bool.false_eq_true, reduceIte]
            split_ifs
            · rfl
            · rw [StorageSource.writeUnder_none]
              obtain ⟨result, s', hwrite⟩ : ∃ result s', s.write existing.physicalPath
                  (j.encrypt reading.iv data) = (result, s') := ⟨_, _, rfl⟩
              rw [hwrite]
              cases result with
              | error e => exact Prod.ext (congrArg Except.error (storageFailure_source e)) rfl
              | ok _ => rfl

/-- Without a fault a deletion is the volume's. -/
theorem deleteFileUnder_none (j : JbodManager) (now : Time) (p : Text) :
    j.deleteFileUnder {} now p = owned (j.deleteFile now p) := by
  unfold deleteFileUnder deleteFile
  cases j.metadataStore.lookup p with
  | none => rfl
  | some metadata =>
      dsimp only
      split_ifs
      · rfl
      · cases j.sources.get metadata.sourceId with
        | none => rfl
        | some s =>
            dsimp only [onSource, StorageSource.deleteUnder]
            split_ifs
            · rfl
            · obtain ⟨result, s', hdelete⟩ : ∃ result s', s.delete metadata.physicalPath =
                  (result, s') := ⟨_, _, rfl⟩
              rw [hdelete]
              cases result with
              | ok _ => rfl
              | error e =>
                  cases e with
                  | os e => cases e <;> rfl
                  | inactive => rfl
                  | insufficientSpace => rfl

end JbodManager

end StardustFS
