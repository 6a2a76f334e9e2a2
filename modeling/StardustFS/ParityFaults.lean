import StardustFS.ChunkIsolation

/-! The parity store when its calls are broken off. A store replaces the file of the chunk and then
the index, a deletion removes the file and then replaces the index; every file step may raise, and the
process may die before it. What is left then is the running store, or the one opened on the
directory again. -/

namespace StardustFS

open FsEncoding

namespace ParityStore

/-- Where the replacement of a file is broken off. -/
inductive ReplaceCut where
  /-- The temporary file is not opened. -/
  | opening
  /-- The temporary file has been opened and this many bytes have reached it. -/
  | writing (n : Nat)
  deriving DecidableEq, Repr

/-- What a replacement that is broken off leaves. -/
def cutReplacing (dir : Table FileNameBytes Bytes) (name : FileNameBytes)
    (data : Bytes) : ReplaceCut → Table FileNameBytes Bytes
  | .opening => dir
  | .writing n => dir.put (tmpName name) (data.take n)

/-- How a call is broken off: the step raises, or the process dies and a store with this limit is
opened on the directory. -/
inductive Break where
  | raises
  | dies (maxBytes : Option Int)
  deriving DecidableEq, Repr

/-- Where a store is broken off. -/
inductive StorePoint where
  | chunkFile (cut : ReplaceCut)
  | indexFile (cut : ReplaceCut)
  deriving DecidableEq, Repr

/-- Where a deletion is broken off. -/
inductive DeletePoint where
  | removing
  | indexFile (cut : ReplaceCut)
  deriving DecidableEq, Repr

/-- `_load_index`: a missing or damaged index counts as empty. -/
def loadIndex (load : Bytes → Option (Table ChunkId ChunkMeta))
    (dir : Table FileNameBytes Bytes) : Table ChunkId ChunkMeta :=
  match dir.get indexName with
  | none => Table.empty
  | some text => (load text).getD Table.empty

/-- A new store on the directory of an old one. -/
def reopened (load : Bytes → Option (Table ChunkId ChunkMeta)) (s : ParityStore)
    (maxBytes : Option Int) : ParityStore :=
  { s with index := loadIndex load s.dir, maxBytes }

/-- A store up to the point, with no result where it got there. -/
def storeUntil (s : ParityStore) (point : StorePoint) (chunkId : ChunkId) (owner : UserId)
    (data : Bytes) : Option (Except ParityError Unit) × ParityStore :=
  match s.refusal chunkId owner data.length with
  | some e => (some (.error e), s)
  | none =>
      match chunkPath chunkId with
      | none => (some (.error .valueError), s)
      | some path =>
          match point with
          | .chunkFile cut => (none, { s with dir := cutReplacing s.dir path data cut })
          | .indexFile cut =>
              let index := s.index.put chunkId ⟨owner, data.length⟩
              let dir := writeReplacing s.dir path data
              (none, { s with dir := cutReplacing dir indexName (s.dump index) cut, index })

/-- A deletion up to the point. An `OSError` of the removal is passed over. -/
def deleteUntil (s : ParityStore) (point : DeletePoint) (broken : Break) (chunkId : ChunkId)
    (requester : UserId) : Option (Except ParityError Unit) × ParityStore :=
  if !validateChunkId chunkId then (some (.error .valueError), s)
  else match s.index.get chunkId with
    | none => (some (.ok ()), s)
    | some info =>
        if info.owner != requester then (some (.error .permission), s)
        else match chunkPath chunkId with
          | none => (some (.error .valueError), s)
          | some path =>
              let index := s.index.deleteWhere fun id _ => id = chunkId
              match point, broken with
              | .removing, .raises => (some (.ok ()), saveIndex { s with index })
              | .removing, .dies _ => (none, s)
              | .indexFile cut, _ =>
                  let dir := s.dir.deleteWhere fun name _ => name = path
                  (none, { s with dir := cutReplacing dir indexName (s.dump index) cut, index })

/-! ### The files of the chunks -/

/-- The name ends as the file of a chunk does. -/
def IsChunkFile (name : FileNameBytes) : Prop := [46, 98, 105, 110] <:+ name

instance (name : FileNameBytes) : Decidable (IsChunkFile name) :=
  inferInstanceAs (Decidable (_ <:+ _))

/-- The bytes of a chunk file; other files do not count. -/
def chunkWeight (name : FileNameBytes) (data : Bytes) : Nat :=
  if IsChunkFile name then data.length else 0

/-- The bytes of all chunk files. -/
def chunkBytes (dir : Table FileNameBytes Bytes) : Nat := dir.total chunkWeight

theorem isChunkFile_of_chunkPath {chunkId : ChunkId} {path : FileNameBytes}
    (h : chunkPath chunkId = some path) : IsChunkFile path := by
  rw [chunkPath_eq, Option.map_eq_some_iff] at h
  obtain ⟨name, -, rfl⟩ := h
  exact List.suffix_append _ _

theorem IsChunkFile.not_temporary {name : FileNameBytes} (h : IsChunkFile name) :
    ¬ Temporary name := by
  rintro ⟨base, hbase⟩
  obtain ⟨start, hstart⟩ := h
  simpa [tmpName] using congrArg List.getLast? (hstart.trans hbase)

theorem IsChunkFile.ne_indexName {name : FileNameBytes} (h : IsChunkFile name) :
    name ≠ indexName := by
  rintro rfl
  revert h
  decide

theorem not_temporary_indexName : ¬ Temporary indexName := by
  rintro ⟨base, hbase⟩
  simpa [tmpName, indexName] using congrArg List.getLast? hbase

/-- A replacement that is broken off touches its temporary file alone. -/
theorem get_cutReplacing (dir : Table FileNameBytes Bytes)
    (name : FileNameBytes) (data : Bytes) (cut : ReplaceCut)
    {other : FileNameBytes} (hother : ¬ Temporary other) :
    (cutReplacing dir name data cut).get other = dir.get other := by
  cases cut with
  | opening => rfl
  | writing n =>
      apply Table.get_put_of_ne
      intro h
      exact hother ⟨name, h⟩

theorem get_writeReplacing_index (dir : Table FileNameBytes Bytes) (data : Bytes)
    {name : FileNameBytes} (h : IsChunkFile name) :
    (writeReplacing dir indexName data).get name = dir.get name := by
  rw [get_writeReplacing _ _ _ _ h.not_temporary, if_neg h.ne_indexName]

/-- Directories that differ in one chunk file. -/
theorem chunkBytes_add {dir dir' : Table FileNameBytes Bytes} {path : FileNameBytes}
    (hpath : IsChunkFile path) (contents : Option Bytes)
    (h : ∀ name, IsChunkFile name →
      dir'.get name = if name = path then contents else dir.get name) :
    chunkBytes dir' + ((dir.get path).map List.length).getD 0 =
      chunkBytes dir + (contents.map List.length).getD 0 := by
  have hweight : chunkWeight path = List.length := by
    funext data
    rw [chunkWeight, if_pos hpath]
  have hat : ∀ d : Table FileNameBytes Bytes,
      d.weightAt chunkWeight path = ((d.get path).map List.length).getD 0 := by
    intro d
    rw [Table.weightAt, hweight]
  have hself : dir'.get path = contents := by
    rw [h path hpath, if_pos rfl]
  have htotal := Table.total_add_weightAt dir dir' chunkWeight path (fun name hname => ?_)
  · rwa [hat, hat, hself] at htotal
  · by_cases hchunk : IsChunkFile name
    · rw [Table.weightAt, Table.weightAt, h name hchunk, if_neg hname]
    · have hzero : chunkWeight name = fun _ => 0 := by
        funext data
        rw [chunkWeight, if_neg hchunk]
      rw [Table.weightAt, Table.weightAt, hzero]
      cases dir.get name <;> cases dir'.get name <;> rfl

/-- Directories with the same chunk files. -/
theorem chunkBytes_congr {dir dir' : Table FileNameBytes Bytes}
    (h : ∀ name, IsChunkFile name → dir'.get name = dir.get name) :
    chunkBytes dir' = chunkBytes dir := by
  have hdot : IsChunkFile [46, 98, 105, 110] := by decide
  have hfiles : ∀ name, IsChunkFile name →
      dir'.get name = if name = [46, 98, 105, 110] then dir.get [46, 98, 105, 110]
        else dir.get name := by
    intro name hname
    split_ifs with hpath
    · rw [h name hname, hpath]
    · exact h name hname
  have hsum := chunkBytes_add hdot _ hfiles
  omega

/-- The index is read back once it has been replaced, and as before until then. -/
theorem loadIndex_of_get {load : Bytes → Option (Table ChunkId ChunkMeta)}
    {dir dir' : Table FileNameBytes Bytes} (h : dir'.get indexName = dir.get indexName) :
    loadIndex load dir' = loadIndex load dir := by
  unfold loadIndex
  rw [h]

theorem loadIndex_writeReplacing {load : Bytes → Option (Table ChunkId ChunkMeta)}
    {index : Table ChunkId ChunkMeta} {text : Bytes} (hload : load text = some index)
    (dir : Table FileNameBytes Bytes) :
    loadIndex load (writeReplacing dir indexName text) = index := by
  unfold loadIndex
  rw [get_writeReplacing _ _ _ _ not_temporary_indexName, if_pos rfl]
  exact congrArg (Option.getD · Table.empty) hload

theorem get_indexName_writeReplacing (dir : Table FileNameBytes Bytes)
    {path : FileNameBytes} (hpath : IsChunkFile path) (data : Bytes) :
    (writeReplacing dir path data).get indexName = dir.get indexName := by
  rw [get_writeReplacing _ _ _ _ not_temporary_indexName, if_neg hpath.ne_indexName.symm]

end ParityStore

end StardustFS
