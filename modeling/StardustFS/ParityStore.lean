import StardustFS.FsEncoding
import StardustFS.MetadataStore
import StardustFS.Transitions

/-! The parity store: the chunks a device keeps for other users, one file for each chunk in a directory
of its own beside the index of owners and sizes. What a chunk id may be comes from outside, so the
file it names is followed down to the bytes of the name. -/

namespace StardustFS

open FsEncoding

abbrev UserId := String

/-- A chunk id is any string of the host language, lone surrogates included. -/
abbrev ChunkId := List CodePoint

inductive ParityError where
  | valueError
  | permission
  | quotaExceeded
  | fileNotFound
  deriving DecidableEq, Repr

structure ChunkMeta where
  owner : UserId
  size : Nat
  deriving DecidableEq, Repr

/-- The store over its base directory. `dump` is the text the index is written as, and `dir` holds the
files by the bytes of their names. -/
structure ParityStore where
  dump : Table ChunkId ChunkMeta → Bytes
  dir : Table FileNameBytes Bytes
  index : Table ChunkId ChunkMeta
  maxBytes : Option Int

namespace ParityStore

/-- `_validate_chunk_id`. -/
def validateChunkId (chunkId : ChunkId) : Bool :=
  !(chunkId.isEmpty || (codePoints "/\\").any (fun sep => chunkId.contains sep) ||
    decide (codePoints ".." <:+: chunkId))

def indexName : FileNameBytes := [105, 110, 100, 101, 120, 46, 106, 115, 111, 110]

def tmpName (name : FileNameBytes) : FileNameBytes := name ++ [46, 116, 109, 112]

/-- The file of a chunk in the base directory; `none` where `open` refuses the name. -/
def chunkPath (chunkId : ChunkId) : Option FileNameBytes := fileName (chunkId ++ codePoints ".bin")

/-- `os.replace`. -/
def replaceFile (dir : Table FileNameBytes Bytes) (source target : FileNameBytes) :
    Table FileNameBytes Bytes :=
  match dir.get source with
  | none => dir
  | some data => (dir.deleteWhere fun name _ => name = source).put target data

/-- A temporary file is written and put in the place of the file. -/
def writeReplacing (dir : Table FileNameBytes Bytes) (name : FileNameBytes) (data : Bytes) :
    Table FileNameBytes Bytes :=
  replaceFile (dir.put (tmpName name) data) (tmpName name) name

def saveIndex (s : ParityStore) : ParityStore :=
  { s with dir := writeReplacing s.dir indexName (s.dump s.index) }

/-- The store over a directory without an index. -/
def opened (dump : Table ChunkId ChunkMeta → Bytes) (dir : Table FileNameBytes Bytes)
    (maxBytes : Option Int) : ParityStore :=
  ⟨dump, dir, Table.empty, maxBytes⟩

def setMaxBytes (s : ParityStore) (maxBytes : Option Int) : ParityStore := { s with maxBytes }

def usedBytes (s : ParityStore) : Nat := (s.index.rows.map fun x => x.2.size).sum

/-- The checks `store` makes before it writes. -/
def refusal (s : ParityStore) (chunkId : ChunkId) (owner : UserId) (size : Nat) :
    Option ParityError :=
  if !validateChunkId chunkId then some .valueError
  else
    let existing := s.index.get chunkId
    if (existing.map fun info => info.owner != owner).getD false then some .permission
    else
      let prevSize := (existing.map ChunkMeta.size).getD 0
      let projected : Int := s.usedBytes - prevSize + size
      if (s.maxBytes.map fun maxBytes => decide (maxBytes < projected)).getD false then
        some .quotaExceeded
      else none

def store (s : ParityStore) (chunkId : ChunkId) (owner : UserId) (data : Bytes) :
    Except ParityError Unit × ParityStore :=
  match s.refusal chunkId owner data.length with
  | some e => (.error e, s)
  | none =>
      match chunkPath chunkId with
      | none => (.error .valueError, s)
      | some path =>
          (.ok (), saveIndex { s with
            dir := writeReplacing s.dir path data
            index := s.index.put chunkId ⟨owner, data.length⟩ })

def fetch (s : ParityStore) (chunkId : ChunkId) (requester : UserId) : Except ParityError Bytes :=
  if !validateChunkId chunkId then .error .valueError
  else match s.index.get chunkId with
    | none => .error .fileNotFound
    | some info =>
        if info.owner != requester then .error .permission
        else match chunkPath chunkId with
          | none => .error .valueError
          | some path =>
              match s.dir.get path with
              | none => .error .fileNotFound
              | some data => .ok data

/-- A missing file is no error, and neither is a missing chunk. -/
def delete (s : ParityStore) (chunkId : ChunkId) (requester : UserId) :
    Except ParityError Unit × ParityStore :=
  if !validateChunkId chunkId then (.error .valueError, s)
  else match s.index.get chunkId with
    | none => (.ok (), s)
    | some info =>
        if info.owner != requester then (.error .permission, s)
        else match chunkPath chunkId with
          | none => (.error .valueError, s)
          | some path =>
              (.ok (), saveIndex { s with
                dir := s.dir.deleteWhere fun name _ => name = path
                index := s.index.deleteWhere fun id _ => id = chunkId })

/-! ### The files of the base directory -/

/-- A name in the base directory itself. -/
def DirectChild (name : FileNameBytes) : Prop :=
  name ≠ [] ∧ 47 ∉ name ∧ 0 ∉ name ∧ name ≠ [46] ∧ name ≠ [46, 46]

/-- The name of a temporary file, of a chunk or of the index. -/
def Temporary (name : FileNameBytes) : Prop := ∃ base, name = tmpName base

theorem get_writeReplacing (dir : Table FileNameBytes Bytes) (name other : FileNameBytes)
    (data : Bytes) (hother : ¬ Temporary other) :
    (writeReplacing dir name data).get other = if other = name then some data else dir.get other := by
  have htmp : other ≠ tmpName name := fun h => hother ⟨name, h⟩
  rw [writeReplacing, replaceFile, Table.get_put_self]
  dsimp only
  split_ifs with h
  · rw [h, Table.get_put_self]
  · rw [Table.get_put_of_ne _ _ h, Table.get_deleteWhere, Table.get_put_of_ne _ _ htmp]
    cases dir.get other with
    | none => rfl
    | some old => simp [htmp]

theorem chunkPath_eq (chunkId : ChunkId) :
    chunkPath chunkId = (fileName chunkId).map (· ++ [46, 98, 105, 110]) :=
  fileName_append (by decide)

theorem not_temporary_of_chunkPath {chunkId : ChunkId} {path : FileNameBytes}
    (h : chunkPath chunkId = some path) : ¬ Temporary path := by
  rintro ⟨base, hbase⟩
  rw [chunkPath_eq, Option.map_eq_some_iff] at h
  obtain ⟨name, -, rfl⟩ := h
  simpa [tmpName] using congrArg List.getLast? hbase

theorem ne_indexName_of_chunkPath {chunkId : ChunkId} {path : FileNameBytes}
    (h : chunkPath chunkId = some path) : path ≠ indexName := by
  intro hname
  rw [chunkPath_eq, Option.map_eq_some_iff] at h
  obtain ⟨name, -, rfl⟩ := h
  simpa [indexName] using congrArg (fun l => l.reverse.take 2) hname

/-- **A valid chunk id names a file of the base directory itself.** -/
theorem directChild_of_chunkPath {chunkId : ChunkId} {path : FileNameBytes}
    (hvalid : validateChunkId chunkId = true) (h : chunkPath chunkId = some path) :
    DirectChild path := by
  obtain ⟨hencode, hnull⟩ := Option.filter_eq_some_iff.mp h
  have hslash : 47 ∉ path := by
    intro hmem
    obtain ⟨c, hc, hval⟩ := mem_fsencode_low hencode hmem (by decide)
    have hsep : c = 47 := Fin.ext hval
    rcases List.mem_append.mp hc with hin | hin
    · have hnot : ∀ sep ∈ codePoints "/\\", sep ∉ chunkId := by
        simp only [validateChunkId, Bool.not_eq_true', Bool.or_eq_false_iff, List.any_eq_false,
          List.contains_eq_mem, decide_eq_true_eq] at hvalid
        exact hvalid.1.2
      exact hnot 47 (by decide) (hsep ▸ hin)
    · have hplain : (47 : CodePoint) ∉ codePoints ".bin" := by decide
      exact hplain (hsep ▸ hin)
  rw [chunkPath_eq, Option.map_eq_some_iff] at h
  obtain ⟨name, -, rfl⟩ := h
  have hlong : 4 ≤ (name ++ [46, 98, 105, 110]).length := by simp
  refine ⟨?_, hslash, by simpa using hnull, ?_, ?_⟩
  · intro hname
    rw [hname] at hlong
    exact absurd hlong (by decide)
  · intro hname
    rw [hname] at hlong
    exact absurd hlong (by decide)
  · intro hname
    rw [hname] at hlong
    exact absurd hlong (by decide)

end ParityStore

end StardustFS
