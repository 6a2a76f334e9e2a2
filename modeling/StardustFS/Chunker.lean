import StardustFS.Chunks

/-! The chunker of the replication. A blob is cut at the offsets of a range, and its chunks are numbered
as they come; they are joined in the order of their numbers. -/

namespace StardustFS

namespace Chunker

variable {α : Type*}

/-- `range(start, stop, step)` with a positive step. -/
def range (start stop step : Nat) : List Nat :=
  if start < stop ∧ 0 < step then start :: range (start + step) stop step else []
termination_by stop - start

/-- The `ValueError` for a size below 1. -/
inductive ChunkError where
  | sizeBelowOne
  deriving DecidableEq, Repr

def defaultChunkSize : Nat := 4 * 1024 * 1024

/-- `chunker.split`: the slices at the offsets, as `enumerate` numbers them. -/
def split (blob : List α) (size : Int) : Except ChunkError (List (Nat × List α)) :=
  if size ≤ 0 then .error .sizeBelowOne
  else .ok ((range 0 blob.length size.toNat).zipIdx.map fun x =>
    (x.2, (blob.drop x.1).take size.toNat))

/-- `chunker.join`. -/
def join (parts : List (Nat × List α)) : List α := Chunks.join parts

/-- `chunker.chunk_count`. -/
def chunkCount (totalSize size : Int) : Except ChunkError Int :=
  if size ≤ 0 then .error .sizeBelowOne else .ok ((totalSize + size - 1) / size)

/-- The default size passes the checks of both functions. -/
theorem defaultChunkSize_passes (blob : List α) (totalSize : Int) :
    (∃ parts, split blob defaultChunkSize = .ok parts) ∧
      ∃ n, chunkCount totalSize defaultChunkSize = .ok n := by
  have hpos : ¬((defaultChunkSize : Int) ≤ 0) := by decide
  rw [split, chunkCount, if_neg hpos, if_neg hpos]
  exact ⟨⟨_, rfl⟩, ⟨_, rfl⟩⟩

/-! ### The offsets -/

/-- A range that has begun goes on with the range of what is left. -/
theorem count_sub_step {length size : Nat} (hsize : 0 < size) (hlength : 0 < length) :
    Chunks.count length size = Chunks.count (length - size) size + 1 := by
  unfold Chunks.count
  by_cases hle : size ≤ length
  · have hsum : length + size - 1 = (length - size + size - 1) + size := by omega
    rw [hsum, Nat.add_div_right _ hsize]
  · have hnone : length - size = 0 := by omega
    have hlast : length + size - 1 = length - 1 + size := by omega
    have hbelow : (length - 1) / size = 0 := Nat.div_eq_of_lt (by omega)
    have hempty : (0 + size - 1) / size = 0 := Nat.div_eq_of_lt (by omega)
    rw [hnone, hlast, Nat.add_div_right _ hsize, hbelow, hempty]

/-- The offsets are the multiples of the step, as many as there are pieces. -/
theorem range_eq {step : Nat} (hstep : 0 < step) (start stop : Nat) :
    range start stop step =
      (List.range (Chunks.count (stop - start) step)).map fun idx => start + idx * step := by
  induction start using range.induct stop step with
  | case1 start h ih =>
      have hcount : Chunks.count (stop - start) step =
          Chunks.count (stop - (start + step)) step + 1 := by
        rw [count_sub_step hstep (by omega), Nat.sub_sub]
      rw [range, if_pos h, ih, hcount, List.range_succ_eq_map, List.map_cons, List.map_map]
      simp only [Nat.zero_mul, Nat.add_zero, List.cons.injEq, true_and]
      apply List.map_congr_left
      intro idx _
      calc start + step + idx * step
          = start + (idx * step + step) := by omega
        _ = start + (idx + 1) * step := by rw [Nat.succ_mul]
  | case2 start h =>
      have hnone : stop - start = 0 := by omega
      have hcount : Chunks.count 0 step = 0 := Nat.div_eq_of_lt (by omega)
      rw [range, if_neg h, hnone, hcount]
      rfl

/-- **The chunks are the pieces**, numbered from 0. -/
theorem split_eq {size : Nat} (hsize : 0 < size) (blob : List α) :
    split blob size = .ok (Chunks.split size blob) := by
  have hpos : ¬ (size : Int) ≤ 0 := by omega
  rw [split, if_neg hpos, Int.toNat_natCast, range_eq hsize, Chunks.split]
  congr 1
  apply List.ext_getElem
  · simp
  · intro idx h h'
    simp

theorem chunkCount_eq {size : Nat} (hsize : 0 < size) (totalSize : Nat) :
    chunkCount totalSize size = .ok (Chunks.count totalSize size : Nat) := by
  have hpos : ¬ (size : Int) ≤ 0 := by omega
  have hsum : (totalSize : Int) + size - 1 = ((totalSize + size - 1 : Nat) : Int) := by omega
  rw [chunkCount, if_neg hpos, hsum, Chunks.count, Int.natCast_ediv]

/-! ### Nothing is lost -/

/-- The chunks of a blob: they are joined in whatever order they come, they are numbered from 0 to their
count, all but the last one are full, and the last one is not empty. -/
structure Lossless (blob : List α) (size : Int) (parts : List (Nat × List α)) : Prop where
  joined : ∀ shuffled, shuffled.Perm parts → join shuffled = blob
  numbered : ∃ n : Nat, chunkCount blob.length size = .ok n ∧ parts.map Prod.fst = List.range n
  full : ∀ part ∈ parts.dropLast, (part.2.length : Int) = size
  last : ∀ part ∈ parts.getLast?, 1 ≤ part.2.length ∧ (part.2.length : Int) ≤ size

/-- The number of a piece before the last one. -/
theorem lt_of_mem_dropLast {size : Nat} {blob : List α} {part : Nat × List α}
    (h : part ∈ (Chunks.split size blob).dropLast) :
    part.1 + 1 < Chunks.count blob.length size := by
  have hnumber : part.1 ∈ ((Chunks.split size blob).map Prod.fst).dropLast := by
    rw [← List.map_dropLast]
    exact List.mem_map_of_mem h
  rw [Chunks.map_fst_split] at hnumber
  obtain ⟨idx, hidx, hget⟩ := List.getElem_of_mem hnumber
  rw [List.length_dropLast, List.length_range] at hidx
  rw [List.getElem_dropLast, List.getElem_range] at hget
  omega

/-- **Chunking is lossless.** -/
theorem split_lossless (blob : List α) {size : Int} (hsize : 0 < size) :
    ∃ parts, split blob size = .ok parts ∧ Lossless blob size parts := by
  obtain ⟨size, rfl⟩ := Int.eq_ofNat_of_zero_le (Int.le_of_lt hsize)
  have hpos : 0 < size := by omega
  refine ⟨Chunks.split size blob, split_eq hpos blob, ?_⟩
  constructor
  case joined => exact fun shuffled h => Chunks.join_of_perm hpos h
  case numbered =>
    exact ⟨Chunks.count blob.length size, chunkCount_eq hpos _, Chunks.map_fst_split size blob⟩
  case full =>
    intro part h
    have hlength := Chunks.length_of_mem_split ((List.dropLast_sublist _).mem h) (lt_of_mem_dropLast h)
    exact_mod_cast hlength
  case last =>
    intro part h
    have hmem : part ∈ Chunks.split size blob := List.mem_of_mem_getLast? h
    obtain ⟨-, hdata⟩ := Chunks.mem_split.mp hmem
    have hle : part.2.length ≤ size := by
      rw [hdata, List.length_take]
      omega
    exact ⟨List.length_pos_iff.mpr (Chunks.piece_ne_nil hmem), by exact_mod_cast hle⟩

theorem split_lossless_five : ∃ parts, split "abcde".toList 2 = .ok parts ∧
    Lossless "abcde".toList 2 parts :=
  split_lossless "abcde".toList (by decide)

example : split "abcde".toList 2 =
    .ok [(0, "ab".toList), (1, "cd".toList), (2, "e".toList)] := by
  simp [split, range]

end Chunker

end StardustFS
