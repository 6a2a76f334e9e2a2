import Mathlib.Data.List.Flatten
import Mathlib.Data.List.Nodup
import Mathlib.Data.List.Perm.Subperm

/-! Splitting a sequence into numbered pieces of a fixed size, and joining pieces that arrive in any
order. -/

namespace Chunks

variable {α : Type*}

/-- How many pieces of the size a sequence of the length makes. -/
def count (length size : Nat) : Nat := (length + size - 1) / size

/-- The piece of a number. -/
abbrev piece (size : Nat) (blob : List α) (idx : Nat) : List α := (blob.drop (idx * size)).take size

/-- The pieces with their numbers; the last one may be shorter. -/
def split (size : Nat) (blob : List α) : List (Nat × List α) :=
  (List.range (count blob.length size)).map fun idx => (idx, (blob.drop (idx * size)).take size)

/-- The pieces in the order of their numbers, one after the other. -/
def join (parts : List (Nat × List α)) : List α :=
  ((parts.mergeSort fun p q => decide (p.1 ≤ q.1)).map Prod.snd).flatten

theorem mem_split {size : Nat} {blob : List α} {x : Nat × List α} :
    x ∈ split size blob ↔
      x.1 < count blob.length size ∧ x.2 = (blob.drop (x.1 * size)).take size := by
  obtain ⟨idx, data⟩ := x
  simp only [split, List.mem_map, List.mem_range, Prod.mk.injEq]
  constructor
  · rintro ⟨i, hi, rfl, rfl⟩
    exact ⟨hi, rfl⟩
  · rintro ⟨hi, rfl⟩
    exact ⟨idx, hi, rfl, rfl⟩

theorem piece_mem_split {size : Nat} {blob : List α} {idx : Nat} (h : idx < count blob.length size) :
    (idx, piece size blob idx) ∈ split size blob :=
  mem_split.mpr ⟨h, rfl⟩

theorem map_fst_split (size : Nat) (blob : List α) :
    (split size blob).map Prod.fst = List.range (count blob.length size) := by
  simp [split, Function.comp_def]

theorem nodup_map_fst_split (size : Nat) (blob : List α) : ((split size blob).map Prod.fst).Nodup := by
  rw [map_fst_split]
  exact List.nodup_range

theorem length_split (size : Nat) (blob : List α) :
    (split size blob).length = count blob.length size := by
  simp [split]

theorem length_le_count_mul {size : Nat} (hsize : 0 < size) (length : Nat) :
    length ≤ count length size * size := by
  have hdiv := Nat.div_add_mod (length + size - 1) size
  have hmod := Nat.mod_lt (length + size - 1) hsize
  rw [Nat.mul_comm] at hdiv
  unfold count
  omega

/-- The first pieces together are the front of the sequence. -/
theorem flatten_pieces (size : Nat) (blob : List α) (n : Nat) :
    ((List.range n).map fun idx => (blob.drop (idx * size)).take size).flatten =
      blob.take (n * size) := by
  induction n with
  | zero => simp
  | succ n ih =>
      calc ((List.range (n + 1)).map fun idx => (blob.drop (idx * size)).take size).flatten
          = ((List.range n).map fun idx => (blob.drop (idx * size)).take size).flatten ++
              (blob.drop (n * size)).take size := by
            rw [List.range_succ, List.map_append, List.flatten_append, List.map_singleton,
              List.flatten_singleton]
        _ = blob.take (n * size) ++ (blob.drop (n * size)).take size := by rw [ih]
        _ = blob.take ((n + 1) * size) := by rw [Nat.succ_mul, List.take_add]

theorem flatten_pieces_count {size : Nat} (hsize : 0 < size) (blob : List α) :
    ((List.range (count blob.length size)).map fun idx =>
      (blob.drop (idx * size)).take size).flatten = blob :=
  (flatten_pieces size blob _).trans (List.take_of_length_le (length_le_count_mul hsize _))

theorem join_singleton (part : Nat × List α) : join [part] = part.2 := by
  rw [join, List.mergeSort_singleton, List.map_singleton, List.flatten_singleton]

/-- Pieces with the numbers below `n`, in whatever order, are joined in the order of their numbers. -/
theorem join_of_perm_range {n : Nat} {piece : Nat → List α} {parts : List (Nat × List α)}
    (h : parts.Perm ((List.range n).map fun idx => (idx, piece idx))) :
    join parts = ((List.range n).map piece).flatten := by
  have hsorted : ((List.range n).map fun idx => (idx, piece idx)).Pairwise
      fun p q => p.1 ≤ q.1 := by
    rw [List.pairwise_map]
    exact List.pairwise_le_range
  have hmerge : (parts.mergeSort fun p q => decide (p.1 ≤ q.1)).Pairwise fun p q => p.1 ≤ q.1 := by
    refine (List.pairwise_mergeSort (fun a b c hab hbc => ?_) (fun a b => ?_) parts).imp
      fun hab => of_decide_eq_true hab
    · exact decide_eq_true (Nat.le_trans (of_decide_eq_true hab) (of_decide_eq_true hbc))
    · simpa using Nat.le_total a.1 b.1
  have hperm := (List.mergeSort_perm parts fun p q => decide (p.1 ≤ q.1)).trans h
  have heq : (parts.mergeSort fun p q => decide (p.1 ≤ q.1)) =
      (List.range n).map fun idx => (idx, piece idx) := by
    refine hperm.eq_of_pairwise (fun a b ha hb hab hba => ?_) hmerge hsorted
    obtain ⟨i, -, rfl⟩ := List.mem_map.mp (hperm.mem_iff.mp ha)
    obtain ⟨k, -, rfl⟩ := List.mem_map.mp hb
    obtain rfl : i = k := Nat.le_antisymm hab hba
    rfl
  rw [join, heq, List.map_map]
  rfl

/-- **The round trip**: the pieces of a sequence, in whatever order, join to the sequence. -/
theorem join_of_perm {size : Nat} (hsize : 0 < size) {blob : List α} {parts : List (Nat × List α)}
    (h : parts.Perm (split size blob)) : join parts = blob := by
  rw [join_of_perm_range h]
  exact flatten_pieces_count hsize blob

theorem perm_join (parts : List (Nat × List α)) :
    (join parts).Perm (parts.map Prod.snd).flatten :=
  ((List.mergeSort_perm parts _).map Prod.snd).flatten

/-- Two sequences of pieces that join to the same and agree outside one number agree at it. -/
theorem piece_eq_of_flatten_eq {n k : Nat} {f g : Nat → List α} (hk : k < n)
    (hother : ∀ idx < n, idx ≠ k → f idx = g idx)
    (h : ((List.range n).map f).flatten = ((List.range n).map g).flatten) : f k = g k := by
  induction n with
  | zero => omega
  | succ n ih =>
      simp only [List.range_succ, List.map_append, List.flatten_append, List.map_singleton,
        List.flatten_singleton] at h
      by_cases hlast : k = n
      · subst hlast
        have hfirst : (List.range k).map f = (List.range k).map g := by
          apply List.map_congr_left
          intro idx hidx
          have hlt := List.mem_range.mp hidx
          exact hother idx (by omega) (by omega)
        rw [hfirst] at h
        exact List.append_cancel_left h
      · rw [hother n (by omega) (by omega)] at h
        exact ih (by omega) (fun idx hidx => hother idx (by omega)) (List.append_cancel_right h)

theorem piece_ne_nil {size : Nat} {blob : List α} {part : Nat × List α}
    (h : part ∈ split size blob) : part.2 ≠ [] := by
  obtain ⟨hidx, hdata⟩ := mem_split.mp h
  have hsize : 0 < size := by
    rcases Nat.eq_zero_or_pos size with rfl | hpos
    · simp [count] at hidx
    · exact hpos
  have hlt : part.1 * size < blob.length := by
    have hle : (part.1 + 1) * size ≤ blob.length + size - 1 :=
      (Nat.le_div_iff_mul_le hsize).mp hidx
    rw [Nat.succ_mul] at hle
    omega
  rw [hdata]
  intro hnil
  have hlength := congrArg List.length hnil
  rw [List.length_take, List.length_drop, List.length_nil] at hlength
  omega

/-- All pieces but the last one are full. -/
theorem length_of_mem_split {size : Nat} {blob : List α} {part : Nat × List α}
    (h : part ∈ split size blob) (hlast : part.1 + 1 < count blob.length size) :
    part.2.length = size := by
  obtain ⟨-, hdata⟩ := mem_split.mp h
  have hsize : 0 < size := by
    by_contra hzero
    obtain rfl : size = 0 := by omega
    simp [count] at hlast
  have hle : (part.1 + 1 + 1) * size ≤ blob.length + size - 1 :=
    (Nat.le_div_iff_mul_le hsize).mp hlast
  rw [Nat.succ_mul, Nat.succ_mul] at hle
  rw [hdata, List.length_take, List.length_drop]
  omega

/-- Parts with all pieces of a sequence and one more are longer together than the sequence. -/
theorem length_lt_length_join {size : Nat} (hsize : 0 < size) {blob : List α}
    {parts : List (Nat × List α)} {extra : Nat × List α} (hpieces : split size blob ⊆ parts)
    (hextra : extra ∈ parts) (hbeyond : count blob.length size ≤ extra.1) (hne : extra.2 ≠ []) :
    blob.length < (join parts).length := by
  have hnodup : (split size blob ++ [extra]).Nodup := by
    apply List.Nodup.of_map Prod.fst
    rw [List.map_append, map_fst_split, List.map_singleton, List.nodup_append]
    refine ⟨List.nodup_range, List.nodup_singleton _, fun idx hidx other hother heq => ?_⟩
    rw [List.mem_range] at hidx
    rw [List.mem_singleton] at hother
    omega
  have hsubset : split size blob ++ [extra] ⊆ parts := by
    rw [List.append_subset]
    exact ⟨hpieces, List.cons_subset.mpr ⟨hextra, List.nil_subset _⟩⟩
  obtain ⟨some, hperm, hsublist⟩ := hnodup.subperm hsubset
  have hpos := List.length_pos_of_ne_nil hne
  calc blob.length < blob.length + extra.2.length := by omega
    _ = (((split size blob ++ [extra]).map Prod.snd).flatten).length := by
        rw [List.map_append, List.flatten_append, List.length_append, split, List.map_map]
        simp only [Function.comp_def, List.map_singleton, List.flatten_singleton]
        rw [flatten_pieces_count hsize]
    _ = ((some.map Prod.snd).flatten).length := ((hperm.map Prod.snd).flatten).length_eq.symm
    _ ≤ ((parts.map Prod.snd).flatten).length := (hsublist.map Prod.snd).flatten.length_le
    _ = (join parts).length := (perm_join parts).length_eq.symm

end Chunks
