import StardustFS.DirectoryTree

/-! The sizes of the files of a tree, and what each operation changes of their sum. -/

namespace Table

variable {κ ρ : Type*}

/-- What a deletion takes away. -/
theorem total_deleteWhere (t : Table κ ρ) (p : κ → ρ → Bool) (weight : κ → ρ → Nat) :
    (t.deleteWhere p).total weight + t.total (fun k r => if p k r then weight k r else 0) =
      t.total weight := by
  unfold total deleteWhere
  dsimp only
  induction t.rows with
  | nil => rfl
  | cons x rows ih =>
      cases hp : p x.1 x.2 with
      | true =>
          simp only [List.filter_cons, hp, Bool.not_true, Bool.false_eq_true, if_false, if_true,
            List.map_cons, List.sum_cons]
          omega
      | false =>
          simp only [List.filter_cons, hp, Bool.not_false, Bool.false_eq_true, if_false, if_true,
            List.map_cons, List.sum_cons]
          omega

end Table

namespace DirectoryTree

variable {α β : Type*} [DecidableEq α] (size : β → Nat)

def Node.weight : Node β → Nat
  | .directory => 0
  | .file b => size b

/-- The sizes of all files together. -/
def totalSize (t : DirectoryTree α β) : Nat := t.nodes.total fun _ n => n.weight size

/-- The size of the file at the path, 0 where there is none. -/
def sizeAt (t : DirectoryTree α β) (p : List α) : Nat := ((t.file? p).map size).getD 0

/-- The sizes of the files at the path and below it. -/
def sizeBelow (t : DirectoryTree α β) (p : List α) : Nat :=
  t.nodes.total fun q n => if decide (p <+: q) then n.weight size else 0

variable {t t' : DirectoryTree α β} {p : List α}

theorem weightAt_nodes (t : DirectoryTree α β) (p : List α) :
    t.nodes.weightAt (fun _ n => n.weight size) p = t.sizeAt size p := by
  show ((t.get p).map _).getD 0 = ((t.file? p).map size).getD 0
  unfold file?
  cases t.get p with
  | none => rfl
  | some n => cases n <;> rfl

/-- Trees that differ in one file. -/
theorem totalSize_of_one (h : ∀ q, q ≠ p → t'.file? q = t.file? q) :
    t'.totalSize size + t.sizeAt size p = t.totalSize size + t'.sizeAt size p := by
  have hweight : ∀ q, q ≠ p → t'.nodes.weightAt (fun _ n => n.weight size) q =
      t.nodes.weightAt (fun _ n => n.weight size) q := by
    intro q hq
    rw [weightAt_nodes, weightAt_nodes, sizeAt, sizeAt, h q hq]
  have htotal := Table.total_add_weightAt t.nodes t'.nodes (fun _ n => n.weight size) p hweight
  rwa [weightAt_nodes, weightAt_nodes] at htotal

/-- Trees with the same files. -/
theorem totalSize_congr (h : ∀ q, t'.file? q = t.file? q) : t'.totalSize size = t.totalSize size := by
  have hone := totalSize_of_one size fun q (_ : q ≠ []) => h q
  rw [sizeAt, sizeAt, h []] at hone
  omega

theorem file?_makedirs (h : t.makedirs p = .ok t') (q : List α) : t'.file? q = t.file? q := by
  unfold file?
  rw [get_makedirs h]
  split_ifs with hnew
  · rw [hnew.1]
  · rfl

theorem totalSize_makedirs (h : t.makedirs p = .ok t') : t'.totalSize size = t.totalSize size :=
  totalSize_congr size (file?_makedirs h)

theorem file?_write {b : β} (h : t.write p b = .ok t') (q : List α) :
    t'.file? q = if q = p then some b else t.file? q := by
  unfold file?
  rw [get_write h]
  split_ifs <;> rfl

/-- A write puts the new size in the place of the old one. -/
theorem totalSize_write {b : β} (h : t.write p b = .ok t') :
    t'.totalSize size + t.sizeAt size p = t.totalSize size + size b := by
  have hsame : ∀ q, q ≠ p → t'.file? q = t.file? q := fun q hq => by rw [file?_write h, if_neg hq]
  have hone := totalSize_of_one size hsame
  have hnew : t'.sizeAt size p = size b := by
    rw [sizeAt, file?_write h, if_pos rfl]
    rfl
  rwa [hnew] at hone

theorem totalSize_remove (h : t.remove p = .ok t') :
    t'.totalSize size + t.sizeAt size p = t.totalSize size := by
  have hsame : ∀ q, q ≠ p → t'.file? q = t.file? q := by
    intro q hq
    unfold file?
    rw [get_remove h, if_neg hq]
  have hone := totalSize_of_one size hsame
  have hgone : t'.sizeAt size p = 0 := by
    unfold sizeAt file?
    rw [get_remove h, if_pos rfl]
    rfl
  rw [hgone] at hone
  omega

/-- A recursive deletion takes away what is below the path. -/
theorem totalSize_rmtree (h : t.rmtree p = .ok t') :
    t'.totalSize size + t.sizeBelow size p = t.totalSize size := by
  unfold rmtree at h
  split_ifs at h
  obtain rfl := Except.ok.inj h
  exact t.nodes.total_deleteWhere (fun q _ => decide (p <+: q)) fun _ n => n.weight size

theorem sizeAt_le_totalSize (t : DirectoryTree α β) (p : List α) :
    t.sizeAt size p ≤ t.totalSize size := by
  cases hfile : t.file? p with
  | none =>
      rw [sizeAt, hfile]
      exact Nat.zero_le _
  | some b =>
      obtain ⟨t', hremove⟩ := exists_remove (file?_eq_some_iff.mp hfile)
      have := totalSize_remove size hremove
      omega

end DirectoryTree
