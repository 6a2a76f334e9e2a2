import Mathlib.Data.List.Basic
import Mathlib.Data.List.Nodup
import Mathlib.Data.List.Zip

/-! Tables with named columns, as a migration changes them: a column is added with one value for the
rows that are there, and rows are updated where a condition on their cells holds. `Extends` says what a
migration may do to the data: no row and no cell is lost, and the cells of a new column have its
value. -/

/-- The columns have distinct names and every row has a cell for each. -/
structure ColumnTable (κ ν : Type*) where
  columns : List κ
  rows : List (List ν)
  nodup : columns.Nodup
  width : ∀ r ∈ rows, r.length = columns.length

namespace ColumnTable

variable {κ ν : Type*}

theorem eq_of_parts {t t' : ColumnTable κ ν} (hcolumns : t.columns = t'.columns)
    (hrows : t.rows = t'.rows) : t = t' := by
  obtain ⟨columns, rows, hnodup, hwidth⟩ := t
  obtain ⟨columns', rows', hnodup', hwidth'⟩ := t'
  subst hcolumns hrows
  rfl

/-- The table without rows. -/
def empty (columns : List κ) (h : columns.Nodup) : ColumnTable κ ν where
  columns := columns
  rows := []
  nodup := h
  width := by simp

variable [DecidableEq κ]

instance [DecidableEq ν] : DecidableEq (ColumnTable κ ν) := fun t t' =>
  decidable_of_iff (t.columns = t'.columns ∧ t.rows = t'.rows)
    ⟨fun h => eq_of_parts h.1 h.2, fun h => h ▸ ⟨rfl, rfl⟩⟩

/-- The cell of a column in a row of these columns. -/
def cell (columns : List κ) (r : List ν) (c : κ) : Option ν := (columns.zip r).lookup c

/-- The cell of a column in the row at the position. -/
def value (t : ColumnTable κ ν) (i : Nat) (c : κ) : Option ν :=
  t.rows[i]?.bind fun r => cell t.columns r c

theorem cell_cons (d : κ) (columns : List κ) (v : ν) (r : List ν) (c : κ) :
    cell (d :: columns) (v :: r) c = if c = d then some v else cell columns r c := by
  unfold cell
  rw [List.zip_cons_cons, List.lookup_cons]
  by_cases h : c = d
  · simp [h]
  · rw [if_neg h, beq_false_of_ne h]

theorem cell_of_not_mem {columns : List κ} {c : κ} (h : c ∉ columns) (r : List ν) :
    cell columns r c = none := by
  induction columns generalizing r with
  | nil => rfl
  | cons d columns ih =>
      obtain ⟨hne, hnot⟩ := List.ne_and_not_mem_of_not_mem_cons h
      cases r with
      | nil => rfl
      | cons v r => rw [cell_cons, if_neg hne, ih hnot]

theorem cell_append {columns : List κ} {r : List ν} (h : r.length = columns.length) (d c : κ) (v : ν) :
    cell (columns ++ [d]) (r ++ [v]) c = (cell columns r c).or (if c = d then some v else none) := by
  unfold cell
  rw [List.zip_append h.symm, List.lookup_append]
  congr 1
  exact cell_cons d [] v [] c

/-- `ALTER TABLE .. ADD COLUMN`: refused where the name is taken. -/
def addColumn? (t : ColumnTable κ ν) (c : κ) (default : ν) : Option (ColumnTable κ ν) :=
  if h : c ∈ t.columns then none
  else some {
    columns := t.columns ++ [c]
    rows := t.rows.map (· ++ [default])
    nodup := by
      rw [List.nodup_append]
      refine ⟨t.nodup, List.nodup_singleton c, fun a ha b hb => ?_⟩
      rw [List.mem_singleton] at hb
      rintro rfl
      exact h (hb ▸ ha)
    width := by
      intro r hr
      obtain ⟨r', hr', rfl⟩ := List.mem_map.mp hr
      simp [t.width r' hr'] }

theorem addColumn?_eq_none_iff {t : ColumnTable κ ν} {c : κ} {default : ν} :
    t.addColumn? c default = none ↔ c ∈ t.columns := by
  unfold addColumn?
  split_ifs with h
  · simpa using h
  · simpa using h

theorem addColumn?_cases {t t' : ColumnTable κ ν} {c : κ} {default : ν}
    (h : t.addColumn? c default = some t') :
    c ∉ t.columns ∧ t'.columns = t.columns ++ [c] ∧ t'.rows = t.rows.map (· ++ [default]) := by
  unfold addColumn? at h
  split_ifs at h with hc
  rw [Option.some_inj] at h
  subst h
  exact ⟨hc, rfl, rfl⟩

theorem value_addColumn? {t t' : ColumnTable κ ν} {c : κ} {default : ν}
    (h : t.addColumn? c default = some t') (i : Nat) (c' : κ) :
    t'.value i c' =
      if c' = c then (if i < t.rows.length then some default else none) else t.value i c' := by
  obtain ⟨hc, hcolumns, hrows⟩ := addColumn?_cases h
  unfold value
  rw [hcolumns, hrows, List.getElem?_map]
  cases hi : t.rows[i]? with
  | none =>
      rw [if_neg (Nat.not_lt.mpr (List.getElem?_eq_none_iff.mp hi))]
      simp
  | some r =>
      obtain ⟨hlt, hr⟩ := List.getElem?_eq_some_iff.mp hi
      have hlen := t.width r (hr ▸ List.getElem_mem hlt)
      rw [Option.map_some, Option.bind_some, Option.bind_some, cell_append hlen, if_pos hlt]
      by_cases hc' : c' = c
      · rw [if_pos hc', if_pos hc', hc', cell_of_not_mem hc, Option.none_or]
      · rw [if_neg hc', if_neg hc', Option.or_none]

/-- `UPDATE .. SET .. WHERE ..`: the condition reads the cells of the row. -/
def updateWhere (t : ColumnTable κ ν) (p : (κ → Option ν) → Bool) (sets : List (κ × ν)) :
    ColumnTable κ ν where
  columns := t.columns
  rows := t.rows.map fun r =>
    if p (cell t.columns r) then
      List.zipWith (fun c v => (sets.lookup c).getD v) t.columns r
    else r
  nodup := t.nodup
  width := by
    intro r hr
    obtain ⟨r', hr', rfl⟩ := List.mem_map.mp hr
    split_ifs
    · simp [t.width r' hr']
    · exact t.width r' hr'

theorem zipWith_sets_eq_self {columns : List κ} {r : List ν} (hnodup : columns.Nodup)
    (hlen : r.length = columns.length) {sets : List (κ × ν)}
    (h : ∀ c v, sets.lookup c = some v → c ∈ columns → cell columns r c = some v) :
    List.zipWith (fun c v => (sets.lookup c).getD v) columns r = r := by
  induction columns generalizing r with
  | nil => exact (List.length_eq_zero_iff.mp hlen).symm
  | cons d columns ih =>
      cases r with
      | nil => cases hlen
      | cons v r =>
          obtain ⟨hd, hnodup⟩ := List.nodup_cons.mp hnodup
          rw [List.zipWith_cons_cons, ih hnodup (Nat.succ_inj.mp hlen)]
          · congr 1
            cases hset : sets.lookup d with
            | none => rfl
            | some w =>
                have hcell := h d w hset List.mem_cons_self
                rw [cell_cons, if_pos rfl, Option.some_inj] at hcell
                exact hcell.symm
          · intro c w hset hc
            have hcell := h c w hset (List.mem_cons_of_mem d hc)
            rwa [cell_cons, if_neg fun heq : c = d => hd (heq ▸ hc)] at hcell

/-- An update that sets what is there changes nothing. -/
theorem updateWhere_eq_self {t : ColumnTable κ ν} {p : (κ → Option ν) → Bool} {sets : List (κ × ν)}
    (h : ∀ i < t.rows.length, ∀ c v, sets.lookup c = some v → c ∈ t.columns →
      t.value i c = some v) : t.updateWhere p sets = t := by
  refine eq_of_parts rfl ?_
  refine (List.map_congr_left fun r hr => ?_).trans (List.map_id t.rows)
  split_ifs
  · refine zipWith_sets_eq_self t.nodup (t.width r hr) fun c v hset hc => ?_
    obtain ⟨i, hlt, hi⟩ := List.mem_iff_getElem.mp hr
    have hvalue := h i hlt c v hset hc
    rwa [value, List.getElem?_eq_getElem hlt, hi, Option.bind_some] at hvalue
  · rfl

/-! ### What a migration may do to the data -/

/-- No row and no cell of the first table is lost in the second, and the cells of the columns that were
added have the value `fill` gives. -/
structure Extends (fill : κ → ν) (t t' : ColumnTable κ ν) : Prop where
  rows : t'.rows.length = t.rows.length
  columns : ∀ c ∈ t.columns, c ∈ t'.columns
  kept : ∀ i, ∀ c ∈ t.columns, t'.value i c = t.value i c
  filled : ∀ i < t.rows.length, ∀ c ∈ t'.columns, c ∉ t.columns → t'.value i c = some (fill c)

variable {fill : κ → ν} {t t' t'' : ColumnTable κ ν}

theorem Extends.refl (fill : κ → ν) (t : ColumnTable κ ν) : Extends fill t t where
  rows := rfl
  columns _ h := h
  kept _ _ _ := rfl
  filled _ _ _ h hnot := absurd h hnot

theorem Extends.trans (h : Extends fill t t') (h' : Extends fill t' t'') : Extends fill t t'' where
  rows := h'.rows.trans h.rows
  columns c hc := h'.columns c (h.columns c hc)
  kept i c hc := (h'.kept i c (h.columns c hc)).trans (h.kept i c hc)
  filled i hi c hc hnot := by
    by_cases hc' : c ∈ t'.columns
    · rw [h'.kept i c hc', h.filled i hi c hc' hnot]
    · exact h'.filled i (h.rows.symm ▸ hi) c hc hc'

/-- A column that is added with its value extends the table. -/
theorem extends_addColumn? {c : κ} (h : t.addColumn? c (fill c) = some t') : Extends fill t t' := by
  obtain ⟨hc, hcolumns, hrows⟩ := addColumn?_cases h
  refine ⟨by simp [hrows], fun c' hc' => by simp [hcolumns, hc'], fun i c' hc' => ?_,
    fun i hi c' hc' hnot => ?_⟩
  · rw [value_addColumn? h, if_neg fun heq : c' = c => hc (heq ▸ hc')]
  · rw [hcolumns, List.mem_append, List.mem_singleton] at hc'
    obtain rfl := hc'.resolve_left hnot
    rw [value_addColumn? h, if_pos rfl, if_pos hi]

end ColumnTable
