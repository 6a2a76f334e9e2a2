import Mathlib.Algebra.BigOperators.Group.Finset.Basic
import Mathlib.Algebra.GroupWithZero.Nat
import Mathlib.Data.List.Induction
import Mathlib.Data.List.Nodup
import Mathlib.Data.List.Perm.Subperm
import Mathlib.Data.List.Lookmap

/-! Tables with a unique key column, and the statements a relational store runs on them. A table is
its rows in storage order; what a key holds after a statement is given by one `get` lemma per
statement, and later proofs go through these lemmas alone. -/

/-- A table whose key column is unique: the rows in storage order, no key twice. -/
structure Table (κ ρ : Type*) where
  rows : List (κ × ρ)
  nodup : (rows.map Prod.fst).Nodup

namespace Table

variable {κ ρ : Type*}

/-- The table without rows. -/
def empty : Table κ ρ := ⟨[], List.nodup_nil⟩

/-- The keys in storage order. -/
def keys (t : Table κ ρ) : List κ := t.rows.map Prod.fst

/-- `UPDATE` without a condition on the key; keys are not changed. -/
def mapRows (t : Table κ ρ) (f : κ → ρ → ρ) : Table κ ρ where
  rows := t.rows.map fun x => (x.1, f x.1 x.2)
  nodup := by
    rw [List.map_map]
    exact t.nodup

/-- `DELETE FROM .. WHERE p`. -/
def deleteWhere (t : Table κ ρ) (p : κ → ρ → Bool) : Table κ ρ where
  rows := t.rows.filter fun x => !p x.1 x.2
  nodup := t.nodup.sublist (List.filter_sublist.map _)

variable [DecidableEq κ]

instance [DecidableEq ρ] : DecidableEq (Table κ ρ) := fun s t =>
  decidable_of_iff (s.rows = t.rows) (by cases s; cases t; simp)

/-- `SELECT .. WHERE key = k`. -/
def get (t : Table κ ρ) (k : κ) : Option ρ := t.rows.lookup k

theorem lookup_eq_some_iff {l : List (κ × ρ)} (hl : (l.map Prod.fst).Nodup) {k : κ} {r : ρ} :
    l.lookup k = some r ↔ (k, r) ∈ l := by
  induction l with
  | nil => simp
  | cons x l ih =>
      obtain ⟨k', r'⟩ := x
      rw [List.map_cons, List.nodup_cons] at hl
      rw [List.lookup_cons, List.mem_cons, Prod.mk.injEq]
      by_cases hk : k = k'
      · subst hk
        have hnot : (k, r) ∉ l := fun h => hl.1 (List.mem_map.mpr ⟨(k, r), h, rfl⟩)
        simp [hnot, eq_comm]
      · have hb : (k == k') = false := beq_false_of_ne hk
        simp [hb, hk, ih hl.2]

theorem get_eq_some_iff {t : Table κ ρ} {k : κ} {r : ρ} :
    t.get k = some r ↔ (k, r) ∈ t.rows :=
  lookup_eq_some_iff t.nodup

theorem mem_keys_iff {t : Table κ ρ} {k : κ} : k ∈ t.keys ↔ ∃ r, t.get k = some r := by
  simp only [keys, List.mem_map, get_eq_some_iff, Prod.exists]
  exact ⟨fun ⟨_, r, h, hk⟩ => ⟨r, hk ▸ h⟩, fun ⟨r, h⟩ => ⟨k, r, h, rfl⟩⟩

theorem get_eq_none_iff {t : Table κ ρ} {k : κ} : t.get k = none ↔ k ∉ t.keys := by
  rw [mem_keys_iff, Option.eq_none_iff_forall_ne_some, not_exists]

theorem mem_rows_of_get {t : Table κ ρ} {k : κ} {r : ρ} (h : t.get k = some r) : (k, r) ∈ t.rows :=
  get_eq_some_iff.mp h

theorem get_of_mem_rows {t : Table κ ρ} {x : κ × ρ} (h : x ∈ t.rows) : t.get x.1 = some x.2 :=
  get_eq_some_iff.mpr h

/-- Of the keys of a sequence without repetition, one of the first has no row. -/
theorem exists_get_eq_none (t : Table κ ρ) {f : Nat → κ} (hf : Function.Injective f) :
    ∃ n ≤ t.rows.length, t.get (f n) = none := by
  by_contra hall
  push Not at hall
  have hnodup : ((List.range (t.rows.length + 1)).map f).Nodup := List.nodup_range.map hf
  have hsub : (List.range (t.rows.length + 1)).map f ⊆ t.keys := by
    intro k hk
    obtain ⟨n, hn, rfl⟩ := List.mem_map.mp hk
    have htaken := hall n (Nat.lt_succ_iff.mp (List.mem_range.mp hn))
    exact mem_keys_iff.mpr (Option.ne_none_iff_exists'.mp htaken)
  have hlen := (List.subperm_of_subset hnodup hsub).length_le
  simp only [List.length_map, List.length_range, keys] at hlen
  omega

@[simp] theorem get_empty (k : κ) : (empty : Table κ ρ).get k = none := rfl

@[simp] theorem get_mapRows (t : Table κ ρ) (f : κ → ρ → ρ) (k : κ) :
    (t.mapRows f).get k = (t.get k).map (f k) := by
  ext r
  simp only [get_eq_some_iff, mapRows, List.mem_map, Prod.mk.injEq, Prod.exists,
    Option.map_eq_some_iff]
  constructor
  · rintro ⟨k', r', hmem, rfl, rfl⟩
    exact ⟨r', hmem, rfl⟩
  · rintro ⟨r', hmem, rfl⟩
    exact ⟨k, r', hmem, rfl, rfl⟩

omit [DecidableEq κ] in
@[simp] theorem keys_mapRows (t : Table κ ρ) (f : κ → ρ → ρ) : (t.mapRows f).keys = t.keys := by
  simp [keys, mapRows]

@[simp] theorem get_deleteWhere (t : Table κ ρ) (p : κ → ρ → Bool) (k : κ) :
    (t.deleteWhere p).get k = (t.get k).filter fun r => !p k r := by
  ext r
  simp [get_eq_some_iff, deleteWhere, Option.filter_eq_some_iff]

omit [DecidableEq κ] in
theorem deleteWhere_of_none {t : Table κ ρ} {p : κ → ρ → Bool}
    (h : ∀ x ∈ t.rows, p x.1 x.2 = false) : t.deleteWhere p = t := by
  have hrows : (t.rows.filter fun x => !p x.1 x.2) = t.rows :=
    List.filter_eq_self.mpr fun x hx => by rw [h x hx]; rfl
  unfold deleteWhere
  congr

/-- `UPDATE .. WHERE key = k`. -/
def update (t : Table κ ρ) (k : κ) (f : ρ → ρ) : Table κ ρ :=
  t.mapRows fun k' r => if k' = k then f r else r

@[simp] theorem get_update_self (t : Table κ ρ) (k : κ) (f : ρ → ρ) :
    (t.update k f).get k = (t.get k).map f := by
  simp [update]

theorem get_update_of_ne (t : Table κ ρ) {k k' : κ} (f : ρ → ρ) (h : k' ≠ k) :
    (t.update k f).get k' = t.get k' := by
  simp [update, h]

theorem get_update (t : Table κ ρ) (k k' : κ) (f : ρ → ρ) :
    (t.update k f).get k' = if k' = k then (t.get k').map f else t.get k' := by
  split_ifs with h
  · rw [h, get_update_self]
  · exact get_update_of_ne t f h

/-- An update that writes what is there changes nothing. -/
theorem update_eq_self {t : Table κ ρ} {k : κ} {f : ρ → ρ} (h : ∀ r, t.get k = some r → f r = r) :
    t.update k f = t := by
  have hrows : (t.rows.map fun x => (x.1, if x.1 = k then f x.2 else x.2)) = t.rows := by
    refine (List.map_congr_left fun x hx => ?_).trans (List.map_id _)
    split_ifs with hk
    · exact Prod.ext rfl (h x.2 (hk ▸ get_of_mem_rows hx))
    · rfl
  unfold update mapRows
  congr

theorem update_of_get {t : Table κ ρ} {k : κ} {r : ρ} (h : t.get k = some r) :
    (t.update k fun _ => r) = t :=
  update_eq_self fun _ hr => Option.some_inj.mp (h.symm.trans hr)

/-- Two updates of one key are one. -/
theorem update_update (t : Table κ ρ) (k : κ) (f g : ρ → ρ) :
    (t.update k f).update k g = t.update k fun r => g (f r) := by
  unfold update mapRows
  congr 1
  rw [List.map_map]
  refine List.map_congr_left fun x _ => ?_
  by_cases hk : x.1 = k
  · simp [hk]
  · simp [hk]

/-- `INSERT OR IGNORE`. A caller that has found no row at the key inserts. -/
def insert (t : Table κ ρ) (k : κ) (r : ρ) : Table κ ρ :=
  if h : k ∈ t.keys then t
  else ⟨t.rows ++ [(k, r)], by
    rw [List.map_append, List.nodup_append]
    exact ⟨t.nodup, by simp, by
      intro a ha b hb
      simp only [List.map_cons, List.map_nil, List.mem_singleton] at hb
      rintro rfl
      exact h (hb ▸ ha)⟩⟩

theorem get_insert (t : Table κ ρ) (k k' : κ) (r : ρ) :
    (t.insert k r).get k' = if t.get k' = none ∧ k' = k then some r else t.get k' := by
  by_cases hk : k ∈ t.keys
  · obtain ⟨r₀, hr₀⟩ := mem_keys_iff.mp hk
    have : ¬(t.get k' = none ∧ k' = k) := by
      rintro ⟨hn, rfl⟩
      rw [hr₀] at hn
      cases hn
    rw [insert, dif_pos hk, if_neg this]
  · have hnone : t.get k = none := get_eq_none_iff.mpr hk
    rw [insert, dif_neg hk]
    ext r'
    rw [get_eq_some_iff, List.mem_append, List.mem_singleton, Prod.mk.injEq, ← get_eq_some_iff]
    by_cases hkk : k' = k
    · subst hkk
      simp [hnone, eq_comm]
    · simp [hkk]

@[simp] theorem get_insert_self {t : Table κ ρ} {k : κ} {r : ρ} (h : t.get k = none) :
    (t.insert k r).get k = some r := by
  simp [get_insert, h]

theorem get_insert_of_ne (t : Table κ ρ) {k k' : κ} (r : ρ) (h : k' ≠ k) :
    (t.insert k r).get k' = t.get k' := by
  simp [get_insert, h]

/-- Assignment to a dictionary key: the row at the key is replaced in place, a new key is appended. -/
def put (t : Table κ ρ) (k : κ) (r : ρ) : Table κ ρ :=
  if k ∈ t.keys then t.update k fun _ => r else t.insert k r

@[simp] theorem get_put_self (t : Table κ ρ) (k : κ) (r : ρ) : (t.put k r).get k = some r := by
  rw [put]
  split_ifs with h
  · obtain ⟨r', hr'⟩ := mem_keys_iff.mp h
    simp [hr']
  · exact get_insert_self (get_eq_none_iff.mpr h)

theorem get_put_of_ne (t : Table κ ρ) {k k' : κ} (r : ρ) (h : k' ≠ k) :
    (t.put k r).get k' = t.get k' := by
  rw [put]
  split_ifs
  · exact get_update_of_ne t _ h
  · exact get_insert_of_ne t r h

theorem get_put (t : Table κ ρ) (k k' : κ) (r : ρ) :
    (t.put k r).get k' = if k' = k then some r else t.get k' := by
  split_ifs with h
  · rw [h, get_put_self]
  · exact get_put_of_ne t r h

/-- To put what is there changes nothing. -/
theorem put_of_get {t : Table κ ρ} {k : κ} {r : ρ} (h : t.get k = some r) : t.put k r = t := by
  rw [put, if_pos (mem_keys_iff.mpr ⟨r, h⟩)]
  exact update_of_get h

omit [DecidableEq κ] in
theorem eq_of_rows {s t : Table κ ρ} (h : s.rows = t.rows) : s = t := by
  cases s
  cases t
  congr

/-- A table is what its rows put one after the other make. -/
theorem foldl_put_rows (t : Table κ ρ) :
    t.rows.foldl (fun t x => t.put x.1 x.2) (empty : Table κ ρ) = t := by
  have key : ∀ (rest : List (κ × ρ)) (done : Table κ ρ),
      ((done.rows ++ rest).map Prod.fst).Nodup →
        (rest.foldl (fun t x => t.put x.1 x.2) done).rows = done.rows ++ rest := by
    intro rest
    induction rest with
    | nil =>
        intro done _
        rw [List.append_nil, List.foldl_nil]
    | cons x rest ih =>
        intro done hnodup
        have hnew : x.1 ∉ done.keys := by
          rw [List.map_append, List.map_cons, List.nodup_append] at hnodup
          exact fun hmem => hnodup.2.2 x.1 hmem x.1 List.mem_cons_self rfl
        have hput : (done.put x.1 x.2).rows = done.rows ++ [x] := by
          rw [put, if_neg hnew, insert, dif_neg hnew]
        rw [List.foldl_cons, ih _ (by simpa [hput] using hnodup), hput, List.append_assoc,
          List.singleton_append]
  exact eq_of_rows (key t.rows empty t.nodup)

/-- What the row of a key weighs. -/
def weightAt (t : Table κ ρ) (weight : κ → ρ → Nat) (k : κ) : Nat :=
  ((t.get k).map (weight k)).getD 0

omit [DecidableEq κ] in
/-- What all rows weigh. -/
def total (t : Table κ ρ) (weight : κ → ρ → Nat) : Nat := (t.rows.map fun x => weight x.1 x.2).sum

theorem total_eq_sum (t : Table κ ρ) (weight : κ → ρ → Nat) {ks : Finset κ}
    (hks : ∀ k ∈ t.keys, k ∈ ks) : t.total weight = ∑ k ∈ ks, t.weightAt weight k := by
  have hkeys : ∑ k ∈ t.keys.toFinset, t.weightAt weight k = ∑ k ∈ ks, t.weightAt weight k := by
    refine Finset.sum_subset (fun k hk => hks k (List.mem_toFinset.mp hk)) fun k _ hk => ?_
    rw [weightAt, get_eq_none_iff.mpr fun h => hk (List.mem_toFinset.mpr h)]
    rfl
  rw [← hkeys, keys, List.sum_toFinset _ t.nodup, List.map_map, total]
  refine congrArg List.sum (List.map_congr_left fun x hx => ?_)
  rw [Function.comp_apply, weightAt, get_of_mem_rows hx]
  rfl

/-- Tables that differ in one key differ in weight by what that key weighs. -/
theorem total_add_weightAt (t t' : Table κ ρ) (weight : κ → ρ → Nat) (k : κ)
    (h : ∀ k', k' ≠ k → t'.weightAt weight k' = t.weightAt weight k') :
    t'.total weight + t.weightAt weight k = t.total weight + t'.weightAt weight k := by
  let ks := (k :: (t.keys ++ t'.keys)).toFinset
  have hk : k ∈ ks := List.mem_toFinset.mpr List.mem_cons_self
  have ht : t.total weight = ∑ j ∈ ks, t.weightAt weight j :=
    t.total_eq_sum weight fun j hj => by simp [ks, hj]
  have ht' : t'.total weight = ∑ j ∈ ks, t'.weightAt weight j :=
    t'.total_eq_sum weight fun j hj => by simp [ks, hj]
  have hsame : ∑ j ∈ ks.erase k, t'.weightAt weight j = ∑ j ∈ ks.erase k, t.weightAt weight j :=
    Finset.sum_congr rfl fun j hj => h j (Finset.ne_of_mem_erase hj)
  have hsplit := Finset.add_sum_erase ks (fun j => t.weightAt weight j) hk
  have hsplit' := Finset.add_sum_erase ks (fun j => t'.weightAt weight j) hk
  omega

/-- A sum over the rows, before and after an assignment to one key. -/
theorem sum_put (t : Table κ ρ) (k : κ) (r : ρ) (weight : ρ → Nat) :
    ((t.put k r).rows.map fun x => weight x.2).sum + ((t.get k).map weight).getD 0 =
      (t.rows.map fun x => weight x.2).sum + weight r := by
  have h := total_add_weightAt t (t.put k r) (fun _ => weight) k
    fun k' hk' => by rw [weightAt, get_put_of_ne _ _ hk', weightAt]
  rwa [weightAt, weightAt, get_put_self] at h

/-- `UPDATE .. SET key = new WHERE key = old`, `none` where the unique key refuses it. A missing
row is no error. -/
def rename? (t : Table κ ρ) (old new : κ) : Option (Table κ ρ) :=
  if hold : old ∈ t.keys then
    if old = new then some t
    else if hnew : new ∈ t.keys then none
    else some ⟨t.rows.map fun x => (if x.1 = old then new else x.1, x.2), by
      rw [List.map_map]
      refine (List.nodup_map_iff_inj_on (List.Nodup.of_map _ t.nodup)).mpr ?_
      rintro ⟨a, ra⟩ ha ⟨b, rb⟩ hb hab
      have hane : a ≠ new := fun h => hnew (h ▸ List.mem_map.mpr ⟨_, ha, rfl⟩)
      have hbne : b ≠ new := fun h => hnew (h ▸ List.mem_map.mpr ⟨_, hb, rfl⟩)
      have hkey : a = b := by
        simp only [Function.comp_apply] at hab
        split_ifs at hab with h1 h2 h2
        · rw [h1, h2]
        · exact absurd hab.symm hbne
        · exact absurd hab hane
        · exact hab
      subst hkey
      have h1 := get_of_mem_rows ha
      have h2 := get_of_mem_rows hb
      rw [h1, Option.some_inj] at h2
      exact Prod.ext rfl h2⟩
  else some t

theorem rename?_eq_none_iff {t : Table κ ρ} {old new : κ} :
    t.rename? old new = none ↔ old ∈ t.keys ∧ new ∈ t.keys ∧ old ≠ new := by
  unfold rename?
  split_ifs with h1 h2 h3 <;> simp_all

theorem rename?_of_missing {t : Table κ ρ} {old : κ} (h : t.get old = none) (new : κ) :
    t.rename? old new = some t := by
  rw [rename?, dif_neg (get_eq_none_iff.mp h)]

/-- Renaming a row to a free key moves it and nothing else. -/
theorem get_rename? {t t' : Table κ ρ} {old new : κ} {r : ρ} (hr : t.get old = some r)
    (hne : old ≠ new) (h : t.rename? old new = some t') (k : κ) :
    t'.get k = if k = new then some r else if k = old then none else t.get k := by
  have hold : old ∈ t.keys := mem_keys_iff.mpr ⟨r, hr⟩
  rw [rename?, dif_pos hold, if_neg hne] at h
  split_ifs at h with hnew
  rw [Option.some_inj] at h
  subst h
  have hnone : t.get new = none := get_eq_none_iff.mpr hnew
  ext r'
  rw [get_eq_some_iff]
  simp only [List.mem_map, Prod.mk.injEq, Prod.exists]
  constructor
  · rintro ⟨a, ra, hmem, hk, rfl⟩
    have ha := get_of_mem_rows hmem
    split_ifs at hk with h1
    · subst hk h1
      rw [if_pos rfl, ← hr, ha]
    · subst hk
      have hn : a ≠ new := fun h => by rw [h] at ha; rw [hnone] at ha; cases ha
      rw [if_neg hn, if_neg h1, ha]
  · intro hk
    split_ifs at hk with h1 h2
    · rw [Option.some_inj] at hk
      subst hk
      exact ⟨old, r, mem_rows_of_get hr, by rw [if_pos rfl, h1], rfl⟩
    · exact ⟨k, r', mem_rows_of_get hk, if_neg h2, rfl⟩

theorem rename?_eq_some (t : Table κ ρ) (old : κ) {new : κ} (hnew : t.get new = none) :
    ∃ t', t.rename? old new = some t' := by
  rw [← Option.isSome_iff_exists, Option.isSome_iff_ne_none, ne_eq, rename?_eq_none_iff]
  exact fun h => get_eq_none_iff.mp hnew h.2.1

/-- `UPDATE .. SET key = g key WHERE p key`: the rows that match when the statement starts are
rewritten one by one, and the statement is refused where a new key is taken at that moment. -/
def renameWhere? (t : Table κ ρ) (p : κ → Bool) (g : κ → κ) : Option (Table κ ρ) :=
  (t.keys.filter p).foldlM (fun t k => t.rename? k (g k)) t

/-- Keys after a rename. -/
theorem mem_keys_rename? {t t' : Table κ ρ} {old new : κ} (hold : old ∈ t.keys)
    (h : t.rename? old new = some t') (x : κ) :
    x ∈ t'.keys ↔ x = new ∨ x ∈ t.keys ∧ x ≠ old := by
  obtain ⟨r, hr⟩ := mem_keys_iff.mp hold
  by_cases hne : old = new
  · subst hne
    rw [rename?, dif_pos hold, if_pos rfl, Option.some_inj] at h
    subst h
    by_cases hx : x = old
    · simp [hx, hold]
    · simp [hx]
  · rw [mem_keys_iff, get_rename? hr hne h x]
    by_cases hx : x = new
    · simp [hx]
    · by_cases hx' : x = old
      · simp [hx', hne]
      · simp [hx, hx', mem_keys_iff]

/-- The keys once the listed ones have been rewritten. -/
def KeysAfter (t : Table κ ρ) (g : κ → κ) (done : List κ) (x : κ) : Prop :=
  x ∈ done.map g ∨ x ∈ t.keys ∧ x ∉ done

/-- Each of the listed keys, when its turn comes, is rewritten to itself or to a free key. -/
def CanRename (t : Table κ ρ) (g : κ → κ) (ks : List κ) : Prop :=
  ∀ done k rest, ks = done ++ k :: rest → t.KeysAfter g done (g k) → g k = k

omit [DecidableEq κ] in
theorem CanRename.of_append {t : Table κ ρ} {g : κ → κ} {ks ls : List κ}
    (h : t.CanRename g (ks ++ ls)) : t.CanRename g ks :=
  fun done k rest hks => h done k (rest ++ ls) (by rw [hks, List.append_assoc, List.cons_append])

/-- Rewriting keys one by one goes through exactly where each finds its new key free. -/
theorem foldlM_rename?_cases (t : Table κ ρ) (g : κ → κ) {ks : List κ} (hnodup : ks.Nodup)
    (hks : ∀ k ∈ ks, k ∈ t.keys) :
    (t.CanRename g ks ∧ ∃ t', ks.foldlM (fun t k => t.rename? k (g k)) t = some t' ∧
      ∀ x, x ∈ t'.keys ↔ t.KeysAfter g ks x) ∨
    ¬ t.CanRename g ks ∧ ks.foldlM (fun t k => t.rename? k (g k)) t = none := by
  induction ks using List.reverseRecOn with
  | nil =>
      left
      refine ⟨fun done k rest h => ?_, t, rfl, fun x => by simp [KeysAfter]⟩
      exact absurd h.symm (by simp)
  | append_singleton ks k ih =>
      rw [List.nodup_append] at hnodup
      have hnot : k ∉ ks := fun hk => hnodup.2.2 k hk k (List.mem_singleton_self k) rfl
      rcases ih hnodup.1 fun l hl => hks l (List.mem_append_left _ hl) with
        ⟨hcan, t', ht', hkeys⟩ | ⟨hcannot, hnone⟩
      · have hk : k ∈ t'.keys := (hkeys k).mpr
          (Or.inr ⟨hks k (List.mem_append_right _ (List.mem_singleton_self k)), hnot⟩)
        have hfold : (ks ++ [k]).foldlM (fun t k => t.rename? k (g k)) t = t'.rename? k (g k) := by
          rw [List.foldlM_append, ht']
          simp
        rw [hfold]
        cases hren : t'.rename? k (g k) with
        | none =>
            right
            obtain ⟨-, htaken, hne⟩ := rename?_eq_none_iff.mp hren
            refine ⟨fun h => hne.symm (h ks k [] rfl ((hkeys _).mp htaken)), rfl⟩
        | some t'' =>
            left
            refine ⟨fun done l rest hsplit hafter => ?_, t'', rfl, fun x => ?_⟩
            · rcases List.eq_nil_or_concat rest with rfl | ⟨rest', l', rfl⟩
              · obtain ⟨rfl, hl⟩ := List.append_inj' hsplit rfl
                obtain ⟨rfl, -⟩ := List.cons.inj hl
                by_contra hne
                exact absurd (rename?_eq_none_iff.mpr ⟨hk, (hkeys _).mpr hafter, Ne.symm hne⟩)
                  (by rw [hren]; exact Option.some_ne_none t'')
              · rw [List.concat_eq_append, ← List.cons_append, ← List.append_assoc] at hsplit
                exact hcan done l rest' (List.append_inj' hsplit rfl).1 hafter
            · rw [mem_keys_rename? hk hren x, hkeys x]
              have hfree : k ∉ ks.map g := by
                intro hmem
                obtain ⟨l, hl, hgl⟩ := List.mem_map.mp hmem
                obtain ⟨done, rest, hsplit⟩ := List.append_of_mem hl
                have hafter : t.KeysAfter g done (g l) := by
                  refine Or.inr ⟨hgl ▸ hks k (List.mem_append_right _ (List.mem_singleton_self k)),
                    fun hdone => hnot ?_⟩
                  rw [hsplit, ← hgl]
                  exact List.mem_append_left _ hdone
                exact hnot (hgl ▸ (hcan done l rest hsplit hafter).symm ▸ hl)
              simp only [KeysAfter, List.map_append, List.map_cons, List.map_nil, List.mem_append,
                List.mem_singleton, not_or]
              constructor
              · rintro (rfl | ⟨hx | ⟨hx, hxs⟩, hxk⟩)
                · exact Or.inl (Or.inr rfl)
                · exact Or.inl (Or.inl hx)
                · exact Or.inr ⟨hx, hxs, hxk⟩
              · rintro ((hx | rfl) | ⟨hx, hxs, hxk⟩)
                · exact Or.inr ⟨Or.inl hx, fun h => hfree (h ▸ hx)⟩
                · exact Or.inl rfl
                · exact Or.inr ⟨Or.inr ⟨hx, hxs⟩, hxk⟩
      · right
        refine ⟨fun h => hcannot h.of_append, ?_⟩
        rw [List.foldlM_append, hnone]
        rfl

/-- Where the new keys are free from the start, each row is found under its new key and nothing else
changes. -/
theorem get_foldlM_rename? {t t' : Table κ ρ} {g : κ → κ} {ks : List κ} (hnodup : ks.Nodup)
    (hks : ∀ k ∈ ks, k ∈ t.keys) (hfresh : ∀ k ∈ ks, t.get (g k) = none)
    (h : ks.foldlM (fun t k => t.rename? k (g k)) t = some t') :
    (∀ k ∈ ks, t'.get (g k) = t.get k) ∧
      ∀ x, x ∉ ks.map g → t'.get x = if x ∈ ks then none else t.get x := by
  have hnew : ∀ {k l}, k ∈ ks → l ∈ ks → k ≠ g l := by
    rintro k l hk hl rfl
    exact get_eq_none_iff.mp (hfresh l hl) (hks _ hk)
  induction ks using List.reverseRecOn generalizing t' with
  | nil =>
      obtain rfl := Option.some_inj.mp h
      exact ⟨fun k hk => absurd hk List.not_mem_nil, fun x _ => by rw [if_neg List.not_mem_nil]⟩
  | append_singleton ks k ih =>
      rw [List.nodup_append] at hnodup
      have hk : k ∈ ks ++ [k] := List.mem_append_right _ (List.mem_singleton_self k)
      have hleft : ∀ {l}, l ∈ ks → l ∈ ks ++ [k] := fun hl => List.mem_append_left _ hl
      have hnot : k ∉ ks := fun h => hnodup.2.2 k h k (List.mem_singleton_self k) rfl
      rw [List.foldlM_append] at h
      obtain ⟨m, hm, hren⟩ := Option.bind_eq_some_iff.mp h
      replace hren : m.rename? k (g k) = some t' := by simpa using hren
      obtain ⟨hmoved, hrest⟩ := ih hnodup.1 (fun l hl => hks l (hleft hl))
        (fun l hl => hfresh l (hleft hl)) hm fun hl hl' => hnew (hleft hl) (hleft hl')
      have hkmap : k ∉ ks.map g := by
        intro hmem
        obtain ⟨l, hl, hgl⟩ := List.mem_map.mp hmem
        exact hnew hk (hleft hl) hgl.symm
      obtain ⟨r, hr⟩ := mem_keys_iff.mp (hks k hk)
      have hmk : m.get k = some r := by rw [hrest k hkmap, if_neg hnot, hr]
      have hget := get_rename? hmk (hnew hk hk) hren
      have htaken : m.get (g k) = none := by
        rw [get_eq_none_iff]
        intro hmem
        have hnone := rename?_eq_none_iff.mpr ⟨mem_keys_iff.mpr ⟨r, hmk⟩, hmem, hnew hk hk⟩
        exact absurd (hren.symm.trans hnone) (Option.some_ne_none t')
      refine ⟨fun l hl => ?_, fun x hx => ?_⟩
      · rcases List.mem_append.mp hl with hl | hl
        · have hne : g l ≠ g k := by
            intro heq
            obtain ⟨r', hr'⟩ := mem_keys_iff.mp (hks l (hleft hl))
            rw [← heq, hmoved l hl, hr'] at htaken
            cases htaken
          rw [hget, if_neg hne, if_neg (hnew hk (hleft hl)).symm, hmoved l hl]
        · obtain rfl := List.mem_singleton.mp hl
          rw [hget, if_pos rfl, hr]
      · rw [List.map_append, List.mem_append, not_or] at hx
        rw [hget, if_neg fun h => hx.2 (List.mem_singleton.mpr h), hrest x hx.1]
        simp only [List.mem_append, List.mem_singleton]
        by_cases hxk : x = k
        · rw [if_pos hxk, if_pos (Or.inr hxk)]
        · rw [if_neg hxk]
          by_cases hxs : x ∈ ks
          · rw [if_pos hxs, if_pos (Or.inl hxs)]
          · rw [if_neg hxs, if_neg (by rintro (h | h); exact hxs h; exact hxk h)]

/-- **The statement goes through** exactly where each row that matches finds its new key free. -/
theorem renameWhere?_cases (t : Table κ ρ) (p : κ → Bool) (g : κ → κ) :
    (t.CanRename g (t.keys.filter p) ∧ ∃ t', t.renameWhere? p g = some t' ∧
      ∀ x, x ∈ t'.keys ↔ t.KeysAfter g (t.keys.filter p) x) ∨
    ¬ t.CanRename g (t.keys.filter p) ∧ t.renameWhere? p g = none :=
  t.foldlM_rename?_cases g (t.nodup.filter _) fun _ hk => (List.mem_filter.mp hk).1

/-- Rewriting keys one by one leaves every row in its place. -/
theorem rows_foldlM_rename? {t t' : Table κ ρ} {g : κ → κ} {ks : List κ} (hnodup : ks.Nodup)
    (hks : ∀ k ∈ ks, k ∈ t.keys) (h : ks.foldlM (fun t k => t.rename? k (g k)) t = some t') :
    t'.rows = t.rows.map fun x => (if x.1 ∈ ks then g x.1 else x.1, x.2) := by
  induction ks using List.reverseRecOn generalizing t' with
  | nil =>
      obtain rfl := Option.some_inj.mp h
      simp
  | append_singleton ks k ih =>
      rw [List.nodup_append] at hnodup
      have hnot : k ∉ ks := fun hk => hnodup.2.2 k hk k (List.mem_singleton_self k) rfl
      have hkt : k ∈ t.keys := hks k (List.mem_append_right _ (List.mem_singleton_self k))
      rw [List.foldlM_append] at h
      obtain ⟨m, hm, hren⟩ := Option.bind_eq_some_iff.mp h
      replace hren : m.rename? k (g k) = some t' := by simpa using hren
      have hrows := ih hnodup.1 (fun l hl => hks l (List.mem_append_left _ hl)) hm
      -- a row rewritten before does not have the key that is rewritten now
      have hinj := m.nodup
      rw [hrows, List.map_map] at hinj
      replace hinj := (List.nodup_map_iff_inj_on (List.Nodup.of_map _ t.nodup)).mp hinj
      obtain ⟨z, hz, hzk⟩ := List.mem_map.mp hkt
      have hapart : ∀ y ∈ t.rows, y.1 ∈ ks → g y.1 ≠ k := by
        intro y hy hmem heq
        have hyz : y = z := hinj y hy z hz (by
          simp only [Function.comp_apply]
          rw [if_pos hmem, hzk, if_neg hnot, heq])
        rw [hyz, hzk] at hmem
        exact hnot hmem
      have hkm : k ∈ m.keys := by
        rw [keys, hrows, List.map_map]
        refine List.mem_map.mpr ⟨z, hz, ?_⟩
        simp only [Function.comp_apply]
        rw [hzk, if_neg hnot]
      rw [rename?, dif_pos hkm] at hren
      split_ifs at hren with hself hnew
      · rw [Option.some_inj] at hren
        rw [← hren, hrows]
        refine List.map_congr_left fun y hy => ?_
        by_cases hyk : y.1 = k
        · rw [hyk, if_neg hnot, if_pos (List.mem_append_right _ (List.mem_singleton_self k)), ← hself]
        · simp [hyk]
      · rw [Option.some_inj] at hren
        rw [← hren]
        dsimp only
        rw [hrows, List.map_map]
        refine List.map_congr_left fun y hy => ?_
        rw [Function.comp_apply]
        by_cases hmem : y.1 ∈ ks
        · simp [hmem, hapart y hy hmem]
        · by_cases hyk : y.1 = k
          · simp [hnot, hyk]
          · simp [hmem, hyk]

/-- **The statement keeps the rows in their places** and rewrites the keys that match. -/
theorem rows_renameWhere? {t t' : Table κ ρ} {p : κ → Bool} {g : κ → κ}
    (h : t.renameWhere? p g = some t') :
    t'.rows = t.rows.map fun x => (if p x.1 then g x.1 else x.1, x.2) := by
  have hnodup : (t.keys.filter p).Nodup := t.nodup.filter _
  rw [rows_foldlM_rename? hnodup (fun _ hk => (List.mem_filter.mp hk).1) h]
  refine List.map_congr_left fun x hx => ?_
  have hkey : x.1 ∈ t.keys := List.mem_map_of_mem hx
  simp only [List.mem_filter, hkey, true_and]

/-- It changes nothing exactly where each key that matches stays as it is. -/
theorem renameWhere?_eq_self_iff {t t' : Table κ ρ} {p : κ → Bool} {g : κ → κ}
    (h : t.renameWhere? p g = some t') : t' = t ↔ ∀ k ∈ t.keys, p k = true → g k = k := by
  have hrows := rows_renameWhere? h
  constructor
  · rintro rfl k hk hp
    obtain ⟨x, hx, rfl⟩ := List.mem_map.mp hk
    have hsame := List.map_eq_map_iff.mp (hrows.symm.trans (List.map_id _).symm) x hx
    rw [if_pos hp] at hsame
    exact congrArg Prod.fst hsame
  · intro hstay
    refine eq_of_rows ?_
    calc t'.rows = t.rows.map fun x => (if p x.1 then g x.1 else x.1, x.2) := hrows
      _ = t.rows.map id := List.map_congr_left fun x hx => ?_
      _ = t.rows := List.map_id _
    split_ifs with hp
    · rw [hstay x.1 (List.mem_map_of_mem hx) hp]
      rfl
    · rfl

theorem rename?_self (t : Table κ ρ) (k : κ) : t.rename? k k = some t := by
  by_cases hk : k ∈ t.keys
  · rw [rename?, dif_pos hk, if_pos rfl]
  · rw [rename?, dif_neg hk]

/-- A key that is rewritten to itself need not match. -/
theorem renameWhere?_of_fixed (t : Table κ ρ) {p q : κ → Bool} {g : κ → κ}
    (hqp : ∀ k ∈ t.keys, q k = true → p k = true)
    (hfixed : ∀ k ∈ t.keys, p k = true → q k = false → g k = k) :
    t.renameWhere? p g = t.renameWhere? q g := by
  have key : ∀ (ks : List κ) (m : Table κ ρ), (∀ k ∈ ks, k ∈ t.keys) →
      (ks.filter p).foldlM (fun t k => t.rename? k (g k)) m =
        (ks.filter q).foldlM (fun t k => t.rename? k (g k)) m := by
    intro ks
    induction ks with
    | nil =>
        intro m _
        rfl
    | cons k ks ih =>
        intro m hks
        have hk := hks k List.mem_cons_self
        have hrest : ∀ l ∈ ks, l ∈ t.keys := fun l hl => hks l (List.mem_cons_of_mem k hl)
        cases hq : q k with
        | true =>
            simp only [List.filter_cons, hq, hqp k hk hq, if_true, List.foldlM_cons]
            exact congrArg _ (funext fun m' => ih m' hrest)
        | false =>
            cases hp : p k with
            | true =>
                simp only [List.filter_cons, hq, hp, if_true, Bool.false_eq_true, if_false,
                  List.foldlM_cons, hfixed k hk hp hq, rename?_self]
                exact ih m hrest
            | false =>
                simp only [List.filter_cons, hq, hp, Bool.false_eq_true, if_false]
                exact ih m hrest
  exact key t.keys t fun _ h => h

theorem get_renameWhere? {t t' : Table κ ρ} {p : κ → Bool} {g : κ → κ}
    (hfresh : ∀ k ∈ t.keys.filter p, t.get (g k) = none) (h : t.renameWhere? p g = some t') :
    (∀ k ∈ t.keys.filter p, t'.get (g k) = t.get k) ∧
      ∀ x, x ∉ (t.keys.filter p).map g → t'.get x = if x ∈ t.keys.filter p then none else t.get x :=
  get_foldlM_rename? (t.nodup.filter _) (fun _ hk => (List.mem_filter.mp hk).1) hfresh h

/-- It makes no row. -/
theorem exists_get_of_renameWhere? {t t' : Table κ ρ} {p : κ → Bool} {g : κ → κ}
    (h : t.renameWhere? p g = some t') {x : κ} {r : ρ} (hx : t'.get x = some r) :
    ∃ k, t.get k = some r := by
  unfold renameWhere? at h
  generalize t.keys.filter p = ks at h
  induction ks generalizing t with
  | nil =>
      obtain rfl := Option.some_inj.mp h
      exact ⟨x, hx⟩
  | cons k ks ih =>
      rw [List.foldlM_cons] at h
      obtain ⟨m, hm, hrest⟩ := Option.bind_eq_some_iff.mp h
      obtain ⟨l, hl⟩ := ih hrest
      cases hk : t.get k with
      | none =>
          rw [rename?_of_missing hk, Option.some_inj] at hm
          exact ⟨l, hm ▸ hl⟩
      | some row =>
          by_cases hne : k = g k
          · rw [rename?, dif_pos (mem_keys_iff.mpr ⟨row, hk⟩), if_pos hne, Option.some_inj] at hm
            exact ⟨l, hm ▸ hl⟩
          · rw [get_rename? hk hne hm l] at hl
            split_ifs at hl
            · exact ⟨k, hk.trans hl⟩
            · exact ⟨l, hl⟩

/-- Every row meets the condition. -/
def Forall (t : Table κ ρ) (P : κ → ρ → Prop) : Prop := ∀ k r, t.get k = some r → P k r

section Forall

variable {t t' : Table κ ρ} {P : κ → ρ → Prop}

theorem forall_empty (P : κ → ρ → Prop) : (empty : Table κ ρ).Forall P := by
  intro k r h
  rw [get_empty] at h
  cases h

theorem Forall.put (h : t.Forall P) {k : κ} {r : ρ} (hr : P k r) : (t.put k r).Forall P := by
  intro k' r' h'
  rw [get_put] at h'
  split_ifs at h' with hk
  · rw [Option.some_inj] at h'
    rwa [hk, ← h']
  · exact h k' r' h'

theorem Forall.insert (h : t.Forall P) {k : κ} {r : ρ} (hr : P k r) : (t.insert k r).Forall P := by
  intro k' r' h'
  rw [get_insert] at h'
  split_ifs at h' with hk
  · rw [Option.some_inj] at h'
    rwa [hk.2, ← h']
  · exact h k' r' h'

theorem Forall.update (h : t.Forall P) {k : κ} {f : ρ → ρ} (hf : ∀ r, P k r → P k (f r)) :
    (t.update k f).Forall P := by
  intro k' r' h'
  rw [get_update] at h'
  split_ifs at h' with hk
  · obtain ⟨r, hr, rfl⟩ := Option.map_eq_some_iff.mp h'
    subst hk
    exact hf r (h k' r hr)
  · exact h k' r' h'

theorem Forall.deleteWhere (h : t.Forall P) (p : κ → ρ → Bool) : (t.deleteWhere p).Forall P := by
  intro k r h'
  rw [get_deleteWhere] at h'
  exact h k r (Option.filter_eq_some_iff.mp h').1

theorem Forall.rename? (h : t.Forall P) {old new : κ} (hnew : ∀ r, P old r → P new r)
    (hrename : t.rename? old new = some t') : t'.Forall P := by
  cases hold : t.get old with
  | none =>
      rw [rename?_of_missing hold, Option.some_inj] at hrename
      exact hrename ▸ h
  | some row =>
      by_cases hne : old = new
      · rw [Table.rename?, dif_pos (mem_keys_iff.mpr ⟨row, hold⟩), if_pos hne,
          Option.some_inj] at hrename
        exact hrename ▸ h
      · intro k r hk
        rw [get_rename? hold hne hrename] at hk
        split_ifs at hk with hkn
        · rw [Option.some_inj] at hk
          rw [hkn, ← hk]
          exact hnew row (h old row hold)
        · exact h k r hk

theorem Forall.renameWhere? (h : t.Forall P) {p : κ → Bool} {g : κ → κ}
    (hg : ∀ k r, p k = true → P k r → P (g k) r) (hrename : t.renameWhere? p g = some t') :
    t'.Forall P := by
  have hmem : ∀ k ∈ t.keys.filter p, p k = true := fun k hk => (List.mem_filter.mp hk).2
  unfold Table.renameWhere? at hrename
  generalize t.keys.filter p = ks at hrename hmem
  induction ks generalizing t with
  | nil =>
      obtain rfl := Option.some_inj.mp hrename
      exact h
  | cons k ks ih =>
      rw [List.foldlM_cons] at hrename
      obtain ⟨m, hm, hrest⟩ := Option.bind_eq_some_iff.mp hrename
      exact ih (h.rename? (fun r => hg k r (hmem k List.mem_cons_self)) hm) hrest
        fun k' hk' => hmem k' (List.mem_cons_of_mem k hk')

end Forall

/-- **A fold over the rows.** Each row takes its key from `before` to `after`, keeps what the other
keys have, and keeps the invariant. -/
theorem foldl_rule {β : Type*} (t : Table κ ρ) (f : β → κ × ρ → β) (I : β → Prop)
    (before after : κ → ρ → β → Prop) {b : β} (hI : I b)
    (h0 : ∀ k r, t.get k = some r → before k r b)
    (hs : ∀ k r b, t.get k = some r → I b → before k r b →
      I (f b (k, r)) ∧ after k r (f b (k, r)) ∧ ∀ k' r', k' ≠ k → t.get k' = some r' →
        (before k' r' b → before k' r' (f b (k, r))) ∧ (after k' r' b → after k' r' (f b (k, r)))) :
    I (t.rows.foldl f b) ∧ ∀ k r, t.get k = some r → after k r (t.rows.foldl f b) := by
  have key : ∀ (rest done : List (κ × ρ)) (b : β), t.rows = done ++ rest → I b →
      (∀ x ∈ done, after x.1 x.2 b) → (∀ x ∈ rest, before x.1 x.2 b) →
      I (rest.foldl f b) ∧ ∀ x ∈ t.rows, after x.1 x.2 (rest.foldl f b) := by
    intro rest
    induction rest with
    | nil =>
        intro done b hrows hI hdone _
        rw [List.append_nil] at hrows
        exact ⟨hI, fun x hx => hdone x (hrows ▸ hx)⟩
    | cons x rest ih =>
        intro done b hrows hI hdone hrest
        obtain ⟨k, r⟩ := x
        have hmem : ∀ y, y ∈ done ∨ y ∈ (k, r) :: rest → t.get y.1 = some y.2 := fun y hy =>
          get_of_mem_rows (by rw [hrows]; exact List.mem_append.mpr hy)
        have hnodup := t.nodup
        rw [hrows, List.map_append, List.nodup_append, List.map_cons, List.nodup_cons] at hnodup
        obtain ⟨-, ⟨hfresh, -⟩, hapart⟩ := hnodup
        obtain ⟨hI', hafter, hother⟩ :=
          hs k r b (hmem _ (Or.inr List.mem_cons_self)) hI (hrest _ List.mem_cons_self)
        refine ih (done ++ [(k, r)]) _ (by rw [hrows, List.append_assoc]; rfl) hI'
          (fun y hy => ?_) fun y hy => ?_
        · rcases List.mem_append.mp hy with hin | hin
          · have hne : y.1 ≠ k := fun h =>
              hapart _ (List.mem_map_of_mem hin) _ List.mem_cons_self h
            exact (hother _ _ hne (hmem y (Or.inl hin))).2 (hdone y hin)
          · rw [List.mem_singleton] at hin
            subst hin
            exact hafter
        · have hne : y.1 ≠ k := fun h => hfresh (List.mem_map.mpr ⟨y, hy, h⟩)
          exact (hother _ _ hne (hmem y (Or.inr (List.mem_cons_of_mem _ hy)))).1
            (hrest y (List.mem_cons_of_mem _ hy))
  obtain ⟨hIend, hall⟩ := key t.rows [] b rfl hI (fun _ h => nomatch h)
    fun x hx => h0 _ _ (get_of_mem_rows hx)
  exact ⟨hIend, fun k r hr => hall (k, r) (mem_rows_of_get hr)⟩

end Table
