import Mathlib.Data.List.Infix
import StardustFS.TextPath

/-! The pattern language of SQL's `LIKE` as SQLite reads it: `%` stands for any text, `_` for any one
character, and every other character for itself up to the case of an ASCII letter. -/

namespace LikePattern

/-- `value LIKE pattern`, without an escape character. -/
def like : Text → Text → Bool
  | [], s => s.isEmpty
  | '%' :: p, s => s.tails.any fun rest => like p rest
  | '_' :: p, s => match s with
      | [] => false
      | _ :: rest => like p rest
  | c :: p, s => match s with
      | [] => false
      | d :: rest => c.toLower == d.toLower && like p rest

/-- `value LIKE prefix || '%'`. -/
def likePrefix (pre s : Text) : Bool := like (pre ++ ['%']) s

theorem like_percent (s : Text) : like ['%'] s = true := by
  simp only [like, List.any_eq_true, List.mem_tails]
  exact ⟨[], List.nil_suffix, rfl⟩

/-- A text that starts with the prefix matches it, whatever characters the prefix has. -/
theorem likePrefix_of_prefix {pre s : Text} (h : pre <+: s) : likePrefix pre s = true := by
  induction pre generalizing s with
  | nil => exact like_percent s
  | cons c pre ih =>
      obtain ⟨rest, rfl⟩ := h
      have hrest : likePrefix pre (pre ++ rest) = true := ih (List.prefix_append pre rest)
      rw [likePrefix] at hrest ⊢
      rw [List.cons_append, List.cons_append]
      unfold like
      split
      · simp_all
      · rename_i heq
        obtain ⟨rfl, rfl⟩ := List.cons.inj heq
        rw [List.any_eq_true]
        exact ⟨pre ++ rest, by simp [List.mem_tails], hrest⟩
      · rename_i heq
        obtain ⟨rfl, rfl⟩ := List.cons.inj heq
        exact hrest
      · rename_i heq
        obtain ⟨rfl, rfl⟩ := List.cons.inj heq
        simp [hrest]

/-! ### Where the parts of a pattern match -/

/-- What a pattern that does not start with a wildcard does at its first character. -/
theorem like_cons_of_ne {c : Char} (hpercent : c ≠ '%') (hany : c ≠ '_') (p s : Text) :
    like (c :: p) s = true ↔ ∃ d rest, s = d :: rest ∧ c.toLower = d.toLower ∧
      like p rest = true := by
  have heq : like (c :: p) s = match s with
      | [] => false
      | d :: rest => c.toLower == d.toLower && like p rest := by
    conv_lhs => unfold like
    split
    · rename_i h
      cases h
    · rename_i h
      exact absurd (List.cons.inj h).1 hpercent
    · rename_i h
      exact absurd (List.cons.inj h).1 hany
    · rename_i h
      obtain ⟨rfl, rfl⟩ := List.cons.inj h
      rfl
  rw [heq]
  cases s with
  | nil => simp
  | cons d rest => simp

/-- What stands behind matches the end of the text. -/
theorem like_append {a b s : Text} (h : like (a ++ b) s = true) :
    ∃ s₁ s₂, s = s₁ ++ s₂ ∧ ('%' ∉ a → s₁.length = a.length) ∧ like b s₂ = true := by
  induction a generalizing s with
  | nil => exact ⟨[], s, rfl, fun _ => rfl, h⟩
  | cons c a ih =>
      rw [List.cons_append] at h
      by_cases hpercent : c = '%'
      · subst hpercent
        simp only [like, List.any_eq_true, List.mem_tails] at h
        obtain ⟨rest, ⟨before, rfl⟩, hrest⟩ := h
        obtain ⟨s₁, s₂, rfl, -, hlike⟩ := ih hrest
        refine ⟨before ++ s₁, s₂, (List.append_assoc ..).symm, fun hnot => ?_, hlike⟩
        exact absurd List.mem_cons_self hnot
      · obtain ⟨d, rest, rfl, hrest⟩ : ∃ d rest, s = d :: rest ∧ like (a ++ b) rest = true := by
          by_cases hany : c = '_'
          · subst hany
            cases s with
            | nil => simp [like] at h
            | cons d rest => exact ⟨d, rest, rfl, by simpa [like] using h⟩
          · obtain ⟨d, rest, hs, -, hrest⟩ := (like_cons_of_ne hpercent hany _ _).mp h
            exact ⟨d, rest, hs, hrest⟩
        obtain ⟨s₁, s₂, rfl, hlength, hlike⟩ := ih hrest
        refine ⟨d :: s₁, s₂, rfl, fun hnot => ?_, hlike⟩
        rw [List.length_cons, List.length_cons, hlength fun hmem => hnot (List.mem_cons_of_mem c hmem)]

/-- A character below the letters is its own lower case, and no other character's. -/
theorem eq_of_toLower_eq {c d : Char} (hc : c.val.toNat < 65) (h : c.toLower = d.toLower) :
    d = c := by
  have hA : 'A'.val.toNat = 65 := rfl
  have hlow : c.toLower = c := by
    unfold Char.toLower
    rw [dif_neg]
    rintro ⟨hge, -⟩
    have := UInt32.le_iff_toNat_le.mp hge
    omega
  rw [hlow] at h
  unfold Char.toLower at h
  split_ifs at h with hcase
  · exfalso
    have hge := UInt32.le_iff_toNat_le.mp hcase.1
    have hle := UInt32.le_iff_toNat_le.mp hcase.2
    have hZ : 'Z'.val.toNat = 90 := rfl
    have ha : ('a'.val - 'A'.val).toNat = 32 := rfl
    have hv := congrArg (fun e : Char => e.val.toNat) h
    rw [UInt32.toNat_add, ha] at hv
    omega
  · exact h.symm

/-- A sign that is no wildcard matches itself only. -/
theorem like_sign {c : Char} (hc : c.val.toNat < 65) (hpercent : c ≠ '%') {p s : Text}
    (h : like (c :: p) s = true) : ∃ rest, s = c :: rest ∧ like p rest = true := by
  have hany : c ≠ '_' := by
    rintro rfl
    exact absurd hc (by decide)
  obtain ⟨d, rest, rfl, hlower, hrest⟩ := (like_cons_of_ne hpercent hany p s).mp h
  exact ⟨rest, by rw [eq_of_toLower_eq hc hlower], hrest⟩

/-- What matches has at least as many of a sign as the pattern. -/
theorem count_le_of_like {c : Char} (hc : c.val.toNat < 65) (hpercent : c ≠ '%') {p s : Text}
    (h : like p s = true) : p.count c ≤ s.count c := by
  induction p generalizing s with
  | nil => simp
  | cons d p ih =>
      obtain ⟨before, rest, rfl, hdc, hrest⟩ : ∃ before rest, s = before ++ rest ∧
          (d = c → c ∈ before) ∧ like p rest = true := by
        by_cases hd : d = '%'
        · subst hd
          simp only [like, List.any_eq_true, List.mem_tails] at h
          obtain ⟨rest, ⟨before, rfl⟩, hrest⟩ := h
          exact ⟨before, rest, rfl, fun heq => absurd heq.symm hpercent, hrest⟩
        · by_cases hany : d = '_'
          · subst hany
            cases s with
            | nil => simp [like] at h
            | cons e rest =>
                refine ⟨[e], rest, rfl, fun heq => absurd hc (by rw [← heq]; decide), ?_⟩
                simpa [like] using h
          · obtain ⟨e, rest, rfl, hlower, hrest⟩ := (like_cons_of_ne hd hany p s).mp h
            refine ⟨[e], rest, rfl, fun heq => ?_, hrest⟩
            subst heq
            rw [eq_of_toLower_eq hc hlower]
            exact List.mem_singleton_self d
      have hcount := ih hrest
      rw [List.count_append]
      by_cases hd : d = c
      · have hpos := List.count_pos_iff.mpr (hdc hd)
        rw [hd, List.count_cons_self]
        omega
      · rw [List.count_cons_of_ne hd]
        omega

theorem count_le_of_likePrefix {c : Char} (hc : c.val.toNat < 65) (hpercent : c ≠ '%')
    {pre s : Text} (h : likePrefix pre s = true) : pre.count c ≤ s.count c := by
  have hcount := count_le_of_like hc hpercent h
  rw [List.count_append] at hcount
  omega

end LikePattern
