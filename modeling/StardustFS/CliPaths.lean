import StardustFS.PosixPath

/-! The paths a user types. `_vpath` turns backslashes, cuts white space and joins runs of slashes; it
knows nothing of `"."` and `".."` inside a path. -/

namespace StardustFS

namespace CliPaths

open Text

/-- The characters `str.strip` cuts. -/
def isSpace (c : Char) : Bool :=
  let n := c.toNat
  (9 ≤ n && n ≤ 13) || (28 ≤ n && n ≤ 32) || n == 0x85 || n == 0xA0 || n == 0x1680 ||
    (0x2000 ≤ n && n ≤ 0x200A) || n == 0x2028 || n == 0x2029 || n == 0x202F || n == 0x205F ||
    n == 0x3000

/-- `s.strip()`. -/
def stripSpace (s : Text) : Text := (s.dropWhile isSpace).rdropWhile isSpace

/-- `s.replace("//", "/")`. -/
def joinSlashes : Text → Text
  | '/' :: '/' :: s => '/' :: joinSlashes s
  | c :: s => c :: joinSlashes s
  | [] => []

/-- `"//" in s`. -/
def Doubled (s : Text) : Prop := ['/', '/'] <:+: s

instance : DecidablePred Doubled := fun s => inferInstanceAs (Decidable (['/', '/'] <:+: s))

/-- The loop `while "//" in s`; every turn makes the text shorter, so its length bounds them. -/
def squeeze : Nat → Text → Text
  | 0, s => s
  | n + 1, s => if Doubled s then squeeze n (joinSlashes s) else s

/-- The last two steps: single slashes, and none at the end of anything but the root. -/
def trimSlashes (s : Text) : Text :=
  let s := squeeze s.length s
  if 1 < s.length then rstrip '/' s else s

/-- `_vpath`. -/
def vpath (path : Text) : Text :=
  if path = [] then ['/']
  else
    let s := stripSpace (turnBackslashes path)
    if s = [] ∨ s = ['.'] ∨ s = ['.', '/'] then ['/']
    else trimSlashes (if s.head? = some '/' then s else '/' :: s)

/-! ### The loop ends -/

theorem length_joinSlashes_le (s : Text) : (joinSlashes s).length ≤ s.length := by
  induction s using joinSlashes.induct with
  | case1 s ih =>
      rw [joinSlashes, List.length_cons, List.length_cons, List.length_cons]
      omega
  | case2 c s hne ih =>
      rw [joinSlashes.eq_2 c s hne, List.length_cons, List.length_cons]
      omega
  | case3 => exact le_refl _

theorem length_joinSlashes_lt {s : Text} (h : Doubled s) : (joinSlashes s).length < s.length := by
  induction s using joinSlashes.induct with
  | case1 s ih =>
      have := length_joinSlashes_le s
      rw [joinSlashes, List.length_cons, List.length_cons, List.length_cons]
      omega
  | case2 c s hne ih =>
      have hs : Doubled s := by
        rcases List.infix_cons_iff.mp h with hpre | hs
        · obtain ⟨rest, hrest⟩ := hpre
          obtain ⟨rfl, hs⟩ := List.cons.inj hrest
          exact absurd hs.symm (hne rest rfl)
        · exact hs
      have := ih hs
      rw [joinSlashes.eq_2 c s hne, List.length_cons, List.length_cons]
      omega
  | case3 =>
      rw [Doubled, List.infix_nil] at h
      cases h

/-- **No slash is doubled** when the loop is done. -/
theorem not_doubled_squeeze {n : Nat} {s : Text} (h : s.length ≤ n) : ¬ Doubled (squeeze n s) := by
  induction n generalizing s with
  | zero =>
      obtain rfl := List.length_eq_zero_iff.mp (Nat.le_zero.mp h)
      decide
  | succ n ih =>
      rw [squeeze]
      split_ifs with hdoubled
      · have := length_joinSlashes_lt hdoubled
        exact ih (by omega)
      · exact hdoubled

/-! ### Backslashes -/

theorem mem_joinSlashes {c : Char} {s : Text} (h : c ∈ joinSlashes s) : c ∈ s := by
  induction s using joinSlashes.induct with
  | case1 s ih =>
      rw [joinSlashes] at h
      rcases List.mem_cons.mp h with rfl | h
      · exact List.mem_cons_self
      · exact List.mem_cons_of_mem _ (List.mem_cons_of_mem _ (ih h))
  | case2 d s hne ih =>
      rw [joinSlashes.eq_2 d s hne] at h
      rcases List.mem_cons.mp h with rfl | h
      · exact List.mem_cons_self
      · exact List.mem_cons_of_mem _ (ih h)
  | case3 => exact h

theorem mem_squeeze {c : Char} {n : Nat} {s : Text} (h : c ∈ squeeze n s) : c ∈ s := by
  induction n generalizing s with
  | zero => exact h
  | succ n ih =>
      rw [squeeze] at h
      split_ifs at h
      · exact mem_joinSlashes (ih h)
      · exact h

theorem mem_stripSpace {c : Char} {s : Text} (h : c ∈ stripSpace s) : c ∈ s :=
  (List.dropWhile_sublist _).mem ((List.rdropWhile_prefix _ _).sublist.mem h)

theorem mem_trimSlashes {c : Char} {s : Text} (h : c ∈ trimSlashes s) : c ∈ s := by
  unfold trimSlashes at h
  dsimp only at h
  split_ifs at h
  · exact mem_squeeze ((List.rdropWhile_prefix _ _).sublist.mem h)
  · exact mem_squeeze h

/-- What `_vpath` answers has no backslash. -/
theorem backslash_not_mem_vpath (path : Text) : '\\' ∉ vpath path := by
  have hturned : '\\' ∉ stripSpace (turnBackslashes path) := by
    intro h
    obtain ⟨c, -, hc⟩ := List.mem_map.mp (mem_stripSpace h)
    split_ifs at hc with hback
    · cases hc
    · exact hback hc
  intro h
  unfold vpath at h
  by_cases hempty : path = []
  · rw [if_pos hempty] at h
    simp at h
  · rw [if_neg hempty] at h
    dsimp only at h
    split_ifs at h
    · simp at h
    · exact hturned (mem_trimSlashes h)
    · rcases List.mem_cons.mp (mem_trimSlashes h) with h | h
      · cases h
      · exact hturned h

/-! ### Normal paths -/

/-- A path with a slash in front, none doubled and none at the end of anything but the root. -/
structure Normal (p : Text) : Prop where
  rooted : p.head? = some '/'
  single : ¬Doubled p
  noEnd : p.getLast? = some '/' → p = ['/']

/-- The text ends in what `str.strip` cuts. -/
def EndsBlank (s : Text) : Prop := ∃ c, s.getLast? = some c ∧ isSpace c = true

theorem head?_joinSlashes (s : Text) : (joinSlashes s).head? = s.head? := by
  induction s using joinSlashes.induct with
  | case1 s ih => rfl
  | case2 c s hne ih => rw [joinSlashes.eq_2 c s hne, List.head?_cons, List.head?_cons]
  | case3 => rfl

theorem head?_squeeze (n : Nat) (s : Text) : (squeeze n s).head? = s.head? := by
  induction n generalizing s with
  | zero => rfl
  | succ n ih =>
      rw [squeeze]
      split_ifs
      · rw [ih, head?_joinSlashes]
      · rfl

theorem length_squeeze_le (n : Nat) (s : Text) : (squeeze n s).length ≤ s.length := by
  induction n generalizing s with
  | zero => exact le_refl _
  | succ n ih =>
      rw [squeeze]
      split_ifs
      · calc
          (squeeze n (joinSlashes s)).length ≤ (joinSlashes s).length := ih _
          _ ≤ s.length := length_joinSlashes_le s
      · exact le_refl _

theorem squeeze_of_not_doubled {s : Text} (h : ¬Doubled s) (n : Nat) : squeeze n s = s := by
  cases n with
  | zero => rfl
  | succ n => rw [squeeze, if_neg h]

/-- Joining slashes keeps what is between them. -/
theorem filter_joinSlashes (s : Text) :
    (joinSlashes s).filter (· ≠ '/') = s.filter (· ≠ '/') := by
  induction s using joinSlashes.induct with
  | case1 s ih => simpa [joinSlashes] using ih
  | case2 c s hne ih =>
      rw [joinSlashes.eq_2 c s hne, List.filter_cons, List.filter_cons, ih]
  | case3 => rfl

theorem filter_squeeze (n : Nat) (s : Text) :
    (squeeze n s).filter (· ≠ '/') = s.filter (· ≠ '/') := by
  induction n generalizing s with
  | zero => rfl
  | succ n ih =>
      rw [squeeze]
      split_ifs
      · rw [ih, filter_joinSlashes]
      · rfl

/-- Without the slashes at its end a text ends in the last character that is no slash. -/
theorem getLast?_rstrip (s : Text) : (rstrip '/' s).getLast? = (s.filter (· ≠ '/')).getLast? := by
  induction s using List.reverseRecOn with
  | nil => rfl
  | append_singleton s c ih =>
      by_cases hc : c = '/'
      · subst hc
        rw [rstrip, List.rdropWhile_concat_pos _ _ _ rfl, List.filter_append]
        simpa [rstrip] using ih
      · rw [rstrip, List.rdropWhile_concat_neg _ _ _ (by simp [hc]), List.filter_append]
        simp [hc]

theorem head?_of_isPrefix {a b : Text} (h : a <+: b) (hne : a ≠ []) : a.head? = b.head? := by
  obtain ⟨r, rfl⟩ := h
  cases a with
  | nil => exact absurd rfl hne
  | cons c a => rfl

/-- A path of single slashes that is longer than the root has something else in it. -/
theorem rstrip_ne_nil {s : Text} (hroot : s.head? = some '/') (hsingle : ¬Doubled s)
    (hlength : 1 < s.length) : rstrip '/' s ≠ [] := by
  match s, hroot, hlength with
  | d :: c :: s, hroot, _ =>
      obtain rfl : d = '/' := Option.some.inj hroot
      have hc : c ≠ '/' := by
        rintro rfl
        exact hsingle ⟨[], s, rfl⟩
      intro hnil
      have hlast := getLast?_rstrip ('/' :: c :: s)
      rw [hnil, List.getLast?_nil, eq_comm, List.getLast?_eq_none_iff] at hlast
      simp [hc] at hlast

theorem normal_trimSlashes {s : Text} (h : s.head? = some '/') : Normal (trimSlashes s) := by
  have hroot : (squeeze s.length s).head? = some '/' := (head?_squeeze _ _).trans h
  have hsingle := not_doubled_squeeze (le_refl s.length)
  unfold trimSlashes
  dsimp only
  split_ifs with hlength
  · have hprefix : rstrip '/' (squeeze s.length s) <+: squeeze s.length s := List.rdropWhile_prefix _ _
    refine ⟨?_, fun hdoubled => hsingle (hdoubled.trans hprefix.isInfix), fun hlast => ?_⟩
    · rw [head?_of_isPrefix hprefix (rstrip_ne_nil hroot hsingle hlength), hroot]
    · exact absurd hlast (getLast?_rstrip_ne '/' _)
  · refine ⟨hroot, hsingle, fun _ => ?_⟩
    generalize squeeze s.length s = r at hroot hlength
    match r, hroot, hlength with
    | [c], hroot, _ => exact congrArg (fun c => [c]) (Option.some.inj hroot)
    | c :: d :: r, _, hlength => exact absurd (by simp) hlength

/-- **What `_vpath` answers is normal.** -/
theorem normal_vpath (path : Text) : Normal (vpath path) := by
  have hslash : Normal ['/'] := ⟨rfl, by decide, fun _ => rfl⟩
  unfold vpath
  dsimp only
  split_ifs with hempty hdot hhead
  · exact hslash
  · exact hslash
  · exact normal_trimSlashes hhead
  · exact normal_trimSlashes rfl

/-! ### Doing it twice -/

theorem turnBackslashes_of_not_mem {p : Text} (h : '\\' ∉ p) : turnBackslashes p = p := by
  refine (List.map_congr_left fun c hc => ?_).trans (List.map_id p)
  apply if_neg
  rintro rfl
  exact h hc

theorem stripSpace_of_rooted {p : Text} (h : p.head? = some '/') :
    stripSpace p = p.rdropWhile isSpace := by
  cases p with
  | nil => cases h
  | cons c p =>
      obtain rfl : c = '/' := Option.some.inj h
      rw [stripSpace, List.dropWhile_cons_of_neg (by decide)]

theorem rdropWhile_of_not_endsBlank {p : Text} (h : ¬EndsBlank p) : p.rdropWhile isSpace = p := by
  refine List.rdropWhile_eq_self_iff.mpr fun hne hlast => h ⟨_, ?_, hlast⟩
  exact List.getLast?_eq_some_getLast hne

theorem length_rdropWhile_of_endsBlank {p : Text} (h : EndsBlank p) :
    (p.rdropWhile isSpace).length < p.length := by
  obtain ⟨c, hlast, hc⟩ := h
  obtain ⟨q, rfl⟩ := List.getLast?_eq_some_iff.mp hlast
  rw [List.rdropWhile_concat_pos _ _ _ hc, List.length_append, List.length_singleton]
  have := (List.rdropWhile_prefix isSpace q).length_le
  omega

/-- What `_vpath` makes of a text that starts with a slash. -/
theorem vpath_of_rooted {p : Text} (hroot : p.head? = some '/') (hback : '\\' ∉ p) :
    vpath p = trimSlashes (p.rdropWhile isSpace) := by
  have hne : p ≠ [] := by
    rintro rfl
    cases hroot
  have hhead : (p.rdropWhile isSpace).head? = some '/' := by
    cases p with
    | nil => cases hroot
    | cons c p =>
        obtain rfl : c = '/' := Option.some.inj hroot
        apply head?_of_isPrefix (List.rdropWhile_prefix _ _)
        rw [Ne, List.rdropWhile_eq_nil_iff]
        exact fun hall => absurd (hall '/' List.mem_cons_self) (by decide)
  have hspecial : ¬(p.rdropWhile isSpace = [] ∨ p.rdropWhile isSpace = ['.'] ∨
      p.rdropWhile isSpace = ['.', '/']) := by
    rintro (h | h | h) <;> rw [h] at hhead <;> cases hhead
  unfold vpath
  rw [if_neg hne, turnBackslashes_of_not_mem hback, stripSpace_of_rooted hroot]
  dsimp only
  rw [if_neg hspecial, if_pos hhead]

theorem length_trimSlashes_le (s : Text) : (trimSlashes s).length ≤ s.length := by
  unfold trimSlashes
  dsimp only
  split_ifs
  · calc
      (rstrip '/' (squeeze s.length s)).length ≤ (squeeze s.length s).length :=
        (List.rdropWhile_prefix _ _).length_le
      _ ≤ s.length := length_squeeze_le _ _
  · exact length_squeeze_le _ _

theorem trimSlashes_of_normal {p : Text} (h : Normal p) : trimSlashes p = p := by
  unfold trimSlashes
  dsimp only
  rw [squeeze_of_not_doubled h.single]
  split_ifs with hlength
  · apply rstrip_of_not_endsWith
    rw [endsWith, beq_eq_false_iff_ne]
    intro hlast
    rw [h.noEnd hlast] at hlength
    simp at hlength
  · rfl

/-- A normal path is left alone, unless it ends in a blank. -/
theorem vpath_of_normal {p : Text} (h : Normal p) (hback : '\\' ∉ p) (hblank : ¬EndsBlank p) :
    vpath p = p := by
  rw [vpath_of_rooted h.rooted hback, rdropWhile_of_not_endsBlank hblank, trimSlashes_of_normal h]

theorem length_vpath_lt {p : Text} (hroot : p.head? = some '/') (hback : '\\' ∉ p)
    (hblank : EndsBlank p) : (vpath p).length < p.length := by
  calc
    (vpath p).length = (trimSlashes (p.rdropWhile isSpace)).length := by
      rw [vpath_of_rooted hroot hback]
    _ ≤ (p.rdropWhile isSpace).length := length_trimSlashes_le _
    _ < p.length := length_rdropWhile_of_endsBlank hblank

theorem vpath_vpath_iff (path : Text) : vpath (vpath path) = vpath path ↔ ¬EndsBlank (vpath path) := by
  have hnormal := normal_vpath path
  have hback := backslash_not_mem_vpath path
  constructor
  · intro h hblank
    have hlt := length_vpath_lt hnormal.rooted hback hblank
    rw [h] at hlt
    exact lt_irrefl _ hlt
  · exact vpath_of_normal hnormal hback

theorem endsBlank_rstrip_iff (s : Text) :
    EndsBlank (rstrip '/' s) ↔ EndsBlank (s.filter (· ≠ '/')) := by
  rw [EndsBlank, EndsBlank, getLast?_rstrip]

theorem endsBlank_trimSlashes_iff {s : Text} (h : s.head? = some '/') :
    EndsBlank (trimSlashes s) ↔ EndsBlank (s.filter (· ≠ '/')) := by
  have hroot : (squeeze s.length s).head? = some '/' := (head?_squeeze _ _).trans h
  unfold trimSlashes
  dsimp only
  rw [← filter_squeeze s.length s]
  split_ifs with hlength
  · exact endsBlank_rstrip_iff _
  · generalize squeeze s.length s = r at hroot hlength
    match r, hroot, hlength with
    | [c], hroot, _ =>
        obtain rfl : c = '/' := Option.some.inj hroot
        refine iff_of_false ?_ ?_
        · rintro ⟨c, hc, hspace⟩
          obtain rfl : '/' = c := Option.some.inj hc
          exact absurd hspace (by decide)
        · rintro ⟨c, hc, -⟩
          cases hc
    | c :: d :: r, _, hlength => exact absurd (by simp) hlength

/-- The answer ends in a blank where cutting the slashes at the end, after the blanks, uncovers one. -/
theorem endsBlank_vpath_iff (path : Text) :
    EndsBlank (vpath path) ↔ EndsBlank (rstrip '/' (stripSpace (turnBackslashes path))) := by
  have hslash : ¬EndsBlank ['/'] := by
    rintro ⟨c, hc, hspace⟩
    obtain rfl : '/' = c := Option.some.inj hc
    exact absurd hspace (by decide)
  have hdot : ¬EndsBlank ['.'] := by
    rintro ⟨c, hc, hspace⟩
    obtain rfl : '.' = c := Option.some.inj hc
    exact absurd hspace (by decide)
  have hnil : ¬EndsBlank [] := fun ⟨c, hc, _⟩ => nomatch hc
  unfold vpath
  dsimp only
  split_ifs with hempty hspecial hhead
  · subst hempty
    exact iff_of_false hslash hnil
  · refine iff_of_false hslash ?_
    rcases hspecial with h | h | h <;> rw [h]
    · exact hnil
    · exact hdot
    · exact hdot
  · rw [endsBlank_trimSlashes_iff hhead, endsBlank_rstrip_iff]
  · rw [endsBlank_trimSlashes_iff rfl, endsBlank_rstrip_iff]
    rfl

end CliPaths

end StardustFS
