import StardustFS.TextPath

/-! Where the text of a path leads: `posixpath.normpath`, and the names on the way from the root of the
file system. -/

namespace Text

/-- `".."` -/
def dotdot : Text := ['.', '.']

/-- The name of no step. -/
def Silent (name : Text) : Prop := name = [] ∨ name = ['.']

instance : DecidablePred Silent := fun name => inferInstanceAs (Decidable (name = [] ∨ name = ['.']))

/-- The names so far, the last one in front, after one more. Without a root, `".."` is kept where
there is nothing to take back. -/
def push (rooted : Bool) (stack : List Text) (name : Text) : List Text :=
  if Silent name then stack
  else if name ≠ dotdot ∨ (rooted = false ∧ stack = []) ∨ stack.head? = some dotdot then
    name :: stack
  else stack.tail

/-- The names `normpath` keeps. -/
def normNames (rooted : Bool) (p : Text) : List Text :=
  ((p.splitOn '/').foldl (push rooted) []).reverse

/-- One or two slashes at the beginning stay; three and more count as one. -/
def initialSlashes (p : Text) : Nat :=
  if p.head? ≠ some '/' then 0
  else if ['/', '/'].isPrefixOf p && !(['/', '/', '/'].isPrefixOf p) then 2
  else 1

/-- The text of the names after the slashes. -/
def spell (slashes : Nat) (names : List Text) : Text :=
  let text := List.replicate slashes '/' ++ ['/'].intercalate names
  if text = [] then ['.'] else text

/-- `posixpath.normpath`. -/
def normpath (p : Text) : Text :=
  let slashes := initialSlashes p
  spell slashes (normNames (slashes != 0) p)

/-- The names on the way to an absolute path. -/
def location (p : Text) : List Text := normNames true p

/-- The names of a path that are steps. -/
def steps (p : Text) : List Text := (p.splitOn '/').filter fun name => ¬ Silent name

/-- No name of the path is `".."`. -/
def Plain (p : Text) : Prop := dotdot ∉ p.splitOn '/'

instance : DecidablePred Plain := fun p => inferInstanceAs (Decidable (dotdot ∉ p.splitOn '/'))

/-- `path.replace("\\", "/")`. -/
def turnBackslashes (path : Text) : Text := path.map fun c => if c = '\\' then '/' else c

/-! ### Paths without `".."` -/

theorem foldl_push_of_not_mem {rooted : Bool} {names : List Text} (h : dotdot ∉ names)
    (stack : List Text) :
    names.foldl (push rooted) stack = (names.filter fun name => ¬ Silent name).reverse ++ stack := by
  induction names generalizing stack with
  | nil => rfl
  | cons name names ih =>
      obtain ⟨hne, hrest⟩ := not_or.mp (List.mem_cons.not.mp h)
      rw [List.foldl_cons, ih hrest]
      by_cases hsilent : Silent name
      · simp [push, hsilent]
      · simp [push, hsilent, Ne.symm hne]

/-- Appending a path appends its names. -/
theorem splitOn_joinPath {a b : Text} (ha : a ≠ []) (hb : b.head? ≠ some '/') :
    ∃ names, (joinPath a b).splitOn '/' = names ++ b.splitOn '/' ∧
      (a.splitOn '/' = names ∨ a.splitOn '/' = names ++ [[]]) := by
  rw [joinPath, if_neg hb]
  by_cases hlast : a.getLast? = some '/'
  · rw [if_pos (Or.inr hlast)]
    obtain ⟨init, rfl⟩ : ∃ init, a = init ++ ['/'] :=
      ⟨a.dropLast, (List.dropLast_append_getLast? '/' hlast).symm⟩
    refine ⟨init.splitOn '/', ?_, Or.inr ?_⟩
    · rw [List.append_assoc, List.singleton_append, List.splitOn_append_cons_self]
    · rw [List.splitOn_append_cons_self, List.splitOn_nil]
  · rw [if_neg (not_or.mpr ⟨ha, hlast⟩)]
    exact ⟨a.splitOn '/', List.splitOn_append_cons_self .., Or.inl rfl⟩

theorem push_nil (rooted : Bool) (stack : List Text) : push rooted stack [] = stack := by
  simp [push, Silent]

/-- Slashes beside each other are no steps. -/
theorem foldl_push_replicate (rooted : Bool) (k : Nat) (stack : List Text) :
    (List.replicate k []).foldl (push rooted) stack = stack := by
  induction k generalizing stack with
  | zero => rfl
  | succ k ih => rw [List.replicate_succ, List.foldl_cons, push_nil, ih]

/-- From a directory, the names of a relative path are taken one after the other. -/
theorem normNames_joinPath_foldl {rooted : Bool} {a b : Text} (hb : b.head? ≠ some '/') :
    normNames rooted (joinPath a b) =
      ((b.splitOn '/').foldl (push rooted) (normNames rooted a).reverse).reverse := by
  by_cases ha : a = []
  · subst ha
    rw [joinPath, if_neg hb, if_pos (Or.inl rfl), List.nil_append]
    simp [normNames, push_nil, List.splitOn_nil]
  · obtain ⟨names, hjoin, hsplit⟩ := splitOn_joinPath ha hb
    have hfold : (a.splitOn '/').foldl (push rooted) [] = names.foldl (push rooted) [] := by
      rcases hsplit with h | h
      · rw [h]
      · rw [h, List.foldl_append, List.foldl_cons, List.foldl_nil, push_nil]
    rw [normNames, normNames, hjoin, List.foldl_append, hfold, List.reverse_reverse]

/-- Where a relative path without `".."` leads from a directory. -/
theorem normNames_joinPath {rooted : Bool} {a b : Text} (hb : b.head? ≠ some '/') (hplain : Plain b) :
    normNames rooted (joinPath a b) = normNames rooted a ++ steps b := by
  rw [normNames_joinPath_foldl hb, foldl_push_of_not_mem hplain, List.reverse_append,
    List.reverse_reverse, List.reverse_reverse, steps]

theorem location_joinPath {a b : Text} (hb : b.head? ≠ some '/') (hplain : Plain b) :
    location (joinPath a b) = location a ++ steps b := normNames_joinPath hb hplain

theorem joinPath_of_absolute {a b : Text} (hb : b.head? = some '/') : joinPath a b = b := if_pos hb

/-! ### The parts of a path -/

theorem not_mem_of_mem_splitOn {c : Char} {p name : Text} (h : name ∈ p.splitOn c) : c ∉ name := by
  induction p generalizing name with
  | nil =>
      rw [List.splitOn_nil, List.mem_singleton] at h
      simp [h]
  | cons d p ih =>
      rw [List.splitOn_cons_eq_if_modifyHead] at h
      obtain ⟨first, rest, hsplit⟩ := List.exists_cons_of_ne_nil (List.splitOn_ne_nil c p)
      rw [hsplit] at h ih
      split_ifs at h with hd
      · rcases List.mem_cons.mp h with rfl | h
        · simp
        · exact ih h
      · rw [List.modifyHead_cons] at h
        rcases List.mem_cons.mp h with rfl | h
        · have hdc : d ≠ c := by simpa using hd
          simpa [hdc.symm] using ih List.mem_cons_self
        · exact ih (List.mem_cons_of_mem first h)

theorem mem_steps {p name : Text} (h : name ∈ steps p) :
    name ≠ [] ∧ name ≠ ['.'] ∧ '/' ∉ name := by
  obtain ⟨hmem, hsilent⟩ := List.mem_filter.mp h
  obtain ⟨hnil, hdot⟩ := not_or.mp (of_decide_eq_true hsilent)
  exact ⟨hnil, hdot, not_mem_of_mem_splitOn hmem⟩

/-- A character made a separator splits the parts further. -/
theorem splitOn_map {f : Char → Char} {c : Char} (hf : ∀ d, d = c → f d = c) (p : Text) :
    (p.map f).splitOn c = (p.splitOn c).flatMap fun name => (name.map f).splitOn c := by
  induction p with
  | nil => simp [List.splitOn_nil]
  | cons d p ih =>
      obtain ⟨first, rest, hsplit⟩ := List.exists_cons_of_ne_nil (List.splitOn_ne_nil c p)
      rw [List.map_cons, List.splitOn_cons_eq_if_modifyHead, List.splitOn_cons_eq_if_modifyHead, ih,
        hsplit]
      by_cases hd : d = c
      · simp [hd, hf]
      · obtain ⟨first', rest', hfirst⟩ :=
          List.exists_cons_of_ne_nil (List.splitOn_ne_nil c (first.map f))
        simp only [beq_iff_eq, hd, if_false, List.modifyHead_cons, List.flatMap_cons, List.map_cons,
          List.splitOn_cons_eq_if_modifyHead, hfirst]
        split_ifs <;> rfl

/-- A part `".."` stays one where backslashes are turned. -/
theorem Plain.of_turnBackslashes {p : Text} (h : Plain (turnBackslashes p)) : Plain p := by
  intro hmem
  apply h
  rw [turnBackslashes, splitOn_map (by rintro d rfl; rfl)]
  exact List.mem_flatMap.mpr ⟨dotdot, hmem, by decide⟩

/-! ### Spelling -/

theorem head?_spell_of_pos {slashes : Nat} (h : slashes ≠ 0) (names : List Text) :
    (spell slashes names).head? = some '/' := by
  obtain ⟨k, rfl⟩ := Nat.exists_eq_succ_of_ne_zero h
  simp [spell, List.replicate_succ]

theorem initialSlashes_ne_zero {p : Text} (h : p.head? = some '/') : initialSlashes p ≠ 0 := by
  unfold initialSlashes
  rw [if_neg (not_not.mpr h)]
  split_ifs <;> decide

theorem initialSlashes_eq_zero {p : Text} (h : p.head? ≠ some '/') : initialSlashes p = 0 := if_pos h

/-- Names from no slash never begin as `"./"` does. -/
theorem eq_nil_of_spell {names : List Text}
    (hnames : ∀ name ∈ names, name ≠ [] ∧ name ≠ ['.'] ∧ '/' ∉ name)
    (h : spell 0 names = ['.'] ∨ ['.', '/'] <+: spell 0 names) : names = [] := by
  cases names with
  | nil => rfl
  | cons name rest =>
      exfalso
      obtain ⟨hnil, hdot, hslash⟩ := hnames name List.mem_cons_self
      obtain ⟨c, name, rfl⟩ := List.exists_cons_of_ne_nil hnil
      have hspell : ∃ tail, spell 0 ((c :: name) :: rest) = c :: name ++ tail ∧
          (tail = [] ∨ tail.head? = some '/') := by
        cases rest with
        | nil => exact ⟨[], by simp [spell], Or.inl rfl⟩
        | cons next rest => exact ⟨'/' :: ['/'].intercalate (next :: rest), by simp [spell], Or.inr rfl⟩
      obtain ⟨tail, hspell, htail⟩ := hspell
      rw [hspell] at h
      rcases h with h | ⟨more, h⟩
      · rw [List.cons_append, List.cons.injEq, List.append_eq_nil_iff] at h
        exact hdot (by rw [h.1, h.2.1])
      · rw [List.cons_append, List.cons_append, List.cons_append, List.nil_append, List.cons.injEq] at h
        obtain ⟨rfl, h⟩ := h
        cases name with
        | nil => exact hdot rfl
        | cons d name =>
            rw [List.cons_append, List.cons.injEq] at h
            exact hslash (by simp [← h.1])

/-- Below the current directory, as the text has it, is the current directory only. -/
theorem steps_eq_nil_of_below_here {p : Text} (hplain : Plain p)
    (h : normpath (joinPath ['.'] p) = ['.'] ∨ ['.', '/'] <+: normpath (joinPath ['.'] p)) :
    p.head? ≠ some '/' ∧ steps p = [] := by
  by_cases hp : p.head? = some '/'
  · exfalso
    have hhead : (normpath (joinPath ['.'] p)).head? = some '/' := by
      rw [joinPath_of_absolute hp]
      exact head?_spell_of_pos (initialSlashes_ne_zero hp) _
    rcases h with h | ⟨more, h⟩
    · rw [h] at hhead
      cases hhead
    · rw [← h] at hhead
      cases hhead
  · refine ⟨hp, eq_nil_of_spell (fun name hname => mem_steps hname) ?_⟩
    have hzero : initialSlashes (joinPath ['.'] p) = 0 := by
      apply initialSlashes_eq_zero
      simp [joinPath, hp]
    have hnorm : normpath (joinPath ['.'] p) = spell 0 (steps p) := by
      simp only [normpath, hzero, bne_self_eq_false, normNames_joinPath hp hplain]
      rfl
    rwa [hnorm] at h

/-! ### What `normpath` keeps -/

/-- A name that is one step down. -/
def ProperName (name : Text) : Prop := ¬ Silent name ∧ name ≠ dotdot ∧ '/' ∉ name

theorem ProperName.ne_nil {name : Text} (h : ProperName name) : name ≠ [] := fun hnil => h.1 (Or.inl hnil)

theorem foldl_push_of_proper {rooted : Bool} {names : List Text} (h : ∀ name ∈ names, ProperName name)
    (stack : List Text) : names.foldl (push rooted) stack = names.reverse ++ stack := by
  rw [foldl_push_of_not_mem fun hmem => (h dotdot hmem).2.1 rfl,
    List.filter_eq_self.mpr fun name hname => decide_eq_true (h name hname).1]

theorem proper_of_mem_steps {p name : Text} (hplain : Plain p) (h : name ∈ steps p) :
    ProperName name := by
  obtain ⟨hmem, hsilent⟩ := List.mem_filter.mp h
  refine ⟨of_decide_eq_true hsilent, ?_, (mem_steps h).2.2⟩
  rintro rfl
  exact hplain hmem

/-- Below a root, `normpath` leaves steps down only. -/
theorem proper_of_mem_location {p name : Text} (h : name ∈ location p) : ProperName name := by
  have key : ∀ names stack : List Text, (∀ x ∈ names, '/' ∉ x) → (∀ x ∈ stack, ProperName x) →
      ∀ x ∈ names.foldl (push true) stack, ProperName x := by
    intro names
    induction names with
    | nil => exact fun stack _ hstack => hstack
    | cons y names ih =>
        intro stack hslash hstack
        refine ih _ (fun x hx => hslash x (List.mem_cons_of_mem y hx)) fun x hx => ?_
        unfold push at hx
        split_ifs at hx with hsilent hkeep
        · exact hstack x hx
        · rcases List.mem_cons.mp hx with rfl | hx
          · refine ⟨hsilent, ?_, hslash x List.mem_cons_self⟩
            rcases hkeep with hne | ⟨hrooted, -⟩ | htop
            · exact hne
            · cases hrooted
            · exact absurd rfl (hstack dotdot (List.mem_of_head? htop)).2.1
          · exact hstack x hx
        · exact hstack x (List.mem_of_mem_tail hx)
  refine key _ [] (fun x hx => not_mem_of_mem_splitOn hx) (fun x hx => ?_) name
    (List.mem_reverse.mp h)
  cases hx

theorem intercalate_ne_nil {names : List Text} (hne : names ≠ [])
    (h : ∀ name ∈ names, ProperName name) : ['/'].intercalate names ≠ [] := by
  obtain ⟨name, rest, rfl⟩ := List.exists_cons_of_ne_nil hne
  have hname := (h name List.mem_cons_self).ne_nil
  cases rest with
  | nil => simpa using hname
  | cons next rest => simp

theorem spell_eq {slashes : Nat} {names : List Text} (hne : names ≠ [])
    (h : ∀ name ∈ names, ProperName name) :
    spell slashes names = List.replicate slashes '/' ++ ['/'].intercalate names := by
  rw [spell]
  exact if_neg fun hnil => intercalate_ne_nil hne h (List.append_eq_nil_iff.mp hnil).2

theorem splitOn_spell {slashes : Nat} {names : List Text} (hne : names ≠ [])
    (h : ∀ name ∈ names, ProperName name) :
    (spell slashes names).splitOn '/' = List.replicate slashes [] ++ names := by
  rw [spell_eq hne h]
  induction slashes with
  | zero => exact List.splitOn_intercalate '/' (fun name hname => (h name hname).2.2) hne
  | succ k ih =>
      rw [List.replicate_succ, List.cons_append, List.splitOn_cons_eq_if_modifyHead, if_pos (by simp),
        ih, List.replicate_succ, List.cons_append]

/-- Proper names are read back from their spelling. -/
theorem normNames_spell {rooted : Bool} {slashes : Nat} {names : List Text} (hne : names ≠ [])
    (h : ∀ name ∈ names, ProperName name) : normNames rooted (spell slashes names) = names := by
  rw [normNames, splitOn_spell hne h, List.foldl_append, foldl_push_replicate, foldl_push_of_proper h,
    List.append_nil, List.reverse_reverse]

theorem initialSlashes_cases {p : Text} (h : p.head? = some '/') :
    initialSlashes p = 1 ∨ initialSlashes p = 2 := by
  unfold initialSlashes
  rw [if_neg (not_not.mpr h)]
  split_ifs
  · exact Or.inr rfl
  · exact Or.inl rfl

/-- The slashes of a spelling are counted back, whatever follows. -/
theorem initialSlashes_spell_append {slashes : Nat} {names : List Text} (hne : names ≠ [])
    (h : ∀ name ∈ names, ProperName name) (hslashes : slashes = 1 ∨ slashes = 2) (more : Text) :
    initialSlashes (spell slashes names ++ more) = slashes := by
  obtain ⟨name, rest, rfl⟩ := List.exists_cons_of_ne_nil hne
  have hname := h name List.mem_cons_self
  obtain ⟨c, name, rfl⟩ := List.exists_cons_of_ne_nil hname.ne_nil
  have hc : '/' ≠ c := fun heq => hname.2.2 (heq ▸ List.mem_cons_self)
  obtain ⟨tail, htail⟩ : ∃ tail, ['/'].intercalate ((c :: name) :: rest) = c :: tail := by
    cases rest with
    | nil => exact ⟨name, by simp⟩
    | cons next rest => exact ⟨name ++ '/' :: ['/'].intercalate (next :: rest), by simp⟩
  rw [spell_eq hne h, htail]
  rcases hslashes with rfl | rfl
  · simp [initialSlashes, List.isPrefixOf, hc]
  · simp [initialSlashes, List.isPrefixOf, hc]

theorem getLast?_spell_ne {slashes : Nat} {names : List Text} (hne : names ≠ [])
    (h : ∀ name ∈ names, ProperName name) : (spell slashes names).getLast? ≠ some '/' := by
  intro hlast
  have hsplit : (spell slashes names).splitOn '/' = List.replicate slashes [] ++ names :=
    splitOn_spell hne h
  obtain ⟨init, hinit⟩ : ∃ init, spell slashes names = init ++ '/' :: [] :=
    ⟨_, (List.dropLast_append_getLast? '/' hlast).symm⟩
  rw [hinit, List.splitOn_append_cons_self, List.splitOn_nil] at hsplit
  have hmem : [] ∈ names := by
    have hl := congrArg List.getLast? hsplit
    rw [List.getLast?_concat, List.getLast?_append_of_ne_nil _ hne] at hl
    exact List.mem_of_getLast? hl.symm
  exact (h [] hmem).ne_nil rfl

theorem intercalate_append {a b : List Text} (ha : a ≠ []) (hb : b ≠ []) :
    ['/'].intercalate (a ++ b) = ['/'].intercalate a ++ '/' :: ['/'].intercalate b := by
  induction a with
  | nil => exact absurd rfl ha
  | cons x a ih =>
      obtain ⟨y, b, rfl⟩ := List.exists_cons_of_ne_nil hb
      cases a with
      | nil => simp
      | cons x' a =>
          have h := ih (List.cons_ne_nil x' a)
          simp only [List.cons_append] at h ⊢
          simp [h]

/-- **Below a root**: a relative path without `".."` is normalised to the names of the root and its own
steps. -/
theorem normpath_joinPath {root p : Text} (hroot : root.head? = some '/') (hne : location root ≠ [])
    (hrel : p.head? ≠ some '/') (hplain : Plain p) :
    normpath root = spell (initialSlashes root) (location root) ∧
      normpath (joinPath (normpath root) p) =
        spell (initialSlashes root) (location root ++ steps p) := by
  have hproper : ∀ name ∈ location root, ProperName name := fun _ h => proper_of_mem_location h
  have hnorm : normpath root = spell (initialSlashes root) (location root) := by
    simp only [normpath, bne_iff_ne.mpr (initialSlashes_ne_zero hroot), location]
  refine ⟨hnorm, ?_⟩
  have hnil : normpath root ≠ [] := by
    rw [hnorm, spell_eq hne hproper]
    exact List.append_ne_nil_of_right_ne_nil _ (intercalate_ne_nil hne hproper)
  have hjoin : joinPath (normpath root) p = normpath root ++ '/' :: p := by
    rw [joinPath, if_neg hrel, if_neg]
    rintro (h | h)
    · exact hnil h
    · rw [hnorm] at h
      exact getLast?_spell_ne hne hproper h
  have hslashes : initialSlashes (joinPath (normpath root) p) = initialSlashes root := by
    rw [hjoin, hnorm]
    exact initialSlashes_spell_append hne hproper (initialSlashes_cases hroot) _
  have hnames : normNames true (joinPath (normpath root) p) = location root ++ steps p := by
    rw [normNames_joinPath hrel hplain, hnorm, normNames_spell hne hproper]
  rw [normpath]
  simp only [hslashes, bne_iff_ne.mpr (initialSlashes_ne_zero hroot), hnames]

theorem spell_append {slashes : Nat} {a b : List Text} (ha : a ≠ []) (hb : b ≠ [])
    (hproper : ∀ name ∈ a ++ b, ProperName name) :
    spell slashes (a ++ b) = spell slashes a ++ '/' :: ['/'].intercalate b := by
  have hleft : ∀ name ∈ a, ProperName name := fun name h => hproper name (List.mem_append_left b h)
  rw [spell_eq (List.append_ne_nil_of_left_ne_nil ha b) hproper, spell_eq ha hleft,
    intercalate_append ha hb, List.append_assoc]

/-! ### Paths put together -/

theorem splitOn_replicate (k : Nat) : (List.replicate k '/').splitOn '/' = List.replicate (k + 1) [] := by
  induction k with
  | zero => rfl
  | succ k ih =>
      rw [List.replicate_succ, List.splitOn_cons_eq_if_modifyHead, if_pos (by simp), ih,
        ← List.replicate_succ]

theorem splitOn_lstrip (p : Text) :
    ∃ k, p.splitOn '/' = List.replicate k [] ++ (lstrip '/' p).splitOn '/' := by
  induction p with
  | nil => exact ⟨0, rfl⟩
  | cons c p ih =>
      obtain ⟨k, hk⟩ := ih
      by_cases hc : c = '/'
      · refine ⟨k + 1, ?_⟩
        rw [hc, List.splitOn_cons_eq_if_modifyHead, if_pos (by simp), hk, List.replicate_succ,
          List.cons_append]
        simp [lstrip]
      · refine ⟨0, ?_⟩
        simp [lstrip, hc]

theorem splitOn_rstrip (p : Text) :
    ∃ k, p.splitOn '/' = (rstrip '/' p).splitOn '/' ++ List.replicate k [] := by
  obtain ⟨k, hk⟩ := exists_rstrip_append '/' p
  cases k with
  | zero =>
      refine ⟨0, ?_⟩
      rw [List.replicate_zero, List.append_nil] at hk ⊢
      exact congrArg _ hk
  | succ k =>
      refine ⟨k + 1, ?_⟩
      conv_lhs => rw [hk]
      rw [List.replicate_succ, List.splitOn_append_cons_self, splitOn_replicate]

theorem plain_lstrip_iff {p : Text} : Plain (lstrip '/' p) ↔ Plain p := by
  obtain ⟨k, hk⟩ := splitOn_lstrip p
  simp [Plain, hk, dotdot]

theorem plain_rstrip_iff {p : Text} : Plain (rstrip '/' p) ↔ Plain p := by
  obtain ⟨k, hk⟩ := splitOn_rstrip p
  simp [Plain, hk, dotdot]

theorem steps_lstrip (p : Text) : steps (lstrip '/' p) = steps p := by
  obtain ⟨k, hk⟩ := splitOn_lstrip p
  simp [steps, hk, Silent]

theorem steps_rstrip (p : Text) : steps (rstrip '/' p) = steps p := by
  obtain ⟨k, hk⟩ := splitOn_rstrip p
  simp [steps, hk, Silent]

theorem head?_lstrip_ne (p : Text) : (lstrip '/' p).head? ≠ some '/' := by
  intro h
  have := List.head?_dropWhile_not (· == '/') p
  rw [lstrip] at h
  rw [h] at this
  simp at this

theorem plain_append_iff {a b : Text} : Plain (a ++ '/' :: b) ↔ Plain a ∧ Plain b := by
  simp [Plain, List.splitOn_append_cons_self]

theorem steps_append (a b : Text) : steps (a ++ '/' :: b) = steps a ++ steps b := by
  simp [steps, List.splitOn_append_cons_self]

/-- A path is a name, or a name below a path. -/
theorem steps_name {name : Text} (h : '/' ∉ name) :
    steps name = if Silent name then [] else [name] := by
  simp [steps, List.splitOn_eq_singleton h, List.filter_cons]

theorem plain_name_iff {name : Text} (h : '/' ∉ name) : Plain name ↔ name ≠ dotdot := by
  simp [Plain, List.splitOn_eq_singleton h, eq_comm]

theorem lstrip_append {a : Text} (h : steps a ≠ []) (b : Text) :
    lstrip '/' (a ++ b) = lstrip '/' a ++ b := by
  have hne : lstrip '/' a ≠ [] := by
    intro hnil
    rw [← steps_lstrip, hnil] at h
    exact h rfl
  rw [lstrip, List.dropWhile_append, if_neg]
  · rfl
  · simpa [lstrip] using hne

/-- One step back. -/
theorem location_joinPath_dotdot {a p : Text} (hrel : p.head? ≠ some '/') (hplain : Plain p)
    (hsteps : steps p ≠ []) :
    location (joinPath a (p ++ '/' :: dotdot)) = location a ++ (steps p).dropLast := by
  have hne : p ≠ [] := by
    rintro rfl
    exact hsteps rfl
  have hb : (p ++ '/' :: dotdot).head? ≠ some '/' := by
    rwa [List.head?_append_of_ne_nil _ hne]
  -- the names of `p` are put on the stack, and the last of them is taken back
  obtain ⟨last, init, hlast⟩ : ∃ last init, (steps p).reverse = last :: init :=
    List.exists_cons_of_ne_nil (by simpa using hsteps)
  have hproper : ProperName last := by
    apply proper_of_mem_steps hplain
    rw [← List.mem_reverse, hlast]
    exact List.mem_cons_self
  have hpush : push true (last :: (init ++ (location a).reverse)) dotdot =
      init ++ (location a).reverse := by
    rw [push, if_neg (by decide), if_neg]
    · rfl
    · rintro (h | ⟨h, -⟩ | h)
      · exact h rfl
      · cases h
      · exact hproper.2.1 (Option.some_inj.mp h)
  have hdrop : (steps p).dropLast = init.reverse := by
    rw [← List.reverse_reverse (steps p), hlast, List.reverse_cons, List.dropLast_concat]
  have hnames : (p.splitOn '/').foldl (push true) (location a).reverse =
      last :: (init ++ (location a).reverse) := by
    rw [foldl_push_of_not_mem hplain, ← steps, hlast, List.cons_append]
  have hback : dotdot.splitOn '/' = [dotdot] := List.splitOn_eq_singleton (by decide)
  calc location (joinPath a (p ++ '/' :: dotdot))
      = (((p ++ '/' :: dotdot).splitOn '/').foldl (push true) (location a).reverse).reverse :=
        normNames_joinPath_foldl hb
    _ = (push true (last :: (init ++ (location a).reverse)) dotdot).reverse := by
        rw [List.splitOn_append_cons_self, List.foldl_append, hnames, hback, List.foldl_cons,
          List.foldl_nil]
    _ = location a ++ (steps p).dropLast := by
        rw [hpush, List.reverse_append, List.reverse_reverse, hdrop]

end Text
