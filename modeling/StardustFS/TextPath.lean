import Mathlib.Data.List.DropRight
import Mathlib.Data.Nat.Digits.Defs

/-! Text as a list of code points, and the path functions of a POSIX `posixpath` module on it:
`strip`, `dirname`, `basename`, `join`, splitting at a separator and the decimal text of a number. -/

/-- A text: the list of its code points. -/
abbrev Text := List Char

/-- By this instance it is decided whether a text is in a list. -/
instance Text.lawfulBEq : LawfulBEq Text := inferInstance

namespace Text

/-- `s.lstrip(c)`. -/
def lstrip (c : Char) (s : Text) : Text := s.dropWhile (· == c)

/-- `s.rstrip(c)`. -/
def rstrip (c : Char) (s : Text) : Text := s.rdropWhile (· == c)

/-- `s.strip(c)`. -/
def strip (c : Char) (s : Text) : Text := rstrip c (lstrip c s)

/-- The part of the text up to and with the last `c`; empty where `c` does not occur. -/
def uptoLast (c : Char) (s : Text) : Text := s.rdropWhile (· != c)

/-- The part of the text after the last `c`; the whole text where `c` does not occur. -/
def afterLast (c : Char) (s : Text) : Text := s.rtakeWhile (· != c)

/-- `posixpath.dirname`. -/
def dirname (p : Text) : Text :=
  let head := uptoLast '/' p
  if head.all (· == '/') then head else rstrip '/' head

/-- `posixpath.basename`. -/
def basename (p : Text) : Text := afterLast '/' p

/-- `posixpath.join` of two parts. -/
def joinPath (a b : Text) : Text :=
  if b.head? = some '/' then b
  else if a = [] ∨ a.getLast? = some '/' then a ++ b
  else a ++ '/' :: b

/-- The decimal text of a number. -/
def decimal (n : Nat) : Text := Nat.toDigits 10 n

/-- `s.endswith(c)` for a single character. -/
def endsWith (s : Text) (c : Char) : Bool := s.getLast? == some c

theorem decimal_injective : Function.Injective decimal := by
  intro m n h
  have h' := congrArg (fun ds => Nat.ofDigitChars 10 ds 0) h
  simpa only [decimal, Nat.ofDigitChars_ten_toDigits] using h'

theorem not_mem_decimal {c : Char} (hc : c.isDigit = false) (n : Nat) : c ∉ decimal n := by
  intro h
  have hdigit := Nat.isDigit_of_mem_toDigits (by omega) (by omega) h
  rw [hc] at hdigit
  cases hdigit

theorem uptoLast_append_afterLast (c : Char) (s : Text) : uptoLast c s ++ afterLast c s = s :=
  List.rdropWhile_append_rtakeWhile ..

theorem not_mem_afterLast (c : Char) (s : Text) : c ∉ afterLast c s := by
  intro h
  have := List.mem_rtakeWhile_imp h
  simp at this

theorem afterLast_append_cons {c : Char} (s : Text) {t : Text} (ht : c ∉ t) :
    afterLast c (s ++ c :: t) = t := by
  have hall : ∀ d ∈ t.reverse, (d != c) = true := by
    intro d hd
    exact bne_iff_ne.mpr fun h => ht (List.mem_reverse.mp (h ▸ hd))
  rw [afterLast, List.rtakeWhile, List.reverse_append, List.reverse_cons, List.append_assoc,
    List.takeWhile_append_of_pos hall]
  simp

theorem getLast_uptoLast {c : Char} {s : Text} (h : uptoLast c s ≠ []) :
    (uptoLast c s).getLast h = c := by
  have hlast := List.rdropWhile_last_not (· != c) s h
  simpa [uptoLast] using hlast

/-- The last part of a split has no separator. -/
theorem exists_split_last (c : Char) (s : Text) :
    ∃ init last, s.splitOn c = init ++ [last] ∧ c ∉ last := by
  refine ⟨(s.splitOn c).dropLast, afterLast c s, ?_, not_mem_afterLast c s⟩
  by_cases hup : uptoLast c s = []
  · have hs : afterLast c s = s := by
      have h := uptoLast_append_afterLast c s
      rwa [hup, List.nil_append] at h
    have hnot := not_mem_afterLast c s
    rw [hs] at hnot ⊢
    rw [List.splitOn_eq_singleton hnot]
    rfl
  · have hlast := getLast_uptoLast hup
    have hs : s = (uptoLast c s).dropLast ++ c :: afterLast c s := by
      have h := List.dropLast_append_getLast hup
      rw [hlast] at h
      rw [← List.singleton_append, ← List.append_assoc, h, uptoLast_append_afterLast]
    have hsplit : s.splitOn c = (uptoLast c s).dropLast.splitOn c ++ [afterLast c s] := by
      conv_lhs => rw [hs]
      rw [List.splitOn_append_cons_self, List.splitOn_eq_singleton (not_mem_afterLast c s)]
    rw [hsplit, List.dropLast_concat]

/-- A text without its trailing `c` followed by the `c` taken off. -/
theorem exists_rstrip_append (c : Char) (s : Text) :
    ∃ k, s = rstrip c s ++ List.replicate k c := by
  refine ⟨(s.rtakeWhile (· == c)).length, ?_⟩
  have hall : s.rtakeWhile (· == c) = List.replicate (s.rtakeWhile (· == c)).length c := by
    refine List.eq_replicate_length.mpr fun b hb => ?_
    simpa using List.mem_rtakeWhile_imp hb
  conv_lhs => rw [← List.rdropWhile_append_rtakeWhile (p := (· == c)) (l := s)]
  rw [← hall, rstrip]

theorem getLast?_rstrip_ne (c : Char) (s : Text) : (rstrip c s).getLast? ≠ some c := by
  intro h
  have hne : rstrip c s ≠ [] := by
    intro h0
    rw [h0] at h
    cases h
  rw [List.getLast?_eq_some_getLast hne, Option.some_inj] at h
  have hnot := List.rdropWhile_last_not (· == c) s hne
  exact hnot (beq_iff_eq.mpr h)

theorem rstrip_of_not_endsWith {c : Char} {s : Text} (h : endsWith s c = false) :
    rstrip c s = s := by
  refine List.rdropWhile_eq_self_iff.mpr fun hs hlast => ?_
  rw [endsWith, List.getLast?_eq_some_getLast hs, beq_iff_eq.mp hlast] at h
  simp at h

/-- The directory part is everything up to the last slash, or that with its slashes at the end taken
off; the second only where something else is left. -/
theorem dirname_cases (p : Text) :
    (dirname p = uptoLast '/' p ∧ (dirname p = [] ∨ (dirname p).getLast? = some '/')) ∨
      (dirname p ≠ [] ∧ (dirname p).getLast? ≠ some '/' ∧
        ∃ k, uptoLast '/' p = dirname p ++ '/' :: List.replicate k '/') := by
  by_cases hall : (uptoLast '/' p).all (· == '/')
  · have hdir : dirname p = uptoLast '/' p := by simp only [dirname, hall, if_true]
    refine Or.inl ⟨hdir, ?_⟩
    rw [hdir]
    by_cases hne : uptoLast '/' p = []
    · exact Or.inl hne
    · exact Or.inr (by rw [List.getLast?_eq_some_getLast hne, getLast_uptoLast hne])
  · have hdir : dirname p = rstrip '/' (uptoLast '/' p) := by
      simp only [dirname, hall, if_false, Bool.false_eq_true]
    obtain ⟨k, hk⟩ := exists_rstrip_append '/' (uptoLast '/' p)
    have hnil : rstrip '/' (uptoLast '/' p) ≠ [] := by
      intro h
      exact hall (List.all_eq_true.mpr (List.rdropWhile_eq_nil_iff.mp h))
    have hlast : (uptoLast '/' p).getLast? = some '/' := by
      have hne : uptoLast '/' p ≠ [] := by
        rintro h
        exact hall (by rw [h]; rfl)
      rw [List.getLast?_eq_some_getLast hne, getLast_uptoLast hne]
    refine Or.inr ⟨hdir ▸ hnil, hdir ▸ getLast?_rstrip_ne '/' _, ?_⟩
    cases k with
    | zero =>
        rw [List.replicate_zero, List.append_nil] at hk
        exact absurd (hk ▸ hlast) (getLast?_rstrip_ne '/' _)
    | succ k => exact ⟨k, by rw [hdir, ← List.replicate_succ, ← hk]⟩

/-! ### A name below a directory -/

theorem uptoLast_append_cons {c : Char} (s : Text) {t : Text} (ht : c ∉ t) :
    uptoLast c (s ++ c :: t) = s ++ [c] := by
  have happ := uptoLast_append_afterLast c (s ++ c :: t)
  rw [afterLast_append_cons s ht] at happ
  exact List.append_cancel_right (happ.trans (List.append_cons s c t))

theorem afterLast_of_not_mem {c : Char} {s : Text} (h : c ∉ s) : afterLast c s = s := by
  refine List.rtakeWhile_eq_self_iff.mpr fun d hd => bne_iff_ne.mpr fun heq => h ?_
  exact heq ▸ hd

theorem uptoLast_of_not_mem {c : Char} {s : Text} (h : c ∉ s) : uptoLast c s = [] := by
  have happ := uptoLast_append_afterLast c s
  rw [afterLast_of_not_mem h] at happ
  exact List.append_left_eq_self.mp happ

/-- A text has no `c`, or ends with what follows the last one. -/
theorem not_mem_or_split (c : Char) (s : Text) :
    c ∉ s ∨ ∃ a b, s = a ++ c :: b ∧ c ∉ b := by
  by_cases hup : uptoLast c s = []
  · left
    have happ := uptoLast_append_afterLast c s
    rw [hup, List.nil_append] at happ
    rw [← happ]
    exact not_mem_afterLast c s
  · right
    refine ⟨(uptoLast c s).dropLast, afterLast c s, ?_, not_mem_afterLast c s⟩
    have hlast := List.dropLast_append_getLast hup
    rw [getLast_uptoLast hup] at hlast
    rw [List.append_cons, hlast, uptoLast_append_afterLast]

theorem uptoLast_append_of_not_mem {c : Char} (s : Text) {t : Text} (ht : c ∉ t) :
    uptoLast c (s ++ t) = uptoLast c s := by
  rcases not_mem_or_split c s with hs | ⟨a, b, rfl, hb⟩
  · rw [uptoLast_of_not_mem hs, uptoLast_of_not_mem]
    exact fun h => (List.mem_append.mp h).elim hs ht
  · rw [List.append_assoc, List.cons_append, uptoLast_append_cons a hb, uptoLast_append_cons]
    exact fun h => (List.mem_append.mp h).elim hb ht

/-- What comes before a `c` comes before the last one. -/
theorem prefix_uptoLast (c : Char) (s t : Text) : s ++ [c] <+: uptoLast c (s ++ c :: t) := by
  obtain ⟨pre, hpre⟩ : ∃ pre, pre = uptoLast c (s ++ c :: t) := ⟨_, rfl⟩
  have happ := uptoLast_append_afterLast c (s ++ c :: t)
  have hnot := not_mem_afterLast c (s ++ c :: t)
  rw [← hpre] at happ ⊢
  have hprefix : s ++ [c] <+: s ++ c :: t := ⟨t, by rw [List.append_assoc, List.singleton_append]⟩
  refine List.prefix_of_prefix_length_le hprefix ⟨_, happ⟩ ?_
  by_contra hlt
  rw [List.length_append, List.length_singleton] at hlt
  apply hnot
  have hdrop : afterLast c (s ++ c :: t) = (s ++ c :: t).drop pre.length := by
    conv_rhs => rw [← happ]
    rw [List.drop_left]
  rw [hdrop, List.drop_append_of_le_length (by omega)]
  exact List.mem_append_right _ List.mem_cons_self

theorem prefix_rstrip {c d : Char} (h : d ≠ c) (s t : Text) :
    s ++ [d] <+: rstrip c (s ++ d :: t) := by
  obtain ⟨k, hk⟩ := exists_rstrip_append c (s ++ d :: t)
  have hprefix : s ++ [d] <+: s ++ d :: t := ⟨t, by rw [List.append_assoc, List.singleton_append]⟩
  refine List.prefix_of_prefix_length_le hprefix ⟨_, hk.symm⟩ ?_
  by_contra hlt
  rw [List.length_append, List.length_singleton] at hlt
  have hmem : d ∈ List.replicate k c := by
    have hdrop : List.replicate k c = (s ++ d :: t).drop (rstrip c (s ++ d :: t)).length := by
      obtain ⟨pre, hpre⟩ : ∃ pre, pre = rstrip c (s ++ d :: t) := ⟨_, rfl⟩
      rw [← hpre] at hk ⊢
      rw [hk, List.drop_left]
    rw [hdrop, List.drop_append_of_le_length (by omega)]
    exact List.mem_append_right _ List.mem_cons_self
  exact h (List.eq_of_mem_replicate hmem)

/-- A directory part that ends in a slash is nothing but slashes. -/
theorem all_of_getLast_dirname {p : Text} (h : (dirname p).getLast? = some '/') :
    (dirname p).all (· == '/') = true := by
  unfold dirname at h ⊢
  dsimp only at h ⊢
  split_ifs at h ⊢ with hall
  · exact hall
  · exact absurd h (getLast?_rstrip_ne '/' _)

theorem dirname_of_not_mem {name : Text} (hname : '/' ∉ name) : dirname name = [] := by
  rw [dirname, uptoLast_of_not_mem hname]
  rfl

/-- A name joined to a directory part lies in that directory, and is the base name. -/
theorem dirname_joinPath (p : Text) {name : Text} (hne : dirname p ≠ []) (hname : '/' ∉ name) :
    dirname (joinPath (dirname p) name) = dirname p ∧
      basename (joinPath (dirname p) name) = name := by
  have hhead : name.head? ≠ some '/' := fun h => hname (List.mem_of_head? h)
  rw [joinPath, if_neg hhead]
  by_cases hlast : (dirname p).getLast? = some '/'
  · obtain ⟨d, hd⟩ : ∃ d, dirname p = d ++ ['/'] := by
      refine ⟨(dirname p).dropLast, ?_⟩
      rw [List.getLast?_eq_some_getLast hne, Option.some_inj] at hlast
      rw [← hlast, List.dropLast_append_getLast hne]
    have hall := all_of_getLast_dirname hlast
    rw [if_pos (Or.inr hlast)]
    rw [hd] at hall ⊢
    rw [List.append_assoc, List.singleton_append, basename, afterLast_append_cons d hname, dirname,
      uptoLast_append_cons d hname]
    exact ⟨if_pos hall, rfl⟩
  · rw [if_neg (not_or.mpr ⟨hne, hlast⟩), basename, afterLast_append_cons _ hname]
    refine ⟨?_, rfl⟩
    have hends : endsWith (dirname p) '/' = false := by
      rw [endsWith, beq_eq_false_iff_ne]
      exact hlast
    have hall : ¬ (dirname p ++ ['/']).all (· == '/') = true := by
      intro hall
      have hmem := List.all_eq_true.mp hall _ (List.mem_append_left _ (List.getLast_mem hne))
      apply hlast
      rw [List.getLast?_eq_some_getLast hne, beq_iff_eq.mp hmem]
    rw [dirname, uptoLast_append_cons _ hname, if_neg hall, rstrip, List.rdropWhile_concat_pos _ _ _ rfl]
    exact rstrip_of_not_endsWith hends

/-- A directory goes on as far as another slash comes behind. -/
theorem prefix_dirname {c : Char} (hc : c ≠ '/') (s t r : Text) :
    s ++ [c] <+: dirname (s ++ c :: (t ++ '/' :: r)) := by
  have hup : (s ++ c :: t) ++ ['/'] <+: uptoLast '/' (s ++ c :: (t ++ '/' :: r)) := by
    have hprefix := prefix_uptoLast '/' (s ++ c :: t) r
    rwa [List.append_assoc s (c :: t) ('/' :: r)] at hprefix
  obtain ⟨rest, hrest⟩ := hup
  have hhead : uptoLast '/' (s ++ c :: (t ++ '/' :: r)) = s ++ c :: (t ++ '/' :: rest) := by
    rw [← hrest]
    simp
  rw [dirname, hhead, if_neg]
  · exact prefix_rstrip hc s _
  · intro hall
    have hmem := List.all_eq_true.mp hall c (List.mem_append_right s List.mem_cons_self)
    exact hc (beq_iff_eq.mp hmem)

/-- A part that does not start at the root is appended to the first one. -/
theorem joinPath_injective {a b b' : Text} (hb : b.head? ≠ some '/') (hb' : b'.head? ≠ some '/')
    (h : joinPath a b = joinPath a b') : b = b' := by
  rw [joinPath, joinPath, if_neg hb, if_neg hb'] at h
  split_ifs at h
  · exact List.append_cancel_left h
  · exact (List.cons.inj (List.append_cancel_left h)).2

end Text
