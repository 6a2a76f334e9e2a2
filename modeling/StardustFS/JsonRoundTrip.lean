import StardustFS.ConfigMigration
import StardustFS.JsonReader

/-! The round trip of the configuration's text: what `json.dumps` writes of a value, `json.loads` reads back.
A float is read back where its spelling is one of the same number. -/

namespace StardustFS

open FsEncoding

namespace JsonWriter

open JsonReader

variable (floatRepr : PyFloat → ConfigText) (floatOf : ConfigText → PyFloat)

/-! ### The writer, case by case -/

theorem text_null (level : Nat) : text floatRepr level .null = codePoints "null" := rfl

theorem text_bool (level : Nat) (b : Bool) : text floatRepr level (.bool b) = codePoints (toString b) := rfl

theorem text_int (level : Nat) (n : Int) : text floatRepr level (.int n) = codePoints (toString n) := rfl

theorem text_float (level : Nat) (x : PyFloat) : text floatRepr level (.float x) = floatRepr x := rfl

theorem text_str (level : Nat) (s : ConfigText) : text floatRepr level (.str s) = quote s := rfl

theorem text_list (level : Nat) (items : List ConfigValue) : text floatRepr level (.list items) =
    if items.isEmpty then codePoints "[]"
    else codePoints "[" ++ newline (level + 1) ++ itemTexts floatRepr (level + 1) items ++ newline level ++
      codePoints "]" := rfl

theorem text_dict (level : Nat) (members : ConfigObject) : text floatRepr level (.dict members) =
    if members.isEmpty then codePoints "\x7b\x7d"
    else codePoints "\x7b" ++ newline (level + 1) ++ memberTexts floatRepr (level + 1) members ++
      newline level ++ codePoints "\x7d" := rfl

theorem itemTexts_nil (level : Nat) : itemTexts floatRepr level [] = [] := rfl

theorem itemTexts_cons (level : Nat) (x : ConfigValue) (rest : List ConfigValue) :
    itemTexts floatRepr level (x :: rest) =
      text floatRepr level x ++ (if rest.isEmpty then [] else codePoints "," ++ newline level) ++
        itemTexts floatRepr level rest := rfl

theorem memberTexts_nil (level : Nat) : memberTexts floatRepr level [] = [] := rfl

theorem memberTexts_cons (level : Nat) (m : ConfigText × ConfigValue) (rest : ConfigObject) :
    memberTexts floatRepr level (m :: rest) =
      quote m.1 ++ codePoints ": " ++ text floatRepr level m.2 ++
        (if rest.isEmpty then [] else codePoints "," ++ newline level) ++ memberTexts floatRepr level rest := rfl

/-- No more of a number follows. -/
def Stops (rest : ConfigText) : Prop :=
  ∀ c, rest.head? = some c → isDigit c = false ∧ c.val ≠ 46 ∧ c.val ≠ 101 ∧ c.val ≠ 69

theorem stops_nil : Stops [] := by
  intro c hc
  cases hc

/-- The float is written so that it is read back. -/
def Spelled (x : PyFloat) : Prop :=
  ∀ rest, Stops rest →
    (readWord (floatRepr x ++ rest)).or (readNumber floatOf (floatRepr x ++ rest)) = some (.float x, rest)

mutual

/-- Every dictionary has distinct keys, and every float is spelled. -/
def Readable : ConfigValue → Prop
  | .float x => Spelled floatRepr floatOf x
  | .list items => ReadableItems items
  | .dict members => (members.map Prod.fst).Nodup ∧ ReadableMembers members
  | _ => True

def ReadableItems : List ConfigValue → Prop
  | [] => True
  | x :: rest => Readable x ∧ ReadableItems rest

def ReadableMembers : List (ConfigText × ConfigValue) → Prop
  | [] => True
  | (_, x) :: rest => Readable x ∧ ReadableMembers rest

end

theorem readable_null : Readable floatRepr floatOf .null := by
  simp [Readable]

theorem readable_bool (b : Bool) : Readable floatRepr floatOf (.bool b) := by
  simp [Readable]

theorem readable_int (n : Int) : Readable floatRepr floatOf (.int n) := by
  simp [Readable]

theorem readable_str (s : ConfigText) : Readable floatRepr floatOf (.str s) := by
  simp [Readable]

theorem readable_float_iff {x : PyFloat} :
    Readable floatRepr floatOf (.float x) ↔ Spelled floatRepr floatOf x := by
  rw [Readable]

theorem readable_list_iff {items : List ConfigValue} :
    Readable floatRepr floatOf (.list items) ↔ ∀ x ∈ items, Readable floatRepr floatOf x := by
  rw [Readable]
  induction items with
  | nil => simp [ReadableItems]
  | cons x items ih => rw [ReadableItems, ih, List.forall_mem_cons]

theorem readable_dict_iff {members : ConfigObject} :
    Readable floatRepr floatOf (.dict members) ↔
      (members.map Prod.fst).Nodup ∧ ∀ m ∈ members, Readable floatRepr floatOf m.2 := by
  have hmembers : ∀ members : ConfigObject, ReadableMembers floatRepr floatOf members ↔
      ∀ m ∈ members, Readable floatRepr floatOf m.2 := by
    intro members
    induction members with
    | nil => simp [ReadableMembers]
    | cons m members ih => rw [ReadableMembers, ih, List.forall_mem_cons]
  rw [Readable, hmembers]

/-! ### Strings -/

/-- How the reader takes a character that was written. -/
def pieceOf (c : CodePoint) : Piece :=
  if JsonText.shortEscape c.val = none ∧ c.val < 32 then .unit c.val else .plain c

theorem shortUnescape_letter {c : CodePoint} {letter : UInt8} (h : JsonText.shortEscape c.val = some letter) :
    shortUnescape (Fin.ofNat _ letter.toNat) = some c ∧ letter.toNat ≠ 117 := by
  unfold JsonText.shortEscape at h
  split_ifs at h with h₁ h₂ h₃ h₄ h₅ h₆ h₇
  all_goals
    rw [Option.some_inj] at h
    subst h
    refine ⟨?_, by decide⟩
    rw [show c = Fin.ofNat _ c.val from (Fin.ofNat_val_eq_self c).symm]
    simp only [*]
    rfl

theorem hexUnit_low : ∀ n < 32, hexUnit 48 48 (Fin.ofNat _ (JsonText.hexDigit (n / 16)).toNat)
    (Fin.ofNat _ (JsonText.hexDigit (n % 16)).toNat) = some n := by
  decide

theorem readPieces_escape (c : CodePoint) (rest : ConfigText) :
    readPieces (escape c ++ rest) = (readPieces rest).map fun p => (pieceOf c :: p.1, p.2) := by
  unfold escape
  cases hshort : JsonText.shortEscape c.val with
  | some letter =>
      obtain ⟨hback, hu⟩ := shortUnescape_letter hshort
      have hval : (Fin.ofNat 0x110000 letter.toNat).val ≠ 117 := by
        have := letter.toNat_lt
        rw [Fin.val_ofNat, Nat.mod_eq_of_lt (by omega)]
        exact hu
      have hpiece : pieceOf c = .plain c := by
        rw [pieceOf, hshort, if_neg (by simp)]
      dsimp only [List.cons_append, List.nil_append]
      rw [readPieces_short hval, hback, Option.bind_some, hpiece]
  | none =>
      dsimp only
      have hquote : c.val ≠ 34 := by
        intro h
        rw [h] at hshort
        cases hshort
      have hslash : c.val ≠ 92 := by
        intro h
        rw [h] at hshort
        cases hshort
      split_ifs with hlow
      · have hpiece : pieceOf c = .unit c.val := by
          rw [pieceOf, if_pos ⟨hshort, hlow⟩]
        have hfour : codePoints "\\u00" = [92, 117, 48, 48] := rfl
        rw [hfour]
        dsimp only [List.cons_append, List.nil_append]
        rw [readPieces_unit, hexUnit_low c.val hlow, Option.bind_some, hpiece]
      · have hpiece : pieceOf c = .plain c := by
          rw [pieceOf, if_neg fun h => hlow h.2]
        rw [List.singleton_append, readPieces_plain hquote hslash (Nat.not_lt.mp hlow), hpiece]

theorem readPieces_escapes (s rest : ConfigText) :
    readPieces (s.flatMap escape ++ 34 :: rest) = some (s.map pieceOf, rest) := by
  induction s with
  | nil => exact readPieces_quote rest
  | cons c s ih =>
      rw [List.flatMap_cons, List.append_assoc, readPieces_escape, ih, Option.map_some, List.map_cons]

theorem combine_pieces (s : ConfigText) : combine (s.map pieceOf) = s := by
  induction s with
  | nil => rfl
  | cons c s ih =>
      rw [List.map_cons, pieceOf]
      split_ifs with hc
      · rw [combine_unit (by omega), ih]
        exact congrArg (· :: s) (Fin.ofNat_val_eq_self c)
      · rw [combine_plain, ih]

theorem readString_escapes (s rest : ConfigText) :
    readString (s.flatMap escape ++ 34 :: rest) = some (s, rest) := by
  rw [readString, readPieces_escapes, Option.map_some, combine_pieces]

/-! ### Numbers -/

def code (c : Char) : CodePoint := ⟨c.toNat, char_toNat_lt c⟩

theorem codePoints_decimal (n : Nat) : codePoints (toString n) = (Nat.toDigits 10 n).map code := by
  rw [codePoints, Nat.toString_eq_repr, Nat.toList_repr]
  rfl

theorem isDigit_code {c : Char} (h : c.isDigit = true) : isDigit (code c) = true := by
  obtain ⟨hlow, hhigh⟩ := Bool.and_eq_true_iff.mp h
  have hlow' : 48 ≤ c.toNat := UInt32.le_iff_toNat_le.mp (of_decide_eq_true hlow)
  have hhigh' : c.toNat ≤ 57 := UInt32.le_iff_toNat_le.mp (of_decide_eq_true hhigh)
  rw [isDigit, Bool.and_eq_true, decide_eq_true_iff, decide_eq_true_iff]
  exact ⟨hlow', Nat.lt_succ_of_le hhigh'⟩

theorem isDigit_of_mem_decimal {n : Nat} {c : CodePoint} (h : c ∈ codePoints (toString n)) :
    isDigit c = true := by
  rw [codePoints_decimal] at h
  obtain ⟨d, hd, rfl⟩ := List.mem_map.mp h
  exact isDigit_code (Nat.isDigit_of_mem_toDigits (by omega) (by omega) hd)

theorem natOf_decimal (n : Nat) : natOf (codePoints (toString n)) = n := by
  have hsame : ∀ (cs : List Char) (start : Nat),
      (cs.map code).foldl (fun n c => 10 * n + (c.val - 48)) start = Nat.ofDigitChars 10 cs start := by
    intro cs
    induction cs with
    | nil => exact fun _ => rfl
    | cons c cs ih =>
        intro start
        rw [List.map_cons, List.foldl_cons, ih, Nat.ofDigitChars_cons]
        rfl
  rw [natOf, codePoints_decimal, hsame, Nat.ofDigitChars_ten_toDigits]

theorem digitChar_ne_zero : ∀ n < 10, 0 < n → (code n.digitChar).val ≠ 48 := by decide

/-- No decimal number but zero begins with a zero. -/
theorem head_decimal (n : Nat) :
    ∃ c rest, codePoints (toString n) = c :: rest ∧ (c.val = 48 → rest = []) := by
  rw [codePoints_decimal]
  have hpositive : 0 < n → ∃ c rest, (Nat.toDigits 10 n).map code = c :: rest ∧ c.val ≠ 48 := by
    induction n using Nat.strong_induction_on with
    | _ n ih =>
        intro hn
        by_cases h : n < 10
        · rw [Nat.toDigits_of_lt_base h]
          exact ⟨_, [], rfl, digitChar_ne_zero n h hn⟩
        · obtain ⟨c, rest, hdigits, hc⟩ := ih (n / 10) (by omega) (by omega)
          rw [Nat.toDigits_of_base_le (by omega) (Nat.not_lt.mp h), List.map_append, hdigits]
          exact ⟨c, _, rfl, hc⟩
  rcases Nat.eq_zero_or_pos n with rfl | hn
  · rw [Nat.toDigits_zero]
    exact ⟨_, [], rfl, fun _ => rfl⟩
  · obtain ⟨c, rest, hdigits, hc⟩ := hpositive hn
    exact ⟨c, rest, hdigits, fun h => absurd h hc⟩

theorem takeWhile_stops {digits rest : ConfigText} (hdigits : ∀ c ∈ digits, isDigit c = true)
    (hrest : Stops rest) :
    (digits ++ rest).takeWhile isDigit = digits ∧ (digits ++ rest).dropWhile isDigit = rest := by
  rw [List.takeWhile_append_of_pos hdigits, List.dropWhile_append_of_pos hdigits]
  cases rest with
  | nil => exact ⟨List.append_nil digits, rfl⟩
  | cons c rest =>
      have hc := (hrest c rfl).1
      rw [List.takeWhile_cons_of_neg (by simp [hc]), List.dropWhile_cons_of_neg (by simp [hc])]
      exact ⟨List.append_nil digits, rfl⟩

theorem readDigits_decimal (n : Nat) {rest : ConfigText} (hrest : Stops rest) :
    readDigits (codePoints (toString n) ++ rest) = some (codePoints (toString n), rest) := by
  obtain ⟨c, tail, hn, hzero⟩ := head_decimal n
  have hdigit : ∀ d ∈ codePoints (toString n), isDigit d = true := fun d => isDigit_of_mem_decimal
  rw [hn] at hdigit ⊢
  obtain ⟨hc, htail⟩ := List.forall_mem_cons.mp hdigit
  obtain ⟨htake, hdrop⟩ := takeWhile_stops htail hrest
  rw [List.cons_append, readDigits]
  by_cases hval : c.val = 48
  · rw [if_pos hval, hzero hval, List.nil_append]
  · rw [if_neg hval, if_pos hc, htake, hdrop]

/-- The sign and the digits of an integer. -/
theorem codePoints_int (n : Int) : codePoints (toString n) =
    if 0 ≤ n then codePoints (toString n.toNat) else 45 :: codePoints (toString (-n).toNat) := by
  have hminus : codePoints "-" = [45] := rfl
  rw [Int.toString_eq_repr, Int.repr_eq_if]
  split_ifs
  · rfl
  · rw [codePoints, String.toList_append, List.map_append]
    exact congrArg (· ++ codePoints (toString (-n).toNat)) hminus

theorem readInteger_int (n : Int) {rest : ConfigText} (hrest : Stops rest) :
    readInteger (codePoints (toString n) ++ rest) = some (codePoints (toString n), rest) := by
  have hminus : (45 : CodePoint).val = 45 := rfl
  rw [codePoints_int]
  split_ifs
  · have hread := readDigits_decimal n.toNat hrest
    obtain ⟨c, tail, hn, -⟩ := head_decimal n.toNat
    have hc : isDigit c = true := isDigit_of_mem_decimal (n := n.toNat) (hn ▸ List.mem_cons_self)
    have hsign : c.val ≠ 45 := by
      intro h
      rw [isDigit, h] at hc
      cases hc
    rw [hn] at hread ⊢
    rw [List.cons_append, readInteger.eq_def]
    dsimp only
    rw [if_neg hsign]
    exact hread
  · rw [List.cons_append, readInteger.eq_def]
    dsimp only
    rw [if_pos hminus, readDigits_decimal _ hrest, Option.map_some]

theorem intOf_int (n : Int) : intOf (codePoints (toString n)) = n := by
  have hminus : (45 : CodePoint).val = 45 := rfl
  rw [codePoints_int]
  split_ifs with hn
  · obtain ⟨c, tail, hdigits, -⟩ := head_decimal n.toNat
    have hc : isDigit c = true := isDigit_of_mem_decimal (n := n.toNat) (hdigits ▸ List.mem_cons_self)
    have hsign : c.val ≠ 45 := by
      intro h
      rw [isDigit, h] at hc
      cases hc
    have hvalue := natOf_decimal n.toNat
    rw [hdigits] at hvalue ⊢
    rw [intOf, if_neg hsign, hvalue]
    omega
  · rw [intOf, if_pos hminus, natOf_decimal]
    omega

theorem readFraction_stops {rest : ConfigText} (h : Stops rest) : readFraction rest = ([], rest) := by
  unfold readFraction
  split
  · rename_i c d tail
    have hdot := (h c rfl).2.1
    rw [if_neg fun hc => hdot hc.1]
  · rfl

theorem readExponent_stops {rest : ConfigText} (h : Stops rest) : readExponent rest = ([], rest) := by
  cases rest with
  | nil => rfl
  | cons c rest =>
      obtain ⟨-, -, hlower, hupper⟩ := h c rfl
      unfold readExponent
      dsimp only
      rw [if_neg fun hc => hc.1.elim hlower hupper]

theorem readNumber_int (n : Int) {rest : ConfigText} (hrest : Stops rest) :
    readNumber floatOf (codePoints (toString n) ++ rest) = some (.int n, rest) := by
  rw [readNumber, readInteger_int n hrest, Option.map_some]
  dsimp only
  rw [readFraction_stops hrest]
  dsimp only
  rw [readExponent_stops hrest, if_pos ⟨rfl, rfl⟩, intOf_int]

/-! ### Words and the head of a value -/

theorem readWord_eq_none {text : ConfigText} (h : ∀ w ∈ words, ¬w.1 <+: text) :
    readWord text = none := by
  refine List.findSome?_eq_none_iff.mpr fun w hw => ?_
  rw [if_neg (by rw [List.isPrefixOf_iff_prefix]; exact h w hw)]

/-- A word begins with a letter, or with the sign of an infinity. -/
theorem words_head : ∀ w ∈ words, ∃ c d rest, w.1 = c :: d :: rest ∧ isDigit c = false ∧
    isDigit d = false ∧ isBlank c = false ∧ c.val ∉ [34, 91, 93, 123] := by
  intro w hw
  unfold words at hw
  simp only [List.mem_cons, List.not_mem_nil, or_false] at hw
  rcases hw with rfl | rfl | rfl | rfl | rfl | rfl
  all_goals exact ⟨_, _, _, rfl, rfl, rfl, rfl, by decide⟩

theorem readWord_int (n : Int) (rest : ConfigText) : readWord (codePoints (toString n) ++ rest) = none := by
  refine readWord_eq_none fun w hw hstart => ?_
  obtain ⟨c, d, tail, hword, hc, hd, -⟩ := words_head w hw
  rw [hword, codePoints_int] at hstart
  split_ifs at hstart
  · obtain ⟨c', tail', hdigits, -⟩ := head_decimal n.toNat
    have hc' : isDigit c' = true := isDigit_of_mem_decimal (n := n.toNat) (hdigits ▸ List.mem_cons_self)
    rw [hdigits] at hstart
    obtain ⟨rfl, -⟩ := List.cons_prefix_cons.mp hstart
    rw [hc] at hc'
    cases hc'
  · obtain ⟨c', tail', hdigits, -⟩ := head_decimal (-n).toNat
    have hc' : isDigit c' = true := isDigit_of_mem_decimal (n := (-n).toNat) (hdigits ▸ List.mem_cons_self)
    rw [hdigits] at hstart
    obtain ⟨-, hstart⟩ := List.cons_prefix_cons.mp hstart
    obtain ⟨rfl, -⟩ := List.cons_prefix_cons.mp hstart
    rw [hd] at hc'
    cases hc'

/-- A word or a number begins neither with a blank nor with a quote or a bracket. -/
theorem readWord_or_readNumber_eq_none {c : CodePoint} (rest : ConfigText)
    (h : isBlank c = true ∨ c.val ∈ [34, 91, 93, 123]) :
    (readWord (c :: rest)).or (readNumber floatOf (c :: rest)) = none := by
  have hvals : c.val = 32 ∨ c.val = 9 ∨ c.val = 10 ∨ c.val = 13 ∨ c.val = 34 ∨ c.val = 91 ∨
      c.val = 93 ∨ c.val = 123 := by
    simpa [isBlank, or_assoc] using h
  have hword : readWord (c :: rest) = none := by
    refine readWord_eq_none fun w hw hstart => ?_
    obtain ⟨c', d, tail, hword, -, -, hblank, hmark⟩ := words_head w hw
    rw [hword] at hstart
    obtain ⟨rfl, -⟩ := List.cons_prefix_cons.mp hstart
    exact h.elim (fun hb => Bool.false_ne_true (hblank.symm.trans hb)) hmark
  have hinteger : readInteger (c :: rest) = none := by
    rw [readInteger, if_neg (by omega), readDigits, if_neg (by omega), if_neg]
    rw [isDigit, Bool.and_eq_true, decide_eq_true_iff, decide_eq_true_iff]
    omega
  rw [hword, readNumber, hinteger]
  rfl

theorem scanOnce_of_atom {fuel : Nat} {text : ConfigText} {p : ConfigValue × ConfigText} (hfuel : 0 < fuel)
    (h : (readWord text).or (readNumber floatOf text) = some p) : scanOnce floatOf fuel text = some p := by
  obtain ⟨fuel, rfl⟩ := Nat.exists_eq_succ_of_ne_zero hfuel.ne'
  cases text with
  | nil => cases h
  | cons c rest =>
      have hmark : c.val ∉ [34, 91, 93, 123] := by
        intro hc
        rw [readWord_or_readNumber_eq_none floatOf rest (Or.inr hc)] at h
        cases h
      simp only [List.mem_cons, List.not_mem_nil, or_false, not_or] at hmark
      rw [scanOnce, if_neg hmark.1, if_neg hmark.2.2.2, if_neg hmark.2.1, h]

/-- A value begins neither with a blank nor with a closing bracket. -/
theorem head_of_scanOnce {fuel : Nat} {text : ConfigText} {p : ConfigValue × ConfigText}
    (h : scanOnce floatOf fuel text = some p) :
    ∃ c rest, text = c :: rest ∧ isBlank c = false ∧ c.val ≠ 93 := by
  cases fuel with
  | zero =>
      rw [scanOnce] at h
      cases h
  | succ fuel =>
      cases text with
      | nil =>
          rw [scanOnce] at h
          cases h
      | cons c rest =>
          refine ⟨c, rest, rfl, ?_⟩
          by_contra hcontra
          have hvals : c.val = 32 ∨ c.val = 9 ∨ c.val = 10 ∨ c.val = 13 ∨ c.val = 93 := by
            by_contra hnot
            push Not at hnot
            refine hcontra ⟨?_, hnot.2.2.2.2⟩
            simp [isBlank, hnot]
          have hatom := readWord_or_readNumber_eq_none floatOf (c := c) rest (by
            simp [isBlank]
            omega)
          rw [scanOnce, if_neg (by omega), if_neg (by omega), if_neg (by omega), hatom] at h
          cases h

theorem head_of_readItems {fuel : Nat} {text : ConfigText} {p : List ConfigValue × ConfigText}
    (h : readItems floatOf fuel text = some p) :
    ∃ c rest, text = c :: rest ∧ isBlank c = false ∧ c.val ≠ 93 := by
  cases fuel with
  | zero =>
      rw [readItems] at h
      cases h
  | succ fuel =>
      rw [readItems] at h
      obtain ⟨q, hq, -⟩ := Option.bind_eq_some_iff.mp h
      exact head_of_scanOnce floatOf hq

theorem skipBlanks_of_scan {fuel : Nat} {text : ConfigText} {p : ConfigValue × ConfigText}
    (h : scanOnce floatOf fuel text = some p) : skipBlanks text = text := by
  obtain ⟨c, rest, rfl, hblank, -⟩ := head_of_scanOnce floatOf h
  exact List.dropWhile_cons_of_neg (by simp [hblank])

theorem skipBlanks_newline (level : Nat) (rest : ConfigText) :
    skipBlanks (newline level ++ rest) = skipBlanks rest := by
  refine List.dropWhile_append_of_pos fun c hc => ?_
  rcases List.mem_cons.mp hc with rfl | hc
  · rfl
  · rw [List.eq_of_mem_replicate hc]
    rfl

theorem afterMark_newline (mark level : Nat) (rest : ConfigText) :
    afterMark mark (newline level ++ rest) = afterMark mark rest := by
  rw [afterMark, skipBlanks_newline, afterMark]

theorem afterMark_mark {c : CodePoint} (hc : isBlank c = false) (rest : ConfigText) :
    afterMark c.val (c :: rest) = some rest := by
  have hskip : skipBlanks (c :: rest) = c :: rest := List.dropWhile_cons_of_neg (by simp [hc])
  rw [afterMark, hskip]
  exact if_pos rfl

theorem afterMark_other {mark : Nat} {c : CodePoint} (hc : isBlank c = false) (hmark : c.val ≠ mark)
    (rest : ConfigText) : afterMark mark (c :: rest) = none := by
  have hskip : skipBlanks (c :: rest) = c :: rest := List.dropWhile_cons_of_neg (by simp [hc])
  rw [afterMark, hskip]
  exact if_neg hmark

/-! ### The round trip -/

/-- Distinct keys keep their places. -/
theorem dictOf_eq {members : ConfigObject} (h : (members.map Prod.fst).Nodup) : dictOf members = members := by
  have hfold : ∀ (rest start : ConfigObject), ((start ++ rest).map Prod.fst).Nodup →
      rest.foldl insertMember start = start ++ rest := by
    intro rest
    induction rest with
    | nil => exact fun start _ => (List.append_nil start).symm
    | cons m rest ih =>
        intro start hnodup
        have hnew : ¬∃ m' ∈ start, m'.1 = m.1 := by
          rintro ⟨m', hm', hkey⟩
          rw [List.map_append, List.map_cons] at hnodup
          exact List.disjoint_of_nodup_append hnodup (List.mem_map.mpr ⟨m', hm', hkey⟩) List.mem_cons_self
        rw [List.foldl_cons, insertMember, if_neg hnew, ih]
        · rw [List.append_assoc, List.singleton_append]
        · rwa [List.append_assoc, List.singleton_append]
  exact hfold members [] h

theorem stops_newline (level : Nat) (rest : ConfigText) : Stops (newline level ++ rest) := by
  intro c hc
  obtain rfl := Option.some.inj hc
  exact ⟨rfl, by decide, by decide, by decide⟩

theorem codePoints_comma : codePoints "," = [44] := rfl

theorem stops_comma (rest : ConfigText) : Stops (44 :: rest) := by
  intro c hc
  obtain rfl := Option.some.inj hc
  exact ⟨rfl, by decide, by decide, by decide⟩

/-- What is said of a value: it is read back before any text that a number stops at. -/
def ReadBack (x : ConfigValue) : Prop :=
  ∀ level fuel rest, 2 * (text floatRepr level x).length ≤ fuel → Stops rest →
    scanOnce floatOf fuel (text floatRepr level x ++ rest) = some (x, rest)

theorem skipBlanks_text {x : ConfigValue} (hx : ReadBack floatRepr floatOf x) (level : Nat)
    {rest : ConfigText} (hrest : Stops rest) :
    skipBlanks (text floatRepr level x ++ rest) = text floatRepr level x ++ rest :=
  skipBlanks_of_scan floatOf (hx level _ rest (Nat.le_refl _) hrest)

theorem length_newline (level : Nat) : (newline level).length = 2 * level + 1 := by
  rw [newline, List.length_cons, List.length_replicate]

theorem readItems_itemTexts {items : List ConfigValue} (h : ∀ x ∈ items, ReadBack floatRepr floatOf x)
    (hne : items ≠ []) (level level' fuel : Nat) (rest : ConfigText)
    (hfuel : 2 * (itemTexts floatRepr level items).length < fuel) :
    readItems floatOf fuel (itemTexts floatRepr level items ++ (newline level' ++ 93 :: rest)) =
      some (items, rest) := by
  have hclose : afterMark 93 (newline level' ++ 93 :: rest) = some rest := by
    rw [afterMark_newline]
    exact afterMark_mark (c := 93) rfl rest
  induction items generalizing fuel with
  | nil => exact absurd rfl hne
  | cons x items ih =>
      obtain ⟨hx, hitems⟩ := List.forall_mem_cons.mp h
      obtain ⟨fuel, rfl⟩ := Nat.exists_eq_succ_of_ne_zero (Nat.ne_of_gt (Nat.zero_lt_of_lt hfuel))
      rw [itemTexts_cons] at hfuel ⊢
      cases items with
      | nil =>
          simp only [List.isEmpty_nil, if_true, itemTexts, List.append_nil] at hfuel ⊢
          rw [readItems, hx level fuel _ (by omega) (stops_newline level' _), Option.bind_some]
          dsimp only
          rw [hclose]
      | cons y items =>
          obtain ⟨tail, htail⟩ : ∃ tail, tail =
              itemTexts floatRepr level (y :: items) ++ (newline level' ++ 93 :: rest) := ⟨_, rfl⟩
          have hnone : afterMark 93 (44 :: (newline level ++ tail)) = none :=
            afterMark_other (c := 44) rfl (by decide) _
          have hcomma : afterMark 44 (44 :: (newline level ++ tail)) = some (newline level ++ tail) :=
            afterMark_mark (c := 44) rfl _
          have hskip : skipBlanks (newline level ++ tail) = tail := by
            rw [skipBlanks_newline, htail, itemTexts, List.append_assoc, List.append_assoc]
            refine skipBlanks_text floatRepr floatOf (hitems y List.mem_cons_self) level ?_
            split_ifs with hempty
            · rw [List.isEmpty_iff.mp hempty, itemTexts, List.nil_append, List.nil_append]
              exact stops_newline level' _
            · rw [List.append_assoc, codePoints_comma]
              exact stops_comma _
          have hlen := length_newline level
          simp only [List.isEmpty_cons, Bool.false_eq_true, if_false, List.length_append] at hfuel
          have happend : text floatRepr level x ++ (if (y :: items).isEmpty then [] else
              codePoints "," ++ newline level) ++ itemTexts floatRepr level (y :: items) ++
              (newline level' ++ 93 :: rest) =
                text floatRepr level x ++ (44 :: (newline level ++ tail)) := by
            rw [htail]
            simp only [List.isEmpty_cons, Bool.false_eq_true, if_false, List.append_assoc, codePoints_comma,
              List.cons_append, List.nil_append]
          rw [happend, readItems, hx level fuel _ (by omega) (stops_comma (newline level ++ tail)),
            Option.bind_some]
          dsimp only
          rw [hnone]
          dsimp only
          rw [hcomma, Option.bind_some, hskip, htail,
            ih hitems (List.cons_ne_nil y items) fuel (by omega), Option.map_some]

theorem quote_eq (s : ConfigText) : quote s = 34 :: (s.flatMap escape ++ [34]) := by
  have hquote : codePoints "\"" = [34] := rfl
  rw [quote, hquote, List.append_assoc, List.singleton_append]

theorem readMembers_newline (fuel level : Nat) (rest : ConfigText) :
    readMembers floatOf fuel (newline level ++ rest) = readMembers floatOf fuel rest := by
  cases fuel with
  | zero => rw [readMembers, readMembers]
  | succ fuel => rw [readMembers, readMembers, afterMark_newline]

theorem readMembers_memberTexts {members : ConfigObject}
    (h : ∀ m ∈ members, ReadBack floatRepr floatOf m.2) (hne : members ≠ []) (level level' fuel : Nat)
    (rest : ConfigText) (hfuel : 2 * (memberTexts floatRepr level members).length < fuel) :
    readMembers floatOf fuel (memberTexts floatRepr level members ++ (newline level' ++ 125 :: rest)) =
      some (members, rest) := by
  have hclose : afterMark 125 (newline level' ++ 125 :: rest) = some rest := by
    rw [afterMark_newline]
    exact afterMark_mark (c := 125) rfl rest
  induction members generalizing fuel with
  | nil => exact absurd rfl hne
  | cons m members ih =>
      obtain ⟨key, x⟩ := m
      obtain ⟨hx, hmembers⟩ := List.forall_mem_cons.mp h
      replace hx : ReadBack floatRepr floatOf x := hx
      obtain ⟨fuel, rfl⟩ := Nat.exists_eq_succ_of_ne_zero (Nat.ne_of_gt (Nat.zero_lt_of_lt hfuel))
      obtain ⟨separator, hseparator⟩ : ∃ separator, separator =
          (if members.isEmpty then [] else codePoints "," ++ newline level) := ⟨_, rfl⟩
      obtain ⟨tail, htail⟩ : ∃ tail, tail = separator ++ (memberTexts floatRepr level members ++
          (newline level' ++ 125 :: rest)) := ⟨_, rfl⟩
      have hstops : Stops tail := by
        rw [htail, hseparator]
        split_ifs with hempty
        · rw [List.isEmpty_iff.mp hempty, memberTexts]
          exact stops_newline level' _
        · exact stops_comma _
      have hcolon : codePoints ": " = [58, 32] := rfl
      have hopen : ∀ text, afterMark 34 (34 :: text) = some text := fun text =>
        afterMark_mark (c := 34) rfl text
      have hmark : ∀ text, afterMark 58 (58 :: text) = some text := fun text =>
        afterMark_mark (c := 58) rfl text
      have hblank : skipBlanks (32 :: (text floatRepr level x ++ tail)) = text floatRepr level x ++ tail := by
        rw [skipBlanks, List.dropWhile_cons_of_pos rfl]
        exact skipBlanks_text floatRepr floatOf hx level hstops
      have happend : memberTexts floatRepr level ((key, x) :: members) ++ (newline level' ++ 125 :: rest) =
          34 :: (key.flatMap escape ++ 34 :: 58 :: 32 :: (text floatRepr level x ++ tail)) := by
        rw [memberTexts_cons, ← hseparator, htail, quote_eq, hcolon]
        simp only [List.append_assoc, List.cons_append, List.nil_append]
      have hlength : (text floatRepr level x).length + separator.length +
          (memberTexts floatRepr level members).length <
            (memberTexts floatRepr level ((key, x) :: members)).length := by
        rw [memberTexts_cons, ← hseparator, quote_eq, hcolon]
        simp only [List.length_append, List.length_cons]
        omega
      rw [happend, readMembers, hopen, Option.bind_some, readString_escapes, Option.bind_some, hmark,
        Option.bind_some, hblank, hx level fuel tail (by omega) hstops, Option.bind_some]
      dsimp only
      cases members with
      | nil =>
          have hnil : tail = newline level' ++ 125 :: rest := by
            rw [htail, hseparator]
            rfl
          rw [hnil, hclose]
      | cons m members =>
          have hcons : tail = 44 :: (newline level ++ (memberTexts floatRepr level (m :: members) ++
              (newline level' ++ 125 :: rest))) := by
            rw [htail, hseparator]
            rfl
          have hnone : afterMark 125 tail = none := by
            rw [hcons]
            exact afterMark_other (c := 44) rfl (by decide) _
          have hcomma : afterMark 44 tail = some (newline level ++
              (memberTexts floatRepr level (m :: members) ++ (newline level' ++ 125 :: rest))) := by
            rw [hcons]
            exact afterMark_mark (c := 44) rfl _
          rw [hnone]
          dsimp only
          rw [hcomma, Option.bind_some, readMembers_newline,
            ih hmembers (List.cons_ne_nil m members) fuel (by omega), Option.map_some]

theorem readBack_word {x : ConfigValue} (word : ConfigText) (hword : (word, x) ∈ words)
    (htext : ∀ level, text floatRepr level x = word)
    (hread : ∀ rest, readWord (word ++ rest) = some (x, rest)) : ReadBack floatRepr floatOf x := by
  intro level fuel rest hfuel _
  rw [htext] at hfuel ⊢
  have hlength : ∀ w ∈ words, 0 < w.1.length := by decide
  have hpos : 0 < word.length := hlength _ hword
  refine scanOnce_of_atom floatOf (by omega) ?_
  rw [hread, Option.some_or]

theorem readBack_int (n : Int) : ReadBack floatRepr floatOf (.int n) := by
  intro level fuel rest hfuel hrest
  rw [text_int] at hfuel ⊢
  have hpos : 0 < (codePoints (toString n)).length := by
    rw [codePoints_int]
    split_ifs
    · obtain ⟨c, tail, hn, -⟩ := head_decimal n.toNat
      rw [hn]
      exact Nat.succ_pos _
    · exact Nat.succ_pos _
  refine scanOnce_of_atom floatOf (by omega) ?_
  rw [readWord_int, Option.none_or, readNumber_int floatOf n hrest]

theorem readBack_float {x : PyFloat} (h : Spelled floatRepr floatOf x) :
    ReadBack floatRepr floatOf (.float x) := by
  intro level fuel rest hfuel hrest
  rw [text_float] at hfuel ⊢
  have hpos : 0 < (floatRepr x).length := by
    rw [List.length_pos_iff]
    intro hnil
    have hempty := h [] stops_nil
    rw [hnil] at hempty
    cases hempty
  exact scanOnce_of_atom floatOf (by omega) (h rest hrest)

theorem readBack_str (s : ConfigText) : ReadBack floatRepr floatOf (.str s) := by
  intro level fuel rest hfuel _
  rw [text_str, quote_eq] at hfuel ⊢
  rw [List.length_cons] at hfuel
  have hquote : (34 : CodePoint).val = 34 := rfl
  obtain ⟨fuel, rfl⟩ : ∃ fuel', fuel = fuel' + 1 := Nat.exists_eq_succ_of_ne_zero (by omega)
  rw [List.cons_append, List.append_assoc, List.singleton_append, scanOnce, if_pos hquote,
    readString_escapes, Option.map_some]

theorem readBack_list {items : List ConfigValue} (h : ∀ x ∈ items, ReadBack floatRepr floatOf x) :
    ReadBack floatRepr floatOf (.list items) := by
  intro level fuel rest hfuel _
  have hbracket : (91 : CodePoint).val = 91 := rfl
  have hquote : (91 : CodePoint).val ≠ 34 := by decide
  have hbrace : (91 : CodePoint).val ≠ 123 := by decide
  rw [text_list] at hfuel ⊢
  cases items with
  | nil =>
      have hempty : codePoints "[]" = [91, 93] := rfl
      rw [List.isEmpty_nil, if_pos rfl, hempty] at hfuel ⊢
      obtain ⟨fuel, rfl⟩ : ∃ fuel', fuel = fuel' + 1 := Nat.exists_eq_succ_of_ne_zero (by
        simp only [List.length_cons] at hfuel
        omega)
      rw [List.cons_append, scanOnce, if_neg hquote, if_neg hbrace, if_pos hbracket, List.singleton_append]
      rw [show afterMark 93 (93 :: rest) = some rest from afterMark_mark (c := 93) rfl rest]
  | cons x items =>
      have hopen : codePoints "[" = [91] := rfl
      have hshut : codePoints "]" = [93] := rfl
      rw [List.isEmpty_cons, if_neg Bool.false_ne_true] at hfuel ⊢
      simp only [List.length_append, length_newline] at hfuel
      obtain ⟨fuel, rfl⟩ : ∃ fuel', fuel = fuel' + 1 := Nat.exists_eq_succ_of_ne_zero (by omega)
      have hread := readItems_itemTexts floatRepr floatOf h (List.cons_ne_nil x items) (level + 1) level
        fuel rest (by omega)
      obtain ⟨tail, htail⟩ : ∃ tail, tail =
          itemTexts floatRepr (level + 1) (x :: items) ++ (newline level ++ 93 :: rest) := ⟨_, rfl⟩
      rw [← htail] at hread
      have happend : codePoints "[" ++ newline (level + 1) ++ itemTexts floatRepr (level + 1) (x :: items) ++
          newline level ++ codePoints "]" ++ rest = 91 :: (newline (level + 1) ++ tail) := by
        rw [htail, hopen, hshut]
        simp only [List.append_assoc, List.cons_append, List.nil_append]
      obtain ⟨c, tail', hcons, hc, hbracket'⟩ := head_of_readItems floatOf hread
      have hskip : skipBlanks tail = tail := by
        rw [hcons]
        exact List.dropWhile_cons_of_neg (by simp [hc])
      have hnone : afterMark 93 tail = none := by
        rw [hcons]
        exact afterMark_other hc hbracket' tail'
      rw [happend, scanOnce, if_neg hquote, if_neg hbrace, if_pos hbracket, afterMark_newline, hnone]
      dsimp only
      rw [skipBlanks_newline, hskip, hread, Option.map_some]

theorem readBack_dict {members : ConfigObject} (h : ∀ m ∈ members, ReadBack floatRepr floatOf m.2)
    (hkeys : (members.map Prod.fst).Nodup) : ReadBack floatRepr floatOf (.dict members) := by
  intro level fuel rest hfuel _
  have hbrace : (123 : CodePoint).val = 123 := rfl
  have hquote : (123 : CodePoint).val ≠ 34 := by decide
  rw [text_dict] at hfuel ⊢
  cases members with
  | nil =>
      have hempty : codePoints "\x7b\x7d" = [123, 125] := rfl
      rw [List.isEmpty_nil, if_pos rfl, hempty] at hfuel ⊢
      obtain ⟨fuel, rfl⟩ : ∃ fuel', fuel = fuel' + 1 := Nat.exists_eq_succ_of_ne_zero (by
        simp only [List.length_cons] at hfuel
        omega)
      rw [List.cons_append, scanOnce, if_neg hquote, if_pos hbrace, List.singleton_append]
      rw [show afterMark 125 (125 :: rest) = some rest from afterMark_mark (c := 125) rfl rest]
  | cons m members =>
      have hopen : codePoints "\x7b" = [123] := rfl
      have hshut : codePoints "\x7d" = [125] := rfl
      rw [List.isEmpty_cons, if_neg Bool.false_ne_true] at hfuel ⊢
      simp only [List.length_append, length_newline] at hfuel
      obtain ⟨fuel, rfl⟩ : ∃ fuel', fuel = fuel' + 1 := Nat.exists_eq_succ_of_ne_zero (by omega)
      have hread := readMembers_memberTexts floatRepr floatOf h (List.cons_ne_nil m members) (level + 1) level
        fuel rest (by omega)
      obtain ⟨tail, htail⟩ : ∃ tail, tail =
          memberTexts floatRepr (level + 1) (m :: members) ++ (newline level ++ 125 :: rest) := ⟨_, rfl⟩
      have happend : codePoints "\x7b" ++ newline (level + 1) ++
          memberTexts floatRepr (level + 1) (m :: members) ++ newline level ++ codePoints "\x7d" ++ rest =
            123 :: (newline (level + 1) ++ tail) := by
        rw [htail, hopen, hshut]
        simp only [List.append_assoc, List.cons_append, List.nil_append]
      have hnone : afterMark 125 tail = none := by
        rw [htail, memberTexts, quote_eq]
        exact afterMark_other (c := 34) rfl (by decide) _
      rw [happend, scanOnce, if_neg hquote, if_pos hbrace, afterMark_newline, hnone]
      dsimp only
      rw [readMembers_newline, htail, hread, Option.map_some, dictOf_eq hkeys]

/-- **What is written is read back**, by induction over the value. -/
theorem readBack {x : ConfigValue} (hx : Readable floatRepr floatOf x) : ReadBack floatRepr floatOf x := by
  induction x using Json.induct with
  | null =>
      exact readBack_word floatRepr floatOf (x := .null) (codePoints "null") (by simp [words])
        (fun _ => by rw [text_null]) fun _ => rfl
  | bool b =>
      cases b with
      | true =>
          exact readBack_word floatRepr floatOf (x := .bool true) (codePoints "true") (by simp [words])
            (fun _ => by rw [text_bool]; rfl) fun _ => rfl
      | false =>
          exact readBack_word floatRepr floatOf (x := .bool false) (codePoints "false") (by simp [words])
            (fun _ => by rw [text_bool]; rfl) fun _ => rfl
  | int n => exact readBack_int floatRepr floatOf n
  | float x => exact readBack_float floatRepr floatOf ((readable_float_iff floatRepr floatOf).mp hx)
  | str s => exact readBack_str floatRepr floatOf s
  | list items ih =>
      rw [readable_list_iff] at hx
      exact readBack_list floatRepr floatOf fun x hmem => ih x hmem (hx x hmem)
  | dict members ih =>
      rw [readable_dict_iff] at hx
      exact readBack_dict floatRepr floatOf (fun m hmem => ih m hmem (hx.2 m hmem)) hx.1

/-- **The round trip** of an object's text. -/
theorem loads_dumps {data : ConfigObject} (h : Readable floatRepr floatOf (.dict data)) :
    loads floatOf (dumps floatRepr data) = some (.dict data) := by
  have hread := readBack floatRepr floatOf h 0 _ [] (Nat.le_refl _) stops_nil
  rw [List.append_nil] at hread
  have hskip := skipBlanks_of_scan floatOf hread
  have hmark : (dumps floatRepr data).head?.map Fin.val ≠ some 0xFEFF := by
    have hhead : (dumps floatRepr data).head? = some 123 := by
      rw [dumps, text_dict]
      split_ifs
      · rfl
      · rfl
    rw [hhead]
    decide
  rw [loads, if_neg hmark, dumps, hskip, hread, Option.bind_some]
  exact if_pos rfl

/-! ### What is read can be written -/

/-- The floats that a text can stand for are written so that they are read back. -/
structure Spelling : Prop where
  nan : floatRepr .nan = codePoints "NaN"
  infinity : floatRepr (.inf false) = codePoints "Infinity"
  minusInfinity : floatRepr (.inf true) = codePoints "-Infinity"
  number : ∀ text, Spelled floatRepr floatOf (floatOf text)

theorem insertMember_readable {members : ConfigObject} {m : ConfigText × ConfigValue}
    (h : Readable floatRepr floatOf (.dict members)) (hm : Readable floatRepr floatOf m.2) :
    Readable floatRepr floatOf (.dict (insertMember members m)) := by
  rw [readable_dict_iff] at h ⊢
  obtain ⟨hkeys, hmembers⟩ := h
  unfold insertMember
  split_ifs with hmem
  · have hfst : (members.map fun m' => if m'.1 = m.1 then (m'.1, m.2) else m').map Prod.fst =
        members.map Prod.fst := by
      rw [List.map_map]
      refine List.map_congr_left fun m' _ => ?_
      rw [Function.comp_apply]
      split_ifs
      · rfl
      · rfl
    refine ⟨hfst ▸ hkeys, fun m' hm' => ?_⟩
    obtain ⟨m₀, hm₀, rfl⟩ := List.mem_map.mp hm'
    split_ifs
    · exact hm
    · exact hmembers m₀ hm₀
  · refine ⟨?_, fun m' hm' => ?_⟩
    · rw [List.map_append, List.map_singleton, List.nodup_append]
      refine ⟨hkeys, List.nodup_singleton _, fun a ha b hb hab => hmem ?_⟩
      rw [List.mem_singleton] at hb
      obtain ⟨m', hm', hkey⟩ := List.mem_map.mp ha
      exact ⟨m', hm', hkey.trans (hab.trans hb)⟩
    · rcases List.mem_append.mp hm' with hm' | hm'
      · exact hmembers m' hm'
      · rw [List.mem_singleton.mp hm']
        exact hm

theorem dictOf_readable {pairs : ConfigObject} (h : ∀ m ∈ pairs, Readable floatRepr floatOf m.2) :
    Readable floatRepr floatOf (.dict (dictOf pairs)) := by
  have hfold : ∀ (rest start : ConfigObject), (∀ m ∈ rest, Readable floatRepr floatOf m.2) →
      Readable floatRepr floatOf (.dict start) →
      Readable floatRepr floatOf (.dict (rest.foldl insertMember start)) := by
    intro rest
    induction rest with
    | nil => exact fun _ _ hstart => hstart
    | cons m rest ih =>
        intro start hrest hstart
        obtain ⟨hm, hrest⟩ := List.forall_mem_cons.mp hrest
        exact ih _ hrest (insertMember_readable floatRepr floatOf hstart hm)
  refine hfold pairs [] h ?_
  rw [readable_dict_iff]
  exact ⟨List.nodup_nil, fun m hm => absurd hm List.not_mem_nil⟩

variable {floatRepr floatOf}

theorem readable_of_readWord (h : Spelling floatRepr floatOf) {text rest : ConfigText} {x : ConfigValue}
    (hread : readWord text = some (x, rest)) : Readable floatRepr floatOf x := by
  obtain ⟨w, hw, hfound⟩ := List.exists_of_findSome?_eq_some hread
  split_ifs at hfound
  obtain ⟨rfl, -⟩ := Prod.mk.inj (Option.some_inj.mp hfound)
  unfold words at hw
  simp only [List.mem_cons, List.not_mem_nil, or_false] at hw
  rcases hw with rfl | rfl | rfl | rfl | rfl | rfl
  · exact readable_null floatRepr floatOf
  · exact readable_bool floatRepr floatOf true
  · exact readable_bool floatRepr floatOf false
  · refine (readable_float_iff floatRepr floatOf).mpr fun rest _ => ?_
    rw [h.nan]
    rfl
  · refine (readable_float_iff floatRepr floatOf).mpr fun rest _ => ?_
    rw [h.infinity]
    rfl
  · refine (readable_float_iff floatRepr floatOf).mpr fun rest _ => ?_
    rw [h.minusInfinity]
    rfl

theorem readable_of_readNumber (h : Spelling floatRepr floatOf) {text rest : ConfigText} {x : ConfigValue}
    (hread : readNumber floatOf text = some (x, rest)) : Readable floatRepr floatOf x := by
  obtain ⟨integer, -, hvalue⟩ := Option.map_eq_some_iff.mp hread
  dsimp only at hvalue
  split_ifs at hvalue
  · rw [← (Prod.mk.inj hvalue).1]
    exact readable_int floatRepr floatOf _
  · rw [← (Prod.mk.inj hvalue).1, readable_float_iff]
    exact h.number _

/-- What a reader returns can be written. -/
theorem readable_of_scan (h : Spelling floatRepr floatOf) (fuel : Nat) :
    (∀ text x rest, scanOnce floatOf fuel text = some (x, rest) → Readable floatRepr floatOf x) ∧
    (∀ text items rest, readItems floatOf fuel text = some (items, rest) →
      ∀ x ∈ items, Readable floatRepr floatOf x) ∧
    (∀ text pairs rest, readMembers floatOf fuel text = some (pairs, rest) →
      ∀ m ∈ pairs, Readable floatRepr floatOf m.2) := by
  induction fuel with
  | zero =>
      refine ⟨fun _ _ _ h => ?_, fun _ _ _ h => ?_, fun _ _ _ h => ?_⟩
      · rw [scanOnce] at h
        cases h
      · rw [readItems] at h
        cases h
      · rw [readMembers] at h
        cases h
  | succ fuel ih =>
      obtain ⟨hscan, hitems, hmembers⟩ := ih
      refine ⟨fun text x rest hread => ?_, fun text items rest hread => ?_,
        fun text pairs rest hread => ?_⟩
      · cases text with
        | nil =>
            rw [scanOnce] at hread
            cases hread
        | cons c tail =>
            rw [scanOnce] at hread
            split_ifs at hread
            · obtain ⟨p, -, hvalue⟩ := Option.map_eq_some_iff.mp hread
              rw [← (Prod.mk.inj hvalue).1]
              exact readable_str floatRepr floatOf _
            · cases hmark : afterMark 125 tail with
              | some tail' =>
                  rw [hmark] at hread
                  cases hread
                  exact (readable_dict_iff floatRepr floatOf).mpr
                    ⟨List.nodup_nil, fun m hm => absurd hm List.not_mem_nil⟩
              | none =>
                  rw [hmark] at hread
                  obtain ⟨p, hp, hvalue⟩ := Option.map_eq_some_iff.mp hread
                  rw [← (Prod.mk.inj hvalue).1]
                  exact dictOf_readable floatRepr floatOf (hmembers _ _ _ hp)
            · cases hmark : afterMark 93 tail with
              | some tail' =>
                  rw [hmark] at hread
                  cases hread
                  exact (readable_list_iff floatRepr floatOf).mpr fun x hx => absurd hx List.not_mem_nil
              | none =>
                  rw [hmark] at hread
                  obtain ⟨p, hp, hvalue⟩ := Option.map_eq_some_iff.mp hread
                  rw [← (Prod.mk.inj hvalue).1]
                  exact (readable_list_iff floatRepr floatOf).mpr (hitems _ _ _ hp)
            · rcases Option.or_eq_some_iff.mp hread with hread | ⟨-, hread⟩
              · exact readable_of_readWord h hread
              · exact readable_of_readNumber h hread
      · rw [readItems] at hread
        obtain ⟨p, hp, hread⟩ := Option.bind_eq_some_iff.mp hread
        have hfirst := hscan _ _ _ hp
        cases hmark : afterMark 93 p.2 with
        | some tail =>
            rw [hmark] at hread
            cases hread
            exact List.forall_mem_singleton.mpr hfirst
        | none =>
            rw [hmark] at hread
            obtain ⟨tail, -, hread⟩ := Option.bind_eq_some_iff.mp hread
            obtain ⟨q, hq, hvalue⟩ := Option.map_eq_some_iff.mp hread
            rw [← (Prod.mk.inj hvalue).1]
            exact List.forall_mem_cons.mpr ⟨hfirst, hitems _ _ _ hq⟩
      · rw [readMembers] at hread
        obtain ⟨_, -, hread⟩ := Option.bind_eq_some_iff.mp hread
        obtain ⟨key, -, hread⟩ := Option.bind_eq_some_iff.mp hread
        obtain ⟨_, -, hread⟩ := Option.bind_eq_some_iff.mp hread
        obtain ⟨p, hp, hread⟩ := Option.bind_eq_some_iff.mp hread
        have hfirst := hscan _ _ _ hp
        cases hmark : afterMark 125 p.2 with
        | some tail =>
            rw [hmark] at hread
            cases hread
            exact List.forall_mem_singleton.mpr hfirst
        | none =>
            rw [hmark] at hread
            obtain ⟨tail, -, hread⟩ := Option.bind_eq_some_iff.mp hread
            obtain ⟨q, hq, hvalue⟩ := Option.map_eq_some_iff.mp hread
            rw [← (Prod.mk.inj hvalue).1]
            exact List.forall_mem_cons.mpr ⟨hfirst, hmembers _ _ _ hq⟩

/-- **What is loaded can be written**, and is then read back. -/
theorem readable_of_loads (h : Spelling floatRepr floatOf) {text : ConfigText} {x : ConfigValue}
    (hload : loads floatOf text = some x) : Readable floatRepr floatOf x := by
  unfold loads at hload
  split_ifs at hload
  obtain ⟨p, hp, hload⟩ := Option.bind_eq_some_iff.mp hload
  split_ifs at hload
  obtain rfl := Option.some.inj hload
  exact (readable_of_scan h _).1 _ _ _ hp

end JsonWriter

end StardustFS
