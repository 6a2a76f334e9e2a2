import Mathlib.Order.Nat
import StardustFS.FsEncoding
import StardustFS.JsonValue

/-! A reader of JSON texts, as `json.loads`: blanks, words, strings with their escapes, numbers and the two
kinds of brackets. The number of a text with a fraction or an exponent is a parameter. Of a key that comes
twice the first place and the last value count. -/

/-- Induction over a value: what holds of its items and of the values of its members holds of it. -/
@[elab_as_elim]
theorem Json.induct {χ : Type} {motive : Json χ → Prop} (null : motive .null)
    (bool : ∀ b, motive (.bool b)) (int : ∀ n, motive (.int n)) (float : ∀ x, motive (.float x)) (str : ∀ s, motive (.str s))
    (list : ∀ items, (∀ y ∈ items, motive y) → motive (.list items))
    (dict : ∀ members, (∀ m ∈ members, motive m.2) → motive (.dict members)) (x : Json χ) : motive x :=
  @Json.rec χ motive (fun items => ∀ y ∈ items, motive y) (fun members => ∀ m ∈ members, motive m.2)
    (fun m => motive m.2) null bool int float str list dict
    (fun _ h => absurd h List.not_mem_nil) (fun _ _ hx hrest => List.forall_mem_cons.mpr ⟨hx, hrest⟩)
    (fun _ h => absurd h List.not_mem_nil) (fun _ _ hx hrest => List.forall_mem_cons.mpr ⟨hx, hrest⟩)
    (fun _ _ h => h) x

namespace JsonReader

open FsEncoding (CodePoint codePoints)

abbrev Source := List CodePoint

def isBlank (c : CodePoint) : Bool := c.val == 32 || c.val == 9 || c.val == 10 || c.val == 13

def skipBlanks (text : Source) : Source := text.dropWhile isBlank

/-- What follows a mark that comes next, blanks aside. -/
def afterMark (mark : Nat) (text : Source) : Option Source :=
  match skipBlanks text with
  | c :: rest => if c.val = mark then some rest else none
  | [] => none

/-! ### Strings -/

/-- A part of a string: a character, or the unit of an escape. -/
inductive Piece where
  | plain (c : CodePoint)
  | unit (n : Nat)

def shortUnescape (c : CodePoint) : Option CodePoint :=
  if c.val = 34 then some 34
  else if c.val = 92 then some 92
  else if c.val = 47 then some 47
  else if c.val = 98 then some 8
  else if c.val = 102 then some 12
  else if c.val = 110 then some 10
  else if c.val = 114 then some 13
  else if c.val = 116 then some 9
  else none

def hexValue (c : CodePoint) : Option Nat :=
  if 48 ≤ c.val ∧ c.val < 58 then some (c.val - 48)
  else if 97 ≤ c.val ∧ c.val < 103 then some (c.val - 87)
  else if 65 ≤ c.val ∧ c.val < 71 then some (c.val - 55)
  else none

/-- The value of four hexadecimal digits. -/
def hexUnit (a b c d : CodePoint) : Option Nat :=
  (hexValue a).bind fun x => (hexValue b).bind fun y => (hexValue c).bind fun z =>
    (hexValue d).map fun w => x * 4096 + y * 256 + z * 16 + w

/-- The parts of a string up to its closing quote, and what follows. -/
def readPieces : Source → Option (List Piece × Source)
  | [] => none
  | c :: rest =>
      if c.val = 34 then some ([], rest)
      else if c.val = 92 then
        match rest with
        | [] => none
        | e :: rest =>
            if e.val = 117 then
              match rest with
              | x :: y :: z :: w :: rest =>
                  (hexUnit x y z w).bind fun n => (readPieces rest).map fun p => (.unit n :: p.1, p.2)
              | _ => none
            else (shortUnescape e).bind fun c => (readPieces rest).map fun p => (.plain c :: p.1, p.2)
      else if c.val < 32 then none
      else (readPieces rest).map fun p => (.plain c :: p.1, p.2)

theorem readPieces_quote (rest : Source) : readPieces (34 :: rest) = some ([], rest) := by
  have hquote : (34 : CodePoint).val = 34 := rfl
  rw [readPieces.eq_def]
  dsimp only
  rw [if_pos hquote]

theorem readPieces_unit (x y z w : CodePoint) (rest : Source) :
    readPieces (92 :: 117 :: x :: y :: z :: w :: rest) =
      (hexUnit x y z w).bind fun n => (readPieces rest).map fun p => (.unit n :: p.1, p.2) := by
  have hquote : (92 : CodePoint).val ≠ 34 := by decide
  have hslash : (92 : CodePoint).val = 92 := rfl
  have hu : (117 : CodePoint).val = 117 := rfl
  rw [readPieces.eq_def]
  dsimp only
  rw [if_neg hquote, if_pos hslash, if_pos hu]

theorem readPieces_short {e : CodePoint} (he : e.val ≠ 117) (rest : Source) :
    readPieces (92 :: e :: rest) =
      (shortUnescape e).bind fun c => (readPieces rest).map fun p => (.plain c :: p.1, p.2) := by
  have hquote : (92 : CodePoint).val ≠ 34 := by decide
  have hslash : (92 : CodePoint).val = 92 := rfl
  rw [readPieces.eq_def]
  dsimp only
  rw [if_neg hquote, if_pos hslash, if_neg he]

theorem readPieces_plain {c : CodePoint} (hquote : c.val ≠ 34) (hslash : c.val ≠ 92) (hlow : 32 ≤ c.val)
    (rest : Source) : readPieces (c :: rest) = (readPieces rest).map fun p => (.plain c :: p.1, p.2) := by
  rw [readPieces.eq_def]
  dsimp only
  rw [if_neg hquote, if_neg hslash, if_neg (Nat.not_lt.mpr hlow)]

/-- The two escapes of a surrogate pair are one character. -/
def combine : List Piece → List CodePoint
  | .unit hi :: .unit lo :: rest =>
      if 0xD800 ≤ hi ∧ hi < 0xDC00 ∧ 0xDC00 ≤ lo ∧ lo < 0xE000 then
        Fin.ofNat _ (0x10000 + (hi - 0xD800) * 1024 + (lo - 0xDC00)) :: combine rest
      else Fin.ofNat _ hi :: combine (.unit lo :: rest)
  | .unit n :: rest => Fin.ofNat _ n :: combine rest
  | .plain c :: rest => c :: combine rest
  | [] => []

theorem combine_plain (c : CodePoint) (rest : List Piece) :
    combine (.plain c :: rest) = c :: combine rest := by
  rw [combine]

theorem combine_unit {n : Nat} (h : n < 0xD800) (rest : List Piece) :
    combine (.unit n :: rest) = Fin.ofNat _ n :: combine rest := by
  have hnot : ∀ lo, ¬(0xD800 ≤ n ∧ n < 0xDC00 ∧ 0xDC00 ≤ lo ∧ lo < 0xE000) :=
    fun lo hpair => absurd hpair.1 (Nat.not_le.mpr h)
  cases rest with
  | nil => rfl
  | cons x rest =>
      cases x with
      | plain c => rfl
      | unit lo => rw [combine, if_neg (hnot lo)]

/-- The string after an opening quote, and what follows. -/
def readString (text : Source) : Option (List CodePoint × Source) :=
  (readPieces text).map fun p => (combine p.1, p.2)

/-! ### Numbers and words -/

def isDigit (c : CodePoint) : Bool := decide (48 ≤ c.val) && decide (c.val < 58)

/-- `(?:0|[1-9]\d*)`. -/
def readDigits : Source → Option (Source × Source)
  | [] => none
  | c :: rest =>
      if c.val = 48 then some ([c], rest)
      else if isDigit c then some (c :: rest.takeWhile isDigit, rest.dropWhile isDigit)
      else none

/-- `-?` in front of it. -/
def readInteger : Source → Option (Source × Source)
  | [] => none
  | c :: rest =>
      if c.val = 45 then (readDigits rest).map fun p => (c :: p.1, p.2) else readDigits (c :: rest)

/-- `(\.\d+)?`. -/
def readFraction : Source → Source × Source
  | c :: d :: rest =>
      if c.val = 46 ∧ isDigit d then (c :: d :: rest.takeWhile isDigit, rest.dropWhile isDigit)
      else ([], c :: d :: rest)
  | text => ([], text)

/-- `[-+]?`. -/
def readSign : Source → Source × Source
  | c :: rest => if c.val = 43 ∨ c.val = 45 then ([c], rest) else ([], c :: rest)
  | [] => ([], [])

/-- `([eE][-+]?\d+)?`. -/
def readExponent : Source → Source × Source
  | c :: rest =>
      let (sign, digits) := readSign rest
      if (c.val = 101 ∨ c.val = 69) ∧ digits.takeWhile isDigit ≠ [] then
        (c :: sign ++ digits.takeWhile isDigit, digits.dropWhile isDigit)
      else ([], c :: rest)
  | [] => ([], [])

def natOf (digits : Source) : Nat := digits.foldl (fun n c => 10 * n + (c.val - 48)) 0

def intOf : Source → Int
  | [] => 0
  | c :: rest => if c.val = 45 then -(natOf rest : Int) else natOf (c :: rest)

variable (floatOf : Source → PyFloat)

def readNumber (text : Source) : Option (Json CodePoint × Source) :=
  (readInteger text).map fun integer =>
    let fraction := readFraction integer.2
    let exponent := readExponent fraction.2
    if fraction.1 = [] ∧ exponent.1 = [] then (.int (intOf integer.1), exponent.2)
    else (.float (floatOf (integer.1 ++ fraction.1 ++ exponent.1)), exponent.2)

def words : List (Source × Json CodePoint) :=
  [(codePoints "null", .null), (codePoints "true", .bool true), (codePoints "false", .bool false),
    (codePoints "NaN", .float .nan), (codePoints "Infinity", .float (.inf false)),
    (codePoints "-Infinity", .float (.inf true))]

def readWord (text : Source) : Option (Json CodePoint × Source) :=
  words.findSome? fun w => if w.1.isPrefixOf text then some (w.2, text.drop w.1.length) else none

/-! ### Values -/

/-- `d[key] = value`. -/
def insertMember (members : List (List CodePoint × Json CodePoint)) (m : List CodePoint × Json CodePoint) :
    List (List CodePoint × Json CodePoint) :=
  if ∃ m' ∈ members, m'.1 = m.1 then members.map fun m' => if m'.1 = m.1 then (m'.1, m.2) else m'
  else members ++ [m]

/-- The dictionary of the pairs of a text. -/
def dictOf (pairs : List (List CodePoint × Json CodePoint)) : List (List CodePoint × Json CodePoint) :=
  pairs.foldl insertMember []

mutual

/-- The value at the head of a text, and what follows. -/
def scanOnce : Nat → Source → Option (Json CodePoint × Source)
  | 0, _ => none
  | _ + 1, [] => none
  | fuel + 1, c :: rest =>
      if c.val = 34 then (readString rest).map fun p => (.str p.1, p.2)
      else if c.val = 123 then
        match afterMark 125 rest with
        | some rest => some (.dict [], rest)
        | none => (readMembers fuel rest).map fun p => (.dict (dictOf p.1), p.2)
      else if c.val = 91 then
        match afterMark 93 rest with
        | some rest => some (.list [], rest)
        | none => (readItems fuel (skipBlanks rest)).map fun p => (.list p.1, p.2)
      else (readWord (c :: rest)).or (readNumber floatOf (c :: rest))

/-- The items of a list that has some, and what follows its bracket. -/
def readItems : Nat → Source → Option (List (Json CodePoint) × Source)
  | 0, _ => none
  | fuel + 1, text =>
      (scanOnce fuel text).bind fun p =>
        match afterMark 93 p.2 with
        | some rest => some ([p.1], rest)
        | none => (afterMark 44 p.2).bind fun rest =>
            (readItems fuel (skipBlanks rest)).map fun q => (p.1 :: q.1, q.2)

/-- The members of a dictionary that has some, and what follows its bracket. -/
def readMembers : Nat → Source → Option (List (List CodePoint × Json CodePoint) × Source)
  | 0, _ => none
  | fuel + 1, text =>
      (afterMark 34 text).bind fun text => (readString text).bind fun key =>
        (afterMark 58 key.2).bind fun text => (scanOnce fuel (skipBlanks text)).bind fun p =>
          match afterMark 125 p.2 with
          | some rest => some ([(key.1, p.1)], rest)
          | none => (afterMark 44 p.2).bind fun rest =>
              (readMembers fuel rest).map fun q => ((key.1, p.1) :: q.1, q.2)

end

/-- `json.loads`, `none` where it raises. -/
def loads (text : Source) : Option (Json CodePoint) :=
  if text.head?.map Fin.val = some 0xFEFF then none
  else (scanOnce floatOf (2 * text.length) (skipBlanks text)).bind fun p =>
    if skipBlanks p.2 = [] then some p.1 else none

/-! ### The fuel is enough -/

theorem length_skipBlanks_le (text : Source) : (skipBlanks text).length ≤ text.length :=
  (List.dropWhile_sublist _).length_le

theorem length_afterMark {mark : Nat} {text rest : Source} (h : afterMark mark text = some rest) :
    rest.length < text.length := by
  have hle := length_skipBlanks_le text
  unfold afterMark at h
  cases hskip : skipBlanks text with
  | nil =>
      rw [hskip] at h
      cases h
  | cons c tail =>
      rw [hskip] at h hle
      dsimp only at h
      split_ifs at h
      rw [Option.some_inj] at h
      rw [← h]
      exact hle

theorem length_readPieces {text rest : Source} {pieces : List Piece}
    (h : readPieces text = some (pieces, rest)) : rest.length < text.length := by
  fun_induction readPieces text generalizing pieces with
  | case1 => cases h
  | case2 c rest' hc =>
      cases h
      exact Nat.lt_succ_self _
  | case3 => cases h
  | case4 c hc hs e x y z w tail he ih =>
      obtain ⟨n, -, h⟩ := Option.bind_eq_some_iff.mp h
      obtain ⟨p, hp, h⟩ := Option.map_eq_some_iff.mp h
      obtain ⟨-, rfl⟩ := Prod.mk.inj h
      have := ih hp
      simp only [List.length_cons]
      omega
  | case5 => cases h
  | case6 c hc hs e tail he ih =>
      obtain ⟨n, -, h⟩ := Option.bind_eq_some_iff.mp h
      obtain ⟨p, hp, h⟩ := Option.map_eq_some_iff.mp h
      obtain ⟨-, rfl⟩ := Prod.mk.inj h
      have := ih hp
      simp only [List.length_cons]
      omega
  | case7 => cases h
  | case8 c tail hc hs hlow ih =>
      obtain ⟨p, hp, h⟩ := Option.map_eq_some_iff.mp h
      obtain ⟨-, rfl⟩ := Prod.mk.inj h
      exact (ih hp).trans (Nat.lt_succ_self _)

theorem length_readString {text rest : Source} {s : List CodePoint} (h : readString text = some (s, rest)) :
    rest.length < text.length := by
  obtain ⟨p, hp, h⟩ := Option.map_eq_some_iff.mp h
  obtain ⟨-, rfl⟩ := Prod.mk.inj h
  exact length_readPieces hp

theorem length_readDigits {text rest digits : Source} (h : readDigits text = some (digits, rest)) :
    rest.length < text.length := by
  cases text with
  | nil => cases h
  | cons c tail =>
      unfold readDigits at h
      dsimp only at h
      split_ifs at h
      · cases h
        exact Nat.lt_succ_self _
      · cases h
        exact Nat.lt_succ_of_le (List.dropWhile_sublist _).length_le

theorem length_readInteger {text rest digits : Source} (h : readInteger text = some (digits, rest)) :
    rest.length < text.length := by
  cases text with
  | nil => cases h
  | cons c tail =>
      unfold readInteger at h
      dsimp only at h
      split_ifs at h
      · obtain ⟨p, hp, h⟩ := Option.map_eq_some_iff.mp h
        obtain ⟨-, rfl⟩ := Prod.mk.inj h
        exact (length_readDigits hp).trans (Nat.lt_succ_self _)
      · exact length_readDigits h

theorem length_readFraction_le (text : Source) : (readFraction text).2.length ≤ text.length := by
  unfold readFraction
  split
  · split_ifs
    · have := (List.dropWhile_sublist isDigit (l := ‹Source›)).length_le
      simp only [List.length_cons]
      omega
    · exact Nat.le_refl _
  · exact Nat.le_refl _

theorem length_readExponent_le (text : Source) : (readExponent text).2.length ≤ text.length := by
  cases text with
  | nil => exact Nat.le_refl _
  | cons c rest =>
      have hsign : (readSign rest).2.length ≤ rest.length := by
        unfold readSign
        split
        · split_ifs
          · exact Nat.le_succ _
          · exact Nat.le_refl _
        · exact Nat.le_refl _
      have hdrop := (List.dropWhile_sublist isDigit (l := (readSign rest).2)).length_le
      unfold readExponent
      dsimp only
      split_ifs
      · simp only [List.length_cons]
        omega
      · exact Nat.le_refl _

theorem length_readNumber {text rest : Source} {v : Json CodePoint}
    (h : readNumber floatOf text = some (v, rest)) : rest.length < text.length := by
  obtain ⟨integer, hinteger, h⟩ := Option.map_eq_some_iff.mp h
  have hrest : rest = (readExponent (readFraction integer.2).2).2 := by
    dsimp only at h
    split_ifs at h
    · exact (Prod.mk.inj h).2.symm
    · exact (Prod.mk.inj h).2.symm
  rw [hrest]
  calc (readExponent (readFraction integer.2).2).2.length
      ≤ (readFraction integer.2).2.length := length_readExponent_le _
    _ ≤ integer.2.length := length_readFraction_le _
    _ < text.length := length_readInteger hinteger

theorem length_readWord {text rest : Source} {v : Json CodePoint} (h : readWord text = some (v, rest)) :
    rest.length < text.length := by
  obtain ⟨w, hw, h⟩ := List.exists_of_findSome?_eq_some h
  split_ifs at h with hstart
  obtain ⟨-, rfl⟩ := Prod.mk.inj (Option.some_inj.mp h)
  have hlen := (List.isPrefixOf_iff_prefix.mp hstart).length_le
  have hpos : 0 < w.1.length := by
    have hall : ∀ w ∈ words, 0 < w.1.length := by decide
    exact hall w hw
  rw [List.length_drop]
  omega

/-- What is read is a part of the text. -/
theorem length_scan (fuel : Nat) :
    (∀ text v rest, scanOnce floatOf fuel text = some (v, rest) → rest.length < text.length) ∧
    (∀ text v rest, readItems floatOf fuel text = some (v, rest) → rest.length < text.length) ∧
    (∀ text v rest, readMembers floatOf fuel text = some (v, rest) → rest.length < text.length) := by
  induction fuel with
  | zero =>
      refine ⟨fun _ _ _ h => ?_, fun _ _ _ h => ?_, fun _ _ _ h => ?_⟩
      · rw [scanOnce] at h
        cases h
      · rw [readItems] at h
        cases h
      · rw [readMembers] at h
        cases h
  | succ fuel ih =>
      obtain ⟨hscan, hitems, hmembers⟩ := ih
      refine ⟨fun text v rest h => ?_, fun text v rest h => ?_, fun text v rest h => ?_⟩
      · cases text with
        | nil => cases h
        | cons c tail =>
            rw [scanOnce] at h
            split_ifs at h
            · obtain ⟨p, hp, h⟩ := Option.map_eq_some_iff.mp h
              obtain ⟨-, rfl⟩ := Prod.mk.inj h
              exact (length_readString hp).trans (Nat.lt_succ_self _)
            · cases hmark : afterMark 125 tail with
              | some tail' =>
                  rw [hmark] at h
                  cases h
                  exact (length_afterMark hmark).trans (Nat.lt_succ_self _)
              | none =>
                  rw [hmark] at h
                  obtain ⟨p, hp, h⟩ := Option.map_eq_some_iff.mp h
                  obtain ⟨-, rfl⟩ := Prod.mk.inj h
                  exact (hmembers _ _ _ hp).trans (Nat.lt_succ_self _)
            · cases hmark : afterMark 93 tail with
              | some tail' =>
                  rw [hmark] at h
                  cases h
                  exact (length_afterMark hmark).trans (Nat.lt_succ_self _)
              | none =>
                  rw [hmark] at h
                  obtain ⟨p, hp, h⟩ := Option.map_eq_some_iff.mp h
                  obtain ⟨-, rfl⟩ := Prod.mk.inj h
                  exact ((hitems _ _ _ hp).trans_le (length_skipBlanks_le _)).trans (Nat.lt_succ_self _)
            · rcases Option.or_eq_some_iff.mp h with h | ⟨-, h⟩
              · exact length_readWord h
              · exact length_readNumber floatOf h
      · rw [readItems] at h
        obtain ⟨p, hp, h⟩ := Option.bind_eq_some_iff.mp h
        have hfirst := hscan _ _ _ hp
        cases hmark : afterMark 93 p.2 with
        | some tail =>
            rw [hmark] at h
            cases h
            exact (length_afterMark hmark).trans hfirst
        | none =>
            rw [hmark] at h
            obtain ⟨tail, htail, h⟩ := Option.bind_eq_some_iff.mp h
            obtain ⟨q, hq, h⟩ := Option.map_eq_some_iff.mp h
            obtain ⟨-, rfl⟩ := Prod.mk.inj h
            exact (((hitems _ _ _ hq).trans_le (length_skipBlanks_le _)).trans
              (length_afterMark htail)).trans hfirst
      · rw [readMembers] at h
        obtain ⟨text₁, h₁, h⟩ := Option.bind_eq_some_iff.mp h
        obtain ⟨key, hkey, h⟩ := Option.bind_eq_some_iff.mp h
        obtain ⟨text₂, h₂, h⟩ := Option.bind_eq_some_iff.mp h
        obtain ⟨p, hp, h⟩ := Option.bind_eq_some_iff.mp h
        have hfirst : p.2.length < text.length :=
          (((hscan _ _ _ hp).trans_le (length_skipBlanks_le _)).trans (length_afterMark h₂)).trans
            ((length_readString hkey).trans (length_afterMark h₁))
        cases hmark : afterMark 125 p.2 with
        | some tail =>
            rw [hmark] at h
            cases h
            exact (length_afterMark hmark).trans hfirst
        | none =>
            rw [hmark] at h
            obtain ⟨tail, htail, h⟩ := Option.bind_eq_some_iff.mp h
            obtain ⟨q, hq, h⟩ := Option.map_eq_some_iff.mp h
            obtain ⟨-, rfl⟩ := Prod.mk.inj h
            exact ((hmembers _ _ _ hq).trans (length_afterMark htail)).trans hfirst

/-- One more unit of fuel makes no difference from twice the length of the text on. -/
theorem scan_succ (fuel : Nat) :
    (∀ text, 2 * text.length ≤ fuel → scanOnce floatOf (fuel + 1) text = scanOnce floatOf fuel text) ∧
    (∀ text, 2 * text.length < fuel → readItems floatOf (fuel + 1) text = readItems floatOf fuel text) ∧
    (∀ text, 2 * text.length < fuel →
      readMembers floatOf (fuel + 1) text = readMembers floatOf fuel text) := by
  induction fuel with
  | zero =>
      refine ⟨fun text h => ?_, fun text h => absurd h (Nat.not_lt_zero _),
        fun text h => absurd h (Nat.not_lt_zero _)⟩
      obtain rfl : text = [] := List.eq_nil_of_length_eq_zero (by omega)
      rw [scanOnce, scanOnce]
  | succ fuel ih =>
      obtain ⟨hscan, hitems, hmembers⟩ := ih
      refine ⟨fun text h => ?_, fun text h => ?_, fun text h => ?_⟩
      · cases text with
        | nil => rw [scanOnce, scanOnce]
        | cons c tail =>
            have hskip := length_skipBlanks_le tail
            rw [List.length_cons] at h
            rw [scanOnce, scanOnce, hmembers tail (by omega), hitems (skipBlanks tail) (by omega)]
      · rw [readItems, readItems, hscan text (by omega)]
        refine Option.bind_congr fun p hp => ?_
        have hfirst := (length_scan floatOf fuel).1 _ _ _ hp
        cases afterMark 93 p.2 with
        | some rest => rfl
        | none =>
            refine Option.bind_congr fun rest hrest => ?_
            have hlt := length_afterMark hrest
            have hskip := length_skipBlanks_le rest
            rw [hitems (skipBlanks rest) (by omega)]
      · rw [readMembers, readMembers]
        refine Option.bind_congr fun text₁ h₁ => Option.bind_congr fun key hkey =>
          Option.bind_congr fun text₂ h₂ => ?_
        have hlt₁ := length_afterMark h₁
        have hltKey := length_readString hkey
        have hlt₂ := length_afterMark h₂
        have hskip := length_skipBlanks_le text₂
        rw [hscan (skipBlanks text₂) (by omega)]
        refine Option.bind_congr fun p hp => ?_
        have hfirst := (length_scan floatOf fuel).1 _ _ _ hp
        cases afterMark 125 p.2 with
        | some rest => rfl
        | none =>
            refine Option.bind_congr fun rest hrest => ?_
            have hlt := length_afterMark hrest
            rw [hmembers rest (by omega)]

/-- **The fuel of `loads` is enough.** -/
theorem scanOnce_of_le {fuel : Nat} {text : Source} (h : 2 * text.length ≤ fuel) :
    scanOnce floatOf fuel text = scanOnce floatOf (2 * text.length) text := by
  induction fuel, h using Nat.le_induction with
  | base => rfl
  | succ fuel hle ih => exact ((scan_succ floatOf fuel).1 text hle).trans ih

end JsonReader
