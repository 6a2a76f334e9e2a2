import StardustFS.FsEncoding

/-! JSON strings and numbers as text, the way a writer with `ensure_ascii` puts them down: characters
outside the printable ASCII range are escaped by their UTF-16 units, and the reader puts the two units
of a surrogate pair together again. A string with a high surrogate of its own is therefore not read
back as it was; every other string is. -/

namespace JsonText

open FsEncoding (CodePoint)

/-- The bytes of an ASCII literal. -/
def ascii (s : String) : List UInt8 := s.toList.map fun c => UInt8.ofNat c.toNat

/-- The UTF-16 units of a code point. -/
def units (c : CodePoint) : List Nat :=
  if c.val < 0x10000 then [c.val]
  else [0xD800 + (c.val - 0x10000) / 1024, 0xDC00 + (c.val - 0x10000) % 1024]

/-- The letter of a two-character escape. -/
def shortEscape (n : Nat) : Option UInt8 :=
  if n = 34 then some 34
  else if n = 92 then some 92
  else if n = 10 then some 110
  else if n = 13 then some 114
  else if n = 9 then some 116
  else if n = 12 then some 102
  else if n = 8 then some 98
  else none

def shortUnescape (b : UInt8) : Option Nat :=
  if b = 34 then some 34
  else if b = 92 then some 92
  else if b = 47 then some 47
  else if b = 110 then some 10
  else if b = 114 then some 13
  else if b = 116 then some 9
  else if b = 102 then some 12
  else if b = 98 then some 8
  else none

def hexDigit (n : Nat) : UInt8 := if n < 10 then UInt8.ofNat (48 + n) else UInt8.ofNat (87 + n)

def hexValue (b : UInt8) : Option Nat :=
  if 48 ≤ b.toNat ∧ b.toNat < 58 then some (b.toNat - 48)
  else if 97 ≤ b.toNat ∧ b.toNat < 103 then some (b.toNat - 87)
  else if 65 ≤ b.toNat ∧ b.toNat < 71 then some (b.toNat - 55)
  else none

/-- The value of four hexadecimal digits. -/
def hexUnit (a b c d : UInt8) : Option Nat :=
  (hexValue a).bind fun x => (hexValue b).bind fun y => (hexValue c).bind fun z =>
    (hexValue d).map fun w => x * 4096 + y * 256 + z * 16 + w

def escapeUnit (n : Nat) : List UInt8 :=
  match shortEscape n with
  | some b => [92, b]
  | none =>
      if 32 ≤ n ∧ n ≤ 126 then [UInt8.ofNat n]
      else [92, 117, hexDigit (n / 4096 % 16), hexDigit (n / 256 % 16), hexDigit (n / 16 % 16),
        hexDigit (n % 16)]

/-- A string in quotes. -/
def quote (s : List CodePoint) : List UInt8 := 34 :: (s.flatMap units).flatMap escapeUnit ++ [34]

/-- The units of a string up to its closing quote, and what follows. -/
def readUnits : List UInt8 → Option (List Nat × List UInt8)
  | [] => none
  | 34 :: rest => some ([], rest)
  | 92 :: 117 :: a :: b :: c :: d :: rest =>
      (hexUnit a b c d).bind fun n => (readUnits rest).map fun p => (n :: p.1, p.2)
  | 92 :: b :: rest =>
      (shortUnescape b).bind fun n => (readUnits rest).map fun p => (n :: p.1, p.2)
  | b :: rest =>
      if b.toNat < 32 ∨ b = 92 then none
      else (readUnits rest).map fun p => (b.toNat :: p.1, p.2)

/-- The code points of a list of units, a surrogate pair put together. -/
def combine : List Nat → List CodePoint
  | hi :: lo :: rest =>
      if 0xD800 ≤ hi ∧ hi < 0xDC00 ∧ 0xDC00 ≤ lo ∧ lo < 0xE000 then
        Fin.ofNat _ (0x10000 + (hi - 0xD800) * 1024 + (lo - 0xDC00)) :: combine rest
      else Fin.ofNat _ hi :: combine (lo :: rest)
  | [n] => [Fin.ofNat _ n]
  | [] => []

/-- A string in quotes, and what follows. -/
def readString : List UInt8 → Option (List CodePoint × List UInt8)
  | 34 :: rest => (readUnits rest).map fun p => (combine p.1, p.2)
  | _ => none

/-- The code point is a high surrogate. -/
def HighSurrogate (c : CodePoint) : Prop := 0xD800 ≤ c.val ∧ c.val < 0xDC00

theorem hexValue_hexDigit : ∀ n < 16, hexValue (hexDigit n) = some n := by decide

theorem hexUnit_hexDigit {n : Nat} (h : n < 0x10000) :
    hexUnit (hexDigit (n / 4096 % 16)) (hexDigit (n / 256 % 16)) (hexDigit (n / 16 % 16))
      (hexDigit (n % 16)) = some n := by
  rw [hexUnit, hexValue_hexDigit _ (Nat.mod_lt _ (by decide)),
    hexValue_hexDigit _ (Nat.mod_lt _ (by decide)), hexValue_hexDigit _ (Nat.mod_lt _ (by decide)),
    hexValue_hexDigit _ (Nat.mod_lt _ (by decide))]
  simp only [Option.bind_some, Option.map_some, Option.some_inj]
  omega

theorem shortUnescape_of_shortEscape {n : Nat} {b : UInt8} (h : shortEscape n = some b) :
    shortUnescape b = some n ∧ b ≠ 117 := by
  unfold shortEscape at h
  split_ifs at h
  all_goals
    subst n
    rw [Option.some_inj] at h
    subst b
    decide

/-- A unit is read back. -/
theorem readUnits_escapeUnit {n : Nat} (h : n < 0x10000) (rest : List UInt8) :
    readUnits (escapeUnit n ++ rest) = (readUnits rest).map fun p => (n :: p.1, p.2) := by
  unfold escapeUnit
  cases hshort : shortEscape n with
  | some b =>
      obtain ⟨hback, hu⟩ := shortUnescape_of_shortEscape hshort
      rw [List.cons_append, List.cons_append, List.nil_append, readUnits, hback, Option.bind_some]
      intro a b' c d rest' hb
      exact fun _ => hu hb
  | none =>
      dsimp only
      split_ifs with hplain
      · have hval : (UInt8.ofNat n).toNat = n := by
          rw [UInt8.toNat_ofNat']
          omega
        have hquote : UInt8.ofNat n ≠ 34 := by
          intro hb
          have hn : n = 34 := by rw [← hval, hb]; rfl
          simp [hn, shortEscape] at hshort
        have hslash : UInt8.ofNat n ≠ 92 := by
          intro hb
          have hn : n = 92 := by rw [← hval, hb]; rfl
          simp [hn, shortEscape] at hshort
        have hnot : ¬ ((UInt8.ofNat n).toNat < 32 ∨ UInt8.ofNat n = 92) := by
          rw [hval]
          rintro (hlow | hb)
          · omega
          · exact hslash hb
        rw [List.singleton_append, readUnits, if_neg hnot, hval]
        · exact hquote
        · intro a b c d rest' hb
          exact absurd hb hslash
        · intro b rest' hb
          exact absurd hb hslash
      · simp only [List.cons_append, List.nil_append]
        rw [readUnits, hexUnit_hexDigit h, Option.bind_some]

theorem readUnits_flatMap {ns : List Nat} (h : ∀ n ∈ ns, n < 0x10000) (rest : List UInt8) :
    readUnits (ns.flatMap escapeUnit ++ 34 :: rest) = some (ns, rest) := by
  induction ns with
  | nil => rfl
  | cons n ns ih =>
      rw [List.flatMap_cons, List.append_assoc, readUnits_escapeUnit (h n List.mem_cons_self),
        ih fun m hm => h m (List.mem_cons_of_mem n hm)]
      rfl

theorem units_lt {c : CodePoint} {n : Nat} (h : n ∈ units c) : n < 0x10000 := by
  have hc := c.isLt
  unfold units at h
  split_ifs at h with hlow
  · rw [List.mem_singleton.mp h]
    exact hlow
  · simp only [List.mem_cons, List.not_mem_nil, or_false] at h
    omega

/-- The units of a character are put together again, whatever follows, unless it is itself a high
surrogate. -/
theorem combine_units {c : CodePoint} (hc : ¬ HighSurrogate c) (ns : List Nat) :
    combine (units c ++ ns) = c :: combine ns := by
  have hlt := c.isLt
  unfold units
  unfold HighSurrogate at hc
  split_ifs with hlow
  · have hself : Fin.ofNat 0x110000 c.val = c := Fin.ext (Nat.mod_eq_of_lt hlt)
    cases ns with
    | nil => simp [combine]
    | cons n ns =>
        rw [List.singleton_append, combine, if_neg (by omega), hself]
  · have hpair : 0xD800 ≤ 0xD800 + (c.val - 0x10000) / 1024 ∧
        0xD800 + (c.val - 0x10000) / 1024 < 0xDC00 ∧
        0xDC00 ≤ 0xDC00 + (c.val - 0x10000) % 1024 ∧
        0xDC00 + (c.val - 0x10000) % 1024 < 0xE000 := by omega
    rw [List.cons_append, List.singleton_append, combine, if_pos hpair]
    refine congrArg (· :: combine ns) (Fin.ext ?_)
    rw [Fin.val_ofNat]
    omega

theorem combine_flatMap {s : List CodePoint} (h : ∀ c ∈ s, ¬ HighSurrogate c) :
    combine (s.flatMap units) = s := by
  induction s with
  | nil => rfl
  | cons c s ih =>
      rw [List.flatMap_cons, combine_units (h c List.mem_cons_self),
        ih fun d hd => h d (List.mem_cons_of_mem c hd)]

/-- **A string without high surrogates is read back as it was written.** -/
theorem readString_quote {s : List CodePoint} (h : ∀ c ∈ s, ¬ HighSurrogate c) (rest : List UInt8) :
    readString (quote s ++ rest) = some (s, rest) := by
  have hunits : ∀ n ∈ s.flatMap units, n < 0x10000 := by
    intro n hn
    obtain ⟨c, -, hc⟩ := List.mem_flatMap.mp hn
    exact units_lt hc
  rw [quote, List.cons_append, List.cons_append, List.append_assoc, List.singleton_append, readString,
    readUnits_flatMap hunits, Option.map_some, combine_flatMap h]

/-! ### Numbers and fixed text -/

/-- A natural number in decimal. -/
def number (n : Nat) : List UInt8 := (Nat.toDigits 10 n).map fun c => UInt8.ofNat c.toNat

def isDigitByte (b : UInt8) : Bool := decide (48 ≤ b.toNat) && decide (b.toNat < 58)

/-- The number at the start of the text, and what follows. -/
def readNumber (text : List UInt8) : Option (Nat × List UInt8) :=
  let digits := text.takeWhile isDigitByte
  if digits = [] then none
  else some (digits.foldl (fun n b => 10 * n + (b.toNat - 48)) 0, text.drop digits.length)

/-- What follows the expected text. -/
def expect (start text : List UInt8) : Option (List UInt8) :=
  if start <+: text then some (text.drop start.length) else none

theorem expect_append (start rest : List UInt8) : expect start (start ++ rest) = some rest := by
  rw [expect, if_pos (List.prefix_append _ _), List.drop_left]

theorem digit_byte {c : Char} (h : c.isDigit = true) :
    isDigitByte (UInt8.ofNat c.toNat) = true ∧ (UInt8.ofNat c.toNat).toNat = c.toNat := by
  obtain ⟨hlow, hhigh⟩ := Bool.and_eq_true_iff.mp h
  have hlow' : 48 ≤ c.toNat := UInt32.le_iff_toNat_le.mp (of_decide_eq_true hlow)
  have hhigh' : c.toNat ≤ 57 := UInt32.le_iff_toNat_le.mp (of_decide_eq_true hhigh)
  have hval : (UInt8.ofNat c.toNat).toNat = c.toNat := by
    rw [UInt8.toNat_ofNat']
    omega
  refine ⟨?_, hval⟩
  rw [isDigitByte, hval]
  simp
  omega

/-- A number that no digit follows is read back. -/
theorem readNumber_number (n : Nat) {rest : List UInt8}
    (h : ∀ b, rest.head? = some b → isDigitByte b = false) :
    readNumber (number n ++ rest) = some (n, rest) := by
  have hdigits : ∀ c ∈ Nat.toDigits 10 n, c.isDigit = true := fun c hc =>
    Nat.isDigit_of_mem_toDigits (by omega) (by omega) hc
  have hall : ∀ b ∈ number n, isDigitByte b = true := by
    intro b hb
    obtain ⟨c, hc, rfl⟩ := List.mem_map.mp hb
    exact (digit_byte (hdigits c hc)).1
  have htake : (number n ++ rest).takeWhile isDigitByte = number n := by
    rw [List.takeWhile_append_of_pos hall]
    cases rest with
    | nil => simp
    | cons b rest => simp [h b rfl]
  have hne : number n ≠ [] := by
    rw [number, ne_eq, List.map_eq_nil_iff]
    exact Nat.toDigits_ne_nil
  have hvalue : (number n).foldl (fun n b => 10 * n + (b.toNat - 48)) 0 = n := by
    have hsame : ∀ (cs : List Char) (start : Nat), (∀ c ∈ cs, c.isDigit = true) →
        (cs.map fun c => UInt8.ofNat c.toNat).foldl (fun n b => 10 * n + (b.toNat - 48)) start =
          Nat.ofDigitChars 10 cs start := by
      intro cs
      induction cs with
      | nil => exact fun _ _ => rfl
      | cons c cs ih =>
          intro start hcs
          rw [List.map_cons, List.foldl_cons, (digit_byte (hcs c List.mem_cons_self)).2,
            ih _ fun d hd => hcs d (List.mem_cons_of_mem c hd), Nat.ofDigitChars_cons]
          rfl
    rw [number, hsame _ _ hdigits, Nat.ofDigitChars_ten_toDigits]
  unfold readNumber
  rw [htake]
  dsimp only
  rw [if_neg hne, hvalue, List.drop_left]

end JsonText
