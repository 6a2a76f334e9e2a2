import Mathlib.Data.List.Basic
import StardustFS.TextPath

/-! Base64 as Python's `base64` module has it. The decoder drops the characters that are not of the
alphabet, and stops at the padding that completes a group of four. -/

namespace Base64

/-- The letter of a number below 64. -/
def letter (n : Nat) : Char :=
  "ABCDEFGHIJKLMNOPQRSTUVWXYZabcdefghijklmnopqrstuvwxyz0123456789+/".toList.getD n 'A'

/-- The number of a letter, `none` where the character is not of the alphabet. -/
def value (c : Char) : Option Nat :=
  if 'A' ≤ c ∧ c ≤ 'Z' then some (c.toNat - 65)
  else if 'a' ≤ c ∧ c ≤ 'z' then some (c.toNat - 71)
  else if '0' ≤ c ∧ c ≤ '9' then some (c.toNat + 4)
  else if c = '+' then some 62
  else if c = '/' then some 63
  else none

/-- `b64encode(data).decode("ascii")`: three bytes make four letters, the last group is padded. -/
def b64encode : List UInt8 → Text
  | [] => []
  | [a] =>
      [letter (a.toNat / 4), letter (a.toNat % 4 * 16), '=', '=']
  | [a, b] =>
      [letter (a.toNat / 4), letter (a.toNat % 4 * 16 + b.toNat / 16), letter (b.toNat % 16 * 4), '=']
  | a :: b :: c :: rest =>
      letter (a.toNat / 4) :: letter (a.toNat % 4 * 16 + b.toNat / 16) ::
        letter (b.toNat % 16 * 4 + c.toNat / 64) :: letter (c.toNat % 64) :: b64encode rest

/-- The decoder's loop, at a place in a group of four: what is left over of the letter before, and the
padding characters since. Without padding, a group that is not complete is an error. -/
def decodeFrom : Nat → Nat → Nat → Text → Option (List UInt8)
  | place, _, _, [] => if place = 0 then some [] else none
  | place, left, pads, c :: rest =>
      if c = '=' then
        if 2 ≤ place then
          if 4 ≤ place + (pads + 1) then some [] else decodeFrom place left (pads + 1) rest
        else decodeFrom place left pads rest
      else match value c with
        | none => decodeFrom place left pads rest
        | some v =>
            match place with
            | 0 => decodeFrom 1 v 0 rest
            | 1 => (decodeFrom 2 (v % 16) 0 rest).map (UInt8.ofNat (left * 4 + v / 16) :: ·)
            | 2 => (decodeFrom 3 (v % 4) 0 rest).map (UInt8.ofNat (left * 16 + v / 4) :: ·)
            | _ => (decodeFrom 0 0 0 rest).map (UInt8.ofNat (left * 64 + v) :: ·)

/-- `b64decode(text)`, `none` where it raises. A text that is not ASCII is refused. -/
def b64decode (text : Text) : Option (List UInt8) :=
  if text.all (fun c => c.toNat < 128) then decodeFrom 0 0 0 text else none

/-! ### Decoding what was encoded -/

theorem value_letter {n : Nat} (h : n < 64) : value (letter n) = some n ∧ letter n ≠ '=' ∧
    (letter n).toNat < 128 := by
  have key : ∀ n : Fin 64, value (letter n.val) = some n.val ∧ letter n.val ≠ '=' ∧
      (letter n.val).toNat < 128 := by decide +kernel
  exact key ⟨n, h⟩

section Steps

variable {n left pads : Nat} {rest : Text}

theorem decodeFrom_zero (h : n < 64) :
    decodeFrom 0 left pads (letter n :: rest) = decodeFrom 1 n 0 rest := by
  obtain ⟨hvalue, hpad, -⟩ := value_letter h
  rw [decodeFrom, if_neg hpad, hvalue]
  rfl

theorem decodeFrom_one (h : n < 64) : decodeFrom 1 left pads (letter n :: rest) =
    (decodeFrom 2 (n % 16) 0 rest).map (UInt8.ofNat (left * 4 + n / 16) :: ·) := by
  obtain ⟨hvalue, hpad, -⟩ := value_letter h
  rw [decodeFrom, if_neg hpad, hvalue]
  rfl

theorem decodeFrom_two (h : n < 64) : decodeFrom 2 left pads (letter n :: rest) =
    (decodeFrom 3 (n % 4) 0 rest).map (UInt8.ofNat (left * 16 + n / 4) :: ·) := by
  obtain ⟨hvalue, hpad, -⟩ := value_letter h
  rw [decodeFrom, if_neg hpad, hvalue]
  rfl

theorem decodeFrom_three (h : n < 64) : decodeFrom 3 left pads (letter n :: rest) =
    (decodeFrom 0 0 0 rest).map (UInt8.ofNat (left * 64 + n) :: ·) := by
  obtain ⟨hvalue, hpad, -⟩ := value_letter h
  rw [decodeFrom, if_neg hpad, hvalue]
  rfl

end Steps

theorem ofNat_eq {a : UInt8} {n : Nat} (h : n = a.toNat) : UInt8.ofNat n = a := by
  rw [h, UInt8.ofNat_toNat]

theorem decodeFrom_b64encode (data : List UInt8) : decodeFrom 0 0 0 (b64encode data) = some data := by
  induction data using b64encode.induct with
  | case1 => rfl
  | case2 a =>
      have ha := a.toNat_lt
      rw [b64encode, decodeFrom_zero (by omega), decodeFrom_one (by omega),
        ofNat_eq (a := a) (by omega)]
      rfl
  | case3 a b =>
      have ha := a.toNat_lt
      have hb := b.toNat_lt
      rw [b64encode, decodeFrom_zero (by omega), decodeFrom_one (by omega),
        decodeFrom_two (by omega), ofNat_eq (a := a) (by omega), ofNat_eq (a := b) (by omega)]
      rfl
  | case4 a b c rest ih =>
      have ha := a.toNat_lt
      have hb := b.toNat_lt
      have hc := c.toNat_lt
      rw [b64encode, decodeFrom_zero (by omega), decodeFrom_one (by omega),
        decodeFrom_two (by omega), decodeFrom_three (by omega), ih, ofNat_eq (a := a) (by omega),
        ofNat_eq (a := b) (by omega), ofNat_eq (a := c) (by omega)]
      rfl

theorem ascii_b64encode (data : List UInt8) :
    (b64encode data).all (fun c => c.toNat < 128) = true := by
  have hletter : ∀ n, n < 64 → decide ((letter n).toNat < 128) = true :=
    fun n hn => decide_eq_true (value_letter hn).2.2
  induction data using b64encode.induct with
  | case1 => rfl
  | case2 a =>
      have ha := a.toNat_lt
      simp only [b64encode, List.all_cons, List.all_nil, hletter (a.toNat / 4) (by omega),
        hletter (a.toNat % 4 * 16) (by omega)]
      rfl
  | case3 a b =>
      have ha := a.toNat_lt
      have hb := b.toNat_lt
      simp only [b64encode, List.all_cons, List.all_nil, hletter (a.toNat / 4) (by omega),
        hletter (a.toNat % 4 * 16 + b.toNat / 16) (by omega), hletter (b.toNat % 16 * 4) (by omega)]
      rfl
  | case4 a b c rest ih =>
      have ha := a.toNat_lt
      have hb := b.toNat_lt
      have hc := c.toNat_lt
      simp only [b64encode, List.all_cons, ih, hletter (a.toNat / 4) (by omega),
        hletter (a.toNat % 4 * 16 + b.toNat / 16) (by omega),
        hletter (b.toNat % 16 * 4 + c.toNat / 64) (by omega), hletter (c.toNat % 64) (by omega)]
      rfl

/-- **The round trip.** -/
theorem b64decode_b64encode (data : List UInt8) : b64decode (b64encode data) = some data := by
  rw [b64decode, if_pos (ascii_b64encode data), decodeFrom_b64encode]

example : b64encode [77, 97, 110, 33] = "TWFuIQ==".toList := by decide

end Base64
