import Mathlib.Data.List.Basic
import Mathlib.Data.Option.Basic
import Mathlib.Tactic.SplitIfs

/-! File names as a POSIX system takes them: a string of code points, which may hold lone surrogates,
is encoded as UTF-8 with the `surrogateescape` handler, and a name with a null byte is refused. The
encoding is not injective: an escaped byte and a character may give the same bytes. -/

namespace FsEncoding

/-- A code point of a string, surrogates included. -/
abbrev CodePoint := Fin 0x110000

instance codePointCount_ne_zero : @NeZero Nat Zero.ofOfNat0 0x110000 := ⟨Nat.succ_ne_zero 0x10FFFF⟩

abbrev FileNameBytes := List UInt8

theorem char_toNat_lt (c : Char) : c.toNat < 0x110000 := by
  have hvalid := c.valid
  simp only [UInt32.isValidChar, Nat.isValidChar] at hvalid
  change c.val.toNat < _
  omega

/-- The code points of a literal. -/
def codePoints (s : String) : List CodePoint := s.toList.map fun c => ⟨c.toNat, char_toNat_lt c⟩

theorem codePoints_injective : Function.Injective codePoints := by
  intro s t h
  refine String.toList_injective (List.map_injective_iff.mpr (fun c d hcd => ?_) h)
  rw [Fin.mk.injEq] at hcd
  exact Char.toNat_inj.mp hcd

theorem codePoints_inj {s t : String} : codePoints s = codePoints t ↔ s = t :=
  codePoints_injective.eq_iff

/-- The last byte of a longer form, from the low six bits. -/
def continuation (n : Nat) : UInt8 := UInt8.ofNat (0x80 + n % 64)

/-- The bytes of one code point. A surrogate of the escaping range stands for one byte; the other
surrogates have no encoding. -/
def encodeChar (c : CodePoint) : Option FileNameBytes :=
  if c.val < 0x80 then some [UInt8.ofNat c.val]
  else if c.val < 0x800 then
    some [UInt8.ofNat (0xC0 + c.val / 64), continuation c.val]
  else if 0xDC80 ≤ c.val ∧ c.val < 0xDD00 then some [UInt8.ofNat (c.val - 0xDC00)]
  else if 0xD800 ≤ c.val ∧ c.val < 0xE000 then none
  else if c.val < 0x10000 then
    some [UInt8.ofNat (0xE0 + c.val / 4096), continuation (c.val / 64), continuation c.val]
  else
    some [UInt8.ofNat (0xF0 + c.val / 262144), continuation (c.val / 4096),
      continuation (c.val / 64), continuation c.val]

/-- `os.fsencode`. -/
def fsencode : List CodePoint → Option FileNameBytes
  | [] => some []
  | c :: text => (encodeChar c).bind fun bytes => (fsencode text).map (bytes ++ ·)

/-- The name `open` hands to the system. -/
def fileName (text : List CodePoint) : Option FileNameBytes :=
  (fsencode text).filter fun bytes => !bytes.contains 0

theorem fsencode_append (s t : List CodePoint) :
    fsencode (s ++ t) = (fsencode s).bind fun a => (fsencode t).map (a ++ ·) := by
  induction s with
  | nil =>
      rw [List.nil_append, fsencode, Option.bind_some]
      simp only [List.nil_append, Option.map_id']
  | cons c s ih =>
      rw [List.cons_append, fsencode, fsencode, ih]
      cases encodeChar c with
      | none => rfl
      | some bytes =>
          cases fsencode s with
          | none => rfl
          | some a =>
              cases fsencode t with
              | none => rfl
              | some b => simp only [Option.bind_some, Option.map_some, List.append_assoc]

/-- A string with an encoding that is followed by one with a plain encoding. -/
theorem fileName_append {s t : List CodePoint} {b : FileNameBytes} (ht : fileName t = some b) :
    fileName (s ++ t) = (fileName s).map (· ++ b) := by
  obtain ⟨hencode, hnull⟩ := Option.filter_eq_some_iff.mp ht
  rw [fileName, fileName, fsencode_append, hencode]
  cases fsencode s with
  | none => rfl
  | some a =>
      simp only [Option.bind_some, Option.map_some, Option.filter_some, List.contains_eq_mem,
        List.mem_append] at hnull ⊢
      split_ifs <;> simp_all

theorem continuation_toNat (n : Nat) : (continuation n).toNat = 0x80 + n % 64 := by
  rw [continuation, UInt8.toNat_ofNat']
  omega

/-- A byte below 128 is the whole encoding of the code point with that number. -/
theorem encodeChar_low {c : CodePoint} {bytes : FileNameBytes} (h : encodeChar c = some bytes)
    {b : UInt8} (hmem : b ∈ bytes) (hlow : b.toNat < 0x80) : c.val = b.toNat := by
  have hc := c.isLt
  unfold encodeChar at h
  split_ifs at h
  all_goals
    rw [Option.some_inj] at h
    subst h
    simp only [List.mem_cons, List.not_mem_nil, or_false] at hmem
  · rw [hmem, UInt8.toNat_ofNat']
    omega
  · rcases hmem with rfl | rfl
    · rw [UInt8.toNat_ofNat'] at hlow
      omega
    · rw [continuation_toNat] at hlow
      omega
  · rw [hmem, UInt8.toNat_ofNat'] at hlow
    omega
  · rcases hmem with rfl | rfl | rfl
    · rw [UInt8.toNat_ofNat'] at hlow
      omega
    · rw [continuation_toNat] at hlow
      omega
    · rw [continuation_toNat] at hlow
      omega
  · rcases hmem with rfl | rfl | rfl | rfl
    · rw [UInt8.toNat_ofNat'] at hlow
      omega
    · rw [continuation_toNat] at hlow
      omega
    · rw [continuation_toNat] at hlow
      omega
    · rw [continuation_toNat] at hlow
      omega

/-- **No byte below 128 comes from anywhere but its own character**, a separator in particular. -/
theorem mem_fsencode_low {text : List CodePoint} {bytes : FileNameBytes}
    (h : fsencode text = some bytes) {b : UInt8} (hmem : b ∈ bytes) (hlow : b.toNat < 0x80) :
    ∃ c ∈ text, c.val = b.toNat := by
  induction text generalizing bytes with
  | nil =>
      rw [fsencode, Option.some_inj] at h
      rw [← h] at hmem
      cases hmem
  | cons c text ih =>
      rw [fsencode, Option.bind_eq_some_iff] at h
      obtain ⟨first, hfirst, h⟩ := h
      obtain ⟨rest, hrest, rfl⟩ := Option.map_eq_some_iff.mp h
      rcases List.mem_append.mp hmem with hin | hin
      · exact ⟨c, List.mem_cons_self, encodeChar_low hfirst hin hlow⟩
      · obtain ⟨d, hd, hval⟩ := ih hrest hin
        exact ⟨d, List.mem_cons_of_mem c hd, hval⟩

/-- Two strings, one file: a character and its two escaped bytes. -/
example : fileName (codePoints "é") = fileName [0xDCC3, 0xDCA9] := by decide

end FsEncoding
