import StardustFS.JsonRoundTrip

/-! Files opened as UTF-8 text, read strictly and with universal newlines: a text is read back as it was
written where it has no surrogate and no carriage return, and the text of a JSON value is such a text. -/

namespace StardustFS

open FsEncoding

namespace TextFile

def isTail (b : UInt8) : Bool := decide (0x80 ≤ b.toNat) && decide (b.toNat < 0xC0)

/-- The text of some bytes, `none` where they are no UTF-8: no byte too many, no surrogate. -/
def decode : Bytes → Option ConfigText
  | [] => some []
  | a :: rest =>
      if a.toNat < 0x80 then (decode rest).map (Fin.ofNat _ a.toNat :: ·)
      else match rest with
      | [] => none
      | b :: rest =>
          if a.toNat < 0xE0 then
            if 0xC2 ≤ a.toNat ∧ isTail b then
              (decode rest).map (Fin.ofNat _ ((a.toNat - 0xC0) * 64 + (b.toNat - 0x80)) :: ·)
            else none
          else match rest with
          | [] => none
          | c :: rest =>
              if a.toNat < 0xF0 then
                let n := (a.toNat - 0xE0) * 4096 + (b.toNat - 0x80) * 64 + (c.toNat - 0x80)
                if isTail b ∧ isTail c ∧ 0x800 ≤ n ∧ ¬(0xD800 ≤ n ∧ n < 0xE000) then
                  (decode rest).map (Fin.ofNat _ n :: ·)
                else none
              else match rest with
              | [] => none
              | d :: rest =>
                  let n := (a.toNat - 0xF0) * 262144 + (b.toNat - 0x80) * 4096 + (c.toNat - 0x80) * 64 +
                    (d.toNat - 0x80)
                  if isTail b ∧ isTail c ∧ isTail d ∧ 0x10000 ≤ n ∧ n < 0x110000 then
                    (decode rest).map (Fin.ofNat _ n :: ·)
                  else none

theorem toNat_ofNat_lt {n : Nat} (h : n < 256) : (UInt8.ofNat n).toNat = n := by
  rw [UInt8.toNat_ofNat']
  omega

theorem isTail_continuation (n : Nat) : isTail (continuation n) = true := by
  rw [isTail, continuation_toNat, Bool.and_eq_true, decide_eq_true_iff, decide_eq_true_iff]
  omega

/-- The bytes of one code point are read as this code point. -/
theorem decode_encodeChar {c : CodePoint} {bytes : Bytes} (h : encodeChar c = some bytes)
    (hc : ¬(0xD800 ≤ c.val ∧ c.val < 0xE000)) (rest : Bytes) :
    decode (bytes ++ rest) = (decode rest).map (c :: ·) := by
  have hlt := c.isLt
  have hself : ∀ n, n = c.val → Fin.ofNat 0x110000 n = c := by
    rintro n rfl
    exact Fin.ofNat_val_eq_self c
  unfold encodeChar at h
  split_ifs at h with h₁ h₂ h₃ h₄
  · obtain rfl := Option.some.inj h
    have ha := toNat_ofNat_lt (n := c.val) (by omega)
    rw [List.singleton_append, decode.eq_def]
    dsimp only
    rw [ha, if_pos h₁, hself _ rfl]
  · obtain rfl := Option.some.inj h
    have ha := toNat_ofNat_lt (n := 0xC0 + c.val / 64) (by omega)
    have hb := continuation_toNat c.val
    rw [List.cons_append, List.singleton_append, decode.eq_def]
    dsimp only
    rw [ha, if_neg (by omega), if_pos (by omega), if_pos ⟨by omega, isTail_continuation _⟩, hb,
      hself _ (by omega)]
  · exact absurd ⟨by omega, by omega⟩ hc
  · obtain rfl := Option.some.inj h
    have ha := toNat_ofNat_lt (n := 0xE0 + c.val / 4096) (by omega)
    have hb := continuation_toNat (c.val / 64)
    have hd := continuation_toNat c.val
    rw [List.cons_append, List.cons_append, List.singleton_append, decode.eq_def]
    dsimp only
    rw [ha, hb, hd, if_neg (by omega), if_neg (by omega), if_pos (by omega),
      if_pos ⟨isTail_continuation _, isTail_continuation _, by omega, by omega⟩, hself _ (by omega)]
  · obtain rfl := Option.some.inj h
    have ha := toNat_ofNat_lt (n := 0xF0 + c.val / 262144) (by omega)
    have hb := continuation_toNat (c.val / 4096)
    have hd := continuation_toNat (c.val / 64)
    have he := continuation_toNat c.val
    rw [List.cons_append, List.cons_append, List.cons_append, List.singleton_append, decode.eq_def]
    dsimp only
    rw [ha, hb, hd, he, if_neg (by omega), if_neg (by omega), if_neg (by omega),
      if_pos ⟨isTail_continuation _, isTail_continuation _, isTail_continuation _, by omega, by omega⟩,
      hself _ (by omega)]

/-- **A text that has been encoded is read back.** -/
theorem decode_encodeUtf8 {s : ConfigText} {bytes : Bytes} (h : JsonWriter.encodeUtf8 s = some bytes) :
    decode bytes = some s := by
  unfold JsonWriter.encodeUtf8 at h
  obtain ⟨parts, hparts, rfl⟩ := Option.map_eq_some_iff.mp h
  clear h
  induction s generalizing parts with
  | nil =>
      obtain rfl := Option.some.inj hparts
      rfl
  | cons c s ih =>
      rw [List.mapM_cons] at hparts
      obtain ⟨part, hpart, hparts⟩ := Option.bind_eq_some_iff.mp hparts
      obtain ⟨rest, hrest, hparts⟩ := Option.bind_eq_some_iff.mp hparts
      obtain rfl := Option.some.inj hparts
      split_ifs at hpart with hc
      rw [List.flatten_cons, decode_encodeChar hpart hc, ih _ hrest, Option.map_some]

/-! ### Newlines -/

/-- Universal newlines: a carriage return is a new line, together with a line feed after it. -/
def translateNewlines (afterReturn : Bool) : ConfigText → ConfigText
  | [] => []
  | c :: rest =>
      if c.val = 13 then 10 :: translateNewlines true rest
      else if afterReturn && c.val == 10 then translateNewlines false rest
      else c :: translateNewlines false rest

/-- What `read` returns of a file opened as text, `none` where the bytes are no UTF-8. -/
def readText (bytes : Bytes) : Option ConfigText := (decode bytes).map (translateNewlines false)

/-! ### Plain texts -/

/-- No surrogate. -/
def Scalar (c : CodePoint) : Prop := ¬(0xD800 ≤ c.val ∧ c.val < 0xE000)

/-- Neither a surrogate nor a carriage return. -/
def PlainChar (c : CodePoint) : Prop := Scalar c ∧ c.val ≠ 13

def Plain (s : ConfigText) : Prop := ∀ c ∈ s, PlainChar c

theorem plainChar_of_lt {c : CodePoint} (h : c.val < 0xD800) (hreturn : c.val ≠ 13) : PlainChar c :=
  ⟨fun hc => by omega, hreturn⟩

theorem plain_nil : Plain [] := fun _ hc => absurd hc List.not_mem_nil

theorem plain_append {s t : ConfigText} : Plain (s ++ t) ↔ Plain s ∧ Plain t := by
  unfold Plain
  exact List.forall_mem_append

theorem plain_ascii {s : ConfigText} (h : ∀ c ∈ s, 32 ≤ c.val ∧ c.val < 128) : Plain s := by
  intro c hc
  have hrange := h c hc
  exact plainChar_of_lt (by omega) (by omega)

theorem ascii_codePoints {s : String} (h : (s.toList.all fun c => 32 ≤ c.toNat && c.toNat < 128) = true) :
    ∀ c ∈ codePoints s, 32 ≤ c.val ∧ c.val < 128 := by
  intro c hc
  obtain ⟨d, hd, rfl⟩ := List.mem_map.mp hc
  have hrange := List.all_eq_true.mp h d hd
  rw [Bool.and_eq_true, decide_eq_true_iff, decide_eq_true_iff] at hrange
  exact hrange

theorem plain_literal {s : String} (h : (s.toList.all fun c => 32 ≤ c.toNat && c.toNat < 128) = true) :
    Plain (codePoints s) :=
  plain_ascii (ascii_codePoints h)

theorem translateNewlines_plain {s : ConfigText} (h : Plain s) : translateNewlines false s = s := by
  induction s with
  | nil => rfl
  | cons c s ih =>
      obtain ⟨hc, hs⟩ := List.forall_mem_cons.mp h
      rw [translateNewlines, if_neg hc.2, Bool.false_and, if_neg Bool.false_ne_true, ih hs]

theorem exists_encodeUtf8 {s : ConfigText} (h : Plain s) : ∃ bytes, JsonWriter.encodeUtf8 s = some bytes := by
  unfold JsonWriter.encodeUtf8
  suffices hparts : ∃ parts, (s.mapM fun c : CodePoint =>
      if 0xD800 ≤ c.val ∧ c.val < 0xE000 then none else encodeChar c) = some parts by
    obtain ⟨parts, hparts⟩ := hparts
    exact ⟨parts.flatten, by rw [hparts]; rfl⟩
  induction s with
  | nil => exact ⟨[], rfl⟩
  | cons c s ih =>
      obtain ⟨hc, hs⟩ := List.forall_mem_cons.mp h
      obtain ⟨rest, hrest⟩ := ih hs
      obtain ⟨part, hpart⟩ : ∃ part, encodeChar c = some part := by
        unfold encodeChar
        rw [if_neg hc.1]
        split_ifs
        all_goals exact ⟨_, rfl⟩
      refine ⟨part :: rest, ?_⟩
      rw [List.mapM_cons, if_neg hc.1, hpart, hrest]
      rfl

/-- **A plain text is read back.** -/
theorem readText_encodeUtf8 {s : ConfigText} (h : Plain s) :
    ∃ bytes, JsonWriter.encodeUtf8 s = some bytes ∧ readText bytes = some s := by
  obtain ⟨bytes, hbytes⟩ := exists_encodeUtf8 h
  refine ⟨bytes, hbytes, ?_⟩
  rw [readText, decode_encodeUtf8 hbytes, Option.map_some, translateNewlines_plain h]

/-! ### The text of a value -/

/-- No string of the value holds a surrogate. -/
inductive ScalarValue : ConfigValue → Prop
  | null : ScalarValue .null
  | bool (b : Bool) : ScalarValue (.bool b)
  | int (n : Int) : ScalarValue (.int n)
  | float (x : PyFloat) : ScalarValue (.float x)
  | str {s : ConfigText} (h : ∀ c ∈ s, Scalar c) : ScalarValue (.str s)
  | list {items : List ConfigValue} (h : ∀ x ∈ items, ScalarValue x) : ScalarValue (.list items)
  | dict {members : ConfigObject} (hkeys : ∀ m ∈ members, ∀ c ∈ m.1, Scalar c)
      (hvalues : ∀ m ∈ members, ScalarValue m.2) : ScalarValue (.dict members)

theorem hexDigit_range :
    ∀ n < 16, 32 ≤ (JsonText.hexDigit n).toNat ∧ (JsonText.hexDigit n).toNat < 128 := by
  decide

theorem plain_escape {c : CodePoint} (h : Scalar c) : Plain (JsonWriter.escape c) := by
  have hbyte : ∀ b : UInt8, 32 ≤ b.toNat → b.toNat < 128 → PlainChar (Fin.ofNat _ b.toNat) := by
    intro b hlow hhigh
    have hval : (Fin.ofNat 0x110000 b.toNat).val = b.toNat := by
      rw [Fin.val_ofNat, Nat.mod_eq_of_lt (by omega)]
    exact plainChar_of_lt (by omega) (by omega)
  have hslash : PlainChar 92 := plainChar_of_lt (by decide) (by decide)
  unfold JsonWriter.escape
  cases hshort : JsonText.shortEscape c.val with
  | some letter =>
      have hletter : 32 ≤ letter.toNat ∧ letter.toNat < 128 := by
        unfold JsonText.shortEscape at hshort
        split_ifs at hshort
        all_goals
          obtain rfl := Option.some.inj hshort
          decide
      exact List.forall_mem_cons.mpr ⟨hslash, List.forall_mem_singleton.mpr
        (hbyte letter hletter.1 hletter.2)⟩
  | none =>
      dsimp only
      split_ifs with hlow
      · have hhigh := hexDigit_range (c.val / 16) (by omega)
        have hrest := hexDigit_range (c.val % 16) (by omega)
        refine plain_append.mpr ⟨plain_literal rfl, ?_⟩
        exact List.forall_mem_cons.mpr ⟨hbyte _ hhigh.1 hhigh.2,
          List.forall_mem_singleton.mpr (hbyte _ hrest.1 hrest.2)⟩
      · exact List.forall_mem_singleton.mpr ⟨h, by omega⟩

theorem plain_quote {s : ConfigText} (h : ∀ c ∈ s, Scalar c) :
    Plain (JsonWriter.quote s) := by
  have hmark : Plain (codePoints "\"") := plain_literal rfl
  refine plain_append.mpr ⟨plain_append.mpr ⟨hmark, ?_⟩, hmark⟩
  intro c hc
  obtain ⟨d, hd, hc⟩ := List.mem_flatMap.mp hc
  exact plain_escape (h d hd) c hc

theorem plain_decimal (n : Nat) : Plain (codePoints (toString n)) := by
  refine plain_ascii fun c hc => ?_
  have hdigit := JsonWriter.isDigit_of_mem_decimal hc
  rw [JsonReader.isDigit, Bool.and_eq_true, decide_eq_true_iff, decide_eq_true_iff] at hdigit
  omega

theorem plain_int (n : Int) : Plain (codePoints (toString n)) := by
  rw [JsonWriter.codePoints_int]
  split_ifs
  · exact plain_decimal _
  · exact List.forall_mem_cons.mpr ⟨plainChar_of_lt (by decide) (by decide), plain_decimal _⟩

theorem plain_newline (level : Nat) : Plain (JsonWriter.newline level) := by
  refine List.forall_mem_cons.mpr ⟨plainChar_of_lt (by decide) (by decide), fun c hc => ?_⟩
  rw [List.eq_of_mem_replicate hc]
  exact plainChar_of_lt (by decide) (by decide)

variable {floatRepr : PyFloat → ConfigText}

theorem plain_separator {α : Type} (rest : List α) (level : Nat) :
    Plain (if rest.isEmpty then [] else codePoints "," ++ JsonWriter.newline level) := by
  split_ifs
  · exact plain_nil
  · exact plain_append.mpr ⟨plain_literal rfl, plain_newline level⟩

theorem plain_itemTexts {items : List ConfigValue} (level : Nat)
    (h : ∀ x ∈ items, Plain (JsonWriter.text floatRepr level x)) :
    Plain (JsonWriter.itemTexts floatRepr level items) := by
  induction items with
  | nil =>
      rw [JsonWriter.itemTexts_nil]
      exact plain_nil
  | cons x items ih =>
      obtain ⟨hx, hitems⟩ := List.forall_mem_cons.mp h
      rw [JsonWriter.itemTexts_cons]
      exact plain_append.mpr ⟨plain_append.mpr ⟨hx, plain_separator items level⟩, ih hitems⟩

theorem plain_memberTexts {members : ConfigObject} (level : Nat)
    (hkeys : ∀ m ∈ members, ∀ c ∈ m.1, Scalar c)
    (h : ∀ m ∈ members, Plain (JsonWriter.text floatRepr level m.2)) :
    Plain (JsonWriter.memberTexts floatRepr level members) := by
  induction members with
  | nil =>
      rw [JsonWriter.memberTexts_nil]
      exact plain_nil
  | cons m members ih =>
      obtain ⟨hkey, hkeys⟩ := List.forall_mem_cons.mp hkeys
      obtain ⟨hx, hmembers⟩ := List.forall_mem_cons.mp h
      rw [JsonWriter.memberTexts_cons]
      have hcolon : Plain (codePoints ": ") := plain_literal rfl
      simp only [plain_append]
      exact ⟨⟨⟨⟨plain_quote hkey, hcolon⟩, hx⟩, plain_separator members level⟩, ih hkeys hmembers⟩

/-- **The text of a value is plain**, where its strings have an encoding and floats are spelled in ASCII. -/
theorem plain_text (hascii : ∀ x, ∀ c ∈ floatRepr x, 32 ≤ c.val ∧ c.val < 128) {x : ConfigValue}
    (h : ScalarValue x) (level : Nat) : Plain (JsonWriter.text floatRepr level x) := by
  induction h generalizing level with
  | null =>
      rw [JsonWriter.text_null]
      exact plain_literal rfl
  | bool b =>
      rw [JsonWriter.text_bool]
      cases b
      · exact plain_literal rfl
      · exact plain_literal rfl
  | int n =>
      rw [JsonWriter.text_int]
      exact plain_int n
  | float x =>
      rw [JsonWriter.text_float]
      exact plain_ascii (hascii x)
  | str h =>
      rw [JsonWriter.text_str]
      exact plain_quote h
  | list _ ih =>
      rw [JsonWriter.text_list]
      split_ifs
      · exact plain_literal rfl
      · have hitems := plain_itemTexts (level + 1) fun x hx => ih x hx (level + 1)
        simp only [plain_append]
        exact ⟨⟨⟨⟨plain_literal rfl, plain_newline _⟩, hitems⟩, plain_newline _⟩,
          plain_literal rfl⟩
  | dict hkeys _ ih =>
      rw [JsonWriter.text_dict]
      split_ifs
      · exact plain_literal rfl
      · have hmembers := plain_memberTexts (level + 1) hkeys fun m hm => ih m hm (level + 1)
        simp only [plain_append]
        exact ⟨⟨⟨⟨plain_literal rfl, plain_newline _⟩, hmembers⟩, plain_newline _⟩,
          plain_literal rfl⟩

end TextFile

end StardustFS
