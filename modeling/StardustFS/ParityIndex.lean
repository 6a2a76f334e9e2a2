import StardustFS.JsonText
import StardustFS.ParityFaults

/-! The text of `index.json`: an object with one entry for each chunk, its owner and its size. What
`_save_index` writes `_load_index` reads back, as long as every chunk of the index has a file. -/

namespace StardustFS

open FsEncoding JsonText

namespace ParityStore

def indexEntry (x : ChunkId × ChunkMeta) : Bytes :=
  quote x.1 ++ (ascii ": \x7b\"owner\": " ++ (quote (codePoints x.2.owner) ++
    (ascii ", \"size\": " ++ (number x.2.size ++ ascii "\x7d"))))

/-- The entries one after the other, and the end of the object. -/
def indexEntries : List (ChunkId × ChunkMeta) → Bytes
  | [] => ascii "\x7d"
  | [x] => indexEntry x ++ ascii "\x7d"
  | x :: y :: xs => indexEntry x ++ (ascii ", " ++ indexEntries (y :: xs))

/-- `json.dump` of the index. -/
def dumpIndex (index : Table ChunkId ChunkMeta) : Bytes := ascii "\x7b" ++ indexEntries index.rows

/-- The characters of a string without surrogates. -/
def ofCodePoints (s : List CodePoint) : String := String.ofList (s.map fun c => Char.ofNat c.val)

def readEntry (text : Bytes) : Option ((ChunkId × ChunkMeta) × Bytes) := do
  let (chunkId, text) ← readString text
  let text ← expect (ascii ": \x7b\"owner\": ") text
  let (owner, text) ← readString text
  let text ← expect (ascii ", \"size\": ") text
  let (size, text) ← readNumber text
  let text ← expect (ascii "\x7d") text
  pure ((chunkId, ⟨ofCodePoints owner, size⟩), text)

/-- The entries of a text that is not longer than this. -/
def readEntries : Nat → Bytes → Option (List (ChunkId × ChunkMeta))
  | 0, _ => none
  | n + 1, text =>
      if text = ascii "\x7d" then some []
      else do
        let (x, text) ← readEntry text
        if text = ascii "\x7d" then pure [x]
        else do
          let text ← expect (ascii ", ") text
          let xs ← readEntries n text
          pure (x :: xs)

/-- `json.load` of the text of an index; of several entries with one key the last one counts. -/
def readIndex (text : Bytes) : Option (Table ChunkId ChunkMeta) := do
  let entries ← expect (ascii "\x7b") text
  let xs ← readEntries text.length entries
  pure (xs.foldl (fun index x => index.put x.1 x.2) Table.empty)

theorem ofCodePoints_codePoints (s : String) : ofCodePoints (codePoints s) = s := by
  have hchars : ((codePoints s).map fun c => Char.ofNat c.val) = s.toList := by
    rw [codePoints, List.map_map]
    refine (List.map_congr_left fun c _ => ?_).trans (List.map_id _)
    exact Char.ofNat_toNat c
  rw [ofCodePoints, hchars, String.ofList_toList]

theorem not_highSurrogate_codePoints (s : String) : ∀ c ∈ codePoints s, ¬ HighSurrogate c := by
  intro c hc hhigh
  obtain ⟨d, -, rfl⟩ := List.mem_map.mp hc
  have hvalid := d.valid
  simp only [UInt32.isValidChar, Nat.isValidChar] at hvalid
  change 0xD800 ≤ d.val.toNat ∧ d.val.toNat < 0xDC00 at hhigh
  omega

/-- A name of the file system has no high surrogate. -/
theorem not_highSurrogate_of_fsencode {s : List CodePoint} {bytes : FileNameBytes}
    (h : fsencode s = some bytes) : ∀ c ∈ s, ¬ HighSurrogate c := by
  induction s generalizing bytes with
  | nil => simp
  | cons c s ih =>
      rw [fsencode, Option.bind_eq_some_iff] at h
      obtain ⟨first, hfirst, h⟩ := h
      obtain ⟨rest, hrest, -⟩ := Option.map_eq_some_iff.mp h
      intro d hd hhigh
      rcases List.mem_cons.mp hd with rfl | hd
      · obtain ⟨hlow, hhigh⟩ := hhigh
        unfold encodeChar at hfirst
        split_ifs at hfirst
        all_goals omega
      · exact ih hrest d hd hhigh

theorem not_highSurrogate_of_chunkPath {c : ChunkId} (h : chunkPath c ≠ none) :
    ∀ d ∈ c, ¬ HighSurrogate d := by
  obtain ⟨path, hpath⟩ := Option.ne_none_iff_exists'.mp h
  rw [chunkPath_eq, Option.map_eq_some_iff] at hpath
  obtain ⟨name, hname, -⟩ := hpath
  exact not_highSurrogate_of_fsencode (Option.filter_eq_some_iff.mp hname).1

/-- An entry is read back. -/
theorem readEntry_indexEntry {x : ChunkId × ChunkMeta} (h : chunkPath x.1 ≠ none) (rest : Bytes) :
    readEntry (indexEntry x ++ rest) = some (x, rest) := by
  have hend : ∀ b, (ascii "\x7d" ++ rest).head? = some b → isDigitByte b = false := by
    intro b hb
    have hbrace : b = 125 := (Option.some_inj.mp hb).symm
    rw [hbrace]
    decide
  unfold readEntry indexEntry
  simp only [List.append_assoc]
  rw [readString_quote (not_highSurrogate_of_chunkPath h)]
  simp only [Option.bind_eq_bind, Option.bind_some, expect_append]
  rw [readString_quote (not_highSurrogate_codePoints _)]
  simp only [Option.bind_some, expect_append]
  rw [readNumber_number _ hend]
  simp only [Option.bind_some, expect_append, ofCodePoints_codePoints]
  rfl

theorem indexEntry_append_ne (x : ChunkId × ChunkMeta) (rest : Bytes) :
    indexEntry x ++ rest ≠ ascii "\x7d" := by
  intro h
  have hfirst : (34 : UInt8) = 125 := (List.cons.inj h).1
  revert hfirst
  decide

theorem length_lt_indexEntries (xs : List (ChunkId × ChunkMeta)) :
    xs.length < (indexEntries xs).length := by
  induction xs using indexEntries.induct with
  | case1 => decide
  | case2 x =>
      rw [indexEntries, indexEntry, quote]
      simp
  | case3 x y xs ih =>
      rw [indexEntries]
      have hcomma : (ascii ", ").length = 2 := rfl
      simp only [List.length_append, List.length_cons] at ih ⊢
      omega

theorem readEntries_indexEntries {xs : List (ChunkId × ChunkMeta)} {n : Nat} (hn : xs.length < n)
    (h : ∀ x ∈ xs, chunkPath x.1 ≠ none) : readEntries n (indexEntries xs) = some xs := by
  induction xs using indexEntries.induct generalizing n with
  | case1 =>
      obtain ⟨m, rfl⟩ := Nat.exists_eq_succ_of_ne_zero (Nat.ne_of_gt hn)
      rfl
  | case2 x =>
      obtain ⟨m, rfl⟩ := Nat.exists_eq_succ_of_ne_zero (Nat.ne_zero_of_lt hn)
      rw [readEntries, indexEntries, if_neg (indexEntry_append_ne _ _),
        readEntry_indexEntry (h x List.mem_cons_self)]
      rfl
  | case3 x y xs ih =>
      obtain ⟨m, rfl⟩ := Nat.exists_eq_succ_of_ne_zero (Nat.ne_zero_of_lt hn)
      have hlater := ih (n := m) (by simp only [List.length_cons] at hn ⊢; omega)
        fun z hz => h z (List.mem_cons_of_mem x hz)
      have hcomma : ascii ", " ++ indexEntries (y :: xs) ≠ ascii "\x7d" := by
        intro hc
        have hfirst : (44 : UInt8) = 125 := (List.cons.inj hc).1
        revert hfirst
        decide
      rw [readEntries, indexEntries, if_neg (indexEntry_append_ne _ _),
        readEntry_indexEntry (h x List.mem_cons_self)]
      simp only [Option.bind_eq_bind, Option.bind_some, if_neg hcomma, expect_append, hlater]
      rfl

/-- **The index is read back as it was saved.** -/
theorem readIndex_dumpIndex {index : Table ChunkId ChunkMeta}
    (h : ∀ c ∈ index.keys, chunkPath c ≠ none) : readIndex (dumpIndex index) = some index := by
  have hlength : index.rows.length < (dumpIndex index).length := by
    rw [dumpIndex, List.length_append]
    exact Nat.lt_add_left _ (length_lt_indexEntries index.rows)
  have hrows : ∀ x ∈ index.rows, chunkPath x.1 ≠ none := fun x hx =>
    h x.1 (List.mem_map_of_mem hx)
  rw [readIndex, dumpIndex, expect_append]
  simp only [Option.bind_eq_bind, Option.bind_some]
  rw [← dumpIndex, readEntries_indexEntries hlength hrows]
  exact congrArg some (Table.foldl_put_rows index)

end ParityStore

end StardustFS
