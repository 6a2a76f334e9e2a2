import StardustFS.ConfigLoader
import StardustFS.ConflictResolver

/-! When a conflict copy gets a name that is free and in place. The search asks for live rows only, while
a row is renamed against all rows; and the name of the device stands in the file name as it was
configured. -/

namespace StardustFS

/-- A moment in UTC. -/
structure UtcTime where
  year : Nat
  month : Nat
  day : Nat
  hour : Nat
  minute : Nat
  second : Nat
  deriving DecidableEq, Repr

namespace UtcTime

/-- A number with zeros in front up to the width. -/
def padded (width n : Nat) : Text :=
  List.replicate (width - (Text.decimal n).length) '0' ++ Text.decimal n

/-- `strftime("%Y-%m-%d %H-%M-%S")`. -/
def strftime (t : UtcTime) : Text :=
  padded 4 t.year ++ '-' :: padded 2 t.month ++ '-' :: padded 2 t.day ++ ' ' :: padded 2 t.hour ++
    '-' :: padded 2 t.minute ++ '-' :: padded 2 t.second

theorem not_mem_padded {c : Char} (hc : c.isDigit = false) (width n : Nat) : c ∉ padded width n := by
  unfold padded
  rw [List.mem_append, not_or]
  refine ⟨fun h => ?_, Text.not_mem_decimal hc n⟩
  rw [List.eq_of_mem_replicate h] at hc
  cases hc

theorem not_mem_strftime {c : Char} (hc : c.isDigit = false) (hdash : c ≠ '-') (hblank : c ≠ ' ')
    (t : UtcTime) : c ∉ t.strftime := by
  simp only [strftime, List.mem_append, List.mem_cons, not_mem_padded hc, hdash, hblank, or_self,
    not_false_eq_true]

end UtcTime

namespace ConflictResolver

open FsEncoding (codePoints)

/-! ### The parts of a candidate -/

/-- The file name of a candidate. -/
def candidateName (deviceName timestamp virtualPath : Text) (seq : Nat) : Text :=
  stem virtualPath ++ mark deviceName timestamp seq ++ extension virtualPath

section Names

variable {deviceName timestamp virtualPath : Text} {seq : Nat}

theorem not_mem_stem (virtualPath : Text) : '/' ∉ stem virtualPath := by
  intro h
  apply Text.not_mem_afterLast '/' virtualPath
  rw [← Text.basename, ← stem_append_extension virtualPath]
  exact List.mem_append_left _ h

theorem not_mem_extension (virtualPath : Text) : '/' ∉ extension virtualPath := by
  intro h
  apply Text.not_mem_afterLast '/' virtualPath
  rw [← Text.basename, ← stem_append_extension virtualPath]
  exact List.mem_append_right _ h

/-- Other signs than those of the mark itself come from the name of the device. -/
theorem mem_mark_iff {c : Char} (hblank : c ≠ ' ') (hopen : c ≠ '(') (hclose : c ≠ ')')
    (hword : c ∉ "(conflict - ".toList) (hdash : c ∉ " - ".toList) (hdigit : c.isDigit = false)
    (htime : c ∉ timestamp) : c ∈ mark deviceName timestamp seq ↔ c ∈ deviceName := by
  have hdecimal := Text.not_mem_decimal hdigit seq
  unfold mark
  generalize "(conflict - ".toList = word at hword ⊢
  generalize " - ".toList = dash at hdash ⊢
  split_ifs
  · simp [hblank, hclose, hword, hdash, htime]
  · simp [hblank, hclose, hword, hdash, htime, hopen, hdecimal]

theorem slash_mem_candidateName_iff (htime : '/' ∉ timestamp) :
    '/' ∈ candidateName deviceName timestamp virtualPath seq ↔ '/' ∈ deviceName := by
  rw [candidateName, List.mem_append, List.mem_append, mem_mark_iff (by decide) (by decide)
    (by decide) (by decide) (by decide) (by decide) htime]
  have hstem := not_mem_stem virtualPath
  have hext := not_mem_extension virtualPath
  tauto

theorem candidate_eq (deviceName timestamp virtualPath : Text) (seq : Nat) :
    candidate deviceName timestamp virtualPath seq =
      if Text.dirname virtualPath = [] then candidateName deviceName timestamp virtualPath seq
      else Text.joinPath (Text.dirname virtualPath)
        (candidateName deviceName timestamp virtualPath seq) := rfl

/-- With a device name without slashes the candidate is a file of the same directory. -/
theorem candidate_in_directory (virtualPath : Text) (seq : Nat) (htime : '/' ∉ timestamp)
    (hslash : '/' ∉ deviceName) :
    Text.dirname (candidate deviceName timestamp virtualPath seq) = Text.dirname virtualPath ∧
      Text.basename (candidate deviceName timestamp virtualPath seq) =
        candidateName deviceName timestamp virtualPath seq := by
  have hname : '/' ∉ candidateName deviceName timestamp virtualPath seq :=
    fun h => hslash ((slash_mem_candidateName_iff htime).mp h)
  rw [candidate_eq]
  split_ifs with hdir
  · exact ⟨by rw [hdir, Text.dirname_of_not_mem hname], Text.afterLast_of_not_mem hname⟩
  · exact Text.dirname_joinPath virtualPath hdir hname

/-- With a slash in the device name the candidate is in a directory of its own. -/
theorem candidate_elsewhere (hslash : '/' ∈ deviceName) :
    Text.dirname (candidate deviceName timestamp virtualPath seq) ≠ Text.dirname virtualPath := by
  intro h
  obtain ⟨before, after, hdevice, -⟩ := List.eq_append_cons_of_mem hslash
  -- the candidate up to the bracket of the mark, and the slash behind
  obtain ⟨head, tail, hcandidate, hlonger⟩ : ∃ head tail,
      candidate deviceName timestamp virtualPath seq =
        head ++ '(' :: ("conflict - ".toList ++ before ++ '/' :: tail) ∧
      (Text.dirname virtualPath).length ≤ head.length := by
    obtain ⟨tail, hname⟩ : ∃ tail, candidateName deviceName timestamp virtualPath seq =
        (stem virtualPath ++ [' ']) ++ '(' :: ("conflict - ".toList ++ before ++ '/' :: tail) := by
      have hword : "(conflict - ".toList = '(' :: "conflict - ".toList := rfl
      rw [candidateName, mark, hdevice, hword]
      refine ⟨after ++ (" - ".toList ++ (timestamp ++ ')' ::
        ((if seq ≤ 1 then [] else [' ', '('] ++ Text.decimal seq ++ [')']) ++
          extension virtualPath))), ?_⟩
      simp only [List.append_assoc, List.cons_append, List.nil_append]
    have hhead := candidate_name_head deviceName timestamp virtualPath seq
    rw [← candidateName] at hhead
    rw [candidate_eq, Text.joinPath, if_neg hhead, hname]
    split_ifs with hdir hend
    · exact ⟨_, tail, rfl, by rw [hdir]; exact Nat.zero_le _⟩
    · exact ⟨Text.dirname virtualPath ++ (stem virtualPath ++ [' ']), tail,
        (List.append_assoc ..).symm, by rw [List.length_append]; omega⟩
    · exact ⟨Text.dirname virtualPath ++ '/' :: (stem virtualPath ++ [' ']), tail,
        by simp only [List.append_assoc, List.cons_append], by rw [List.length_append]; omega⟩
  have hprefix := Text.prefix_dirname (c := '(') (by decide) head ("conflict - ".toList ++ before) tail
  rw [← hcandidate, h] at hprefix
  have hlength := hprefix.length_le
  rw [List.length_append, List.length_singleton] at hlength
  omega

/-! ### The extension -/

/-- The candidate of a path with an extension has that extension. -/
theorem extension_of_extension (hext : extension virtualPath ≠ []) {q : Text}
    (hbase : Text.basename q = candidateName deviceName timestamp virtualPath seq) :
    extension q = extension virtualPath := by
  obtain ⟨e, he, hdot⟩ : ∃ e, extension virtualPath = '.' :: e ∧ '.' ∉ e := by
    unfold extension at hext ⊢
    dsimp only at hext ⊢
    split_ifs at hext ⊢
    · exact absurd rfl hext
    · exact ⟨_, rfl, Text.not_mem_afterLast '.' _⟩
  rw [candidateName, he] at hbase
  have hlong : 1 < (stem virtualPath ++ mark deviceName timestamp seq ++ ['.']).length := by
    rw [mark]
    simp only [List.length_append, List.length_cons]
    omega
  rw [extension, hbase, Text.uptoLast_append_cons _ hdot, Text.afterLast_append_cons _ hdot, he]
  exact if_neg (by omega)

/-- The candidate of a path without an extension gets one from a dot in the name of the device. -/
theorem extension_of_no_extension (htime : '.' ∉ timestamp) (hext : extension virtualPath = [])
    {q : Text} (hbase : Text.basename q = candidateName deviceName timestamp virtualPath seq) :
    extension q = [] ↔ '.' ∉ deviceName := by
  have hmark : '.' ∈ mark deviceName timestamp seq ↔ '.' ∈ deviceName :=
    mem_mark_iff (by decide) (by decide) (by decide) (by decide) (by decide) (by decide) htime
  have hstem : stem virtualPath = Text.basename virtualPath := by
    have happ := stem_append_extension virtualPath
    rwa [hext, List.append_nil] at happ
  have hshort : (Text.uptoLast '.' (Text.basename virtualPath)).length ≤ 1 := by
    by_contra hlong
    unfold extension at hext
    dsimp only at hext
    rw [if_neg hlong] at hext
    cases hext
  rw [candidateName, hext, List.append_nil, hstem] at hbase
  rw [extension, hbase, ← not_congr hmark]
  constructor
  · intro h hdot
    obtain ⟨a, b, hab, -⟩ := List.eq_append_cons_of_mem hdot
    have hprefix := Text.prefix_uptoLast '.' (Text.basename virtualPath ++ a) b
    rw [List.append_assoc (Text.basename virtualPath) a ('.' :: b), ← hab] at hprefix
    have hlength := hprefix.length_le
    have ha : a ≠ [] := by
      rintro rfl
      rw [mark, List.nil_append] at hab
      cases (List.cons.inj hab).1
    have hpos := List.length_pos_of_ne_nil ha
    rw [List.length_append, List.length_append, List.length_singleton] at hlength
    rw [if_neg (by omega)] at h
    cases h
  · intro hdot
    rw [Text.uptoLast_append_of_not_mem _ hdot]
    exact if_pos hshort

end Names

/-! ### The statement -/

/-- The search ends however many tries it is given from some number on; the path has the smallest number
whose candidate no row holds, it is in the directory of the original and has its extension; and the
original can be renamed to it. -/
structure FreeInPlace (s : MetadataStore) (deviceName timestamp virtualPath conflictPath : Text) :
    Prop where
  ends : ∃ seq, ∀ fuel, s.files.rows.length < fuel →
    searchSeq s deviceName timestamp virtualPath fuel 1 = seq
  number : ∃ seq, 1 ≤ seq ∧ conflictPath = candidate deviceName timestamp virtualPath seq ∧
    s.lookupAny conflictPath = none ∧ ∀ n, 1 ≤ n → n < seq →
      s.lookupAny (candidate deviceName timestamp virtualPath n) ≠ none
  directory : Text.dirname conflictPath = Text.dirname virtualPath
  extension : extension conflictPath = extension virtualPath
  renames : s.renamePath virtualPath conflictPath ≠ none

/-- No tombstone is at the first candidate that no live row holds; the name of the device has no slash,
and no dot where the path has no extension. -/
structure NamesFree (s : MetadataStore) (deviceName timestamp virtualPath : Text) : Prop where
  tombstones : ∀ seq, 1 ≤ seq →
    (∀ n, 1 ≤ n → n < seq → s.lookup (candidate deviceName timestamp virtualPath n) ≠ none) →
    s.lookup (candidate deviceName timestamp virtualPath seq) = none →
    s.lookupAny (candidate deviceName timestamp virtualPath seq) = none
  slash : '/' ∉ deviceName
  dot : ConflictResolver.extension virtualPath = [] → '.' ∉ deviceName

section Statement

variable {s : MetadataStore} {deviceName timestamp virtualPath : Text}

/-- The number the search ends at is the only one with live rows at all candidates before and none at its
own. -/
theorem searchSeq_eq_iff {fuel seq : Nat} (hfuel : s.files.rows.length < fuel) :
    searchSeq s deviceName timestamp virtualPath fuel 1 = seq ↔
      1 ≤ seq ∧ s.lookup (candidate deviceName timestamp virtualPath seq) = none ∧
        ∀ n, 1 ≤ n → n < seq → s.lookup (candidate deviceName timestamp virtualPath n) ≠ none := by
  have hone := le_searchSeq s deviceName timestamp virtualPath fuel 1
  have hfree := lookup_searchSeq s deviceName timestamp virtualPath hfuel
  constructor
  · rintro rfl
    exact ⟨hone, hfree, fun n hn => lookup_of_lt_searchSeq s deviceName timestamp virtualPath fuel 1 hn⟩
  · rintro ⟨hseq, hnone, hbefore⟩
    rcases Nat.lt_trichotomy (searchSeq s deviceName timestamp virtualPath fuel 1) seq with
      hlt | heq | hlt
    · exact absurd hfree (hbefore _ hone hlt)
    · exact heq
    · exact absurd hnone (lookup_of_lt_searchSeq s deviceName timestamp virtualPath fuel 1 hseq hlt)

theorem lookup_ne_none_lookupAny {q : Text} (h : s.lookup q ≠ none) : s.lookupAny q ≠ none := by
  intro hnone
  apply h
  rw [MetadataStore.lookup_eq_none_iff]
  intro r hr
  rw [hnone] at hr
  cases hr

theorem freeInPlace_of_namesFree (htime : '/' ∉ timestamp ∧ '.' ∉ timestamp)
    (h : NamesFree s deviceName timestamp virtualPath) :
    FreeInPlace s deviceName timestamp virtualPath
      (generateConflictName s deviceName timestamp virtualPath) := by
  obtain ⟨seq, hseq⟩ : ∃ seq, searchSeq s deviceName timestamp virtualPath
      (s.files.rows.length + 1) 1 = seq := ⟨_, rfl⟩
  obtain ⟨hone, hlive, hbefore⟩ := (searchSeq_eq_iff (Nat.lt_succ_self _)).mp hseq
  have hname : generateConflictName s deviceName timestamp virtualPath =
      candidate deviceName timestamp virtualPath seq := by
    rw [generateConflictName, hseq]
  have hfree := h.tombstones seq hone hbefore hlive
  obtain ⟨hdir, hbase⟩ := candidate_in_directory virtualPath seq htime.1 h.slash
  rw [hname]
  refine ⟨⟨seq, fun fuel hfuel => (searchSeq_eq_iff hfuel).mpr ⟨hone, hlive, hbefore⟩⟩,
    ⟨seq, hone, rfl, hfree, fun n hn hlt => lookup_ne_none_lookupAny (hbefore n hn hlt)⟩, hdir, ?_,
    fun hnone => ?_⟩
  · by_cases hext : extension virtualPath = []
    · rw [hext]
      exact (extension_of_no_extension htime.2 hext hbase).mpr (h.dot hext)
    · exact extension_of_extension hext hbase
  · obtain ⟨-, ⟨r, hr⟩, -⟩ := MetadataStore.renamePath_eq_none_iff.mp hnone
    exact absurd (hr.symm.trans hfree) (Option.some_ne_none r)

theorem namesFree_of_freeInPlace (htime : '/' ∉ timestamp ∧ '.' ∉ timestamp)
    (h : FreeInPlace s deviceName timestamp virtualPath
      (generateConflictName s deviceName timestamp virtualPath)) :
    NamesFree s deviceName timestamp virtualPath := by
  have hslash : '/' ∉ deviceName := fun hmem => candidate_elsewhere hmem h.directory
  refine ⟨fun seq hone hbefore hlive => ?_, hslash, fun hext => ?_⟩
  · obtain ⟨-, -, -, hfree, -⟩ := h.number
    have hseq := (searchSeq_eq_iff (Nat.lt_succ_self s.files.rows.length)).mpr ⟨hone, hlive, hbefore⟩
    rw [generateConflictName, hseq] at hfree
    exact hfree
  · have hbase := (candidate_in_directory virtualPath
      (searchSeq s deviceName timestamp virtualPath (s.files.rows.length + 1) 1) htime.1 hslash).2
    exact (extension_of_no_extension htime.2 hext hbase).mp (h.extension.trans hext)

end Statement

/-- **The name of a conflict copy** is free and in place where no tombstone is at the name and the name of
the device fits into a file name, and nowhere else. -/
theorem generateConflictName_freeInPlace_iff (s : MetadataStore) (deviceName virtualPath : Text)
    (now : UtcTime) :
    FreeInPlace s deviceName now.strftime virtualPath
        (generateConflictName s deviceName now.strftime virtualPath) ↔
      NamesFree s deviceName now.strftime virtualPath := by
  have htime : '/' ∉ now.strftime ∧ '.' ∉ now.strftime :=
    ⟨UtcTime.not_mem_strftime (by decide) (by decide) (by decide) now,
      UtcTime.not_mem_strftime (by decide) (by decide) (by decide) now⟩
  exact ⟨namesFree_of_freeInPlace htime, freeInPlace_of_namesFree htime⟩

/-- The extension of the original always ends the name. -/
theorem extension_suffix (s : MetadataStore) (deviceName timestamp virtualPath : Text) :
    extension virtualPath <:+ generateConflictName s deviceName timestamp virtualPath := by
  have hname : ∀ seq, extension virtualPath <:+
      candidateName deviceName timestamp virtualPath seq := fun seq => List.suffix_append _ _
  rw [generateConflictName, candidate_eq]
  split_ifs
  · exact hname _
  · unfold Text.joinPath
    split_ifs
    · exact hname _
    · exact (hname _).trans (List.suffix_append _ _)
    · exact (hname _).trans ((List.suffix_cons _ _).trans (List.suffix_append _ _))


/-- A file, and the tombstone of the conflict copy that was made of it in the same second. -/
def deletedCopy : MetadataStore :=
  ((MetadataStore.initial.insert "/f.txt".toList "local" "p".toList 1 0 0 none).insert
    "/f (conflict - d - 2024-01-01 00-00-00).txt".toList "local" "q".toList 1 0 0 none).delete
    "/f (conflict - d - 2024-01-01 00-00-00).txt".toList 0

/-- The path that is generated has a row, and the rename is refused; and a device name with a slash,
which the validator accepts, puts the copy into another directory. -/
theorem deleted_copy_not_free :
    ConfigLoader.deviceNameErrors
        [(codePoints "device_name", .str (codePoints "d"))] = [] ∧
      deletedCopy.renamePath "/f.txt".toList (generateConflictName deletedCopy "d".toList
        (UtcTime.strftime ⟨2024, 1, 1, 0, 0, 0⟩) "/f.txt".toList) = none ∧
      ¬ FreeInPlace deletedCopy "d".toList (UtcTime.strftime ⟨2024, 1, 1, 0, 0, 0⟩) "/f.txt".toList
        (generateConflictName deletedCopy "d".toList (UtcTime.strftime ⟨2024, 1, 1, 0, 0, 0⟩)
          "/f.txt".toList) ∧
    ConfigLoader.deviceNameErrors
        [(codePoints "device_name", .str (codePoints "a/b"))] = [] ∧
      ¬ FreeInPlace MetadataStore.initial "a/b".toList (UtcTime.strftime ⟨2024, 1, 1, 0, 0, 0⟩)
        "/f.txt".toList (generateConflictName MetadataStore.initial "a/b".toList
          (UtcTime.strftime ⟨2024, 1, 1, 0, 0, 0⟩) "/f.txt".toList) := by
  have hrename : deletedCopy.renamePath "/f.txt".toList (generateConflictName deletedCopy "d".toList
      (UtcTime.strftime ⟨2024, 1, 1, 0, 0, 0⟩) "/f.txt".toList) = none := by decide
  refine ⟨by decide, hrename, fun h => h.renames hrename, by decide, fun h => ?_⟩
  have hslash : '/' ∈ "a/b".toList := by decide
  exact candidate_elsewhere hslash h.directory

end ConflictResolver

end StardustFS
