import StardustFS.CliPaths
import StardustFS.ListingExactness

/-! The paths that the listings of the command line and of the window show. An entry is shown under the
directory's path and its name, and every command normalises the path it is given once more; the rows the
listing took the names from may have been stored under any path. -/

namespace StardustFS

namespace CliPaths

open Text

/-- `_join`. -/
def join (base name : Text) : Text := rstrip '/' base ++ '/' :: name

/-- What `_vpath` promises of one text: a normal path, which a second time leaves as it is. -/
def Canonical (path : Text) : Prop := Normal (vpath path) ∧ vpath (vpath path) = vpath path

/-- A name that survives the normalisation. -/
structure CleanName (n : Text) : Prop where
  ne_nil : n ≠ []
  noBackslash : '\\' ∉ n
  noBlank : ¬EndsBlank n

theorem join_eq {d : Text} (h : Normal d) (n : Text) : join d n = MetadataStore.withSlash d ++ n := by
  unfold join MetadataStore.withSlash
  by_cases hend : endsWith d '/' = true
  · rw [if_pos hend]
    have hd : d = ['/'] := h.noEnd (beq_iff_eq.mp hend)
    subst hd
    rfl
  · rw [if_neg hend, rstrip_of_not_endsWith (by simpa using hend), List.append_assoc]
    rfl

theorem not_doubled_concat {s : Text} (h : ¬Doubled s) {c : Char}
    (hc : c = '/' → s.getLast? ≠ some '/') : ¬Doubled (s ++ [c]) := by
  intro hdoubled
  rcases List.infix_concat_iff.mp hdoubled with hsuffix | hinfix
  · obtain ⟨r, hr⟩ := hsuffix
    have hsplit : (r ++ ['/']) ++ ['/'] = s ++ [c] := by
      rw [List.append_assoc]
      exact hr
    obtain ⟨hs, hlast⟩ := List.append_inj' hsplit rfl
    apply hc (List.cons.inj hlast).1.symm
    rw [← hs, List.getLast?_concat]
  · exact h hinfix

theorem not_doubled_append {s n : Text} (h : ¬Doubled s) (hslash : '/' ∉ n) : ¬Doubled (s ++ n) := by
  induction n using List.reverseRecOn with
  | nil => simpa using h
  | append_singleton n c ih =>
      have hn : '/' ∉ n := fun hmem => hslash (List.mem_append_left _ hmem)
      rw [← List.append_assoc]
      apply not_doubled_concat (ih hn)
      rintro rfl
      exact absurd (List.mem_append_right n List.mem_cons_self) hslash

/-- Below a normal directory a name without a slash makes a normal path. -/
theorem normal_withSlash_append {d n : Text} (h : Normal d) (hslash : '/' ∉ n) (hne : n ≠ []) :
    Normal (MetadataStore.withSlash d ++ n) := by
  have hroot : (MetadataStore.withSlash d).head? = some '/' := by
    unfold MetadataStore.withSlash
    split_ifs
    · exact h.rooted
    · rw [List.head?_append, h.rooted]
      rfl
  have hsingle : ¬Doubled (MetadataStore.withSlash d) := by
    unfold MetadataStore.withSlash
    split_ifs with hend
    · exact h.single
    · exact not_doubled_concat h.single fun _ hlast => hend (beq_iff_eq.mpr hlast)
  refine ⟨?_, not_doubled_append hsingle hslash, fun hlast => ?_⟩
  · rw [List.head?_append, hroot]
    rfl
  · rw [List.getLast?_append_of_ne_nil _ hne] at hlast
    exact absurd (List.mem_of_getLast? hlast) hslash

theorem endsBlank_append_iff (s : Text) {n : Text} (hne : n ≠ []) : EndsBlank (s ++ n) ↔ EndsBlank n := by
  rw [EndsBlank, EndsBlank, List.getLast?_append_of_ne_nil _ hne]

theorem backslash_not_mem_withSlash {d : Text} (h : '\\' ∉ d) :
    '\\' ∉ MetadataStore.withSlash d := by
  unfold MetadataStore.withSlash
  split_ifs
  · exact h
  · intro hmem
    rcases List.mem_append.mp hmem with hmem | hmem
    · exact h hmem
    · simp at hmem

/-- The displayed path leads to the path the name was taken from exactly where that is the displayed
path itself and the name survives. -/
theorem vpath_join_iff {d q n : Text} (h : Normal d) (hback : '\\' ∉ d) (hslash : '/' ∉ n) {k : Nat}
    (hq : q.length = (MetadataStore.withSlash d).length)
    (hne : n ++ List.replicate k '/' ≠ []) :
    vpath (join d n) = q ++ n ++ List.replicate k '/' ↔
      q ++ n ++ List.replicate k '/' = MetadataStore.withSlash d ++ n ∧ CleanName n := by
  have hback' := backslash_not_mem_withSlash hback
  rw [join_eq h]
  constructor
  · intro hpath
    have hnormal : Normal (q ++ n ++ List.replicate k '/') := hpath ▸ normal_vpath _
    have hpositive : 0 < q.length := by
      rw [hq]
      unfold MetadataStore.withSlash
      split_ifs
      · exact List.length_pos_of_ne_nil fun hnil => by rw [hnil] at h; cases h.rooted
      · simp
    obtain rfl : k = 0 := by
      by_contra hk
      have hlast : (q ++ n ++ List.replicate k '/').getLast? = some '/' := by
        rw [List.getLast?_append_of_ne_nil _ (by simpa using hk), List.getLast?_replicate, if_neg hk]
      have hlength := congrArg List.length (hnormal.noEnd hlast)
      simp only [List.length_append, List.length_replicate, List.length_singleton] at hlength
      omega
    rw [List.replicate_zero, List.append_nil] at hpath hne ⊢
    have hname : '\\' ∉ n := fun hmem =>
      backslash_not_mem_vpath _ (hpath ▸ List.mem_append_right q hmem)
    have hall : '\\' ∉ MetadataStore.withSlash d ++ n := by simp [hback', hname]
    have hbelow := normal_withSlash_append h hslash hne
    have hblank : ¬EndsBlank n := by
      intro hblank
      have hlt := length_vpath_lt hbelow.rooted hall ((endsBlank_append_iff _ hne).mpr hblank)
      rw [hpath, List.length_append, List.length_append, hq] at hlt
      exact lt_irrefl _ hlt
    refine ⟨?_, hne, hname, hblank⟩
    rw [← hpath]
    exact vpath_of_normal hbelow hall fun hends => hblank ((endsBlank_append_iff _ hne).mp hends)
  · intro hpath
    obtain ⟨hpath, hclean⟩ := hpath
    rw [hpath]
    apply vpath_of_normal (normal_withSlash_append h hslash hclean.ne_nil)
    · simp [hback', hclean.noBackslash]
    · exact fun hends => hclean.noBlank ((endsBlank_append_iff _ hclean.ne_nil).mp hends)

end CliPaths

namespace MetadataStore

open CliPaths
open LikePattern (likePrefix)

/-! ### The record of an entry -/

/-- The file row that a file entry shows: of several that are cut to one name, the last. -/
def fileRecord? (s : MetadataStore) (d n : Text) : Option (Text × FileRow) :=
  ((s.files.rows.filter fun x => likePrefix (withSlash d) x.1 && !x.2.deleted).filter
    fun x => cut d x.1 = n).getLast?

/-- The registered directory that a directory entry stands for: of several, the first. -/
def directoryRecord? (s : MetadataStore) (d n : Text) : Option (Text × Time) :=
  (s.directories.rows.filter fun x => likePrefix (withSlash d) x.1).find?
    fun x => cut d x.1 ≠ [] ∧ Text.rstrip '/' (cut d x.1) = n ∧ '/' ∉ n

/-- Every entry's displayed path, normalised once more, is the path of its record. A directory that is
shown for the files below it has no record. -/
def Displays (s : MetadataStore) (d : Text) : Prop :=
  ∀ e ∈ s.listEntries d,
    (e.isDirectory = false → ∃ row, s.fileRecord? d e.name = some (vpath (join d e.name), row)) ∧
    (e.isDirectory = true → ∀ x, s.directoryRecord? d e.name = some x → vpath (join d e.name) = x.1)

/-- The rows that the pattern selects lie literally below the directory, and their names survive the
normalisation. -/
structure DisplaysExactly (s : MetadataStore) (d : Text) : Prop where
  files : ∀ n x, IsName n → s.fileRecord? d n = some x → x.1 = withSlash d ++ n ∧ CleanName n
  directories : ∀ n x, ¬s.CutFile d n → s.directoryRecord? d n = some x →
    x.1 = withSlash d ++ n ∧ CleanName n

theorem mem_of_fileRecord? {s : MetadataStore} {d n : Text} {x : Text × FileRow}
    (h : s.fileRecord? d n = some x) :
    s.lookup x.1 = some x.2 ∧ likePrefix (withSlash d) x.1 = true ∧ cut d x.1 = n := by
  have hmem := List.mem_of_getLast? h
  rw [List.mem_filter, decide_eq_true_eq, mem_files_iff] at hmem
  exact ⟨hmem.1.1, hmem.1.2, hmem.2⟩

theorem exists_fileRecord?_iff {s : MetadataStore} {d n : Text} (hn : IsName n) :
    (∃ x, s.fileRecord? d n = some x) ↔ s.CutFile d n := by
  constructor
  · rintro ⟨x, hx⟩
    obtain ⟨hrow, hlike, hcut⟩ := mem_of_fileRecord? hx
    exact ⟨x.1, ⟨x.2, hrow⟩, hlike, hcut, hn⟩
  · rintro ⟨p, ⟨row, hrow⟩, hlike, hcut, -⟩
    apply Option.ne_none_iff_exists'.mp
    rw [fileRecord?, Ne, List.getLast?_eq_none_iff]
    apply List.ne_nil_of_mem (a := (p, row))
    rw [List.mem_filter, decide_eq_true_eq, mem_files_iff]
    exact ⟨⟨hrow, hlike⟩, hcut⟩

theorem mem_of_directoryRecord? {s : MetadataStore} {d n : Text} {x : Text × Time}
    (h : s.directoryRecord? d n = some x) :
    s.directories.get x.1 = some x.2 ∧ likePrefix (withSlash d) x.1 = true ∧ cut d x.1 ≠ [] ∧
      Text.rstrip '/' (cut d x.1) = n ∧ '/' ∉ n := by
  have hmem := List.mem_of_find?_eq_some h
  have hcut := List.find?_some h
  rw [decide_eq_true_eq] at hcut
  exact ⟨(mem_directories_iff.mp hmem).1, (mem_directories_iff.mp hmem).2, hcut⟩

/-- A path that is cut to something is as long as the directory's and what is cut. -/
theorem take_append_cut {d p : Text} (h : cut d p ≠ []) :
    p.take (withSlash d).length ++ cut d p = p ∧
      (p.take (withSlash d).length).length = (withSlash d).length := by
  refine ⟨List.take_append_drop _ _, ?_⟩
  have hlt : (withSlash d).length < p.length := by
    by_contra hle
    exact h (List.drop_eq_nil_of_le (by omega))
  rw [List.length_take]
  omega

/-! ### The entries of a listing -/

/-- What is inserted replaces nothing. -/
theorem get_insert_of_some {results : Table Text EntryInfo} {n : Text} {e : EntryInfo}
    (h : results.get n = some e) (k : Text) (e' : EntryInfo) :
    (results.insert k e').get n = some e := by
  rw [Table.get_insert, if_neg, h]
  rintro ⟨hnone, -⟩
  rw [h] at hnone
  cases hnone

/-- The first loop keeps the last row that is cut to a name. -/
theorem get_foldl_listFile (dir : Text) {n : Text} (hn : IsName n) (rows : List (Text × FileRow))
    {x : Text × FileRow} (h : (rows.filter fun x => x.1.drop dir.length = n).getLast? = some x) :
    (rows.foldl (listFile dir) Table.empty).get n
      = some ⟨n, false, x.2.fileSize, x.2.createdAt, x.2.modifiedAt⟩ := by
  induction rows using List.reverseRecOn generalizing x with
  | nil => cases h
  | append_singleton rows y ih =>
      rw [List.foldl_append, List.foldl_cons, List.foldl_nil]
      by_cases hy : y.1.drop dir.length = n
      · have hlast : y = x := by
          rw [List.filter_append] at h
          simpa [hy] using h
        subst hlast
        unfold listFile
        dsimp only
        rw [hy, if_neg hn.1, if_pos hn.2, Table.get_put_self]
      · have hget := ih (x := x) (by
          rw [List.filter_append] at h
          simpa [hy] using h)
        generalize rows.foldl (listFile dir) Table.empty = results at hget ⊢
        unfold listFile
        dsimp only
        split_ifs
        · exact hget
        · exact get_insert_of_some hget _ _
        · rw [Table.get_put_of_ne _ _ (Ne.symm hy), hget]

/-- The second loop adds to what is there. -/
theorem get_foldl_listSubdirectory (dir : Text) {n : Text} {e : EntryInfo} (rows : List (Text × Time))
    {results : Table Text EntryInfo} (h : results.get n = some e) :
    (rows.foldl (listSubdirectory dir) results).get n = some e := by
  induction rows generalizing results with
  | nil => exact h
  | cons y rows ih =>
      apply ih
      unfold listSubdirectory
      dsimp only
      split_ifs
      · exact h
      · exact h
      · exact get_insert_of_some h _ _

/-- A file entry shows its record. -/
theorem entry_of_fileRecord? {s : MetadataStore} {d n : Text} (hn : IsName n) {x : Text × FileRow}
    (h : s.fileRecord? d n = some x) :
    (⟨n, false, x.2.fileSize, x.2.createdAt, x.2.modifiedAt⟩ : EntryInfo) ∈ s.listEntries d := by
  have hget := get_foldl_listSubdirectory (withSlash d)
    (s.directories.rows.filter fun x => likePrefix (withSlash d) x.1)
    (get_foldl_listFile (withSlash d) hn _ h)
  exact List.mem_map.mpr ⟨_, Table.mem_rows_of_get hget, rfl⟩

/-- The names of the two kinds of entries. -/
theorem exists_entry_iff (s : MetadataStore) (d n : Text) :
    ((∃ e ∈ s.listEntries d, e.name = n ∧ e.isDirectory = false) ↔ s.CutFile d n) ∧
      ((∃ e ∈ s.listEntries d, e.name = n ∧ e.isDirectory = true) ↔ s.Cut d n ∧ ¬s.CutFile d n) := by
  obtain ⟨results, hlist, hshows⟩ := s.shows_cut d
  have hmem : ∀ e, e ∈ s.listEntries d ↔ results.get e.name = some e := by
    intro e
    rw [hlist, List.mem_map]
    constructor
    · rintro ⟨⟨k, e'⟩, hrow, rfl⟩
      have hget := Table.get_of_mem_rows hrow
      rw [(hshows.entry k e' hget).1]
      exact hget
    · exact fun hget => ⟨_, Table.mem_rows_of_get hget, rfl⟩
  constructor
  · constructor
    · rintro ⟨e, he, rfl, hfile⟩
      exact (hshows.entry e.name e ((hmem e).mp he)).2.mp hfile
    · intro hcut
      obtain ⟨e, he⟩ := (hshows.key_iff n).mpr (hshows.file_key n hcut)
      obtain ⟨hname, hfile⟩ := hshows.entry n e he
      exact ⟨e, (hmem e).mpr (hname ▸ he), hname, hfile.mpr hcut⟩
  · constructor
    · rintro ⟨e, he, rfl, hdirectory⟩
      have hget := (hmem e).mp he
      refine ⟨(hshows.key_iff e.name).mp ⟨e, hget⟩, fun hcut => ?_⟩
      rw [(hshows.entry e.name e hget).2.mpr hcut] at hdirectory
      cases hdirectory
    · rintro ⟨hcut, hnot⟩
      obtain ⟨e, he⟩ := (hshows.key_iff n).mpr hcut
      obtain ⟨hname, hfile⟩ := hshows.entry n e he
      refine ⟨e, (hmem e).mpr (hname ▸ he), hname, ?_⟩
      by_contra hfalse
      exact hnot (hfile.mp (by simpa using hfalse))

/-! ### The displayed paths -/

section

variable {s : MetadataStore} {d : Text}

theorem vpath_join_fileRecord_iff (h : Normal d) (hback : '\\' ∉ d) {n : Text} (hn : IsName n)
    {x : Text × FileRow} (hx : s.fileRecord? d n = some x) :
    vpath (join d n) = x.1 ↔ x.1 = withSlash d ++ n ∧ CleanName n := by
  obtain ⟨-, -, hcut⟩ := mem_of_fileRecord? hx
  obtain ⟨hsplit, hlength⟩ := take_append_cut (d := d) (p := x.1) (by rw [hcut]; exact hn.1)
  have hiff := vpath_join_iff h hback hn.2 (k := 0) hlength (by simpa using hn.1)
  rwa [List.replicate_zero, List.append_nil, ← hcut, hsplit, hcut] at hiff

theorem vpath_join_directoryRecord_iff (h : Normal d) (hback : '\\' ∉ d) {n : Text}
    {x : Text × Time} (hx : s.directoryRecord? d n = some x) :
    vpath (join d n) = x.1 ↔ x.1 = withSlash d ++ n ∧ CleanName n := by
  obtain ⟨-, -, hcut, hstrip, hslash⟩ := mem_of_directoryRecord? hx
  obtain ⟨k, hk⟩ := registered_below_cases hstrip
  obtain ⟨hsplit, hlength⟩ := take_append_cut hcut
  have hiff := vpath_join_iff h hback hslash (k := k) hlength (by rw [← hk]; exact hcut)
  rwa [List.append_assoc, ← hk, hsplit] at hiff

/-- Below a normal directory the displayed paths lead back to the records exactly where the selected rows
lie literally below it and their names survive the normalisation. -/
theorem displays_iff (h : Normal d) (hback : '\\' ∉ d) : s.Displays d ↔ s.DisplaysExactly d := by
  constructor
  · intro hdisplays
    refine ⟨fun n x hn hx => ?_, fun n x hnot hx => ?_⟩
    · rw [← vpath_join_fileRecord_iff h hback hn hx]
      obtain ⟨row, hrow⟩ := (hdisplays _ (entry_of_fileRecord? hn hx)).1 rfl
      rw [hx, Option.some_inj] at hrow
      rw [hrow]
    · rw [← vpath_join_directoryRecord_iff h hback hx]
      obtain ⟨hget, hlike, hcut, hstrip, hslash⟩ := mem_of_directoryRecord? hx
      have hgiven : s.Cut d n := Or.inr ⟨x.1, ⟨x.2, hget⟩, hlike, hcut, hstrip, hslash⟩
      obtain ⟨e, he, rfl, hdirectory⟩ := (exists_entry_iff s d n).2.mpr ⟨hgiven, hnot⟩
      exact (hdisplays e he).2 hdirectory x hx
  · intro hexact e he
    refine ⟨fun hfile => ?_, fun hdirectory x hx => ?_⟩
    · have hcut := (exists_entry_iff s d e.name).1.mp ⟨e, he, rfl, hfile⟩
      have hn : IsName e.name := by
        obtain ⟨p, -, -, -, hn⟩ := hcut
        exact hn
      obtain ⟨x, hx⟩ := (exists_fileRecord?_iff hn).mpr hcut
      refine ⟨x.2, ?_⟩
      rw [(vpath_join_fileRecord_iff h hback hn hx).mpr (hexact.files _ x hn hx), hx]
    · have hnot := ((exists_entry_iff s d e.name).2.mp ⟨e, he, rfl, hdirectory⟩).2
      exact (vpath_join_directoryRecord_iff h hback hx).mpr (hexact.directories _ x hnot hx)

end

/-- **The paths of the commands are canonical** where cutting the slashes at the end uncovers no blank, and
the displayed paths lead back to the records where the listing is literal and the names survive. -/
theorem canonical_and_displayed_iff (path : Text) (s : MetadataStore) :
    (Canonical path ↔ ¬EndsBlank (Text.rstrip '/' (stripSpace (Text.turnBackslashes path)))) ∧
      (s.Displays (vpath path) ↔ s.DisplaysExactly (vpath path)) := by
  refine ⟨?_, displays_iff (normal_vpath path) (backslash_not_mem_vpath path)⟩
  rw [Canonical, and_iff_right (normal_vpath path), vpath_vpath_iff, endsBlank_vpath_iff]

/-- A file uploaded to the path `a /`. -/
def blankName : MetadataStore :=
  initial.insert (vpath "a /".toList) "vol" "p".toList 1 0 0 none

/-- The file is stored under a path that ends in a blank: a second normalisation cuts it, and the path shown
for it in the root is another one. -/
theorem blank_name_is_lost :
    ¬Canonical "a /".toList ∧ ¬blankName.Displays (vpath "/".toList) := by
  have hvpath : vpath (vpath "a /".toList) = "/a".toList := by decide
  refine ⟨fun h => ?_, fun h => ?_⟩
  · have hfixed := h.2
    rw [hvpath] at hfixed
    exact absurd hfixed (by decide)
  · have hentry : (⟨"a ".toList, false, 1, 0, 0⟩ : EntryInfo)
        ∈ blankName.listEntries (vpath "/".toList) := by
      decide
    obtain ⟨row, hrow⟩ := (h _ hentry).1 rfl
    have hpath : (blankName.fileRecord? (vpath "/".toList) "a ".toList).map Prod.fst
        = some "/a ".toList := by decide
    have hshown : vpath (join (vpath "/".toList) "a ".toList) = "/a".toList := by decide
    rw [hrow, Option.map_some, Option.some_inj] at hpath
    exact absurd (hshown.symm.trans hpath) (by decide)

end MetadataStore

end StardustFS
