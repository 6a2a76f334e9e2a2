import StardustFS.StorageSource

/-! What a directory listing shows, and which directories a recursion over listings comes to. A listing
selects its rows with a pattern, so that it shows what lies below the directory only where nothing else
matches. -/

namespace StardustFS

/-! ### Names of a path -/

/-- The part of a relative path before its first slash. -/
def firstName (r : Text) : Text := r.takeWhile (· != '/')

theorem firstName_of_not_mem {r : Text} (h : '/' ∉ r) : firstName r = r :=
  List.takeWhile_eq_self_iff.mpr fun _ hc => bne_iff_ne.mpr fun heq => h (heq ▸ hc)

theorem firstName_append {a : Text} (h : '/' ∉ a) (b : Text) : firstName (a ++ '/' :: b) = a := by
  have ha : ∀ c ∈ a, (c != '/') = true := fun _ hc => bne_iff_ne.mpr fun heq => h (heq ▸ hc)
  rw [firstName, List.takeWhile_append_of_pos ha, List.takeWhile_cons]
  simp

/-- A path whose names are all proper ones. -/
def ProperNames (r : Text) : Prop := ∀ c ∈ r.splitOn '/', c ≠ [] ∧ c ≠ ['.']

/-- A relative path is one name, or a name and what comes after its slash. -/
theorem ProperNames.cases {r : Text} (h : ProperNames r) :
    ∃ name : FileName, r = name.val ∨ ∃ r', r = name.val ++ '/' :: r' ∧ ProperNames r' := by
  by_cases hr : '/' ∈ r
  · obtain ⟨a, b, rfl, ha⟩ := List.eq_append_cons_of_mem hr
    have hsplit := List.splitOn_append_cons_self_of_not_mem ha b
    have hname := h a (by rw [hsplit]; exact List.mem_cons_self)
    refine ⟨⟨a, hname.1, hname.2, ha⟩, Or.inr ⟨b, rfl, fun c hc => ?_⟩⟩
    exact h c (by rw [hsplit]; exact List.mem_cons_of_mem a hc)
  · have hname := h r (by rw [List.splitOn_eq_singleton hr]; exact List.mem_singleton_self r)
    exact ⟨⟨r, hname.1, hname.2, hr⟩, Or.inl rfl⟩

theorem ProperNames.ne_nil {r : Text} (h : ProperNames r) : r ≠ [] := by
  rintro rfl
  exact (h [] (by simp)).1 rfl

theorem ProperNames.tail {a r : Text} (h : ProperNames (a ++ '/' :: r)) : ProperNames r := by
  intro c hc
  apply h c
  rw [List.splitOn_append_cons_self]
  exact List.mem_append_right _ hc

theorem ProperNames.rstrip_eq {r : Text} (h : ProperNames r) : Text.rstrip '/' r = r := by
  refine List.rdropWhile_eq_self_iff.mpr fun hr hlast => ?_
  obtain ⟨a, ha⟩ : ∃ a, r = a ++ '/' :: [] := by
    refine ⟨r.dropLast, ?_⟩
    rw [← beq_iff_eq.mp hlast, List.dropLast_append_getLast hr]
  rw [ha] at h
  exact h.tail.ne_nil rfl

namespace MetadataStore

open LikePattern (likePrefix)

/-- The path of a name below a directory. -/
def child (x : Text) (name : FileName) : Text := x ++ '/' :: name.val

theorem child_append (x : Text) (name : FileName) (r : Text) :
    child x name ++ '/' :: r = x ++ '/' :: (name.val ++ '/' :: r) := by
  rw [child, List.append_assoc, List.cons_append]

/-- The path lies below the directory. -/
def Below (x p : Text) : Prop := x ++ ['/'] <+: p

/-- The path is the directory or lies below it. -/
def AtOrBelow (x p : Text) : Prop := p = x ∨ Below x p

theorem below_iff {x p : Text} : Below x p ↔ ∃ r, p = x ++ '/' :: r := by
  constructor
  · rintro ⟨r, hr⟩
    exact ⟨r, by rw [← hr, List.append_assoc, List.singleton_append]⟩
  · rintro ⟨r, rfl⟩
    exact ⟨r, by rw [List.append_assoc, List.singleton_append]⟩

def Live (s : MetadataStore) (p : Text) : Prop := ∃ row, s.lookup p = some row

def Registered (s : MetadataStore) (x : Text) : Prop := ∃ t, s.directories.get x = some t

/-- The path is shown as a directory: no file has it, and it is registered or a file lies below it. -/
def ShowsDirectory (s : MetadataStore) (x : Text) : Prop :=
  ¬ s.Live x ∧ (s.Registered x ∨ ∃ p, s.Live p ∧ Below x p)

/-! ### The listing of one directory -/

/-- The keys of a listing in the making, and those of them that stand for files. -/
structure Shows (results : Table Text EntryInfo) (key file : Text → Prop) : Prop where
  key_iff : ∀ n, (∃ e, results.get n = some e) ↔ key n
  entry : ∀ n e, results.get n = some e → e.name = n ∧ (e.isDirectory = false ↔ file n)
  file_key : ∀ n, file n → key n

theorem Shows.congr {results : Table Text EntryInfo} {key file key' file' : Text → Prop}
    (h : Shows results key file) (hkey : ∀ n, key n ↔ key' n) (hfile : ∀ n, file n ↔ file' n) :
    Shows results key' file' := by
  obtain rfl : key = key' := funext fun n => propext (hkey n)
  obtain rfl : file = file' := funext fun n => propext (hfile n)
  exact h

theorem Shows.put {results : Table Text EntryInfo} {key file : Text → Prop}
    (h : Shows results key file) {e : EntryInfo} (he : e.isDirectory = false) :
    Shows (results.put e.name e) (fun n => key n ∨ n = e.name) (fun n => file n ∨ n = e.name) := by
  refine ⟨fun n => ?_, fun n e' hget => ?_, fun n => Or.imp_left (h.file_key n)⟩
  · by_cases hn : n = e.name
    · rw [hn, Table.get_put_self]
      simp
    · rw [Table.get_put_of_ne _ _ hn, h.key_iff]
      simp [hn]
  · by_cases hn : n = e.name
    · rw [hn, Table.get_put_self, Option.some_inj] at hget
      subst hget hn
      exact ⟨rfl, by simp [he]⟩
    · rw [Table.get_put_of_ne _ _ hn] at hget
      simpa [hn] using h.entry n e' hget

theorem Shows.insert {results : Table Text EntryInfo} {key file : Text → Prop}
    (h : Shows results key file) {e : EntryInfo} (he : e.isDirectory = true) :
    Shows (results.insert e.name e) (fun n => key n ∨ n = e.name) file := by
  refine ⟨fun n => ?_, fun n e' hget => ?_, fun n hn => Or.inl (h.file_key n hn)⟩
  · rw [Table.get_insert]
    split_ifs with hn
    · simp [hn.2]
    · rw [h.key_iff]
      refine ⟨Or.inl, ?_⟩
      rintro (hk | rfl)
      · exact hk
      · by_contra hk
        refine hn ⟨?_, rfl⟩
        rw [← h.key_iff, not_exists] at hk
        exact Option.eq_none_iff_forall_ne_some.mpr hk
  · rw [Table.get_insert] at hget
    split_ifs at hget with hn
    · obtain rfl := Option.some_inj.mp hget
      refine ⟨hn.2.symm, ?_⟩
      have hnot : ¬ file n := by
        intro hfile
        obtain ⟨e'', he''⟩ := (h.key_iff n).mpr (h.file_key n hfile)
        rw [hn.1] at he''
        cases he''
      simp [he, hnot]
    · exact h.entry n e' hget

/-- The first loop of a listing. -/
theorem Shows.foldl_listFile {dir : Text} (rows : List (Text × FileRow))
    {results : Table Text EntryInfo} {key file : Text → Prop} (h : Shows results key file) :
    Shows (rows.foldl (listFile dir) results)
      (fun n => key n ∨ ∃ x ∈ rows, x.1.drop dir.length ≠ [] ∧ firstName (x.1.drop dir.length) = n)
      (fun n => file n ∨ ∃ x ∈ rows, x.1.drop dir.length = n ∧ n ≠ [] ∧ '/' ∉ n) := by
  induction rows generalizing results key file with
  | nil => simpa using h
  | cons x rows ih =>
      rw [List.foldl_cons]
      obtain ⟨r, hr⟩ : ∃ r, r = x.1.drop dir.length := ⟨_, rfl⟩
      by_cases hnil : r = []
      · have hstep : listFile dir results x = results := by
          rw [listFile, if_pos (hr ▸ hnil)]
        rw [hstep]
        refine (ih h).congr (fun n => ?_) fun n => ?_
        · rw [List.exists_mem_cons_iff, ← hr, hnil]
          simp
        · rw [List.exists_mem_cons_iff, ← hr, hnil]
          refine or_congr_right ⟨Or.inr, ?_⟩
          rintro (⟨rfl, hne, -⟩ | hrows)
          · exact absurd rfl hne
          · exact hrows
      · by_cases hslash : '/' ∈ r
        · have hstep : listFile dir results x = results.insert (firstName r)
              ⟨firstName r, true, 0, x.2.createdAt, x.2.modifiedAt⟩ := by
            unfold listFile
            dsimp only
            rw [← hr, if_neg hnil, if_neg (not_not_intro hslash)]
            rfl
          rw [hstep]
          refine (ih (h.insert (e := ⟨firstName r, true, 0, x.2.createdAt, x.2.modifiedAt⟩)
            rfl)).congr (fun n => ?_) fun n => ?_
          · rw [List.exists_mem_cons_iff, ← hr, or_assoc]
            simp [hnil, eq_comm]
          · rw [List.exists_mem_cons_iff, ← hr]
            refine or_congr_right ⟨Or.inr, ?_⟩
            rintro (⟨rfl, -, hnot⟩ | hrows)
            · exact absurd hslash hnot
            · exact hrows
        · have hstep : listFile dir results x = results.put r
              ⟨r, false, x.2.fileSize, x.2.createdAt, x.2.modifiedAt⟩ := by
            unfold listFile
            dsimp only
            rw [← hr, if_neg hnil, if_pos hslash]
          rw [hstep]
          refine (ih (h.put (e := ⟨r, false, x.2.fileSize, x.2.createdAt, x.2.modifiedAt⟩)
            rfl)).congr (fun n => ?_) fun n => ?_
          · rw [List.exists_mem_cons_iff, ← hr, or_assoc, firstName_of_not_mem hslash]
            simp [hnil, eq_comm]
          · rw [List.exists_mem_cons_iff, ← hr, or_assoc]
            refine or_congr_right (or_congr_left ⟨?_, fun hn => hn.1.symm⟩)
            rintro rfl
            exact ⟨rfl, hnil, hslash⟩

/-- The second loop of a listing. -/
theorem Shows.foldl_listSubdirectory {dir : Text} (rows : List (Text × Time))
    {results : Table Text EntryInfo} {key file : Text → Prop} (h : Shows results key file) :
    Shows (rows.foldl (listSubdirectory dir) results)
      (fun n => key n ∨ ∃ x ∈ rows, x.1.drop dir.length ≠ [] ∧
        Text.rstrip '/' (x.1.drop dir.length) = n ∧ '/' ∉ n) file := by
  induction rows generalizing results key with
  | nil => simpa using h
  | cons x rows ih =>
      rw [List.foldl_cons]
      obtain ⟨r, hr⟩ : ∃ r, r = x.1.drop dir.length := ⟨_, rfl⟩
      by_cases hnil : r = []
      · have hstep : listSubdirectory dir results x = results := by
          rw [listSubdirectory, if_pos (hr ▸ hnil)]
        rw [hstep]
        refine (ih h).congr (fun n => ?_) fun n => Iff.rfl
        rw [List.exists_mem_cons_iff, ← hr, hnil]
        simp
      · by_cases hslash : '/' ∈ Text.rstrip '/' r
        · have hstep : listSubdirectory dir results x = results := by
            unfold listSubdirectory
            dsimp only
            rw [← hr, if_neg hnil, if_neg (not_not_intro hslash)]
          rw [hstep]
          refine (ih h).congr (fun n => ?_) fun n => Iff.rfl
          rw [List.exists_mem_cons_iff, ← hr]
          refine or_congr_right ⟨Or.inr, ?_⟩
          rintro (⟨-, rfl, hnot⟩ | hrows)
          · exact absurd hslash hnot
          · exact hrows
        · have hstep : listSubdirectory dir results x = results.insert (Text.rstrip '/' r)
              ⟨Text.rstrip '/' r, true, 0, x.2, x.2⟩ := by
            unfold listSubdirectory
            dsimp only
            rw [← hr, if_neg hnil, if_pos hslash]
          rw [hstep]
          refine (ih (h.insert (e := ⟨Text.rstrip '/' r, true, 0, x.2, x.2⟩) rfl)).congr
            (fun n => ?_) fun n => Iff.rfl
          rw [List.exists_mem_cons_iff, ← hr, or_assoc]
          refine or_congr_right (or_congr_left ⟨?_, fun hn => hn.2.1.symm⟩)
          rintro rfl
          exact ⟨hnil, rfl, hslash⟩

section Listing

variable {s : MetadataStore} {x : Text}

/-- The pattern of the directory selects what lies below it, and that under proper names. -/
structure ListsBelow (s : MetadataStore) (x : Text) : Prop where
  noSlash : Text.endsWith x '/' = false
  like : ∀ p, s.Live p ∨ s.Registered p → likePrefix (x ++ ['/']) p = true → Below x p
  names : ∀ r, s.Live (x ++ '/' :: r) ∨ s.Registered (x ++ '/' :: r) → ProperNames r

theorem drop_below (x r : Text) : (x ++ '/' :: r).drop (x ++ ['/']).length = r := by
  rw [show x ++ '/' :: r = (x ++ ['/']) ++ r by simp, List.drop_left]

theorem mem_live_rows (h : ListsBelow s x) {y : Text × FileRow} :
    y ∈ s.files.rows.filter (fun y => likePrefix (x ++ ['/']) y.1 && !y.2.deleted) ↔
      s.lookup y.1 = some y.2 ∧ Below x y.1 := by
  obtain ⟨p, row⟩ := y
  rw [List.mem_filter, Bool.and_eq_true, Bool.not_eq_true', ← Table.get_eq_some_iff]
  constructor
  · rintro ⟨hget, hlike, hlive⟩
    have hrow := lookup_eq_some_iff.mpr ⟨hget, hlive⟩
    exact ⟨hrow, h.like p (Or.inl ⟨row, hrow⟩) hlike⟩
  · rintro ⟨hrow, hbelow⟩
    obtain ⟨hget, hlive⟩ := lookup_eq_some_iff.mp hrow
    exact ⟨hget, LikePattern.likePrefix_of_prefix hbelow, hlive⟩

theorem mem_directory_rows (h : ListsBelow s x) {y : Text × Time} :
    y ∈ s.directories.rows.filter (fun y => likePrefix (x ++ ['/']) y.1) ↔
      s.directories.get y.1 = some y.2 ∧ Below x y.1 := by
  obtain ⟨p, t⟩ := y
  rw [List.mem_filter, ← Table.get_eq_some_iff]
  refine and_congr_right fun hget => ⟨h.like p (Or.inr ⟨t, hget⟩), ?_⟩
  exact fun hbelow => LikePattern.likePrefix_of_prefix hbelow

/-- **The listing** shows the files directly below the directory, and as directories the names that are
registered or have a file below them. -/
theorem shows_listEntries (h : ListsBelow s x) :
    ∃ results : Table Text EntryInfo, s.listEntries x = results.rows.map Prod.snd ∧
      Shows results (fun n => ∃ name : FileName, n = name.val ∧
          (s.Live (child x name) ∨ s.ShowsDirectory (child x name)))
        fun n => ∃ name : FileName, n = name.val ∧ s.Live (child x name) := by
  have hdir : withSlash x = x ++ ['/'] := by
    rw [withSlash, h.noSlash]
    rfl
  refine ⟨_, rfl, ?_⟩
  rw [hdir]
  have hempty : Shows Table.empty (fun _ => False) fun _ => False :=
    ⟨fun n => by simp, fun n e he => absurd he (Option.some_ne_none e).symm, fun n hn => hn⟩
  refine ((hempty.foldl_listFile _).foldl_listSubdirectory _).congr (fun n => ?_) fun n => ?_
  · constructor
    · rintro ((hfalse | ⟨⟨p, row⟩, hmem, -, hfirst⟩) | ⟨⟨p, t⟩, hmem, -, hstrip, hslash⟩)
      · exact hfalse.elim
      · obtain ⟨hrow, hbelow⟩ := (mem_live_rows h).mp hmem
        obtain ⟨r, rfl⟩ := below_iff.mp hbelow
        obtain ⟨name, rfl | ⟨r', rfl, -⟩⟩ := (h.names r (Or.inl ⟨row, hrow⟩)).cases
        · rw [drop_below, firstName_of_not_mem name.property.2.2] at hfirst
          exact ⟨name, hfirst.symm, Or.inl ⟨row, hrow⟩⟩
        · rw [drop_below, firstName_append name.property.2.2] at hfirst
          refine ⟨name, hfirst.symm, ?_⟩
          by_cases hlive : s.Live (child x name)
          · exact Or.inl hlive
          · exact Or.inr ⟨hlive, Or.inr ⟨_, ⟨row, hrow⟩,
              below_iff.mpr ⟨r', (child_append x name r').symm⟩⟩⟩
      · obtain ⟨hget, hbelow⟩ := (mem_directory_rows h).mp hmem
        obtain ⟨r, rfl⟩ := below_iff.mp hbelow
        have hnames := h.names r (Or.inr ⟨t, hget⟩)
        rw [drop_below, hnames.rstrip_eq] at hstrip
        subst hstrip
        obtain ⟨name, rfl | ⟨r', rfl, -⟩⟩ := hnames.cases
        · refine ⟨name, rfl, ?_⟩
          by_cases hlive : s.Live (child x name)
          · exact Or.inl hlive
          · exact Or.inr ⟨hlive, Or.inl ⟨t, hget⟩⟩
        · exact absurd (List.mem_append_right _ List.mem_cons_self) hslash
    · rintro ⟨name, rfl, ⟨row, hrow⟩ | ⟨-, ⟨t, ht⟩ | ⟨p, ⟨row, hrow⟩, hbelow⟩⟩⟩
      · refine Or.inl (Or.inr ⟨⟨child x name, row⟩,
          (mem_live_rows h).mpr ⟨hrow, below_iff.mpr ⟨_, rfl⟩⟩, ?_⟩)
        rw [child, drop_below]
        exact ⟨name.property.1, firstName_of_not_mem name.property.2.2⟩
      · refine Or.inr ⟨⟨child x name, t⟩,
          (mem_directory_rows h).mpr ⟨ht, below_iff.mpr ⟨_, rfl⟩⟩, ?_⟩
        have hnames := h.names name.val (Or.inr ⟨t, ht⟩)
        rw [child, drop_below, hnames.rstrip_eq]
        exact ⟨name.property.1, rfl, name.property.2.2⟩
      · obtain ⟨r, rfl⟩ := below_iff.mp hbelow
        rw [child_append] at hrow
        refine Or.inl (Or.inr ⟨⟨_, row⟩,
          (mem_live_rows h).mpr ⟨hrow, below_iff.mpr ⟨_, rfl⟩⟩, ?_⟩)
        rw [drop_below]
        exact ⟨(h.names _ (Or.inl ⟨row, hrow⟩)).ne_nil, firstName_append name.property.2.2 r⟩
  · constructor
    · rintro (hfalse | ⟨⟨p, row⟩, hmem, hdrop, -, hslash⟩)
      · exact hfalse.elim
      · obtain ⟨hrow, hbelow⟩ := (mem_live_rows h).mp hmem
        obtain ⟨r, rfl⟩ := below_iff.mp hbelow
        rw [drop_below] at hdrop
        subst hdrop
        obtain ⟨name, rfl | ⟨r', rfl, -⟩⟩ := (h.names r (Or.inl ⟨row, hrow⟩)).cases
        · exact ⟨name, rfl, row, hrow⟩
        · exact absurd (List.mem_append_right _ List.mem_cons_self) hslash
    · rintro ⟨name, rfl, row, hrow⟩
      refine Or.inr ⟨⟨child x name, row⟩,
        (mem_live_rows h).mpr ⟨hrow, below_iff.mpr ⟨_, rfl⟩⟩, ?_⟩
      rw [child, drop_below]
      exact ⟨rfl, name.property.1, name.property.2.2⟩

/-- Each entry stands for a file or for a directory, as it says. -/
theorem mem_listEntries (h : ListsBelow s x) {e : EntryInfo} (he : e ∈ s.listEntries x) :
    ∃ name : FileName, e.name = name.val ∧
      (e.isDirectory = false ∧ s.Live (child x name) ∨
        e.isDirectory = true ∧ s.ShowsDirectory (child x name)) := by
  obtain ⟨results, hlist, hshows⟩ := shows_listEntries h
  rw [hlist, List.mem_map] at he
  obtain ⟨⟨n, e'⟩, hmem, rfl⟩ := he
  have hget := Table.get_of_mem_rows hmem
  obtain ⟨hname, hfile⟩ := hshows.entry n e' hget
  obtain ⟨name, rfl, hcase⟩ := (hshows.key_iff n).mp ⟨e', hget⟩
  refine ⟨name, hname, ?_⟩
  cases hd : e'.isDirectory with
  | false =>
      obtain ⟨name', hn, hlive⟩ := hfile.mp hd
      obtain rfl := Subtype.ext hn
      exact Or.inl ⟨rfl, hlive⟩
  | true =>
      rcases hcase with hlive | hshown
      · have hfalse := hfile.mpr ⟨name, rfl, hlive⟩
        rw [hd] at hfalse
        cases hfalse
      · exact Or.inr ⟨rfl, hshown⟩

/-- Nothing that the directory shows is left out. -/
theorem exists_mem_listEntries (h : ListsBelow s x) {name : FileName}
    (hshown : s.Live (child x name) ∨ s.ShowsDirectory (child x name)) :
    ∃ e ∈ s.listEntries x, e.name = name.val := by
  obtain ⟨results, hlist, hshows⟩ := shows_listEntries h
  obtain ⟨e, he⟩ := (hshows.key_iff name.val).mpr ⟨name, rfl, hshown⟩
  refine ⟨e, ?_, (hshows.entry _ e he).1⟩
  rw [hlist]
  exact List.mem_map.mpr ⟨_, Table.mem_rows_of_get he, rfl⟩

theorem nodup_listEntries (h : ListsBelow s x) :
    ((s.listEntries x).map EntryInfo.name).Nodup := by
  obtain ⟨results, hlist, hshows⟩ := shows_listEntries h
  have hnames : (results.rows.map Prod.snd).map EntryInfo.name = results.rows.map Prod.fst := by
    rw [List.map_map]
    exact List.map_congr_left fun y hy => (hshows.entry y.1 y.2 (Table.get_of_mem_rows hy)).1
  rw [hlist, hnames]
  exact results.nodup

end Listing

/-! ### The directories of a recursion -/

/-- The directories that a recursion over listings comes to. -/
inductive Reached (s : MetadataStore) (d : Text) : Text → Prop
  | self : Reached s d d
  | step {z : Text} {name : FileName} :
      Reached s d z → s.ShowsDirectory (child z name) → Reached s d (child z name)

/-- The files that the listings of these show. -/
def ReachesFile (s : MetadataStore) (d p : Text) : Prop :=
  s.Live p ∧ ∃ z name, s.Reached d z ∧ p = child z name

section Recursion

variable {s s' : MetadataStore} {d x y z p : Text}

theorem below_child (x : Text) (name : FileName) : Below x (child x name) :=
  below_iff.mpr ⟨name.val, rfl⟩

theorem Below.trans (h : Below x y) (h' : Below y z) : Below x z := by
  obtain ⟨r, rfl⟩ := below_iff.mp h
  obtain ⟨r', rfl⟩ := below_iff.mp h'
  exact below_iff.mpr ⟨r ++ '/' :: r', by rw [List.append_assoc, List.cons_append]⟩

theorem Below.ne (h : Below x y) : x ≠ y := by
  rintro rfl
  have := h.length_le
  simp at this

theorem AtOrBelow.below_child (h : AtOrBelow d z) (name : FileName) : Below d (child z name) := by
  rcases h with rfl | h
  · exact MetadataStore.below_child _ _
  · exact h.trans (MetadataStore.below_child _ _)

/-- What is above a path is above its directory, or is that. -/
theorem Below.of_child {name : FileName} (h : Below x (child z name)) : x = z ∨ Below x z := by
  obtain ⟨r, hr⟩ := below_iff.mp h
  rw [child] at hr
  rcases List.append_eq_append_iff.mp hr with ⟨a, rfl, ha⟩ | ⟨a, rfl, ha⟩
  · cases a with
    | nil => exact Or.inl (List.append_nil z)
    | cons c a =>
        have hname : name.val = a ++ '/' :: r := (List.cons.inj ha).2
        refine absurd ?_ name.property.2.2
        rw [hname]
        exact List.mem_append_right _ List.mem_cons_self
  · cases a with
    | nil => exact Or.inl (List.append_nil x).symm
    | cons c a =>
        obtain ⟨rfl, -⟩ := List.cons.inj ha
        exact Or.inr (below_iff.mpr ⟨a, rfl⟩)

theorem Reached.atOrBelow (h : s.Reached d z) : AtOrBelow d z := by
  induction h with
  | self => exact Or.inl rfl
  | step _ _ ih => exact Or.inr (ih.below_child _)

theorem Reached.trans (h : s.Reached d x) (h' : s.Reached x z) : s.Reached d z := by
  induction h' with
  | self => exact h
  | step _ hshown ih => exact Reached.step ih hshown

/-- The first step of a recursion. -/
theorem Reached.head (h : s.Reached d z) :
    z = d ∨ ∃ name, s.ShowsDirectory (child d name) ∧ s.Reached (child d name) z := by
  induction h with
  | self => exact Or.inl rfl
  | step _ hshown ih =>
      right
      rcases ih with rfl | ⟨first, hfirst, hreached⟩
      · exact ⟨_, hshown, Reached.self⟩
      · exact ⟨first, hfirst, Reached.step hreached hshown⟩

/-- A recursion comes to a directory over those above it. -/
theorem Reached.above (h : s.Reached d z) (hp : p = z ∨ Below p z) (hd : Below d p) :
    s.Reached d p ∧ s.ShowsDirectory p := by
  induction h with
  | self =>
      rcases hp with rfl | hp
      · exact absurd rfl hd.ne
      · exact absurd rfl (hd.trans hp).ne
  | step hz hshown ih =>
      rcases hp with rfl | hp
      · exact ⟨Reached.step hz hshown, hshown⟩
      · exact ih hp.of_child

/-- What the recursion comes to depends on what lies below the directory alone. -/
theorem Reached.congr (hlive : ∀ p, Below d p → (s.Live p ↔ s'.Live p))
    (hdirs : ∀ p, Below d p → (s.Registered p ↔ s'.Registered p)) (h : s.Reached d z) :
    s'.Reached d z := by
  induction h with
  | self => exact Reached.self
  | @step z name hz hshown ih =>
      refine Reached.step ih ?_
      have hbelow : Below d (child z name) := hz.atOrBelow.below_child name
      rw [ShowsDirectory, ← hlive _ hbelow, ← hdirs _ hbelow]
      refine ⟨hshown.1, hshown.2.imp_right ?_⟩
      rintro ⟨p, hp, hpz⟩
      exact ⟨p, (hlive p (hbelow.trans hpz)).mp hp, hpz⟩

theorem ReachesFile.below (h : s.ReachesFile d p) : Below d p := by
  obtain ⟨-, z, name, hz, rfl⟩ := h
  exact hz.atOrBelow.below_child name

theorem ReachesFile.congr (hlive : ∀ p, Below d p → (s.Live p ↔ s'.Live p))
    (hdirs : ∀ p, Below d p → (s.Registered p ↔ s'.Registered p)) (h : s.ReachesFile d p) :
    s'.ReachesFile d p := by
  have hp := h.below
  obtain ⟨hfile, z, name, hz, rfl⟩ := h
  exact ⟨(hlive _ hp).mp hfile, z, name, hz.congr hlive hdirs, rfl⟩

end Recursion

end MetadataStore

end StardustFS
