import StardustFS.DirectoryListing
import StardustFS.JbodManager

/-! When a directory listing is exact. A row is selected by a pattern and its name is cut out by the
length of the directory path; a registered directory is shown under its parent alone, so that a parent
that has no row of its own stays hidden. -/

namespace StardustFS

namespace MetadataStore

open LikePattern (likePrefix)

/-! ### The statement -/

/-- A name is not empty and has no slash. -/
def IsName (n : Text) : Prop := n ≠ [] ∧ '/' ∉ n

/-- A live file, a registered directory, or a proper ancestor of one. -/
def IsThere (s : MetadataStore) (x : Text) : Prop :=
  s.Live x ∨ s.Registered x ∨ ∃ p, (s.Live p ∨ s.Registered p) ∧ Below x p

/-- The names that belong in the listing. -/
def Listed (s : MetadataStore) (d n : Text) : Prop := IsName n ∧ s.IsThere (withSlash d ++ n)

/-- Each name that belongs in the listing is there once, as a directory unless it is a live file, and
nothing else is. -/
structure ExactListing (s : MetadataStore) (d : Text) (entries : List EntryInfo) : Prop where
  once : (entries.map EntryInfo.name).Nodup
  names : ∀ n, (∃ e ∈ entries, e.name = n) ↔ s.Listed d n
  directories : ∀ e ∈ entries, e.isDirectory = true ↔ ¬ s.Live (withSlash d ++ e.name)

/-- The path matches the pattern of the directory and does not lie below it. -/
def Foreign (d p : Text) : Prop := likePrefix (withSlash d) p = true ∧ ¬ withSlash d <+: p

/-- What is left of a path that is cut by the length of the directory path. -/
def cut (d p : Text) : Text := p.drop (withSlash d).length

/-- No path below the directory goes on with a second slash; a path that merely matches the pattern is
cut to a name that is there anyway, as the same kind of thing; and where a registered directory has a
proper ancestor in the directory, some other row shows that. -/
structure ListsExactly (s : MetadataStore) (d : Text) : Prop where
  plain_files : ∀ p, s.Live p → ¬ withSlash d ++ ['/'] <+: p
  plain_directories : ∀ k, ¬ s.Registered (withSlash d ++ List.replicate (k + 1) '/')
  foreign_files : ∀ p, s.Live p → Foreign d p → cut d p ≠ [] →
    ('/' ∉ cut d p → s.Live (withSlash d ++ cut d p)) ∧
      ('/' ∈ cut d p → s.Listed d (firstName (cut d p)))
  foreign_directories : ∀ p, s.Registered p → Foreign d p → cut d p ≠ [] →
    '/' ∉ Text.rstrip '/' (cut d p) → s.Listed d (Text.rstrip '/' (cut d p))
  nested : ∀ n p, IsName n → s.Registered p → Below (withSlash d ++ n) p →
    (∃ q, s.Live q ∧ AtOrBelow (withSlash d ++ n) q) ∨
      (∃ k, s.Registered (withSlash d ++ n ++ List.replicate k '/')) ∨
      ∃ q, Foreign d q ∧ (s.Live q ∧ firstName (cut d q) = n ∨
        s.Registered q ∧ Text.rstrip '/' (cut d q) = n)

/-! ### Names cut out of a path -/

theorem cut_append (d r : Text) : cut d (withSlash d ++ r) = r := List.drop_left

/-- The first name of a relative path that has one. -/
theorem firstName_eq_iff {r n : Text} (hn : IsName n) :
    firstName r = n ↔ r = n ∨ ∃ r', r = n ++ '/' :: r' := by
  constructor
  · rintro rfl
    by_cases hr : '/' ∈ r
    · obtain ⟨a, b, rfl, ha⟩ := List.eq_append_cons_of_mem hr
      rw [firstName_append ha]
      exact Or.inr ⟨b, rfl⟩
    · exact Or.inl (firstName_of_not_mem hr).symm
  · rintro (rfl | ⟨r', rfl⟩)
    · exact firstName_of_not_mem hn.2
    · exact firstName_append hn.2 r'

theorem not_mem_firstName (r : Text) : '/' ∉ firstName r := by
  intro h
  simpa using List.mem_takeWhile_imp h

/-- A relative path without a first name starts with a slash. -/
theorem cons_of_firstName_eq_nil {r : Text} (hr : r ≠ []) (h : firstName r = []) :
    ∃ r', r = '/' :: r' := by
  cases r with
  | nil => exact absurd rfl hr
  | cons c r =>
      refine ⟨r, ?_⟩
      by_contra hc
      have hne : c ≠ '/' := fun heq => hc (by rw [heq])
      rw [firstName, List.takeWhile_cons, if_pos (bne_iff_ne.mpr hne)] at h
      cases h

theorem rstrip_replicate {n : Text} (hn : Text.endsWith n '/' = false) (k : Nat) :
    Text.rstrip '/' (n ++ List.replicate k '/') = n := by
  induction k with
  | zero => rw [List.replicate_zero, List.append_nil, Text.rstrip_of_not_endsWith hn]
  | succ k ih =>
      rw [List.replicate_succ', ← List.append_assoc, Text.rstrip, List.rdropWhile_concat_pos _ _ _ rfl]
      exact ih

theorem endsWith_of_not_mem {n : Text} (hn : '/' ∉ n) : Text.endsWith n '/' = false := by
  rw [Text.endsWith, beq_eq_false_iff_ne]
  exact fun h => hn (List.mem_of_getLast? h)

/-! ### What the two loops show -/

/-- The names that the rows of the two tables give. -/
def Cut (s : MetadataStore) (d n : Text) : Prop :=
  (∃ p, s.Live p ∧ likePrefix (withSlash d) p = true ∧ cut d p ≠ [] ∧ firstName (cut d p) = n) ∨
    ∃ p, s.Registered p ∧ likePrefix (withSlash d) p = true ∧ cut d p ≠ [] ∧
      Text.rstrip '/' (cut d p) = n ∧ '/' ∉ n

/-- Those of them that a file gives. -/
def CutFile (s : MetadataStore) (d n : Text) : Prop :=
  ∃ p, s.Live p ∧ likePrefix (withSlash d) p = true ∧ cut d p = n ∧ IsName n

theorem mem_files_iff {s : MetadataStore} {d : Text} {x : Text × FileRow} :
    x ∈ s.files.rows.filter (fun x => likePrefix (withSlash d) x.1 && !x.2.deleted) ↔
      s.lookup x.1 = some x.2 ∧ likePrefix (withSlash d) x.1 = true := by
  rw [List.mem_filter, Bool.and_eq_true, Bool.not_eq_true', lookup_eq_some_iff, lookupAny,
    Table.get_eq_some_iff]
  tauto

theorem mem_directories_iff {s : MetadataStore} {d : Text} {x : Text × Time} :
    x ∈ s.directories.rows.filter (fun x => likePrefix (withSlash d) x.1) ↔
      s.directories.get x.1 = some x.2 ∧ likePrefix (withSlash d) x.1 = true := by
  rw [List.mem_filter, Table.get_eq_some_iff]

/-- **The listing of any directory**: what the rows that match give. -/
theorem shows_cut (s : MetadataStore) (d : Text) :
    ∃ results : Table Text EntryInfo, s.listEntries d = results.rows.map Prod.snd ∧
      Shows results (s.Cut d) (s.CutFile d) := by
  have hempty : Shows Table.empty (fun _ => False) fun _ => False :=
    ⟨fun n => by simp, fun n e he => absurd he (Option.some_ne_none e).symm, fun n hn => hn⟩
  refine ⟨_, rfl, ((hempty.foldl_listFile _).foldl_listSubdirectory _).congr (fun n => ?_)
    fun n => ?_⟩
  · constructor
    · rintro ((hfalse | ⟨⟨p, row⟩, hmem, hcut, hfirst⟩) | ⟨⟨p, t⟩, hmem, hcut, hstrip, hslash⟩)
      · exact hfalse.elim
      · obtain ⟨hrow, hlike⟩ := mem_files_iff.mp hmem
        exact Or.inl ⟨p, ⟨row, hrow⟩, hlike, hcut, hfirst⟩
      · obtain ⟨hrow, hlike⟩ := mem_directories_iff.mp hmem
        exact Or.inr ⟨p, ⟨t, hrow⟩, hlike, hcut, hstrip, hslash⟩
    · rintro (⟨p, ⟨row, hrow⟩, hlike, hcut, hfirst⟩ | ⟨p, ⟨t, hrow⟩, hlike, hcut, hstrip, hslash⟩)
      · exact Or.inl (Or.inr ⟨(p, row), mem_files_iff.mpr ⟨hrow, hlike⟩, hcut, hfirst⟩)
      · exact Or.inr ⟨(p, t), mem_directories_iff.mpr ⟨hrow, hlike⟩, hcut, hstrip, hslash⟩
  · constructor
    · rintro (hfalse | ⟨⟨p, row⟩, hmem, hcut, hne, hslash⟩)
      · exact hfalse.elim
      · obtain ⟨hrow, hlike⟩ := mem_files_iff.mp hmem
        exact ⟨p, ⟨row, hrow⟩, hlike, hcut, hne, hslash⟩
    · rintro ⟨p, ⟨row, hrow⟩, hlike, hcut, hne, hslash⟩
      exact Or.inr ⟨(p, row), mem_files_iff.mpr ⟨hrow, hlike⟩, hcut, hne, hslash⟩

/-- The listing is exact where the names that are cut out are those that belong there. -/
theorem exactListing_iff_cut (s : MetadataStore) (d : Text) :
    s.ExactListing d (s.listEntries d) ↔
      (∀ n, s.Cut d n ↔ s.Listed d n) ∧
        ∀ n, s.Cut d n → (s.CutFile d n ↔ s.Live (withSlash d ++ n)) := by
  obtain ⟨results, hlist, hshows⟩ := s.shows_cut d
  have hnames : (results.rows.map Prod.snd).map EntryInfo.name = results.keys := by
    rw [List.map_map]
    exact List.map_congr_left fun y hy => (hshows.entry y.1 y.2 (Table.get_of_mem_rows hy)).1
  have hmem : ∀ n, (∃ e ∈ results.rows.map Prod.snd, e.name = n) ↔ s.Cut d n := by
    intro n
    rw [← List.mem_map, hnames, Table.mem_keys_iff]
    exact hshows.key_iff n
  have hentry : ∀ e ∈ results.rows.map Prod.snd,
      e.isDirectory = true ↔ ¬ s.CutFile d e.name := by
    intro e he
    obtain ⟨⟨n, e'⟩, hrow, rfl⟩ := List.mem_map.mp he
    obtain ⟨hname, hfile⟩ := hshows.entry n e' (Table.get_of_mem_rows hrow)
    rw [hname, ← hfile]
    simp
  rw [hlist]
  constructor
  · rintro ⟨-, hexact, hdirs⟩
    refine ⟨fun n => (hmem n).symm.trans (hexact n), fun n hn => ?_⟩
    obtain ⟨e, he, rfl⟩ := (hmem n).mpr hn
    exact not_iff_not.mp ((hentry e he).symm.trans (hdirs e he))
  · rintro ⟨hcut, hfile⟩
    refine ⟨by rw [hnames]; exact results.nodup, fun n => (hmem n).trans (hcut n), fun e he => ?_⟩
    rw [hentry e he, hfile e.name ((hmem _).mp ⟨e, he, rfl⟩)]

/-! ### The rows that lie below the directory -/

section

variable {s : MetadataStore} {d n p : Text}

theorem likePrefix_append (d r : Text) : likePrefix (withSlash d) (withSlash d ++ r) = true :=
  LikePattern.likePrefix_of_prefix (List.prefix_append _ r)

theorem cut_of_live (hn : IsName n) (h : s.Live (withSlash d ++ n)) : s.Cut d n := by
  refine Or.inl ⟨_, h, likePrefix_append d n, ?_⟩
  rw [cut_append]
  exact ⟨hn.1, firstName_of_not_mem hn.2⟩

theorem cut_of_live_below (hn : IsName n) (hp : s.Live p) (h : Below (withSlash d ++ n) p) :
    s.Cut d n := by
  obtain ⟨r, rfl⟩ := below_iff.mp h
  rw [List.append_assoc] at hp
  refine Or.inl ⟨_, hp, likePrefix_append d _, ?_⟩
  rw [cut_append]
  exact ⟨by simp, firstName_append hn.2 r⟩

theorem cut_of_registered (hn : IsName n) {k : Nat}
    (h : s.Registered (withSlash d ++ n ++ List.replicate k '/')) : s.Cut d n := by
  rw [List.append_assoc] at h
  refine Or.inr ⟨_, h, likePrefix_append d _, ?_⟩
  rw [cut_append]
  refine ⟨fun hnil => hn.1 (List.append_eq_nil_iff.mp hnil).1, ?_, hn.2⟩
  exact rstrip_replicate (endsWith_of_not_mem hn.2) k

/-- A path that the pattern selects lies below the directory or is foreign to it. -/
theorem below_or_foreign (h : likePrefix (withSlash d) p = true) :
    (∃ r, p = withSlash d ++ r) ∨ Foreign d p := by
  by_cases hp : withSlash d <+: p
  · obtain ⟨r, hr⟩ := hp
    exact Or.inl ⟨r, hr.symm⟩
  · exact Or.inr ⟨h, hp⟩

theorem registered_below_cases {r : Text} (hr : Text.rstrip '/' r = n) :
    ∃ k, r = n ++ List.replicate k '/' := by
  obtain ⟨k, hk⟩ := Text.exists_rstrip_append '/' r
  exact ⟨k, by rw [hr] at hk; exact hk⟩

/-- What is cut out belongs there. -/
theorem ListsExactly.listed_of_cut (h : s.ListsExactly d) (hcut : s.Cut d n) : s.Listed d n := by
  rcases hcut with ⟨p, hp, hlike, hne, hfirst⟩ | ⟨p, hp, hlike, hne, hstrip, hslash⟩
  · rcases below_or_foreign hlike with ⟨r, rfl⟩ | hforeign
    · rw [cut_append] at hne hfirst
      have hname : IsName n := by
        refine ⟨?_, hfirst ▸ not_mem_firstName r⟩
        rintro rfl
        obtain ⟨r', rfl⟩ := cons_of_firstName_eq_nil hne hfirst
        exact h.plain_files _ hp ⟨r', by rw [List.append_assoc]; rfl⟩
      refine ⟨hname, ?_⟩
      rcases (firstName_eq_iff hname).mp hfirst with rfl | ⟨r', rfl⟩
      · exact Or.inl hp
      · exact Or.inr (Or.inr ⟨_, Or.inl hp, below_iff.mpr ⟨r', by rw [List.append_assoc]⟩⟩)
    · obtain ⟨hone, hmore⟩ := h.foreign_files p hp hforeign hne
      by_cases hslash : '/' ∈ cut d p
      · exact hfirst ▸ hmore hslash
      · rw [firstName_of_not_mem hslash] at hfirst
        subst hfirst
        exact ⟨⟨hne, hslash⟩, Or.inl (hone hslash)⟩
  · rcases below_or_foreign hlike with ⟨r, rfl⟩ | hforeign
    · rw [cut_append] at hne hstrip
      obtain ⟨k, rfl⟩ := registered_below_cases hstrip
      have hname : n ≠ [] := by
        rintro rfl
        rw [List.nil_append] at hne hp
        cases k with
        | zero => exact hne rfl
        | succ k => exact h.plain_directories k hp
      refine ⟨⟨hname, hslash⟩, ?_⟩
      cases k with
      | zero =>
          rw [List.replicate_zero, List.append_nil] at hp
          exact Or.inr (Or.inl hp)
      | succ k =>
          refine Or.inr (Or.inr ⟨_, Or.inr hp, below_iff.mpr ⟨List.replicate k '/', ?_⟩⟩)
          rw [List.replicate_succ, List.append_assoc]
    · subst hstrip
      exact h.foreign_directories p hp hforeign hne hslash

/-- What belongs there is cut out. -/
theorem ListsExactly.cut_of_listed (h : s.ListsExactly d) (hn : s.Listed d n) : s.Cut d n := by
  obtain ⟨hname, hlive | hregistered | ⟨p, hlive | hregistered, hbelow⟩⟩ := hn
  · exact cut_of_live hname hlive
  · exact cut_of_registered (k := 0) hname (by rwa [List.replicate_zero, List.append_nil])
  · exact cut_of_live_below hname hlive hbelow
  · rcases h.nested n p hname hregistered hbelow with
      ⟨q, hq, rfl | hq'⟩ | ⟨k, hk⟩ | ⟨q, hforeign, ⟨hq, hfirst⟩ | ⟨hq, hstrip⟩⟩
    · exact cut_of_live hname hq
    · exact cut_of_live_below hname hq hq'
    · exact cut_of_registered hname hk
    · refine Or.inl ⟨q, hq, hforeign.1, fun hnil => hname.1 ?_, hfirst⟩
      rw [← hfirst, hnil]
      rfl
    · refine Or.inr ⟨q, hq, hforeign.1, fun hnil => hname.1 ?_, hstrip, hname.2⟩
      rw [← hstrip, hnil]
      rfl

theorem ListsExactly.cutFile_iff (h : s.ListsExactly d) (hn : IsName n) :
    s.CutFile d n ↔ s.Live (withSlash d ++ n) := by
  constructor
  · rintro ⟨p, hp, hlike, rfl, hname⟩
    rcases below_or_foreign hlike with ⟨r, rfl⟩ | hforeign
    · rwa [cut_append]
    · exact (h.foreign_files p hp hforeign hname.1).1 hname.2
  · exact fun hlive => ⟨_, hlive, likePrefix_append d n, cut_append d n, hn⟩

/-- An exact listing shows what a nested directory lies below. -/
theorem nested_of_cut (hname : IsName n) (hcut : s.Cut d n) :
    (∃ q, s.Live q ∧ AtOrBelow (withSlash d ++ n) q) ∨
      (∃ k, s.Registered (withSlash d ++ n ++ List.replicate k '/')) ∨
      ∃ q, Foreign d q ∧ (s.Live q ∧ firstName (cut d q) = n ∨
        s.Registered q ∧ Text.rstrip '/' (cut d q) = n) := by
  rcases hcut with ⟨q, hq, hlike, -, hfirst⟩ | ⟨q, hq, hlike, -, hstrip, -⟩
  · rcases below_or_foreign hlike with ⟨r, rfl⟩ | hforeign
    · rw [cut_append] at hfirst
      refine Or.inl ⟨_, hq, ?_⟩
      rcases (firstName_eq_iff hname).mp hfirst with rfl | ⟨r', rfl⟩
      · exact Or.inl rfl
      · exact Or.inr (below_iff.mpr ⟨r', by rw [List.append_assoc]⟩)
    · exact Or.inr (Or.inr ⟨q, hforeign, Or.inl ⟨hq, hfirst⟩⟩)
  · rcases below_or_foreign hlike with ⟨r, rfl⟩ | hforeign
    · rw [cut_append] at hstrip
      obtain ⟨k, rfl⟩ := registered_below_cases hstrip
      exact Or.inr (Or.inl ⟨k, by rwa [List.append_assoc]⟩)
    · exact Or.inr (Or.inr ⟨q, hforeign, Or.inr ⟨hq, hstrip⟩⟩)

end

/-- **The listing of a directory is exact** where its rows list it exactly, and nowhere else. -/
theorem listEntries_exact_iff (s : MetadataStore) (d : Text) :
    s.ExactListing d (s.listEntries d) ↔ s.ListsExactly d := by
  rw [exactListing_iff_cut]
  constructor
  · rintro ⟨hcut, hfile⟩
    refine ⟨fun p hp hslash => ?_, fun k hk => ?_, fun p hp hforeign hne => ⟨fun hslash => ?_,
      fun _ => ?_⟩, fun p hp hforeign hne hslash => ?_, fun n p hname hp hbelow => ?_⟩
    · obtain ⟨r, rfl⟩ := hslash
      rw [List.append_assoc] at hp
      have hempty : s.Cut d [] := by
        refine Or.inl ⟨_, hp, likePrefix_append d _, ?_⟩
        rw [cut_append]
        exact ⟨by simp, rfl⟩
      exact ((hcut []).mp hempty).1.1 rfl
    · have hempty : s.Cut d [] := by
        refine Or.inr ⟨_, hk, likePrefix_append d _, ?_⟩
        rw [cut_append]
        have hstrip : Text.rstrip '/' ([] ++ List.replicate (k + 1) '/') = [] :=
          rstrip_replicate rfl (k + 1)
        exact ⟨by simp, hstrip, by simp⟩
      exact ((hcut []).mp hempty).1.1 rfl
    · have hname : IsName (cut d p) := ⟨hne, hslash⟩
      have hgiven : s.Cut d (cut d p) :=
        Or.inl ⟨p, hp, hforeign.1, hne, firstName_of_not_mem hslash⟩
      exact (hfile _ hgiven).mp ⟨p, hp, hforeign.1, rfl, hname⟩
    · exact (hcut _).mp (Or.inl ⟨p, hp, hforeign.1, hne, rfl⟩)
    · exact (hcut _).mp (Or.inr ⟨p, hp, hforeign.1, hne, rfl, hslash⟩)
    · exact nested_of_cut hname ((hcut n).mpr ⟨hname, Or.inr (Or.inr ⟨p, Or.inr hp, hbelow⟩)⟩)
  · intro h
    refine ⟨fun n => ⟨h.listed_of_cut, h.cut_of_listed⟩, fun n hn => ?_⟩
    exact h.cutFile_iff (h.listed_of_cut hn).1

/-- `create_directory('/a/b')` in an empty volume. -/
def nestedDirectory : MetadataStore :=
  ({ metadataStore := initial, sources := Table.empty } : JbodManager).createDirectory 0
    "/a/b".toList |>.metadataStore

/-- The parent of the new directory is not shown in the root. -/
theorem nested_directory_hides_parent :
    nestedDirectory.listEntries "/".toList = [] ∧ nestedDirectory.Listed "/".toList "a".toList ∧
      ¬ nestedDirectory.ExactListing "/".toList (nestedDirectory.listEntries "/".toList) := by
  have hempty : nestedDirectory.listEntries "/".toList = [] := by decide
  have hlisted : nestedDirectory.Listed "/".toList "a".toList := by
    refine ⟨⟨by decide, by decide⟩, Or.inr (Or.inr ⟨"/a/b".toList, Or.inr ⟨0, by decide⟩, ?_⟩)⟩
    exact below_iff.mpr ⟨"b".toList, by decide⟩
  refine ⟨hempty, hlisted, fun hexact => ?_⟩
  obtain ⟨e, he, -⟩ := (hexact.names _).mpr hlisted
  rw [hempty] at he
  cases he

end MetadataStore

end StardustFS
