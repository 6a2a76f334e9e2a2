import StardustFS.OrphanGc

/-! The files a volume makes. The physical path of a new file ends in a name that carries the UUID, so
two of them never meet, and the scan knows such a name by its form. -/

namespace StardustFS

/-- The digits of `uuid4().hex`. -/
def IsUuidHex (uuid : Text) : Prop :=
  uuid.length = 32 ∧ (uuid.all fun c => c.isDigit || (decide ('a' ≤ c) && decide (c ≤ 'f'))) = true

instance (uuid : Text) : Decidable (IsUuidHex uuid) := inferInstanceAs (Decidable (_ ∧ _))

namespace JbodManager

open StorageSource (resolve)

/-- The name of a new file, the UUID in front of the last name of the virtual path. -/
def managedName (uuid virtualPath : Text) : Text :=
  uuid ++ '_' :: (((Text.strip '/' virtualPath).splitOn '/').getLast?.getD [])

theorem generatePhysicalPath_cases (uuid p : Text) :
    generatePhysicalPath uuid p = managedName uuid p ∨
      ∃ dir, generatePhysicalPath uuid p = dir ++ '/' :: managedName uuid p := by
  unfold generatePhysicalPath managedName
  dsimp only
  split_ifs
  · exact Or.inr ⟨_, rfl⟩
  · exact Or.inl rfl

theorem slash_not_mem_of_isUuidHex {uuid : Text} (h : IsUuidHex uuid) : '/' ∉ uuid := by
  intro hmem
  have := List.all_eq_true.mp h.2 '/' hmem
  revert this
  decide

/-- A new file has a proper name. -/
def managedFile {uuid : Text} (h : IsUuidHex uuid) (p : Text) : FileName :=
  ⟨managedName uuid p, by simp [managedName], by
    intro hname
    have hlen := congrArg List.length hname
    simp only [managedName, List.length_append, List.length_cons, List.length_nil, h.1] at hlen
    omega, by
    obtain ⟨init, last, hsplit, hlast⟩ := Text.exists_split_last '/' (Text.strip '/' p)
    rw [managedName, hsplit, List.getLast?_concat, Option.getD_some]
    simp [slash_not_mem_of_isUuidHex h, hlast]⟩

/-- **The place of a new file** ends in its name. -/
theorem resolve_generatePhysicalPath {uuid : Text} (h : IsUuidHex uuid) (p : Text) :
    ∃ dirs, resolve (generatePhysicalPath uuid p) = dirs ++ [managedFile h p] := by
  have hname : resolve (managedName uuid p) = [managedFile h p] :=
    StorageSource.resolve_name (managedFile h p)
  rcases generatePhysicalPath_cases uuid p with hpath | ⟨dir, hpath⟩
  · exact ⟨[], by rw [hpath, hname]; rfl⟩
  · exact ⟨resolve dir, by rw [hpath, StorageSource.resolve_append_slash, hname]⟩

/-- The scan knows a new file by its name. -/
theorem isManagedFile_managedName {uuid : Text} (h : IsUuidHex uuid) (p : Text) :
    isManagedFile (managedName uuid p) = true := by
  unfold isManagedFile managedName
  rw [Bool.and_eq_true, beq_iff_eq]
  refine ⟨?_, ?_⟩
  · rw [List.take_left' h.1]
    exact h.2
  · rw [List.getElem?_append_right h.1.le, h.1]
    rfl

/-- **Different UUIDs, different places**, whatever the virtual paths are. -/
theorem uuid_eq_of_resolve_eq {uuid uuid' : Text} (h : IsUuidHex uuid) (h' : IsUuidHex uuid')
    {p p' : Text}
    (heq : resolve (generatePhysicalPath uuid p) = resolve (generatePhysicalPath uuid' p')) :
    uuid = uuid' := by
  obtain ⟨dirs, hdirs⟩ := resolve_generatePhysicalPath h p
  obtain ⟨dirs', hdirs'⟩ := resolve_generatePhysicalPath h' p'
  rw [hdirs, hdirs'] at heq
  have hnames := congrArg Subtype.val (List.cons.inj (List.append_inj' heq rfl).2).1
  exact (List.append_inj hnames (h.1.trans h'.1.symm)).1

end JbodManager

end StardustFS
