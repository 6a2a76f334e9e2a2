import StardustFS.ParityIndex

/-! What the parity store holds after failures. Between the replacement of a chunk's file and that of
the index the two disagree, and a removal that fails is passed over: a call that is broken off there
leaves a store that its index misstates, except where there is nothing to misstate. -/

namespace StardustFS

open FsEncoding

namespace ParityStore

/-! ### What the store is to hold -/

/-- Every chunk of the index is there at its size, and the files are within the bytes counted. -/
structure Sound (s : ParityStore) : Prop where
  fetched : ∀ c info, s.index.get c = some info →
    ∃ data, s.fetch c info.owner = .ok data ∧ data.length = info.size
  within : chunkBytes s.dir ≤ s.usedBytes

/-- The same index and the same chunk files. -/
structure SameChunks (s s' : ParityStore) : Prop where
  index : s'.index = s.index
  files : ∀ name, IsChunkFile name → s'.dir.get name = s.dir.get name

/-- The index, its file and the files of the chunks agree. -/
structure Whole (load : Bytes → Option (Table ChunkId ChunkMeta)) (s : ParityStore) : Prop where
  valid : ∀ c info, s.index.get c = some info → validateChunkId c = true
  filed : ∀ c info, s.index.get c = some info → ∃ path data,
    chunkPath c = some path ∧ s.dir.get path = some data ∧ data.length = info.size
  apart : ∀ c c' info info', s.index.get c = some info → s.index.get c' = some info' →
    chunkPath c = chunkPath c' → c = c'
  listed : ∀ name data, IsChunkFile name → s.dir.get name = some data → data ≠ [] →
    ∃ c info, s.index.get c = some info ∧ chunkPath c = some name
  counted : chunkBytes s.dir = s.usedBytes
  saved : loadIndex load s.dir = s.index

section

variable {load : Bytes → Option (Table ChunkId ChunkMeta)} {s s' : ParityStore}

theorem SameChunks.refl (s : ParityStore) : SameChunks s s := ⟨rfl, fun _ _ => rfl⟩

theorem Whole.fetch_eq (h : Whole load s) {c : ChunkId} {info : ChunkMeta}
    (hentry : s.index.get c = some info) :
    ∃ data, s.fetch c info.owner = .ok data ∧ data.length = info.size := by
  obtain ⟨path, data, hpath, hfile, hlength⟩ := h.filed c info hentry
  refine ⟨data, ?_, hlength⟩
  simp [fetch, h.valid c info hentry, hentry, hpath, hfile]

theorem Whole.sound (h : Whole load s) : Sound s :=
  ⟨fun _ _ hentry => h.fetch_eq hentry, h.counted.le⟩

/-- A store is whole by its index, its chunk files and what is read back of its index. -/
theorem Whole.of_sameChunks (h : Whole load s) (hsame : SameChunks s s')
    (hsaved : loadIndex load s'.dir = s'.index) : Whole load s' := by
  refine ⟨fun c info hentry => ?_, fun c info hentry => ?_, fun c c' info info' hc hc' => ?_,
    fun name data hname hdata hne => ?_, ?_, hsaved⟩
  · exact h.valid c info (hsame.index ▸ hentry)
  · obtain ⟨path, data, hpath, hfile, hlength⟩ := h.filed c info (hsame.index ▸ hentry)
    exact ⟨path, data, hpath,
      (hsame.files path (isChunkFile_of_chunkPath hpath)).trans hfile, hlength⟩
  · exact h.apart c c' info info' (hsame.index ▸ hc) (hsame.index ▸ hc')
  · rw [hsame.files name hname] at hdata
    rw [hsame.index]
    exact h.listed name data hname hdata hne
  · rw [chunkBytes_congr hsame.files, h.counted, usedBytes, usedBytes, hsame.index]

theorem Whole.reopened (h : Whole load s) (maxBytes : Option Int) :
    Whole load (s.reopened load maxBytes) :=
  h.of_sameChunks ⟨h.saved, fun _ _ => rfl⟩ rfl

/-- A file of the directory that no chunk of the index names is empty. -/
theorem Whole.unlisted (h : Whole load s) {c : ChunkId} {path : FileNameBytes}
    (hpath : chunkPath c = some path) (hentry : s.index.get c = none)
    (hown : ∀ c' ∈ s.index.keys, chunkPath c' = chunkPath c → c' = c) :
    ((s.dir.get path).map List.length).getD 0 = 0 := by
  cases hfile : s.dir.get path with
  | none => rfl
  | some data =>
      by_contra hne
      have hdata : data ≠ [] := by
        rintro rfl
        exact hne rfl
      obtain ⟨c', info, hentry', hpath'⟩ :=
        h.listed path data (isChunkFile_of_chunkPath hpath) hfile hdata
      have hc := hown c' (Table.mem_keys_iff.mpr ⟨info, hentry'⟩) (hpath'.trans hpath.symm)
      rw [hc, hentry] at hentry'
      cases hentry'

/-- What lies in the file of a chunk is as long as the index says, nothing where it says nothing. -/
theorem Whole.length_file (h : Whole load s) {c : ChunkId} {path : FileNameBytes}
    (hpath : chunkPath c = some path)
    (hown : ∀ c' ∈ s.index.keys, chunkPath c' = chunkPath c → c' = c) :
    ((s.dir.get path).map List.length).getD 0 =
      ((s.index.get c).map ChunkMeta.size).getD 0 := by
  cases hentry : s.index.get c with
  | none => exact h.unlisted hpath hentry hown
  | some info =>
      obtain ⟨path', data, hpath', hfile, hlength⟩ := h.filed c info hentry
      rw [hpath, Option.some_inj] at hpath'
      rw [hpath', hfile]
      exact hlength

/-- **One chunk is changed**: its entry, its file, or both, as long as the two agree afterwards. An
entry that goes leaves no bytes behind. -/
theorem Whole.of_changed (h : Whole load s) {c : ChunkId} {path : FileNameBytes}
    (entry : Option ChunkMeta) (contents : Option Bytes) (hpath : chunkPath c = some path)
    (hown : ∀ c' ∈ s.index.keys, chunkPath c' = chunkPath c → c' = c)
    (hvalid : ∀ info, entry = some info → validateChunkId c = true)
    (hagree : ∀ info, entry = some info → ∃ data, contents = some data ∧ data.length = info.size)
    (hnone : entry = none → (contents.map List.length).getD 0 = 0)
    (hindex : ∀ c', s'.index.get c' = if c' = c then entry else s.index.get c')
    (hfiles : ∀ name, IsChunkFile name →
      s'.dir.get name = if name = path then contents else s.dir.get name)
    (hsaved : loadIndex load s'.dir = s'.index) : Whole load s' := by
  have hchunk := isChunkFile_of_chunkPath hpath
  have hkey : ∀ {c' info}, s.index.get c' = some info → c' ∈ s.index.keys := fun hget =>
    Table.mem_keys_iff.mpr ⟨_, hget⟩
  refine ⟨fun c' info hc' => ?_, fun c' info hc' => ?_, fun c₁ c₂ info₁ info₂ h₁ h₂ hpaths => ?_,
    fun name data hname hdata hne => ?_, ?_, hsaved⟩
  · rw [hindex] at hc'
    split_ifs at hc' with heq
    · exact heq ▸ hvalid info hc'
    · exact h.valid c' info hc'
  · rw [hindex] at hc'
    split_ifs at hc' with heq
    · obtain ⟨data, hdata, hlength⟩ := hagree info hc'
      refine ⟨path, data, heq ▸ hpath, ?_, hlength⟩
      rw [hfiles path hchunk, if_pos rfl, hdata]
    · obtain ⟨path', data, hpath', hfile, hlength⟩ := h.filed c' info hc'
      have hne : path' ≠ path := by
        rintro rfl
        exact heq (hown c' (hkey hc') (hpath'.trans hpath.symm))
      refine ⟨path', data, hpath', ?_, hlength⟩
      rw [hfiles path' (isChunkFile_of_chunkPath hpath'), if_neg hne, hfile]
  · rw [hindex] at h₁ h₂
    split_ifs at h₁ h₂ with heq₁ heq₂ heq₂
    · rw [heq₁, heq₂]
    · rw [heq₁] at hpaths ⊢
      exact (hown c₂ (hkey h₂) hpaths.symm).symm
    · rw [heq₂] at hpaths ⊢
      exact hown c₁ (hkey h₁) hpaths
    · exact h.apart c₁ c₂ info₁ info₂ h₁ h₂ hpaths
  · rw [hfiles name hname] at hdata
    split_ifs at hdata with heq
    · cases hentry : entry with
      | some info => exact ⟨c, info, by rw [hindex, if_pos rfl, hentry], heq ▸ hpath⟩
      | none =>
          have hempty := hnone hentry
          rw [hdata] at hempty
          exact absurd (List.length_eq_zero_iff.mp hempty) hne
    · obtain ⟨c', info, hc', hpath'⟩ := h.listed name data hname hdata hne
      have hnot : c' ≠ c := by
        rintro rfl
        rw [hpath, Option.some_inj] at hpath'
        exact heq hpath'.symm
      exact ⟨c', info, by rw [hindex, if_neg hnot, hc'], hpath'⟩
  · have hbytes := chunkBytes_add hchunk contents hfiles
    have hsum := Table.total_add_weightAt s.index s'.index (fun _ => ChunkMeta.size) c fun c' hc' => by
        rw [Table.weightAt, Table.weightAt, hindex, if_neg hc']
    have hold := h.length_file hpath hown
    have hnew : (contents.map List.length).getD 0 = (entry.map ChunkMeta.size).getD 0 := by
      cases hentry : entry with
      | none => exact hnone hentry
      | some info =>
          obtain ⟨data, hdata, hlength⟩ := hagree info hentry
          rw [hdata]
          exact hlength
    have hcounted := h.counted
    rw [Table.weightAt, Table.weightAt, hindex, if_pos rfl] at hsum
    simp only [usedBytes, Table.total] at *
    omega

/-- The file of a kept chunk is its own. -/
theorem Whole.own (h : Whole load s) {c : ChunkId} {info : ChunkMeta}
    (hentry : s.index.get c = some info) :
    ∀ c' ∈ s.index.keys, chunkPath c' = chunkPath c → c' = c := by
  intro c' hc' hpaths
  obtain ⟨info', hentry'⟩ := Table.mem_keys_iff.mp hc'
  exact h.apart c' c info' info hentry' hentry hpaths

end

/-! ### The calls -/

/-- The store with the chunk in its file and in its index, the index not saved yet. -/
def shelved (s : ParityStore) (c : ChunkId) (u : UserId) (data : Bytes) (path : FileNameBytes) :
    ParityStore :=
  { s with dir := writeReplacing s.dir path data, index := s.index.put c ⟨u, data.length⟩ }

/-- The store without the chunk, the index not saved yet. -/
def dropped (s : ParityStore) (c : ChunkId) (path : FileNameBytes) : ParityStore :=
  { s with
    dir := s.dir.deleteWhere fun name _ => name = path
    index := s.index.deleteWhere fun id _ => id = c }

/-- A store that breaks off while it replaces the index. -/
def cutSaving (s : ParityStore) (cut : ReplaceCut) : ParityStore :=
  { s with dir := cutReplacing s.dir indexName (s.dump s.index) cut }

/-- A store is refused at once, broken off or not, or it passes its checks. -/
theorem storeUntil_cases (s : ParityStore) (c : ChunkId) (u : UserId) (data : Bytes) :
    (∃ e, s.store c u data = (.error e, s) ∧
      (∀ point, s.storeUntil point c u data = (some (.error e), s)) ∧
      (s.refusal c u data.length = none → chunkPath c = none)) ∨
    ∃ path, s.refusal c u data.length = none ∧ chunkPath c = some path ∧
      s.store c u data = (.ok (), (s.shelved c u data path).saveIndex) ∧
      (∀ cut, s.storeUntil (.chunkFile cut) c u data =
        (none, { s with dir := cutReplacing s.dir path data cut })) ∧
      ∀ cut, s.storeUntil (.indexFile cut) c u data =
        (none, (s.shelved c u data path).cutSaving cut) := by
  unfold store storeUntil
  cases hrefused : s.refusal c u data.length with
  | some e =>
      left
      exact ⟨e, rfl, fun _ => rfl, fun h => by cases h⟩
  | none =>
      cases hpath : chunkPath c with
      | none =>
          left
          exact ⟨.valueError, rfl, fun _ => rfl, fun _ => rfl⟩
      | some path =>
          right
          exact ⟨path, rfl, rfl, rfl, fun _ => rfl, fun _ => rfl⟩

/-- A deletion finds nothing to do, broken off or not, or a chunk of the requester. -/
theorem deleteUntil_cases {load : Bytes → Option (Table ChunkId ChunkMeta)} {s : ParityStore}
    (h : Whole load s) (c : ChunkId) (u : UserId) :
    (∃ r, s.delete c u = (r, s) ∧
      (∀ point broken, s.deleteUntil point broken c u = (some r, s)) ∧
      ∀ info, s.index.get c = some info → info.owner ≠ u) ∨
    ∃ info path, s.index.get c = some info ∧ info.owner = u ∧ chunkPath c = some path ∧
      s.delete c u = (.ok (), (s.dropped c path).saveIndex) ∧
      s.deleteUntil .removing .raises c u =
        (some (.ok ()), { s with index := s.index.deleteWhere fun id _ => id = c }.saveIndex) ∧
      (∀ maxBytes, s.deleteUntil .removing (.dies maxBytes) c u = (none, s)) ∧
      ∀ cut broken, s.deleteUntil (.indexFile cut) broken c u =
        (none, (s.dropped c path).cutSaving cut) := by
  cases hentry : s.index.get c with
  | none =>
      left
      cases hvalid : validateChunkId c with
      | false =>
          refine ⟨.error .valueError, ?_, fun point broken => ?_, fun info hinfo => by cases hinfo⟩
          · simp [delete, hvalid]
          · simp [deleteUntil, hvalid]
      | true =>
          refine ⟨.ok (), ?_, fun point broken => ?_, fun info hinfo => by cases hinfo⟩
          · simp [delete, hvalid, hentry]
          · simp [deleteUntil, hvalid, hentry]
  | some info =>
      have hvalid := h.valid c info hentry
      by_cases howner : info.owner = u
      · right
        obtain ⟨path, data, hpath, -, -⟩ := h.filed c info hentry
        refine ⟨info, path, rfl, howner, hpath, ?_, ?_, fun maxBytes => ?_, fun cut broken => ?_⟩
        · simp [delete, hvalid, hentry, howner, hpath, dropped]
        · simp [deleteUntil, hvalid, hentry, howner, hpath]
        · simp [deleteUntil, hvalid, hentry, howner, hpath]
        · simp [deleteUntil, hvalid, hentry, howner, hpath, dropped, cutSaving]
      · left
        refine ⟨.error .permission, ?_, fun point broken => ?_, fun info' hinfo => ?_⟩
        · simp [delete, hvalid, hentry, howner]
        · simp [deleteUntil, hvalid, hentry, howner]
        · rw [Option.some_inj] at hinfo
          exact hinfo ▸ howner

section

variable {load : Bytes → Option (Table ChunkId ChunkMeta)} {s : ParityStore} {c : ChunkId} {u : UserId}
  {data : Bytes} {path name : FileNameBytes} {cut : ReplaceCut}

theorem files_saveIndex (hname : IsChunkFile name) : s.saveIndex.dir.get name = s.dir.get name :=
  get_writeReplacing_index _ _ hname

theorem files_cutSaving (hname : IsChunkFile name) :
    (s.cutSaving cut).dir.get name = s.dir.get name :=
  get_cutReplacing _ _ _ _ hname.not_temporary

theorem files_shelved (hname : IsChunkFile name) :
    (s.shelved c u data path).dir.get name = if name = path then some data else s.dir.get name :=
  get_writeReplacing _ _ _ _ hname.not_temporary

theorem files_dropped :
    (s.dropped c path).dir.get name = if name = path then none else s.dir.get name := by
  show (s.dir.deleteWhere _).get name = _
  rw [Table.get_deleteWhere]
  by_cases h : name = path
  · cases s.dir.get name <;> simp [h]
  · cases s.dir.get name <;> simp [h]

theorem index_shelved (path : FileNameBytes) (c' : ChunkId) : (s.shelved c u data path).index.get c' =
    if c' = c then some ⟨u, data.length⟩ else s.index.get c' :=
  Table.get_put _ _ _ _

theorem get_deleteWhere_key (index : Table ChunkId ChunkMeta) (c c' : ChunkId) :
    (index.deleteWhere fun id _ => id = c).get c' = if c' = c then none else index.get c' := by
  rw [Table.get_deleteWhere]
  by_cases h : c' = c
  · cases index.get c' <;> simp [h]
  · cases index.get c' <;> simp [h]

theorem loadIndex_saveIndex (h : load (s.dump s.index) = some s.index) :
    loadIndex load s.saveIndex.dir = s.saveIndex.index :=
  loadIndex_writeReplacing h s.dir

theorem loadIndex_cutSaving : loadIndex load (s.cutSaving cut).dir = loadIndex load s.dir :=
  loadIndex_of_get (get_cutReplacing _ _ _ _ not_temporary_indexName)

theorem loadIndex_shelved (hpath : chunkPath c = some path) :
    loadIndex load (s.shelved c u data path).dir = loadIndex load s.dir :=
  loadIndex_of_get (get_indexName_writeReplacing _ (isChunkFile_of_chunkPath hpath) _)

theorem loadIndex_dropped (hpath : chunkPath c = some path) :
    loadIndex load (s.dropped c path).dir = loadIndex load s.dir := by
  apply loadIndex_of_get
  rw [files_dropped, if_neg (isChunkFile_of_chunkPath hpath).ne_indexName.symm]

end

/-- What the text of an index is read back as: the index, where every chunk of it has a file. -/
def ReadsBack (dump : Table ChunkId ChunkMeta → Bytes)
    (load : Bytes → Option (Table ChunkId ChunkMeta)) : Prop :=
  ∀ index : Table ChunkId ChunkMeta, (∀ c ∈ index.keys, chunkPath c ≠ none) →
    load (dump index) = some index

section

variable {load : Bytes → Option (Table ChunkId ChunkMeta)} {s : ParityStore} {c : ChunkId} {u : UserId}
  {data : Bytes} {path : FileNameBytes}

theorem Whole.named (h : Whole load s) : ∀ c ∈ s.index.keys, chunkPath c ≠ none := by
  intro c hc
  obtain ⟨info, hentry⟩ := Table.mem_keys_iff.mp hc
  obtain ⟨path, data, hpath, -, -⟩ := h.filed c info hentry
  simp [hpath]

/-- An accepted store. -/
theorem Whole.stored (h : Whole load s) (hread : ReadsBack s.dump load)
    (hchecks : s.refusal c u data.length = none) (hpath : chunkPath c = some path)
    (hown : ∀ c' ∈ s.index.keys, chunkPath c' = chunkPath c → c' = c) :
    Whole load (s.shelved c u data path).saveIndex := by
  obtain ⟨hvalid, -, -⟩ := refusal_eq_none_iff.mp hchecks
  have hnamed : ∀ c' ∈ (s.shelved c u data path).index.keys, chunkPath c' ≠ none := by
    intro c' hc'
    obtain ⟨info, hentry⟩ := Table.mem_keys_iff.mp hc'
    rw [index_shelved] at hentry
    split_ifs at hentry with heq
    · simp [heq, hpath]
    · exact h.named c' (Table.mem_keys_iff.mpr ⟨info, hentry⟩)
  apply h.of_changed (some ⟨u, data.length⟩) (some data) hpath hown
  · exact fun _ _ => hvalid
  · intro info hinfo
    rw [Option.some_inj] at hinfo
    exact ⟨data, rfl, by rw [← hinfo]⟩
  · intro hnone
    cases hnone
  · exact index_shelved path
  · intro name hname
    rw [files_saveIndex hname, files_shelved hname]
  · exact loadIndex_saveIndex (hread _ hnamed)

/-- An accepted deletion, and one whose removal fails on an empty file. -/
theorem Whole.deleted {s' : ParityStore} {info : ChunkMeta} {contents : Option Bytes}
    (h : Whole load s) (hread : ReadsBack s.dump load) (hentry : s.index.get c = some info)
    (hpath : chunkPath c = some path) (hdump : s'.dump = s.dump)
    (hindex : s'.index = s.index.deleteWhere fun id _ => id = c)
    (hfiles : ∀ name, IsChunkFile name →
      s'.dir.get name = if name = path then contents else s.dir.get name)
    (hcontents : (contents.map List.length).getD 0 = 0) : Whole load s'.saveIndex := by
  have hget : ∀ c', s'.index.get c' = if c' = c then none else s.index.get c' := by
    intro c'
    rw [hindex, get_deleteWhere_key]
  have hnamed : ∀ c' ∈ s'.index.keys, chunkPath c' ≠ none := by
    intro c' hc'
    obtain ⟨info', hentry'⟩ := Table.mem_keys_iff.mp hc'
    rw [hget] at hentry'
    split_ifs at hentry'
    exact h.named c' (Table.mem_keys_iff.mpr ⟨info', hentry'⟩)
  apply h.of_changed none contents hpath (h.own hentry)
  · intro info' hinfo
    cases hinfo
  · intro info' hinfo
    cases hinfo
  · exact fun _ => hcontents
  · exact hget
  · intro name hname
    rw [files_saveIndex hname, hfiles name hname]
  · exact loadIndex_saveIndex (hdump ▸ hread _ hnamed)

/-! ### Where files and index disagree -/

/-- The chunk was there with this content where a store that raised at the index left no trace. -/
theorem SameChunks.of_shelved {cut : ReplaceCut} (hpath : chunkPath c = some path)
    (h : SameChunks s ((s.shelved c u data path).cutSaving cut)) :
    s.index.get c = some ⟨u, data.length⟩ ∧ s.dir.get path = some data := by
  have hchunk := isChunkFile_of_chunkPath hpath
  have hentry : (s.shelved c u data path).index.get c = some ⟨u, data.length⟩ := by
    rw [index_shelved, if_pos rfl]
  have hfile := h.files path hchunk
  rw [files_cutSaving hchunk, files_shelved hchunk, if_pos rfl] at hfile
  refine ⟨?_, hfile.symm⟩
  rw [← h.index]
  exact hentry

/-- The new file is as long as the old entry says where the store is sound that the process left
behind. -/
theorem Whole.length_of_shelved {cut : ReplaceCut} {maxBytes : Option Int} (h : Whole load s)
    (hpath : chunkPath c = some path)
    (hown : ∀ c' ∈ s.index.keys, chunkPath c' = chunkPath c → c' = c)
    (hsound : Sound (((s.shelved c u data path).cutSaving cut).reopened load maxBytes)) :
    ((s.index.get c).map ChunkMeta.size).getD 0 = data.length := by
  have hchunk := isChunkFile_of_chunkPath hpath
  have hindex : (((s.shelved c u data path).cutSaving cut).reopened load maxBytes).index =
      s.index := by
    rw [ParityStore.reopened, loadIndex_cutSaving, loadIndex_shelved hpath, h.saved]
  have hfiles : ∀ name, IsChunkFile name →
      (((s.shelved c u data path).cutSaving cut).reopened load maxBytes).dir.get name =
        if name = path then some data else s.dir.get name := by
    intro name hname
    exact (files_cutSaving hname).trans (files_shelved hname)
  cases hentry : s.index.get c with
  | some info =>
      obtain ⟨data', hfetch, hlength⟩ := hsound.fetched c info (by rw [hindex, hentry])
      rw [fetch, h.valid c info hentry, hindex, hentry, hpath] at hfetch
      simp only [Bool.not_true, Bool.false_eq_true, if_false, bne_self_eq_false,
        hfiles path hchunk, if_true, Except.ok.injEq] at hfetch
      rw [hfetch]
      exact hlength.symm
  | none =>
      have hbytes := chunkBytes_add hchunk (some data) hfiles
      have hwithin := hsound.within
      have hempty := h.unlisted hpath hentry hown
      have hcounted := h.counted
      rw [usedBytes, hindex] at hwithin
      simp only [usedBytes, Option.map_some, Option.map_none, Option.getD_some,
        Option.getD_none] at *
      omega

/-- The chunk was empty where its file may stay although its entry is gone. -/
theorem Whole.size_of_unlisted {info : ChunkMeta} (h : Whole load s)
    (hentry : s.index.get c = some info)
    (hwithin : chunkBytes { s with index := s.index.deleteWhere fun id _ => id = c }.saveIndex.dir ≤
      { s with index := s.index.deleteWhere fun id _ => id = c }.saveIndex.usedBytes) :
    info.size = 0 := by
  have hbytes : chunkBytes { s with index := s.index.deleteWhere fun id _ => id = c }.saveIndex.dir =
      chunkBytes s.dir := chunkBytes_congr fun name hname => files_saveIndex hname
  have hsum := Table.total_add_weightAt s.index (s.index.deleteWhere fun id _ => id = c)
    (fun _ => ChunkMeta.size) c fun c' hc' => by
      rw [Table.weightAt, Table.weightAt, get_deleteWhere_key, if_neg hc']
  rw [Table.weightAt, Table.weightAt, get_deleteWhere_key, if_pos rfl, hentry] at hsum
  have hcounted := h.counted
  simp only [usedBytes, saveIndex, Table.total, Option.map_some, Option.map_none, Option.getD_some,
    Option.getD_none] at *
  omega

theorem not_sameChunks_dropped {cut : ReplaceCut} {info : ChunkMeta}
    (hentry : s.index.get c = some info) :
    ¬ SameChunks s ((s.dropped c path).cutSaving cut) := by
  intro hsame
  have hgone : (s.dropped c path).index.get c = none := by
    rw [dropped, get_deleteWhere_key, if_pos rfl]
  have hindex : (s.dropped c path).index = s.index := hsame.index
  rw [hindex, hentry] at hgone
  cases hgone

/-- The entry is read back and its file is gone. -/
theorem Whole.not_sound_dropped {cut : ReplaceCut} {maxBytes : Option Int} {info : ChunkMeta}
    (h : Whole load s) (hentry : s.index.get c = some info) (hpath : chunkPath c = some path) :
    ¬ Sound (((s.dropped c path).cutSaving cut).reopened load maxBytes) := by
  intro hsound
  have hindex : (((s.dropped c path).cutSaving cut).reopened load maxBytes).index = s.index := by
    rw [ParityStore.reopened, loadIndex_cutSaving, loadIndex_dropped hpath, h.saved]
  have hgone : (((s.dropped c path).cutSaving cut).reopened load maxBytes).dir.get path = none := by
    refine (files_cutSaving (isChunkFile_of_chunkPath hpath)).trans ?_
    rw [files_dropped, if_pos rfl]
  obtain ⟨data, hfetch, -⟩ := hsound.fetched c info (by rw [hindex, hentry])
  rw [fetch, h.valid c info hentry, hindex, hentry, hpath] at hfetch
  simp [hgone] at hfetch

end

end ParityStore

/-! ### Runs -/

/-- A call, whole or broken off, or a restart of the process. -/
inductive ParityEvent where
  | store (chunkId : ChunkId) (user : UserId) (data : Bytes)
      (broken : Option (ParityStore.StorePoint × ParityStore.Break))
  | delete (chunkId : ChunkId) (user : UserId)
      (broken : Option (ParityStore.DeletePoint × ParityStore.Break))
  | setMaxBytes (maxBytes : Option Int)
  | reopen (maxBytes : Option Int)

/-- A parity store, and the store before the last call where that raised. -/
structure Keeper where
  parity : ParityStore
  raisedFrom : Option ParityStore := none

namespace Keeper

open ParityStore

/-- A call without a result has raised. -/
def settle (before : ParityStore) : Option (Except ParityError Unit) × ParityStore → Keeper
  | (some (.ok _), s) => ⟨s, none⟩
  | (_, s) => ⟨s, some before⟩

/-- The death of the process leaves what is on the disk. -/
def afterBreak (load : Bytes → Option (Table ChunkId ChunkMeta)) (before : ParityStore) :
    Break → Option (Except ParityError Unit) × ParityStore → Keeper
  | .dies maxBytes, (none, s) => ⟨s.reopened load maxBytes, none⟩
  | _, outcome => settle before outcome

def step (load : Bytes → Option (Table ChunkId ChunkMeta)) (k : Keeper) :
    ParityEvent → Option Keeper
  | .store c u data none =>
      let (result, s) := k.parity.store c u data
      some (settle k.parity (some result, s))
  | .store c u data (some (point, broken)) =>
      some (afterBreak load k.parity broken (k.parity.storeUntil point c u data))
  | .delete c u none =>
      let (result, s) := k.parity.delete c u
      some (settle k.parity (some result, s))
  | .delete c u (some (point, broken)) =>
      some (afterBreak load k.parity broken (k.parity.deleteUntil point broken c u))
  | .setMaxBytes maxBytes => some ⟨k.parity.setMaxBytes maxBytes, none⟩
  | .reopen maxBytes => some ⟨k.parity.reopened load maxBytes, none⟩

/-- A store on a new directory. -/
def first (dump : Table ChunkId ChunkMeta → Bytes) (maxBytes : Option Int) : Keeper :=
  { parity := ParityStore.opened dump Table.empty maxBytes }

/-- **What is to hold after every call.** The running store and the one opened on its directory are
sound, and a call that raised has left both as they were. -/
structure Survives (load : Bytes → Option (Table ChunkId ChunkMeta)) (k : Keeper) : Prop where
  running : Sound k.parity
  reopened : ∀ maxBytes, Sound (k.parity.reopened load maxBytes)
  unchanged : ∀ before, k.raisedFrom = some before → SameChunks before k.parity ∧
    ∀ maxBytes, SameChunks before (k.parity.reopened load maxBytes)

/-- No store replaces the file of another chunk. -/
def KeepsApart (k : Keeper) : ParityEvent → Prop
  | .store _ _ _ (some (.chunkFile _, _)) => True
  | .store c u data _ => k.parity.refusal c u data.length = none →
      ∀ c' ∈ k.parity.index.keys, chunkPath c' = chunkPath c → c' = c
  | _ => True

/-- The call is not broken off where files and index disagree, or there is nothing they could
disagree on. -/
def Spared (k : Keeper) : ParityEvent → Prop
  | .store c u data (some (.indexFile _, .raises)) =>
      k.parity.refusal c u data.length = none → ∀ path, chunkPath c = some path →
        k.parity.index.get c = some ⟨u, data.length⟩ ∧ k.parity.dir.get path = some data
  | .store c u data (some (.indexFile _, .dies _)) =>
      k.parity.refusal c u data.length = none → ∀ path, chunkPath c = some path →
        ((k.parity.index.get c).map ChunkMeta.size).getD 0 = data.length
  | .delete c u (some (.removing, .raises)) =>
      ∀ info, k.parity.index.get c = some info → info.owner = u → info.size = 0
  | .delete c u (some (.indexFile _, _)) =>
      ∀ info, k.parity.index.get c = some info → info.owner ≠ u
  | _ => True

/-- The invariant of the runs. -/
structure Kept (dump : Table ChunkId ChunkMeta → Bytes)
    (load : Bytes → Option (Table ChunkId ChunkMeta)) (k : Keeper) : Prop where
  whole : Whole load k.parity
  dumps : k.parity.dump = dump
  unchanged : ∀ before, k.raisedFrom = some before → SameChunks before k.parity

section

variable {dump : Table ChunkId ChunkMeta → Bytes}
  {load : Bytes → Option (Table ChunkId ChunkMeta)} {k : Keeper}

theorem kept_first (maxBytes : Option Int) : Kept dump load (first dump maxBytes) := by
  refine ⟨⟨?_, ?_, ?_, ?_, ?_, ?_⟩, ?_, ?_⟩
  · intro c info h
    cases h
  · intro c info h
    cases h
  · intro c c' info info' h
    cases h
  · intro name data _ h
    cases h
  · rfl
  · rfl
  · rfl
  · intro before h
    cases h

theorem Kept.survives (h : Kept dump load k) : Survives load k := by
  refine ⟨h.whole.sound, fun maxBytes => (h.whole.reopened maxBytes).sound,
    fun before hbefore => ⟨h.unchanged before hbefore, fun maxBytes => ?_⟩⟩
  have hsame := h.unchanged before hbefore
  exact ⟨h.whole.saved.trans hsame.index, hsame.files⟩

theorem settle_error (before : ParityStore) (e : ParityError) (s : ParityStore) :
    settle before (some (.error e), s) = ⟨s, some before⟩ := rfl

/-- A call that ended at once left the store as it was, broken off or not. -/
theorem Kept.settled (h : Kept dump load k) (r : Except ParityError Unit) :
    Kept dump load (settle k.parity (some r, k.parity)) := by
  cases r with
  | ok _ => exact ⟨h.whole, h.dumps, fun before hbefore => by cases hbefore⟩
  | error e =>
      refine ⟨h.whole, h.dumps, fun before hbefore => ?_⟩
      rw [settle_error, Option.some_inj] at hbefore
      exact hbefore ▸ SameChunks.refl _

theorem afterBreak_of_ended (before : ParityStore) (broken : Break) (r : Except ParityError Unit)
    (s : ParityStore) : afterBreak load before broken (some r, s) = settle before (some r, s) := by
  cases broken <;> rfl

/-- A store that is broken off before the file of the chunk is replaced. -/
theorem Kept.unshelved (h : Kept dump load k) (path : FileNameBytes) (data : Bytes)
    (cut : ReplaceCut) (broken : Break) :
    Kept dump load (afterBreak load k.parity broken
      (none, { k.parity with dir := cutReplacing k.parity.dir path data cut })) := by
  have hsame : SameChunks k.parity
      { k.parity with dir := cutReplacing k.parity.dir path data cut } :=
    ⟨rfl, fun name hname => get_cutReplacing _ _ _ _ hname.not_temporary⟩
  have hwhole := h.whole.of_sameChunks hsame
    ((loadIndex_of_get (get_cutReplacing _ _ _ _ not_temporary_indexName)).trans h.whole.saved)
  cases broken with
  | raises =>
      refine ⟨hwhole, h.dumps, fun before hbefore => ?_⟩
      rw [← Option.some_inj.mp hbefore]
      exact hsame
  | dies maxBytes =>
      exact ⟨hwhole.reopened maxBytes, h.dumps, fun before hbefore => by cases hbefore⟩

variable {c : ChunkId} {u : UserId} {data : Bytes} {path : FileNameBytes} {cut : ReplaceCut}

theorem Kept.stored (h : Kept dump load k) (hread : ReadsBack dump load)
    (hchecks : k.parity.refusal c u data.length = none) (hpath : chunkPath c = some path)
    (hown : ∀ c' ∈ k.parity.index.keys, chunkPath c' = chunkPath c → c' = c) :
    Kept dump load ⟨(k.parity.shelved c u data path).saveIndex, none⟩ := by
  refine ⟨h.whole.stored ?_ hchecks hpath hown, h.dumps, fun before hbefore => by cases hbefore⟩
  rw [h.dumps]
  exact hread

/-- The index could not be replaced, and the chunk is as it was. -/
theorem Kept.shelved_raises (h : Kept dump load k) (hpath : chunkPath c = some path)
    (hentry : k.parity.index.get c = some ⟨u, data.length⟩)
    (hfile : k.parity.dir.get path = some data) :
    Kept dump load (afterBreak load k.parity .raises
      (none, (k.parity.shelved c u data path).cutSaving cut)) := by
  have hsame : SameChunks k.parity ((k.parity.shelved c u data path).cutSaving cut) := by
    refine ⟨Table.put_of_get hentry, fun name hname => ?_⟩
    rw [files_cutSaving hname, files_shelved hname]
    split_ifs with heq
    · rw [heq, hfile]
    · rfl
  refine ⟨h.whole.of_sameChunks hsame ?_, h.dumps, fun before hbefore => ?_⟩
  · have hloaded : loadIndex load (k.parity.shelved c u data path).dir = k.parity.index :=
      (loadIndex_shelved hpath).trans h.whole.saved
    calc _ = loadIndex load (k.parity.shelved c u data path).dir := loadIndex_cutSaving
      _ = k.parity.index := hloaded
      _ = _ := hsame.index.symm
  · rw [← Option.some_inj.mp hbefore]
    exact hsame

/-- The process died before the index was replaced, and the file is as long as it was. -/
theorem Kept.shelved_dies (h : Kept dump load k) (maxBytes : Option Int)
    (hpath : chunkPath c = some path)
    (hown : ∀ c' ∈ k.parity.index.keys, chunkPath c' = chunkPath c → c' = c)
    (hlength : ((k.parity.index.get c).map ChunkMeta.size).getD 0 = data.length) :
    Kept dump load (afterBreak load k.parity (.dies maxBytes)
      (none, (k.parity.shelved c u data path).cutSaving cut)) := by
  refine ⟨h.whole.of_changed (k.parity.index.get c) (some data) hpath hown ?_ ?_ ?_ ?_ ?_ rfl,
    h.dumps, fun before hbefore => by cases hbefore⟩
  · exact fun info hinfo => h.whole.valid c info hinfo
  · intro info hinfo
    rw [hinfo] at hlength
    exact ⟨data, rfl, hlength.symm⟩
  · intro hnone
    rw [hnone] at hlength
    exact hlength.symm
  · intro c'
    have hloaded : (((k.parity.shelved c u data path).cutSaving cut).reopened load maxBytes).index =
        k.parity.index := by
      rw [ParityStore.reopened, loadIndex_cutSaving, loadIndex_shelved hpath, h.whole.saved]
    show (((k.parity.shelved c u data path).cutSaving cut).reopened load maxBytes).index.get c' = _
    rw [hloaded]
    split_ifs with heq
    · rw [heq]
    · rfl
  · intro name hname
    show ((k.parity.shelved c u data path).cutSaving cut).dir.get name = _
    rw [files_cutSaving hname, files_shelved hname]

theorem Kept.deleted {s' : ParityStore} {info : ChunkMeta} {contents : Option Bytes}
    (h : Kept dump load k) (hread : ReadsBack dump load)
    (hentry : k.parity.index.get c = some info) (hpath : chunkPath c = some path)
    (hdump : s'.dump = k.parity.dump)
    (hindex : s'.index = k.parity.index.deleteWhere fun id _ => id = c)
    (hfiles : ∀ name, IsChunkFile name →
      s'.dir.get name = if name = path then contents else k.parity.dir.get name)
    (hcontents : (contents.map List.length).getD 0 = 0) : Kept dump load ⟨s'.saveIndex, none⟩ := by
  refine ⟨h.whole.deleted ?_ hentry hpath hdump hindex hfiles hcontents, hdump.trans h.dumps,
    fun before hbefore => by cases hbefore⟩
  rw [h.dumps]
  exact hread

/-- **One event** that meets the conditions keeps the invariant. -/
theorem kept_step {k' : Keeper} {e : ParityEvent} (hread : ReadsBack dump load)
    (h : Kept dump load k) (hapart : k.KeepsApart e) (hok : k.Spared e)
    (hstep : step load k e = some k') : Kept dump load k' := by
  cases e with
  | store c u data broken =>
      rcases k.parity.storeUntil_cases c u data with ⟨e, hwhole, huntil, -⟩ |
        ⟨path, hchecks, hpath, hwhole, hchunk, hindex⟩
      · cases broken with
        | none =>
            simp only [step, hwhole, Option.some_inj] at hstep
            exact hstep ▸ h.settled _
        | some b =>
            obtain ⟨point, broken⟩ := b
            simp only [step, huntil, afterBreak_of_ended, Option.some_inj] at hstep
            exact hstep ▸ h.settled _
      · cases broken with
        | none =>
            simp only [step, hwhole, Option.some_inj] at hstep
            exact hstep ▸ h.stored hread hchecks hpath (hapart hchecks)
        | some b =>
            obtain ⟨point, broken⟩ := b
            cases point with
            | chunkFile cut =>
                simp only [step, hchunk, Option.some_inj] at hstep
                exact hstep ▸ h.unshelved path data cut broken
            | indexFile cut =>
                simp only [step, hindex, Option.some_inj] at hstep
                subst hstep
                cases broken with
                | raises =>
                    obtain ⟨hentry, hfile⟩ := hok hchecks path hpath
                    exact h.shelved_raises hpath hentry hfile
                | dies maxBytes =>
                    exact h.shelved_dies maxBytes hpath (hapart hchecks) (hok hchecks path hpath)
  | delete c u broken =>
      rcases deleteUntil_cases h.whole c u with ⟨r, hwhole, huntil, -⟩ |
        ⟨info, path, hentry, howner, hpath, hwhole, hraises, hdies, hindex⟩
      · cases broken with
        | none =>
            simp only [step, hwhole, Option.some_inj] at hstep
            exact hstep ▸ h.settled _
        | some b =>
            obtain ⟨point, broken⟩ := b
            simp only [step, huntil, afterBreak_of_ended, Option.some_inj] at hstep
            exact hstep ▸ h.settled _
      · cases broken with
        | none =>
            simp only [step, hwhole, Option.some_inj] at hstep
            exact hstep ▸ h.deleted hread hentry hpath rfl rfl (fun _ _ => files_dropped) rfl
        | some b =>
            obtain ⟨point, broken⟩ := b
            cases point with
            | removing =>
                cases broken with
                | raises =>
                    simp only [step, hraises, afterBreak_of_ended, Option.some_inj] at hstep
                    have hempty : ((k.parity.dir.get path).map List.length).getD 0 = 0 := by
                      rw [h.whole.length_file hpath (h.whole.own hentry), hentry]
                      exact hok info hentry howner
                    refine hstep ▸ h.deleted hread hentry hpath rfl rfl (fun name _ => ?_) hempty
                    split_ifs with heq
                    · rw [heq]
                    · rfl
                | dies maxBytes =>
                    simp only [step, hdies, Option.some_inj] at hstep
                    subst hstep
                    exact ⟨h.whole.reopened maxBytes, h.dumps, fun before hbefore => by
                      cases hbefore⟩
            | indexFile cut => exact absurd howner (hok info hentry)
  | setMaxBytes maxBytes =>
      rw [step, Option.some_inj] at hstep
      subst hstep
      refine ⟨h.whole.of_sameChunks ⟨rfl, fun _ _ => rfl⟩ h.whole.saved, h.dumps,
        fun before hbefore => by cases hbefore⟩
  | reopen maxBytes =>
      rw [step, Option.some_inj] at hstep
      subst hstep
      exact ⟨h.whole.reopened maxBytes, h.dumps, fun before hbefore => by cases hbefore⟩

/-- **One event** that is not spared leaves a store that does not hold what it should. -/
theorem not_survives_step {k' : Keeper} {e : ParityEvent} (h : Kept dump load k)
    (hapart : k.KeepsApart e) (hbad : ¬ k.Spared e) (hstep : step load k e = some k') :
    ¬ Survives load k' := by
  intro hsurvives
  cases e with
  | store c u data broken =>
      cases broken with
      | none => exact hbad trivial
      | some b =>
          obtain ⟨point, broken⟩ := b
          cases point with
          | chunkFile cut => exact hbad trivial
          | indexFile cut =>
              rcases k.parity.storeUntil_cases c u data with ⟨e, -, -, hnopath⟩ |
                ⟨path, hchecks, hpath, -, -, hindex⟩
              · have hvacuous : ∀ P : FileNameBytes → Prop,
                    k.parity.refusal c u data.length = none →
                      ∀ path, chunkPath c = some path → P path := by
                  intro P hchecks path hpath
                  rw [hnopath hchecks] at hpath
                  cases hpath
                cases broken with
                | raises => exact hbad (hvacuous _)
                | dies maxBytes => exact hbad (hvacuous _)
              · simp only [step, hindex, Option.some_inj] at hstep
                subst hstep
                have honly : ∀ P : FileNameBytes → Prop, P path →
                    k.parity.refusal c u data.length = none →
                      ∀ path, chunkPath c = some path → P path := by
                  intro P hP _ path' hpath'
                  rw [hpath, Option.some_inj] at hpath'
                  exact hpath' ▸ hP
                cases broken with
                | raises =>
                    obtain ⟨hsame, -⟩ := hsurvives.unchanged k.parity rfl
                    exact hbad (honly _ (SameChunks.of_shelved hpath hsame))
                | dies maxBytes =>
                    refine hbad (honly (fun _ => _) ?_)
                    exact h.whole.length_of_shelved hpath (hapart hchecks) hsurvives.running
  | delete c u broken =>
      cases broken with
      | none => exact hbad trivial
      | some b =>
          obtain ⟨point, broken⟩ := b
          rcases deleteUntil_cases h.whole c u with ⟨r, -, -, hforeign⟩ |
            ⟨info, path, hentry, howner, hpath, -, hraises, hdies, hindex⟩
          · cases point with
            | removing =>
                cases broken with
                | raises => exact hbad fun info hentry howner => absurd howner (hforeign info hentry)
                | dies maxBytes => exact hbad trivial
            | indexFile cut => exact hbad hforeign
          · cases point with
            | removing =>
                cases broken with
                | raises =>
                    simp only [step, hraises, afterBreak_of_ended, Option.some_inj] at hstep
                    subst hstep
                    refine hbad fun info' hentry' _ => ?_
                    rw [hentry, Option.some_inj] at hentry'
                    rw [← hentry']
                    exact h.whole.size_of_unlisted hentry hsurvives.running.within
                | dies maxBytes => exact hbad trivial
            | indexFile cut =>
                simp only [step, hindex, Option.some_inj] at hstep
                subst hstep
                cases broken with
                | raises =>
                    obtain ⟨hsame, -⟩ := hsurvives.unchanged k.parity rfl
                    exact not_sameChunks_dropped hentry hsame
                | dies maxBytes =>
                    exact h.whole.not_sound_dropped hentry hpath hsurvives.running
  | setMaxBytes maxBytes => exact hbad trivial
  | reopen maxBytes => exact hbad trivial

theorem exists_step (k : Keeper) (e : ParityEvent) : ∃ k', step load k e = some k' := by
  cases e with
  | store c u data broken =>
      cases broken with
      | none => exact ⟨_, rfl⟩
      | some b => exact ⟨_, rfl⟩
  | delete c u broken =>
      cases broken with
      | none => exact ⟨_, rfl⟩
      | some b => exact ⟨_, rfl⟩
  | setMaxBytes maxBytes => exact ⟨_, rfl⟩
  | reopen maxBytes => exact ⟨_, rfl⟩

end

theorem readsBack_index : ReadsBack dumpIndex readIndex := fun _ h => readIndex_dumpIndex h

/-- **The store survives its failures** exactly in the runs in which no call is broken off between the
file of a chunk and the index, or fails to remove the file, unless there is nothing the two could
disagree on: a store that raises there writes what is there already, one that the process dies in
keeps the length, and a file that is not removed is empty. The runs are those in which no store
replaces the file of another chunk. -/
theorem survives_iff_spared (maxBytes : Option Int) (events : List ParityEvent)
    (hapart : Transitions.StepsMeet (step readIndex) KeepsApart (first dumpIndex maxBytes) events) :
    Transitions.StatesMeet (step readIndex) (Survives readIndex) (first dumpIndex maxBytes) events ↔
      Transitions.StepsMeet (step readIndex) Spared (first dumpIndex maxBytes) events := by
  obtain ⟨k', hrun⟩ := Transitions.exists_run exists_step (first dumpIndex maxBytes) events
  exact Transitions.statesMeet_iff_stepsMeet_of (fun _ => Kept.survives)
    (fun _ _ _ h hapart hok hstep => kept_step readsBack_index h hapart hok hstep)
    (fun _ _ _ h hapart hbad hstep => not_survives_step h hapart hbad hstep)
    (kept_first maxBytes) hapart hrun

instance (k : Keeper) : DecidablePred k.KeepsApart
  | .store _ _ _ (some (.chunkFile _, _)) => isTrue trivial
  | .store c u data none => inferInstanceAs (Decidable (k.parity.refusal c u data.length = none →
      ∀ c' ∈ k.parity.index.keys, chunkPath c' = chunkPath c → c' = c))
  | .store c u data (some (.indexFile _, _)) =>
      inferInstanceAs (Decidable (k.parity.refusal c u data.length = none →
        ∀ c' ∈ k.parity.index.keys, chunkPath c' = chunkPath c → c' = c))
  | .delete .. => isTrue trivial
  | .setMaxBytes _ => isTrue trivial
  | .reopen _ => isTrue trivial

/-- A chunk is stored and replaced, the second time the process dies before the index is written, and
the store is opened again. -/
def replacedRun : List ParityEvent :=
  [.store (codePoints "a") "alice" [1, 2] none,
    .store (codePoints "a") "alice" [3, 4] (some (.indexFile (.writing 5), .dies (some 10))),
    .reopen none]

theorem survives_iff_spared_replaced :
    Transitions.StatesMeet (step readIndex) (Survives readIndex) (first dumpIndex none) replacedRun ↔
      Transitions.StepsMeet (step readIndex) Spared (first dumpIndex none) replacedRun :=
  survives_iff_spared none replacedRun (by decide)

/-- The process dies in a deletion after the file is gone: the index read back names a chunk that no
file has. -/
theorem deletion_cut_short_loses_chunk :
    ¬ ∀ (maxBytes : Option Int) (events : List ParityEvent),
      Transitions.StatesMeet (step readIndex) (Survives readIndex) (first dumpIndex maxBytes)
        events := by
  intro h
  have hstates := h none [.store (codePoints "a") "alice" [1] none,
    .delete (codePoints "a") "alice" (some (.indexFile .opening, .dies none))]
  have hkept := kept_step readsBack_index (kept_first none)
    (e := .store (codePoints "a") "alice" [1] none) (by decide) trivial rfl
  have hlast := (hstates.2 _ rfl).2 _ rfl
  refine not_survives_step hkept
    (e := .delete (codePoints "a") "alice" (some (.indexFile .opening, .dies none)))
    trivial (fun hspared => ?_) rfl hlast
  exact hspared ⟨"alice", 1⟩ (by decide) rfl

end Keeper

end StardustFS
