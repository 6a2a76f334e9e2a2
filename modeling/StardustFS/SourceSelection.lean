import StardustFS.JbodManager

/-! The loops of the manager over its sources that ask for their space. A source may be the proxy of
another device, which is passed over; a directory source asks the operating system, and where that raises
it takes itself out of service and passes the exception on. -/

namespace StardustFS

/-- What `shutil.disk_usage` answers. -/
structure DiskUsage where
  total : Nat
  free : Nat

/-- An element of `sources`: a local source, with the answer of the operating system for its disk (`none`
for an `OSError`), or a proxy. -/
inductive ListedSource where
  | «local» (s : StorageSource) (disk : Option DiskUsage)
  | remote (isActive : Bool)

/-- What a query for space raises. -/
inductive SpaceError where
  | inactive
  | diskUsage
  deriving DecidableEq

/-- What the choice of a source raises. -/
inductive SelectError where
  | space (e : SpaceError)
  | insufficientStorage
  deriving DecidableEq

namespace SourceSelection

/-- How a query ends, and the source after it. -/
abbrev Query := StorageSource → Option DiskUsage → Except SpaceError Nat × StorageSource

/-- A query for space: a part of the disk's usage, or of what a loopback source keeps count of. -/
def querySpace (ofDisk : DiskUsage → Nat) (ofLoopback : (sizeBytes : Nat) → (usedBytes : Int) → Nat) :
    Query := fun s disk =>
  if !s.isActive then (.error .inactive, s)
  else match s.kind with
    | .directory =>
        match disk with
        | some usage => (.ok (ofDisk usage), s)
        | none => (.error .diskUsage, { s with isActive := false })
    | .loopback sizeBytes => (.ok (ofLoopback sizeBytes s.usedBytes), s)

/-- `get_available_space` of a source. -/
def sourceAvailableSpace : Query :=
  querySpace DiskUsage.free fun sizeBytes usedBytes => (max 0 (sizeBytes - usedBytes)).toNat

/-- `get_total_space` of a source. -/
def sourceTotalSpace : Query := querySpace DiskUsage.total fun sizeBytes _ => sizeBytes

/-- A loop over the active local sources; `use` is its body after the query, with the place of the source
in the list. -/
def eachActive {σ : Type*} (query : Query) (use : σ → Nat → Nat → σ) :
    Nat → σ → List ListedSource → Except SpaceError σ × List ListedSource
  | _, acc, [] => (.ok acc, [])
  | i, acc, .remote isActive :: sources =>
      let (result, after) := eachActive query use (i + 1) acc sources
      (result, .remote isActive :: after)
  | i, acc, .local s disk :: sources =>
      if !s.isActive then
        let (result, after) := eachActive query use (i + 1) acc sources
        (result, .local s disk :: after)
      else match query s disk with
        | (.error e, s) => (.error e, .local s disk :: sources)
        | (.ok space, s) =>
            let (result, after) := eachActive query use (i + 1) (use acc i space) sources
            (result, .local s disk :: after)

/-- `available >= file_size and available > best_space`. -/
def better (fileSize : Int) (best : Option (Nat × Nat)) (i available : Nat) : Option (Nat × Nat) :=
  let bestSpace : Int := (best.map fun b => (b.2 : Int)).getD (-1)
  if fileSize ≤ available ∧ bestSpace < available then some (i, available) else best

/-- `select_source`: the place of the source in the list, and the sources after the call. -/
def selectSource (fileSize : Int) (sources : List ListedSource) :
    Except SelectError Nat × List ListedSource :=
  match eachActive sourceAvailableSpace (better fileSize) 0 none sources with
  | (.error e, after) => (.error (.space e), after)
  | (.ok none, after) => (.error .insufficientStorage, after)
  | (.ok (some (i, _)), after) => (.ok i, after)

/-- `get_available_space` of the manager. -/
def getAvailableSpace (sources : List ListedSource) : Except SpaceError Nat × List ListedSource :=
  eachActive sourceAvailableSpace (fun available _ space => available + space) 0 0 sources

/-- `get_total_space` of the manager. -/
def getTotalSpace (sources : List ListedSource) : Except SpaceError Nat × List ListedSource :=
  eachActive sourceTotalSpace (fun total _ space => total + space) 0 0 sources

/-! ### The statement -/

/-- What an active local source answers; `none` where it raises, is not in service or is a proxy. -/
def answer? (query : Query) : ListedSource → Option Nat
  | .local s disk => if s.isActive then (query s disk).1.toOption else none
  | .remote _ => none

/-- The source at the place answers that it has the space. -/
def Answers (query : Query) (sources : List ListedSource) (i space : Nat) : Prop :=
  ∃ x, sources[i]? = some x ∧ answer? query x = some space

/-- The choice is a source with the largest space of those that answer with enough, and the error for
missing storage where there is none. -/
def Selects (fileSize : Int) (sources : List ListedSource) : Prop :=
  (∃ i space, (selectSource fileSize sources).1 = .ok i ∧
      Answers sourceAvailableSpace sources i space ∧ fileSize ≤ space ∧
      ∀ k other, Answers sourceAvailableSpace sources k other → fileSize ≤ other → other ≤ space) ∨
    ((∀ k other, Answers sourceAvailableSpace sources k other → (other : Int) < fileSize) ∧
      (selectSource fileSize sources).1 = .error .insufficientStorage)

/-- The total is over the sources that answer. -/
def SumsAnswers (query : Query) (total : List ListedSource → Except SpaceError Nat × List ListedSource)
    (sources : List ListedSource) : Prop :=
  (total sources).1 = .ok (sources.filterMap (answer? query)).sum

/-- No active directory source is on a disk that raises. -/
def DisksAnswer (sources : List ListedSource) : Prop :=
  ∀ s disk, .local s disk ∈ sources → s.isActive = true → s.kind = .directory → disk.isSome = true

/-! ### The scan over the sources that answer -/

/-- The query of the source ends the loop. -/
def Raises (query : Query) : ListedSource → Prop
  | .local s disk => s.isActive = true ∧ ∃ e, (query s disk).1 = .error e
  | .remote _ => False

/-- The answers in the order of the list, with their places from `i` on. -/
def answers (query : Query) (i : Nat) (sources : List ListedSource) : List (Nat × Nat) :=
  (sources.zipIdx i).filterMap fun x => (answer? query x.1).map fun space => (x.2, space)

theorem answers_cons (query : Query) (i : Nat) (x : ListedSource) (sources : List ListedSource) :
    answers query i (x :: sources)
      = ((answer? query x).map fun space => (i, space)).toList ++ answers query (i + 1) sources := by
  simp only [answers, List.zipIdx_cons, List.filterMap_cons]
  cases answer? query x <;> simp

theorem mem_answers {query : Query} {sources : List ListedSource} {i space : Nat} :
    (i, space) ∈ answers query 0 sources ↔ Answers query sources i space := by
  simp only [answers, List.mem_filterMap, Option.map_eq_some_iff, Prod.exists, Prod.mk.injEq,
    List.mem_zipIdx_iff_getElem?, Answers]
  constructor
  · rintro ⟨x, k, hx, other, hother, rfl, rfl⟩
    exact ⟨x, hx, hother⟩
  · rintro ⟨x, hx, hspace⟩
    exact ⟨x, i, hx, space, hspace, rfl, rfl⟩

theorem map_snd_answers (query : Query) (i : Nat) (sources : List ListedSource) :
    (answers query i sources).map Prod.snd = sources.filterMap (answer? query) := by
  induction sources generalizing i with
  | nil => rfl
  | cons x sources ih =>
      rw [answers_cons, List.map_append, ih, List.filterMap_cons]
      cases answer? query x <;> rfl

/-- Where no source raises, the loop folds over the answers. -/
theorem eachActive_of_forall {σ : Type*} {query : Query} (use : σ → Nat → Nat → σ) (i : Nat) (acc : σ)
    {sources : List ListedSource} (h : ∀ x ∈ sources, ¬Raises query x) :
    (eachActive query use i acc sources).1
      = .ok ((answers query i sources).foldl (fun acc x => use acc x.1 x.2) acc) := by
  induction sources generalizing i acc with
  | nil => rfl
  | cons x sources ih =>
      have hrest : ∀ x ∈ sources, ¬Raises query x := fun y hy => h y (List.mem_cons_of_mem x hy)
      rw [answers_cons]
      cases x with
      | remote isActive => exact ih (i + 1) acc hrest
      | «local» s disk =>
          by_cases hs : s.isActive = true
          · have hx := h _ (List.mem_cons_self ..)
            cases hq : query s disk with
            | mk result s' =>
                cases result with
                | error e => exact absurd ⟨hs, e, by rw [hq]⟩ hx
                | ok space =>
                    simp [eachActive, answer?, hs, hq, Except.toOption, ih (i + 1) _ hrest]
          · simp [eachActive, answer?, hs, ih (i + 1) _ hrest]

/-- One source that raises ends the loop with its error, whatever stands before and behind it. -/
theorem eachActive_of_raises {σ : Type*} {query : Query} (use : σ → Nat → Nat → σ) (i : Nat) (acc : σ)
    {sources : List ListedSource} {x : ListedSource} (hx : x ∈ sources) (h : Raises query x) :
    ∃ e, (eachActive query use i acc sources).1 = .error e := by
  induction sources generalizing i acc with
  | nil => cases hx
  | cons y sources ih =>
      cases y with
      | remote isActive =>
          cases hx with
          | head => exact h.elim
          | tail _ hx => exact ih (i + 1) acc hx
      | «local» s disk =>
          by_cases hs : s.isActive = true
          · cases hq : query s disk with
            | mk result s' =>
                cases result with
                | error e => exact ⟨e, by simp [eachActive, hs, hq]⟩
                | ok space =>
                    cases hx with
                    | head =>
                        obtain ⟨-, e, he⟩ := h
                        rw [hq] at he
                        cases he
                    | tail _ hx =>
                        obtain ⟨e, he⟩ := ih (i + 1) (use acc i space) hx
                        exact ⟨e, by simp [eachActive, hs, hq, he]⟩
          · cases hx with
            | head => exact absurd h.1 hs
            | tail _ hx =>
                obtain ⟨e, he⟩ := ih (i + 1) acc hx
                exact ⟨e, by simp [eachActive, hs, he]⟩

/-- Only the disk of a directory source makes a query raise. -/
theorem raises_querySpace_iff (ofDisk : DiskUsage → Nat) (ofLoopback : Nat → Int → Nat)
    (s : StorageSource) (disk : Option DiskUsage) :
    Raises (querySpace ofDisk ofLoopback) (.local s disk)
      ↔ s.isActive = true ∧ s.kind = .directory ∧ disk = none := by
  simp only [Raises, querySpace]
  by_cases hs : s.isActive = true
  · cases hk : s.kind with
    | directory => cases disk <;> simp [hs]
    | loopback sizeBytes => simp [hs]
  · simp [hs]

/-- A source whose query raises is out of service afterwards. -/
theorem inactive_of_raises {ofDisk : DiskUsage → Nat} {ofLoopback : Nat → Int → Nat}
    {s : StorageSource} {disk : Option DiskUsage}
    (h : Raises (querySpace ofDisk ofLoopback) (.local s disk)) :
    (querySpace ofDisk ofLoopback s disk).2.isActive = false := by
  obtain ⟨hs, hk, rfl⟩ := (raises_querySpace_iff ..).mp h
  simp [querySpace, hs, hk]

theorem disksAnswer_iff (ofDisk : DiskUsage → Nat) (ofLoopback : Nat → Int → Nat)
    (sources : List ListedSource) :
    DisksAnswer sources ↔ ∀ x ∈ sources, ¬Raises (querySpace ofDisk ofLoopback) x := by
  constructor
  · intro h x hx hraises
    cases x with
    | remote isActive => exact hraises
    | «local» s disk =>
        obtain ⟨hs, hk, rfl⟩ := (raises_querySpace_iff ..).mp hraises
        exact absurd (h s none hx hs hk) (by simp)
  · intro h s disk hx hs hk
    by_contra hdisk
    apply h _ hx
    rw [raises_querySpace_iff]
    exact ⟨hs, hk, by simpa using hdisk⟩

/-! ### The running maximum -/

/-- The first of the largest of the answers that are enough, `none` where there is none. -/
def IsBest (fileSize : Int) (xs : List (Nat × Nat)) : Option (Nat × Nat) → Prop
  | none => ∀ x ∈ xs, (x.2 : Int) < fileSize
  | some b => b ∈ xs ∧ fileSize ≤ b.2 ∧ ∀ x ∈ xs, fileSize ≤ x.2 → x.2 ≤ b.2

theorem IsBest.better {fileSize : Int} {xs : List (Nat × Nat)} {best : Option (Nat × Nat)}
    (h : IsBest fileSize xs best) (x : Nat × Nat) :
    IsBest fileSize (xs ++ [x]) (better fileSize best x.1 x.2) := by
  cases best with
  | none =>
      have hnone : ∀ y ∈ xs, (y.2 : Int) < fileSize := h
      by_cases hx : fileSize ≤ x.2
      · have hbetter : SourceSelection.better fileSize none x.1 x.2 = some x :=
          if_pos ⟨hx, by simp; omega⟩
        rw [hbetter]
        refine ⟨List.mem_concat_self, hx, fun y hy hsize => ?_⟩
        rcases List.mem_append.mp hy with hy | hy
        · have := hnone y hy
          omega
        · rw [List.mem_singleton.mp hy]
      · have hbetter : SourceSelection.better fileSize none x.1 x.2 = none :=
          if_neg fun hboth => hx hboth.1
        rw [hbetter]
        intro y hy
        rcases List.mem_append.mp hy with hy | hy
        · exact hnone y hy
        · rw [List.mem_singleton.mp hy]
          omega
  | some b =>
      obtain ⟨hmem, hsize, hmax⟩ := h
      by_cases hx : fileSize ≤ x.2 ∧ (b.2 : Int) < x.2
      · have hbetter : SourceSelection.better fileSize (some b) x.1 x.2 = some x := if_pos hx
        rw [hbetter]
        refine ⟨List.mem_concat_self, hx.1, fun y hy hle => ?_⟩
        rcases List.mem_append.mp hy with hy | hy
        · have := hmax y hy hle
          omega
        · rw [List.mem_singleton.mp hy]
      · have hbetter : SourceSelection.better fileSize (some b) x.1 x.2 = some b := if_neg hx
        rw [hbetter]
        refine ⟨List.mem_append_left _ hmem, hsize, fun y hy hle => ?_⟩
        rcases List.mem_append.mp hy with hy | hy
        · exact hmax y hy hle
        · rw [List.mem_singleton.mp hy] at hle ⊢
          omega

theorem isBest_foldl (fileSize : Int) (xs : List (Nat × Nat)) :
    IsBest fileSize xs (xs.foldl (fun best x => better fileSize best x.1 x.2) none) := by
  induction xs using List.reverseRecOn with
  | nil => exact fun x hx => nomatch hx
  | append_singleton xs x ih =>
      rw [List.foldl_append]
      exact ih.better x

/-! ### The choice and the totals -/

/-- The choice by the way the scan ends. -/
def chosen : Except SpaceError (Option (Nat × Nat)) → Except SelectError Nat
  | .error e => .error (.space e)
  | .ok none => .error .insufficientStorage
  | .ok (some b) => .ok b.1

theorem selectSource_of_scan {fileSize : Int} {sources : List ListedSource}
    {result : Except SpaceError (Option (Nat × Nat))}
    (h : (eachActive sourceAvailableSpace (better fileSize) 0 none sources).1 = result) :
    (selectSource fileSize sources).1 = chosen result := by
  subst h
  rw [selectSource]
  rcases eachActive sourceAvailableSpace (better fileSize) 0 none sources with
    ⟨e | ⟨_ | b⟩, after⟩ <;> rfl

theorem selects_of_disksAnswer {fileSize : Int} {sources : List ListedSource}
    (h : DisksAnswer sources) : Selects fileSize sources := by
  have hall : ∀ x ∈ sources, ¬Raises sourceAvailableSpace x := (disksAnswer_iff _ _ sources).mp h
  have hscan := selectSource_of_scan (eachActive_of_forall (better fileSize) 0 none hall)
  have hbest := isBest_foldl fileSize (answers sourceAvailableSpace 0 sources)
  cases hfold : (answers sourceAvailableSpace 0 sources).foldl
      (fun best x => better fileSize best x.1 x.2) none with
  | none =>
      rw [hfold] at hscan hbest
      exact Or.inr ⟨fun k other hother => hbest _ (mem_answers.mpr hother), hscan⟩
  | some b =>
      rw [hfold] at hscan hbest
      obtain ⟨hmem, hsize, hmax⟩ := hbest
      exact Or.inl ⟨b.1, b.2, hscan, mem_answers.mp hmem, hsize,
        fun k other hother => hmax _ (mem_answers.mpr hother)⟩

theorem sumsAnswers_of_disksAnswer (ofDisk : DiskUsage → Nat) (ofLoopback : Nat → Int → Nat)
    {sources : List ListedSource} (h : DisksAnswer sources) :
    SumsAnswers (querySpace ofDisk ofLoopback)
      (eachActive (querySpace ofDisk ofLoopback) (fun total _ space => total + space) 0 0)
      sources := by
  have hall := (disksAnswer_iff ofDisk ofLoopback sources).mp h
  have hsum : ∀ (xs : List (Nat × Nat)) (acc : Nat),
      xs.foldl (fun total x => total + x.2) acc = acc + (xs.map Prod.snd).sum := by
    intro xs
    induction xs with
    | nil => simp
    | cons x xs ih =>
        intro acc
        rw [List.foldl_cons, ih, List.map_cons, List.sum_cons]
        omega
  rw [SumsAnswers, eachActive_of_forall _ 0 0 hall, hsum, Nat.zero_add, map_snd_answers]

/-- A disk that raises ends all three loops with an error. -/
theorem exists_raises_of_not_disksAnswer (ofDisk : DiskUsage → Nat) (ofLoopback : Nat → Int → Nat)
    {sources : List ListedSource} (h : ¬DisksAnswer sources) {σ : Type*} (use : σ → Nat → Nat → σ)
    (acc : σ) :
    ∃ e, (eachActive (querySpace ofDisk ofLoopback) use 0 acc sources).1 = .error e := by
  rw [disksAnswer_iff ofDisk ofLoopback] at h
  push Not at h
  obtain ⟨x, hx, hraises⟩ := h
  exact eachActive_of_raises use 0 acc hx hraises

/-- The choice and both totals keep to the sources that answer exactly where no active directory source
is on a disk that raises. -/
theorem isolates_iff (fileSize : Int) (sources : List ListedSource) :
    (Selects fileSize sources ↔ DisksAnswer sources) ∧
      (SumsAnswers sourceAvailableSpace getAvailableSpace sources ↔ DisksAnswer sources) ∧
      (SumsAnswers sourceTotalSpace getTotalSpace sources ↔ DisksAnswer sources) := by
  refine ⟨⟨?_, selects_of_disksAnswer⟩, ⟨?_, sumsAnswers_of_disksAnswer _ _⟩,
    ⟨?_, sumsAnswers_of_disksAnswer _ _⟩⟩
  · intro h
    by_contra hdisks
    obtain ⟨e, he⟩ := exists_raises_of_not_disksAnswer _ _ hdisks (better fileSize) none
    have hspace : (selectSource fileSize sources).1 = .error (.space e) := selectSource_of_scan he
    rcases h with ⟨i, space, hok, -⟩ | ⟨-, hstorage⟩
    · rw [hspace] at hok
      cases hok
    · rw [hspace] at hstorage
      cases hstorage
  · intro h
    by_contra hdisks
    obtain ⟨e, he⟩ := exists_raises_of_not_disksAnswer _ _ hdisks _ _
    cases h.symm.trans he
  · intro h
    by_contra hdisks
    obtain ⟨e, he⟩ := exists_raises_of_not_disksAnswer _ _ hdisks _ _
    cases h.symm.trans he

/-- Two directory sources, the disk of the first gone. -/
def firstDiskGone : List ListedSource :=
  [.local { kind := .directory } none, .local { kind := .directory } (some ⟨8, 5⟩)]

/-- The second source has room for three bytes; the upload is refused with the exception of the first, and
so are the totals. -/
theorem gone_disk_ends_the_scan :
    ¬Selects 3 firstDiskGone ∧ ¬SumsAnswers sourceAvailableSpace getAvailableSpace firstDiskGone ∧
      ¬SumsAnswers sourceTotalSpace getTotalSpace firstDiskGone := by
  have hselect : (selectSource 3 firstDiskGone).1 = .error (.space .diskUsage) := rfl
  have hfree : (getAvailableSpace firstDiskGone).1 = .error .diskUsage := rfl
  have htotal : (getTotalSpace firstDiskGone).1 = .error .diskUsage := rfl
  refine ⟨?_, ?_, ?_⟩
  · rintro (⟨i, space, hok, -⟩ | ⟨-, hstorage⟩)
    · rw [hselect] at hok
      cases hok
    · rw [hselect] at hstorage
      cases hstorage
  · intro h
    rw [SumsAnswers, hfree] at h
    cases h
  · intro h
    rw [SumsAnswers, htotal] at h
    cases h

/-! ### The volume over disks that answer -/

/-- The sources of the volume, every disk answering with its free space. -/
def listed (rows : List (SourceId × StorageSource)) (total diskFree : SourceId → Nat) :
    List ListedSource :=
  rows.map fun x => .local x.2 (some ⟨total x.1, diskFree x.1⟩)

theorem disksAnswer_listed (rows : List (SourceId × StorageSource)) (total diskFree : SourceId → Nat) :
    DisksAnswer (listed rows total diskFree) := by
  intro s disk hmem _ _
  obtain ⟨x, -, hx⟩ := List.mem_map.mp hmem
  cases hx
  rfl

theorem answer?_listed (s : StorageSource) (total diskFree : Nat) :
    answer? sourceAvailableSpace (.local s (some ⟨total, diskFree⟩))
      = if s.isActive then some (s.getAvailableSpace diskFree) else none := by
  by_cases hs : s.isActive = true
  · cases hk : s.kind with
    | directory => simp [answer?, sourceAvailableSpace, querySpace, hs, hk, Except.toOption,
        StorageSource.getAvailableSpace]
    | loopback sizeBytes =>
        have : (max 0 ((sizeBytes : Int) - s.usedBytes)).toNat = (sizeBytes - s.usedBytes).toNat := by
          omega
        simp [answer?, sourceAvailableSpace, querySpace, hs, hk, Except.toOption,
          StorageSource.getAvailableSpace, this]
  · simp [answer?, hs]

/-- A place in the list and the id of the source there, with its space. -/
def SamePlace (rows : List (SourceId × StorageSource)) (best : Option (SourceId × Nat))
    (place : Option (Nat × Nat)) : Prop :=
  match best, place with
  | none, none => True
  | some b, some p => b.2 = p.2 ∧ (rows[p.1]?).map Prod.fst = some b.1
  | _, _ => False

/-- One step of the volume's scan. -/
def betterId (fileSize : Nat) (best : Option (SourceId × Nat)) (id : SourceId) (available : Nat) :
    Option (SourceId × Nat) :=
  if fileSize ≤ available && (best.map fun b => decide (b.2 < available)).getD true then
    some (id, available)
  else best

theorem SamePlace.better {rows : List (SourceId × StorageSource)} {best : Option (SourceId × Nat)}
    {place : Option (Nat × Nat)} (h : SamePlace rows best place) (fileSize : Nat) {i : Nat}
    {x : SourceId × StorageSource} (hi : rows[i]? = some x) (available : Nat) :
    SamePlace rows (betterId fileSize best x.1 available) (better fileSize place i available) := by
  have hnew : SamePlace rows (some (x.1, available)) (some (i, available)) :=
    ⟨rfl, congrArg (Option.map Prod.fst) hi⟩
  match best, place, h with
  | none, none, h =>
      have hgrow : ((-1 : Int) < available) := by omega
      by_cases hsize : fileSize ≤ available
      · simpa [betterId, SourceSelection.better, hsize, hgrow] using hnew
      · simpa [betterId, SourceSelection.better, hsize] using h
  | some b, some p, h =>
      have hspace : b.2 = p.2 := h.1
      by_cases htake : fileSize ≤ available ∧ p.2 < available
      · simpa [betterId, SourceSelection.better, hspace, htake] using hnew
      · simpa [betterId, SourceSelection.better, hspace, htake] using h

theorem samePlace_foldl (fileSize : Nat) (total diskFree : SourceId → Nat)
    (before rows : List (SourceId × StorageSource)) {best : Option (SourceId × Nat)}
    {place : Option (Nat × Nat)} (h : SamePlace (before ++ rows) best place) :
    SamePlace (before ++ rows)
      (rows.foldl (fun best x => if !x.2.isActive then best
        else betterId fileSize best x.1 (x.2.getAvailableSpace (diskFree x.1))) best)
      ((answers sourceAvailableSpace before.length (listed rows total diskFree)).foldl
        (fun place x => better fileSize place x.1 x.2) place) := by
  induction rows generalizing before best place with
  | nil => exact h
  | cons x rows ih =>
      have happ : before ++ x :: rows = (before ++ [x]) ++ rows := by simp
      have hat : (before ++ x :: rows)[before.length]? = some x := by simp
      have hlength : (before ++ [x]).length = before.length + 1 := by simp
      rw [listed, List.map_cons, answers_cons, answer?_listed, List.foldl_cons, List.foldl_append]
      by_cases hactive : x.2.isActive = true
      · have hstep := h.better fileSize hat (x.2.getAvailableSpace (diskFree x.1))
        rw [happ] at hstep ⊢
        have hrest := ih (before ++ [x]) hstep
        rw [hlength] at hrest
        simpa [hactive, listed] using hrest
      · rw [happ] at h ⊢
        have hrest := ih (before ++ [x]) h
        rw [hlength] at hrest
        simpa [hactive, listed] using hrest

/-- Over disks that answer, the volume's choice is this one. -/
theorem jbodManager_selectSource_eq (j : JbodManager) (total diskFree : SourceId → Nat)
    (fileSize : Nat) :
    j.selectSource diskFree fileSize
      = (selectSource fileSize (listed j.sources.rows total diskFree)).1.toOption.bind
          fun i => (j.sources.rows[i]?).map Prod.fst := by
  have hall : ∀ x ∈ listed j.sources.rows total diskFree, ¬Raises sourceAvailableSpace x :=
    (disksAnswer_iff _ _ _).mp (disksAnswer_listed j.sources.rows total diskFree)
  have hscan := selectSource_of_scan (eachActive_of_forall (better fileSize) 0 none hall)
  have hsame := samePlace_foldl fileSize total diskFree [] j.sources.rows
    (show SamePlace ([] ++ j.sources.rows) none none from trivial)
  rw [hscan, JbodManager.selectSource]
  change Option.map Prod.fst (j.sources.rows.foldl (fun best x => if !x.2.isActive then best
    else betterId fileSize best x.1 (x.2.getAvailableSpace (diskFree x.1))) none) = _
  revert hsame
  generalize j.sources.rows.foldl _ none = best
  change SamePlace j.sources.rows best
    ((answers sourceAvailableSpace 0 _).foldl (fun place x => better fileSize place x.1 x.2) none) → _
  generalize (answers _ 0 _).foldl (fun place x => better fileSize place x.1 x.2) none = place
  intro hsame
  match best, place, hsame with
  | none, none, _ => rfl
  | some b, some p, hsame => exact hsame.2.symm

end SourceSelection

end StardustFS
