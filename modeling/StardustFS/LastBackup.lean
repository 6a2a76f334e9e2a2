import StardustFS.ReplicatedStatus

/-! The recovery of a path after a sequence of backups of it, of contents that grow and shrink. A
chunk's id is made of the path and the index alone, so every backup meets what the ones before it
left: registered chunks of a longer blob, and holders that keep the bytes of an earlier one. The
registry keeps one entry for each chunk id and takes none back, a holder keeps the last bytes it was
sent. -/

namespace StardustFS

/-- A call of `replicate`: the volume as the call finds it, and what the network answers to it. -/
structure BackupCall where
  jbod : JbodManager
  remote : RemoteRead
  iv : Bytes
  answers : List ChunkAnswer

/-- The listing with the holders of choice in front. -/
def ReplicaNetwork.listingFrom (net : ReplicaNetwork) (ref : Text)
    (preferred : Text → List DeviceId) : Listing :=
  { net.listing ref with holders := fun id => preferred id ++ (net.listing ref).holders id }

theorem ReplicaNetwork.listingFrom_truthful {net : ReplicaNetwork} {ref : Text}
    {preferred : Text → List DeviceId}
    (h : ∀ id, ∀ device ∈ preferred id, (id, device) ∈ net.replicas) :
    (net.listingFrom ref preferred).Truthful net ref := by
  have hlisting := net.listing_truthful ref
  refine ⟨hlisting.chunks, fun id device => ?_⟩
  rw [listingFrom, List.mem_append, hlisting.holders]
  exact ⟨fun hmem => hmem.elim (h id device) fun hrecorded => hrecorded, Or.inr⟩

namespace ReplicationManager

variable (m : ReplicationManager)

/-- The holder of choice for each index. -/
def preferring (ref : Text) (n : Nat) (choice : Nat → DeviceId) (id : Text) : List DeviceId :=
  ((List.range n).filter fun idx => decide (m.chunkId ref idx = id)).map choice

theorem mem_preferring {ref : Text} {n : Nat} {choice : Nat → DeviceId} {id : Text}
    {device : DeviceId} : device ∈ m.preferring ref n choice id ↔
      ∃ idx < n, m.chunkId ref idx = id ∧ choice idx = device := by
  simp only [preferring, List.mem_map, List.mem_filter, List.mem_range, decide_eq_true_eq,
    and_assoc]

/-- A fetch asks the holder of choice first. -/
theorem fetch_preferring {net : ReplicaNetwork} {ref : Text} {n idx : Nat}
    {choice : Nat → DeviceId} {data : Bytes} (hidx : idx < n)
    (hstored : net.stored.get (m.chunkId ref idx, choice idx) = some data) :
    fetchFromAnyHolder net (net.listingFrom ref (m.preferring ref n choice)) (m.chunkId ref idx) =
      some data := by
  have hfirst : (m.preferring ref n choice (m.chunkId ref idx)).findSome?
      (fun device => net.stored.get (m.chunkId ref idx, device)) = some data := by
    apply findSome?_of_all
    · exact List.ne_nil_of_mem (m.mem_preferring.mpr ⟨idx, hidx, rfl, rfl⟩)
    · intro device hdevice
      obtain ⟨idx', -, hid, rfl⟩ := m.mem_preferring.mp hdevice
      obtain rfl := (m.chunkId_injective hid).2
      exact hstored
  rw [fetchFromAnyHolder, ReplicaNetwork.listingFrom, List.findSome?_append, hfirst]
  rfl

/-- Whatever the server lists first, the blob of the path comes back from the holders. -/
def GivesBack (net : ReplicaNetwork) (p : Text) (blob : Bytes) : Prop :=
  ∀ listing : Listing, listing.Truthful net (m.fileRef p) → recoverChunks net listing = .ok blob

/-- Whatever the server lists first, a recovery of the path writes the content. -/
def Restores (j : JbodManager) (net : ReplicaNetwork) (p : Text) (content : Bytes) : Prop :=
  ∀ listing : Listing, listing.Truthful net (m.fileRef p) →
    recovered j net listing = .ok content ∧ ∀ reading : Reading,
      (recover j net listing reading p).2 = (j.writeFile reading p content).2 ∧
        ((j.writeFile reading p content).1 = .ok () →
          (recover j net listing reading p).1 = .ok content.length)

/-! ### What any run of backups leaves -/

/-- The path was never backed up. -/
structure NeverBackedUp (net : ReplicaNetwork) (ref : Text) : Prop where
  named : m.WellNamed net
  unheld : ∀ idx device, (m.chunkId ref idx, device) ∉ net.replicas

/-- Every recorded holder of a chunk of the reference stores a piece for it, of some backup. -/
structure HoldersStore (net : ReplicaNetwork) (ref : Text) : Prop where
  named : m.WellNamed net
  stored : ∀ idx device, (m.chunkId ref idx, device) ∈ net.replicas →
    ∃ data, net.stored.get (m.chunkId ref idx, device) = some data ∧ data ≠ []

variable {m}

theorem HoldersStore.pushChunk {net : ReplicaNetwork} {ref : Text} (h : m.HoldersStore net ref)
    {chunk : Nat × Bytes} (hne : chunk.2 ≠ []) (answer : ChunkAnswer) :
    m.HoldersStore (m.pushChunk ref net chunk answer) ref := by
  refine ⟨h.named.pushChunk ref chunk answer, fun idx device hmem => ?_⟩
  by_cases hidx : idx = chunk.1
  · subst hidx
    have hpushed := pushed_pushChunk m ref net chunk answer
    rw [hpushed.stored]
    split_ifs with htakes
    · exact ⟨chunk.2, rfl, hne⟩
    · rcases (hpushed.replicas device).mp hmem with hold | hnew
      · exact h.stored _ device hold
      · exact absurd ⟨(device, .recorded), hnew, rfl, rfl⟩ htakes
  · have hsame := sameAt_pushChunk m ref net chunk answer (m.chunkId ref idx)
      fun hid => hidx (m.chunkId_injective hid).2
    rw [hsame.stored]
    exact h.stored idx device ((hsame.replicas device).mp hmem)

theorem HoldersStore.replicateChunks {net : ReplicaNetwork} {ref : Text}
    (h : m.HoldersStore net ref) {chunks : List (Nat × Bytes)} {blob : Bytes}
    (hsplit : m.splitBlob blob = some chunks) (answers : List ChunkAnswer) :
    m.HoldersStore (m.replicateChunks ref chunks answers net).2 ref := by
  unfold splitBlob at hsplit
  split_ifs at hsplit
  rw [Option.some_inj] at hsplit
  rw [replicateChunks_snd]
  refine List.foldlRecOn _ _ (motive := fun net' => m.HoldersStore net' ref) h ?_
  intro net' hnet' x hx
  have hmem := (List.of_mem_zip (rounds_subset_zip chunks answers hx)).1
  exact hnet'.pushChunk (Chunks.piece_ne_nil (hsplit ▸ hmem)) x.2

/-! ### What the last backup leaves -/

section Last

variable {net net' : ReplicaNetwork} {ref : Text} {blob : Bytes} {answers : List ChunkAnswer}
  {counts : List Nat}

/-- Registered is afterwards what was registered and what is pushed. -/
theorem indices_of_replicateChunks (hregisters : ∀ answer ∈ answers, answer.registered = true)
    (h : m.replicateChunks ref (Chunks.split m.chunkSize blob) answers net = (some counts, net'))
    (idx : Nat) : (net'.chunks.get (m.chunkId ref idx)).isSome ↔
      idx < Chunks.count blob.length m.chunkSize ∨ (net.chunks.get (m.chunkId ref idx)).isSome := by
  by_cases hidx : idx < Chunks.count blob.length m.chunkSize
  · obtain ⟨hlength, -, hpushed⟩ := m.replicateChunks_ok ref
      (Chunks.nodup_map_fst_split _ _) h
    obtain ⟨answer, hzip⟩ := exists_zip hlength (Chunks.piece_mem_split hidx)
    have hchunks := (hpushed _ hzip).chunks
    rw [if_pos (hregisters answer (List.of_mem_zip hzip).2)] at hchunks
    simp [hchunks, hidx]
  · have hsame := m.sameAt_replicateChunks ref (m.chunkId ref idx)
      (Chunks.split m.chunkSize blob) answers net fun chunk hchunk hid => hidx (by
        rw [(m.chunkId_injective hid).2]
        exact (Chunks.mem_split.mp hchunk).1)
    rw [h] at hsame
    rw [hsame.chunks]
    simp [hidx]

/-- Every chunk has a recorded holder that has just taken it. -/
theorem exists_fresh_holder (hmin : 1 ≤ m.minReplicas)
    (h : m.replicateChunks ref (Chunks.split m.chunkSize blob) answers net = (some counts, net'))
    (hstatus : m.statusOf counts = .replicated) {idx : Nat}
    (hidx : idx < Chunks.count blob.length m.chunkSize) :
    ∃ device, (m.chunkId ref idx, device) ∈ net'.replicas ∧
      net'.stored.get (m.chunkId ref idx, device) =
        some (Chunks.piece m.chunkSize blob idx) := by
  have hnodup := Chunks.nodup_map_fst_split m.chunkSize blob
  obtain ⟨-, -, hplaced⟩ := suffices_of_statusOf hnodup h hstatus
  obtain ⟨hlength, -, hpushed⟩ := m.replicateChunks_ok ref hnodup h
  obtain ⟨answer, hzip⟩ := exists_zip hlength (Chunks.piece_mem_split hidx)
  obtain ⟨device, hdevice⟩ := exists_recorded (hmin.trans (hplaced _ hzip))
  refine ⟨device, ((hpushed _ hzip).replicas device).mpr (Or.inr hdevice), ?_⟩
  rw [(hpushed _ hzip).stored, if_pos ⟨(device, .recorded), hdevice, rfl, rfl⟩]

/-- A recovery that brings the blob back from whichever recorded holders finds no chunk beyond it:
with its own pieces alone the blob is complete. -/
theorem idx_lt_of_recoverChunks (hsize : 0 < m.chunkSize) (hheld : m.HoldersStore net' ref)
    (hregistered : ∀ idx < Chunks.count blob.length m.chunkSize,
      (net'.chunks.get (m.chunkId ref idx)).isSome)
    (hfresh : ∀ idx < Chunks.count blob.length m.chunkSize, ∃ device,
      (m.chunkId ref idx, device) ∈ net'.replicas ∧
        net'.stored.get (m.chunkId ref idx, device) = some (Chunks.piece m.chunkSize blob idx))
    (hrecover : ∀ listing : Listing, listing.Truthful net' ref →
      recoverChunks net' listing = .ok blob) {rest : Nat}
    (hrest : (net'.chunks.get (m.chunkId ref rest)).isSome) :
    rest < Chunks.count blob.length m.chunkSize := by
  by_contra hlarge
  choose! fresh hrecorded hstored using hfresh
  let preferred := m.preferring ref (Chunks.count blob.length m.chunkSize) fresh
  have htruthful : (net'.listingFrom ref preferred).Truthful net' ref := by
    apply ReplicaNetwork.listingFrom_truthful
    intro id device hdevice
    obtain ⟨idx, hidx, rfl, rfl⟩ := m.mem_preferring.mp hdevice
    exact hrecorded idx hidx
  obtain ⟨-, hfetched, hjoin⟩ := recoverChunks_eq_ok_iff.mp (hrecover _ htruthful)
  have hpart : ∀ {idx data}, (net'.chunks.get (m.chunkId ref idx)).isSome →
      fetchFromAnyHolder net' (net'.listingFrom ref preferred) (m.chunkId ref idx) = some data →
      (idx, data) ∈ (net'.listingFrom ref preferred).chunks.filterMap fun x =>
        (fetchFromAnyHolder net' (net'.listingFrom ref preferred) x.1).map
          fun data => (x.2.idx, data) := by
    intro idx data hsome hfetch
    obtain ⟨info, hget⟩ := Option.isSome_iff_exists.mp hsome
    have hinfo := (hheld.named.of_get_chunkId hget).2
    refine List.mem_filterMap.mpr ⟨(m.chunkId ref idx, info), ?_, ?_⟩
    · exact (mem_listed hheld.named htruthful.chunks).mpr ⟨by rw [hinfo], hget⟩
    · simp only [hfetch, hinfo, Option.map_some]
  obtain ⟨data, hdata, hne⟩ : ∃ data, fetchFromAnyHolder net'
      (net'.listingFrom ref preferred) (m.chunkId ref rest) = some data ∧ data ≠ [] := by
    obtain ⟨info, hget⟩ := Option.isSome_iff_exists.mp hrest
    have hinfo := (hheld.named.of_get_chunkId hget).2
    have hlisted : (m.chunkId ref rest, info) ∈ (net'.listingFrom ref preferred).chunks :=
      (mem_listed hheld.named htruthful.chunks).mpr ⟨by rw [hinfo], hget⟩
    obtain ⟨data, hdata⟩ := Option.isSome_iff_exists.mp (hfetched _ hlisted)
    obtain ⟨device, hdevice, hget'⟩ := List.exists_of_findSome?_eq_some hdata
    obtain ⟨stored, hsome, hne⟩ :=
      hheld.stored rest device ((htruthful.holders _ device).mp hdevice)
    obtain rfl := Option.some_inj.mp (hget'.symm.trans hsome)
    exact ⟨data, hdata, hne⟩
  have hpieces : Chunks.split m.chunkSize blob ⊆
      (net'.listingFrom ref preferred).chunks.filterMap fun x =>
        (fetchFromAnyHolder net' (net'.listingFrom ref preferred) x.1).map
          fun data => (x.2.idx, data) := by
    intro part hsplit
    obtain ⟨hidx, hbytes⟩ := Chunks.mem_split.mp hsplit
    have hpiece := hpart (hregistered _ hidx) (m.fetch_preferring hidx (hstored _ hidx))
    rwa [Chunks.piece, ← hbytes] at hpiece
  have hlonger := Chunks.length_lt_length_join hsize hpieces (hpart hrest hdata)
    (Nat.le_of_not_lt hlarge) hne
  rw [← hjoin] at hlonger
  omega

/-- A recovery that brings the blob back from whichever recorded holders finds its piece on every
one of them: the pieces of the others being those of the blob, so is this one. -/
theorem stored_of_recoverChunks (hpos : 0 < Chunks.count blob.length m.chunkSize)
    (hsize : 0 < m.chunkSize) (hheld : m.HoldersStore net' ref)
    (hindices : ∀ idx, (net'.chunks.get (m.chunkId ref idx)).isSome ↔
      idx < Chunks.count blob.length m.chunkSize)
    (hfresh : ∀ idx < Chunks.count blob.length m.chunkSize, ∃ device,
      (m.chunkId ref idx, device) ∈ net'.replicas ∧
        net'.stored.get (m.chunkId ref idx, device) = some (Chunks.piece m.chunkSize blob idx))
    (hrecover : ∀ listing : Listing, listing.Truthful net' ref →
      recoverChunks net' listing = .ok blob) {k : Nat}
    (hk : k < Chunks.count blob.length m.chunkSize) {device : DeviceId}
    (hdevice : (m.chunkId ref k, device) ∈ net'.replicas) :
    net'.stored.get (m.chunkId ref k, device) = some (Chunks.piece m.chunkSize blob k) := by
  choose! fresh hrecorded hstored using hfresh
  obtain ⟨data, hdata, -⟩ := hheld.stored k device hdevice
  let choice := Function.update fresh k device
  let pieces := Function.update (Chunks.piece m.chunkSize blob) k data
  have hchoice : ∀ idx < Chunks.count blob.length m.chunkSize,
      (m.chunkId ref idx, choice idx) ∈ net'.replicas ∧
        net'.stored.get (m.chunkId ref idx, choice idx) = some (pieces idx) := by
    intro idx hidx
    by_cases heq : idx = k
    · subst heq
      simp only [choice, pieces, Function.update_self]
      exact ⟨hdevice, hdata⟩
    · simp only [choice, pieces, Function.update_of_ne heq]
      exact ⟨hrecorded idx hidx, hstored idx hidx⟩
  let preferred := m.preferring ref (Chunks.count blob.length m.chunkSize) choice
  have htruthful : (net'.listingFrom ref preferred).Truthful net' ref := by
    apply ReplicaNetwork.listingFrom_truthful
    intro id other hother
    obtain ⟨idx, hidx, rfl, rfl⟩ := m.mem_preferring.mp hother
    exact (hchoice idx hidx).1
  have hjoined := recoverChunks_of_fetch hheld.named htruthful.chunks hpos hindices
    fun idx hidx => m.fetch_preferring hidx (hchoice idx hidx).2
  rw [hrecover _ htruthful, Except.ok.injEq] at hjoined
  have hpiece : pieces k = Chunks.piece m.chunkSize blob k := by
    apply Chunks.piece_eq_of_flatten_eq hk
    · intro idx _ hne
      simp only [pieces, Function.update_of_ne hne]
    · rw [← hjoined]
      exact (Chunks.flatten_pieces_count hsize blob).symm
  simp only [pieces, Function.update_self] at hpiece
  rw [hdata, hpiece]

/-- **The recovery after a sufficient backup.** It brings the blob back, from whichever holders the
server lists first, if and only if the backup replaced what the ones before it had left. -/
theorem recoverChunks_iff_replaces (hmin : 1 ≤ m.minReplicas) (hsize : 0 < m.chunkSize)
    (hheld : m.HoldersStore net ref) (hregisters : ∀ answer ∈ answers, answer.registered = true)
    (h : m.replicateChunks ref (Chunks.split m.chunkSize blob) answers net = (some counts, net'))
    (hstatus : m.statusOf counts = .replicated) :
    (∀ listing : Listing, listing.Truthful net' ref → recoverChunks net' listing = .ok blob) ↔
      m.Replaces net ref (Chunks.split m.chunkSize blob) answers := by
  have hsplit : m.splitBlob blob = some (Chunks.split m.chunkSize blob) :=
    if_neg (Nat.ne_of_gt hsize)
  have hnodup := Chunks.nodup_map_fst_split m.chunkSize blob
  have hsuffices := suffices_of_statusOf hnodup h hstatus
  have hheld' : m.HoldersStore net' ref := by
    have hkept := hheld.replicateChunks hsplit answers
    rw [h] at hkept
    exact hkept
  constructor
  · intro hrecover
    have hindices := indices_of_replicateChunks hregisters h
    have hfresh : ∀ idx < Chunks.count blob.length m.chunkSize, ∃ device,
        (m.chunkId ref idx, device) ∈ net'.replicas ∧
          net'.stored.get (m.chunkId ref idx, device) =
            some (Chunks.piece m.chunkSize blob idx) :=
      fun idx hidx => exists_fresh_holder hmin h hstatus hidx
    have honly : ∀ idx, (net'.chunks.get (m.chunkId ref idx)).isSome →
        idx < Chunks.count blob.length m.chunkSize := fun idx hsome =>
      idx_lt_of_recoverChunks hsize hheld' (fun idx hidx => (hindices idx).mpr (Or.inl hidx)) hfresh
        hrecover hsome
    refine ⟨fun id info hget href => ?_, fun x hx device hdevice => ?_⟩
    · rw [Chunks.length_split]
      have hid := hheld.named id info hget
      rw [hid, href] at hget
      exact honly _ ((hindices _).mpr (Or.inr (by rw [hget]; rfl)))
    · have hpos : 0 < Chunks.count blob.length m.chunkSize := by
        rw [← Chunks.length_split]
        exact List.length_pos_of_ne_nil hsuffices.1
      obtain ⟨hidx, hbytes⟩ := Chunks.mem_split.mp (List.of_mem_zip hx).1
      obtain ⟨-, -, hpushed⟩ := m.replicateChunks_ok ref hnodup h
      have hstored := stored_of_recoverChunks hpos hsize hheld'
        (fun idx => ⟨honly idx, fun hidx => (hindices idx).mpr (Or.inl hidx)⟩) hfresh hrecover hidx
        (((hpushed x hx).replicas device).mpr (Or.inl hdevice))
      rw [(hpushed x hx).stored, Chunks.piece, ← hbytes] at hstored
      split_ifs at hstored with htakes
      · exact Or.inl htakes
      · exact Or.inr hstored
  · intro hreplaces listing hlist
    have hbackup := backup_of_replicateChunks hsplit hheld.named hmin hsuffices
      (fun x hx => Or.inl (hregisters x.2 (List.of_mem_zip hx).2)) hreplaces h
    exact recoverChunks_of_backup hbackup hheld'.named hlist

end Last

end ReplicationManager

namespace BackupCall

variable (m : ReplicationManager) (p : Text)

/-- What the call leaves on the network, whatever its outcome. -/
def step (net : ReplicaNetwork) (c : BackupCall) : Option ReplicaNetwork :=
  some (m.replicate c.jbod net c.remote c.iv p c.answers).2.2

/-- The registry takes every registration of the call. -/
def Registers (c : BackupCall) : Prop := ∀ answer ∈ c.answers, answer.registered = true

variable {m p}

theorem holdersStore_step {net net' : ReplicaNetwork} {c : BackupCall}
    (h : m.HoldersStore net (m.fileRef p)) (hstep : step m p net c = some net') :
    m.HoldersStore net' (m.fileRef p) := by
  obtain ⟨result, j, network, hcall⟩ : ∃ result j network,
      m.replicate c.jbod net c.remote c.iv p c.answers = (result, j, network) := ⟨_, _, _, rfl⟩
  rw [step, hcall, Option.some_inj] at hstep
  dsimp only at hstep
  subst hstep
  rcases m.replicate_cases hcall with ⟨-, rfl, -, -⟩ |
    ⟨engine, plaintext, chunks, -, -, hsplit, hends⟩
  · exact h
  · have hkept := h.replicateChunks hsplit c.answers
    rcases hends with ⟨hpush, -, -⟩ | ⟨counts, hpush, -, -⟩
    · rw [hpush] at hkept
      exact hkept
    · rw [hpush] at hkept
      exact hkept

theorem holdersStore_run {start net : ReplicaNetwork} {calls : List BackupCall}
    (hstart : m.NeverBackedUp start (m.fileRef p))
    (hrun : Transitions.run (step m p) start calls = some net) :
    m.HoldersStore net (m.fileRef p) := by
  have hfirst : m.HoldersStore start (m.fileRef p) :=
    ⟨hstart.named, fun idx device hmem => absurd hmem (hstart.unheld idx device)⟩
  exact Transitions.run_preserves (fun _ _ _ h hstep => holdersStore_step h hstep) hfirst hrun

/-- **The recovery after a sequence of backups of a path.** Whatever the calls before it pushed, after
a call that ends with the status `replicated` the last blob comes back from whichever holders are
listed first if and only if that call replaced what the calls before it had left; and then the
recovery writes the last content. -/
theorem recover_last_backup_iff {start net net' : ReplicaNetwork} {calls : List BackupCall}
    {last : BackupCall} {engine : EncryptionEngine} {content : Bytes} {j' : JbodManager}
    {result : ReplicationResult} (hmin : 1 ≤ m.minReplicas)
    (hstart : m.NeverBackedUp start (m.fileRef p))
    (hrun : Transitions.run (step m p) start calls = some net) (hregisters : last.Registers)
    (hengine : last.jbod.encryptionEngine = some engine)
    (hcontent : (last.jbod.readFile last.remote p).1 = .ok content)
    (hlast : m.replicate last.jbod net last.remote last.iv p last.answers = (.ok result, j', net'))
    (hstatus : result.status = .replicated) :
    (m.GivesBack net' p (engine.encrypt last.iv content) ↔
      m.Replaces net (m.fileRef p) (Chunks.split m.chunkSize (engine.encrypt last.iv content))
        last.answers) ∧
    (m.Replaces net (m.fileRef p) (Chunks.split m.chunkSize (engine.encrypt last.iv content))
        last.answers → m.Restores j' net' p content) := by
  have hheld := holdersStore_run hstart hrun
  rcases m.replicate_cases hlast with ⟨⟨e, he⟩, -⟩ |
    ⟨engine', content', chunks, hengine', hcontent', hsplit, hends⟩
  · cases he
  obtain rfl := Option.some_inj.mp (hengine.symm.trans hengine')
  obtain rfl := Except.ok.inj (hcontent.symm.trans hcontent')
  rcases hends with ⟨-, -, e, he⟩ | ⟨counts, hpush, rfl, hresult⟩
  · cases he
  rw [Except.ok.injEq] at hresult
  subst hresult
  unfold ReplicationManager.splitBlob at hsplit
  split_ifs at hsplit with hsize
  rw [Option.some_inj] at hsplit
  subst hsplit
  have hiff := ReplicationManager.recoverChunks_iff_replaces hmin (Nat.pos_of_ne_zero hsize) hheld
    hregisters hpush hstatus
  refine ⟨hiff, fun hreplaces listing hlist => ?_⟩
  have hrecovered := ReplicationManager.recovered_of_ok hengine (hiff.mpr hreplaces listing hlist)
    (engine.decrypt_encrypt last.iv content)
  refine ⟨hrecovered, fun reading => ?_⟩
  apply ReplicationManager.recover_of_recovered
  exact hrecovered

/-- An engine that puts the length in front and takes back only what has its length in front. -/
def lengthEngine : EncryptionEngine where
  encrypt _ data := UInt8.ofNat data.length :: data
  decrypt
    | [] => none
    | length :: data => if length = UInt8.ofNat data.length then some data else none
  decrypt_encrypt _ _ := if_pos rfl

theorem lengthEngine_authentic {blob content : Bytes}
    (h : lengthEngine.decrypt blob = some content) : blob = lengthEngine.encrypt [] content := by
  cases blob with
  | nil => cases h
  | cons length data =>
      simp only [lengthEngine] at h ⊢
      split_ifs at h with hlength
      rw [Option.some_inj] at h
      rw [← h, hlength]

/-- A backup of a file of the content on one other device. -/
def backupOf (content : Bytes) (device : DeviceId := "phone") : BackupCall where
  jbod := (({ BackedUpDevice.newDevice.jbod with encryptionEngine := some lengthEngine }).writeFile
    { now := 0, uuid := List.replicate 32 'a', diskFree := fun _ => 100 } "/a".toList content).2
  remote := fun _ _ _ => none
  iv := []
  answers := List.replicate 3 { holders := [(device, .recorded)] }

/-- The network after a first backup of the content. -/
def afterBackupOf (content : Bytes) : ReplicaNetwork :=
  (BackedUpDevice.newManager.replicate (backupOf content).jbod BackedUpDevice.newDevice.network
    (fun _ _ _ => none) [] "/a".toList (backupOf content).answers).2.2

theorem newNetwork_neverBackedUp (ref : Text) :
    BackedUpDevice.newManager.NeverBackedUp BackedUpDevice.newDevice.network ref :=
  ⟨BackedUpDevice.newDevice_start.named, fun _ _ h => nomatch h⟩

/-- What the phone holds of a path after a first backup of one chunk, and no more. -/
theorem replaces_afterBackupOf :
    BackedUpDevice.newManager.Replaces (afterBackupOf [7])
      (BackedUpDevice.newManager.fileRef "/a".toList)
      (Chunks.split 4 (lengthEngine.encrypt [] [1, 2, 3, 4, 5]))
      (backupOf [1, 2, 3, 4, 5]).answers := by
  have hrows : ∀ x ∈ (afterBackupOf [7]).chunks.rows, x.2.idx < 2 := by decide
  have hholders : ∀ x ∈ (Chunks.split 4 (lengthEngine.encrypt [] [1, 2, 3, 4, 5])).zip
      (backupOf [1, 2, 3, 4, 5]).answers, ∀ r ∈ (afterBackupOf [7]).replicas,
        ∃ y ∈ x.2.holders, y.1 = r.2 ∧ y.2.stores = true := by decide
  refine ⟨fun id info hget _ => ?_, fun x hx device hdevice => ?_⟩
  · exact hrows (id, info) (Table.mem_rows_of_get hget)
  · exact Or.inl (hholders x hx _ hdevice)

theorem recover_last_backup_iff_grown :
    ∃ j' net', BackedUpDevice.newManager.replicate (backupOf [1, 2, 3, 4, 5]).jbod
        (afterBackupOf [7]) (fun _ _ _ => none) [] "/a".toList (backupOf [1, 2, 3, 4, 5]).answers =
        (.ok ⟨.replicated, 2, 1, [1, 1]⟩, j', net') ∧
      BackedUpDevice.newManager.Restores j' net' "/a".toList [1, 2, 3, 4, 5] := by
  refine ⟨_, _, rfl, ?_⟩
  have hrun : Transitions.run (step BackedUpDevice.newManager "/a".toList)
      BackedUpDevice.newDevice.network [backupOf [7]] = some (afterBackupOf [7]) := rfl
  have hregisters : (backupOf [1, 2, 3, 4, 5]).Registers := by
    intro answer hanswer
    rw [List.eq_of_mem_replicate hanswer]
  have hcontent : ((backupOf [1, 2, 3, 4, 5]).jbod.readFile (backupOf [1, 2, 3, 4, 5]).remote
      "/a".toList).1 = .ok [1, 2, 3, 4, 5] := by decide
  exact (recover_last_backup_iff (Nat.le_refl 1) (newNetwork_neverBackedUp _) hrun hregisters rfl
    hcontent rfl rfl).2 replaces_afterBackupOf

/-- A file of two chunks is backed up, written anew with one byte and backed up again: the second
chunk stays registered, and a recovery joins it to the new first one. -/
theorem shrunk_backup_not_restored :
    ¬ ∀ (m : ReplicationManager) (p : Text) (start net net' : ReplicaNetwork)
      (calls : List BackupCall) (last : BackupCall) (content : Bytes) (j' : JbodManager)
      (result : ReplicationResult), 1 ≤ m.minReplicas → m.NeverBackedUp start (m.fileRef p) →
      (∀ c ∈ calls, c.Registers) → Transitions.run (step m p) start calls = some net →
      last.Registers → (last.jbod.readFile last.remote p).1 = .ok content →
      m.replicate last.jbod net last.remote last.iv p last.answers = (.ok result, j', net') →
      result.status = .replicated → m.Restores j' net' p content := by
  intro h
  have hregisters : ∀ content, (backupOf content).Registers := by
    intro content answer hanswer
    rw [List.eq_of_mem_replicate hanswer]
  have hrun : Transitions.run (step BackedUpDevice.newManager "/a".toList)
      BackedUpDevice.newDevice.network [backupOf [1, 2, 3, 4, 5]] =
        some (afterBackupOf [1, 2, 3, 4, 5]) := rfl
  have hcontent : ((backupOf [7]).jbod.readFile (backupOf [7]).remote "/a".toList).1 = .ok [7] := by
    decide
  obtain ⟨j', net', hlast, hengine⟩ : ∃ j' net', BackedUpDevice.newManager.replicate
      (backupOf [7]).jbod (afterBackupOf [1, 2, 3, 4, 5]) (backupOf [7]).remote (backupOf [7]).iv
      "/a".toList (backupOf [7]).answers = (.ok ⟨.replicated, 1, 1, [1]⟩, j', net') ∧
        j'.encryptionEngine = some lengthEngine := ⟨_, _, rfl, rfl⟩
  have hrestores := h _ _ _ _ _ _ _ _ _ _ (Nat.le_refl 1) (newNetwork_neverBackedUp _)
    (fun c hc => List.mem_singleton.mp hc ▸ hregisters _) hrun (hregisters _) hcontent hlast rfl
  -- only the last blob decrypts to the content, so the blob would have come back
  have hback : BackedUpDevice.newManager.GivesBack net' "/a".toList (lengthEngine.encrypt [] [7]) := by
    intro listing hlist
    have hrecovered := (hrestores listing hlist).1
    unfold ReplicationManager.recovered at hrecovered
    rw [hengine] at hrecovered
    dsimp only at hrecovered
    split at hrecovered
    · cases hrecovered
    · rename_i blob hblob
      split at hrecovered
      · rename_i plaintext hdecrypt
        rw [Except.ok.injEq] at hrecovered
        subst hrecovered
        rw [hblob, lengthEngine_authentic hdecrypt]
      · cases hrecovered
  have hpush : BackedUpDevice.newManager.replicateChunks
      (BackedUpDevice.newManager.fileRef "/a".toList)
      (Chunks.split 4 (lengthEngine.encrypt [] [7])) (backupOf [7]).answers
      (afterBackupOf [1, 2, 3, 4, 5]) = (some [1], net') := by
    have hnet : (BackedUpDevice.newManager.replicate (backupOf [7]).jbod
      (afterBackupOf [1, 2, 3, 4, 5]) (backupOf [7]).remote (backupOf [7]).iv
      "/a".toList (backupOf [7]).answers).2.2 = net' := by rw [hlast]
    rw [← hnet]
    rfl
  have hreplaces := (ReplicationManager.recoverChunks_iff_replaces (Nat.le_refl 1) (by decide)
    (holdersStore_run (newNetwork_neverBackedUp _) hrun) (hregisters [7]) hpush rfl).mp hback
  have hrest := hreplaces.no_rest "user:/a:1".toList ⟨"user:/a".toList, 1, 2⟩ (by decide) rfl
  revert hrest
  decide

end BackupCall

end StardustFS
