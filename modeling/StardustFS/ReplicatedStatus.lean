import StardustFS.ReplicationManager
import StardustFS.Transitions

/-! Whether the status of a file can be trusted. A device writes, deletes, moves and replicates files;
a file of its own that is marked replicated should come back from the holders as it reads now. The
status is a column of the file's record that writes and moves carry along, and the chunks on the
holders go by the path, so the mark outlives what it was put for. -/

namespace StardustFS

/-- A device with the registry and the holders it backs up to. -/
structure BackedUpDevice where
  jbod : JbodManager
  network : ReplicaNetwork

/-- The listing is what the server has: the chunks of the reference in some order, and the holders
recorded for a chunk. -/
structure Listing.Truthful (listing : Listing) (net : ReplicaNetwork) (ref : Text) : Prop where
  chunks : listing.chunks.Perm (net.chunks.rows.filter fun x => x.2.fileRef = ref)
  holders : ∀ id device, device ∈ listing.holders id ↔ (id, device) ∈ net.replicas

/-- The listing of a reference in the order of the tables. -/
def ReplicaNetwork.listing (net : ReplicaNetwork) (ref : Text) : Listing where
  chunks := net.chunks.rows.filter fun x => x.2.fileRef = ref
  holders := fun id => (net.replicas.filter fun x => x.1 = id).map Prod.snd

theorem ReplicaNetwork.listing_truthful (net : ReplicaNetwork) (ref : Text) :
    (net.listing ref).Truthful net ref := by
  refine ⟨List.Perm.refl _, fun id device => ?_⟩
  simp only [listing, List.mem_map, List.mem_filter, decide_eq_true_eq, Prod.exists,
    exists_eq_right]

namespace ReplicationManager

/-! ### A backup and what it gives back -/

/-- The registry has the chunks of the blob under the reference and no others, and every recorded
holder of one stores its bytes. -/
structure Backup (m : ReplicationManager) (net : ReplicaNetwork) (ref : Text) (blob : Bytes) :
    Prop where
  size : 0 < m.chunkSize
  some_chunk : 0 < Chunks.count blob.length m.chunkSize
  only : ∀ id info, net.chunks.get id = some info → info.fileRef = ref →
    info.idx < Chunks.count blob.length m.chunkSize
  registered : ∀ idx < Chunks.count blob.length m.chunkSize,
    ∃ info, net.chunks.get (m.chunkId ref idx) = some info ∧ info.fileRef = ref ∧ info.idx = idx
  recorded : ∀ idx < Chunks.count blob.length m.chunkSize,
    ∃ device, (m.chunkId ref idx, device) ∈ net.replicas
  stored : ∀ idx < Chunks.count blob.length m.chunkSize, ∀ device,
    (m.chunkId ref idx, device) ∈ net.replicas →
      net.stored.get (m.chunkId ref idx, device) =
        some ((blob.drop (idx * m.chunkSize)).take m.chunkSize)

theorem Backup.congr {m : ReplicationManager} {net net' : ReplicaNetwork} {ref : Text} {blob : Bytes}
    (h : m.Backup net ref blob) (hnamed : m.WellNamed net')
    (hsame : ∀ idx, SameAt (m.chunkId ref idx) net net') : m.Backup net' ref blob := by
  refine ⟨h.size, h.some_chunk, fun id info hget href => ?_, fun idx hidx => ?_, fun idx hidx => ?_,
    fun idx hidx device hmem => ?_⟩
  · have hid := hnamed id info hget
    rw [href] at hid
    rw [hid, (hsame info.idx).chunks] at hget
    exact h.only _ info hget href
  · rw [(hsame idx).chunks]
    exact h.registered idx hidx
  · obtain ⟨device, hmem⟩ := h.recorded idx hidx
    exact ⟨device, ((hsame idx).replicas device).mpr hmem⟩
  · rw [(hsame idx).stored]
    exact h.stored idx hidx device (((hsame idx).replicas device).mp hmem)

theorem findSome?_of_all {α β : Type*} {l : List α} {f : α → Option β} {b : β} (hne : l ≠ [])
    (h : ∀ a ∈ l, f a = some b) : l.findSome? f = some b := by
  cases l with
  | nil => exact absurd rfl hne
  | cons a l => rw [List.findSome?_cons, h a List.mem_cons_self]

theorem WellNamed.of_get_chunkId {m : ReplicationManager} {net : ReplicaNetwork}
    (h : m.WellNamed net) {ref : Text} {idx : Nat} {info : ChunkInfo}
    (hget : net.chunks.get (m.chunkId ref idx) = some info) :
    info.fileRef = ref ∧ info.idx = idx := by
  obtain ⟨href, hidx⟩ := m.chunkId_injective (h _ _ hget)
  exact ⟨href.symm, hidx.symm⟩

theorem recoverChunks_eq_ok_iff {net : ReplicaNetwork} {listing : Listing} {blob : Bytes} :
    recoverChunks net listing = .ok blob ↔ listing.chunks ≠ [] ∧
      (∀ x ∈ listing.chunks, (fetchFromAnyHolder net listing x.1).isSome) ∧
      blob = Chunks.join (listing.chunks.filterMap fun x =>
        (fetchFromAnyHolder net listing x.1).map fun data => (x.2.idx, data)) := by
  have hmissing : (listing.chunks.filter fun x => (fetchFromAnyHolder net listing x.1).isNone) = [] ↔
      ∀ x ∈ listing.chunks, (fetchFromAnyHolder net listing x.1).isSome := by
    simp only [List.filter_eq_nil_iff, Option.isNone_iff_eq_none, ← Option.not_isSome_iff_eq_none,
      not_not]
  rw [← hmissing, recoverChunks]
  dsimp only
  split_ifs with hempty hgone
  · simp [hempty]
  · simp [hgone]
  · rw [Except.ok.injEq, and_iff_right hempty, and_iff_right (not_not.mp hgone), eq_comm]

/-- What the server lists for a reference is under the ids of the reference. -/
theorem mem_listed {m : ReplicationManager} {net : ReplicaNetwork} {ref : Text}
    {chunks : List (Text × ChunkInfo)} (hnamed : m.WellNamed net)
    (hchunks : chunks.Perm (net.chunks.rows.filter fun x => x.2.fileRef = ref))
    {x : Text × ChunkInfo} :
    x ∈ chunks ↔ x.1 = m.chunkId ref x.2.idx ∧ net.chunks.get x.1 = some x.2 := by
  rw [hchunks.mem_iff, List.mem_filter, decide_eq_true_eq, ← Table.get_eq_some_iff]
  constructor
  · rintro ⟨hget, rfl⟩
    exact ⟨hnamed x.1 x.2 hget, hget⟩
  · rintro ⟨hid, hget⟩
    rw [hid] at hget
    exact ⟨hid ▸ hget, (hnamed.of_get_chunkId hget).1⟩

/-- **A recovery that fetches a piece for every index** joins the pieces in the order of the indices,
whatever the order of the listing. -/
theorem recoverChunks_of_fetch {m : ReplicationManager} {net : ReplicaNetwork} {ref : Text}
    {listing : Listing} {n : Nat} {piece : Nat → Bytes} (hnamed : m.WellNamed net)
    (hchunks : listing.chunks.Perm (net.chunks.rows.filter fun x => x.2.fileRef = ref))
    (hpos : 0 < n) (hindices : ∀ idx, (net.chunks.get (m.chunkId ref idx)).isSome ↔ idx < n)
    (hfetch : ∀ idx < n, fetchFromAnyHolder net listing (m.chunkId ref idx) = some (piece idx)) :
    recoverChunks net listing = .ok ((List.range n).map piece).flatten := by
  have hmem : ∀ {x}, x ∈ listing.chunks ↔ x.1 = m.chunkId ref x.2.idx ∧
      net.chunks.get x.1 = some x.2 := mem_listed hnamed hchunks
  have hlisted : ∀ x ∈ listing.chunks, x.2.idx < n ∧
      fetchFromAnyHolder net listing x.1 = some (piece x.2.idx) := by
    intro x hx
    obtain ⟨hid, hget⟩ := hmem.mp hx
    have hidx : x.2.idx < n := (hindices x.2.idx).mp (by rw [← hid, hget]; rfl)
    exact ⟨hidx, hid ▸ hfetch _ hidx⟩
  have hparts : (listing.chunks.filterMap fun x =>
      (fetchFromAnyHolder net listing x.1).map fun data => (x.2.idx, data)) =
      listing.chunks.map fun x => (x.2.idx, piece x.2.idx) := by
    rw [← List.filterMap_eq_map]
    refine List.filterMap_congr fun x hx => ?_
    rw [(hlisted x hx).2]
    rfl
  have hnodup : (listing.chunks.map fun x => (x.2.idx, piece x.2.idx)).Nodup := by
    have hrows : listing.chunks.Nodup :=
      hchunks.nodup_iff.mpr ((List.Nodup.of_map _ net.chunks.nodup).filter _)
    refine hrows.map_on fun x hx y hy heq => ?_
    obtain ⟨hid, hget⟩ := hmem.mp hx
    obtain ⟨hid', hget'⟩ := hmem.mp hy
    have hsame : x.1 = y.1 := by rw [hid, hid', (Prod.mk.inj heq).1]
    rw [hsame, hget', Option.some_inj] at hget
    exact Prod.ext hsame hget.symm
  have hrange : ((List.range n).map fun idx => (idx, piece idx)).Nodup :=
    List.Nodup.of_map Prod.fst (by simpa [Function.comp_def] using List.nodup_range)
  have hperm : (listing.chunks.map fun x => (x.2.idx, piece x.2.idx)).Perm
      ((List.range n).map fun idx => (idx, piece idx)) := by
    refine (List.perm_ext_iff_of_nodup hnodup hrange).mpr fun part => ?_
    simp only [List.mem_map, List.mem_range]
    constructor
    · rintro ⟨x, hx, rfl⟩
      exact ⟨_, (hlisted x hx).1, rfl⟩
    · rintro ⟨idx, hidx, rfl⟩
      obtain ⟨info, hget⟩ := Option.isSome_iff_exists.mp ((hindices idx).mpr hidx)
      have hinfo := (hnamed.of_get_chunkId hget).2
      exact ⟨(m.chunkId ref idx, info), hmem.mpr ⟨by rw [hinfo], hget⟩, by rw [hinfo]⟩
  have hsome : listing.chunks ≠ [] := by
    intro hempty
    rw [hempty, List.map_nil] at hperm
    have hlength := hperm.length_eq
    simp only [List.length_nil, List.length_map, List.length_range] at hlength
    omega
  rw [recoverChunks_eq_ok_iff, hparts, Chunks.join_of_perm_range hperm]
  exact ⟨hsome, fun x hx => by rw [(hlisted x hx).2]; rfl, rfl⟩

/-- **A recovery from a backup** joins the chunks of the blob, whatever the order of the listing. -/
theorem recoverChunks_of_backup {m : ReplicationManager} {net : ReplicaNetwork} {ref : Text}
    {blob : Bytes} {listing : Listing} (h : m.Backup net ref blob) (hnamed : m.WellNamed net)
    (hlist : listing.Truthful net ref) : recoverChunks net listing = .ok blob := by
  have hindices : ∀ idx, (net.chunks.get (m.chunkId ref idx)).isSome ↔
      idx < Chunks.count blob.length m.chunkSize := by
    intro idx
    constructor
    · intro hsome
      obtain ⟨info, hget⟩ := Option.isSome_iff_exists.mp hsome
      obtain ⟨href, rfl⟩ := hnamed.of_get_chunkId hget
      exact h.only _ info hget href
    · intro hidx
      obtain ⟨info, hget, -⟩ := h.registered idx hidx
      exact Option.isSome_iff_exists.mpr ⟨info, hget⟩
  have hfetch : ∀ idx < Chunks.count blob.length m.chunkSize,
      fetchFromAnyHolder net listing (m.chunkId ref idx) =
        some ((blob.drop (idx * m.chunkSize)).take m.chunkSize) := by
    intro idx hidx
    refine findSome?_of_all ?_ fun device hdevice => ?_
    · obtain ⟨device, hrecorded⟩ := h.recorded idx hidx
      exact List.ne_nil_of_mem ((hlist.holders _ device).mpr hrecorded)
    · exact h.stored idx hidx device ((hlist.holders _ device).mp hdevice)
  rw [recoverChunks_of_fetch hnamed hlist.chunks h.some_chunk hindices hfetch,
    Chunks.flatten_pieces_count h.size]

theorem recovered_of_ok {j : JbodManager} {net : ReplicaNetwork} {listing : Listing}
    {engine : EncryptionEngine} {blob plaintext : Bytes} (hengine : j.encryptionEngine = some engine)
    (hchunks : recoverChunks net listing = .ok blob) (hdecrypt : engine.decrypt blob = some plaintext) :
    recovered j net listing = .ok plaintext := by
  simp only [recovered, hengine, hchunks, hdecrypt]

/-- A recovery writes what it has recovered. -/
theorem recover_of_recovered {j : JbodManager} {net : ReplicaNetwork} {listing : Listing}
    {plaintext : Bytes} (h : recovered j net listing = .ok plaintext) (reading : Reading) (p : Text) :
    (recover j net listing reading p).2 = (j.writeFile reading p plaintext).2 ∧
      ((j.writeFile reading p plaintext).1 = .ok () →
        (recover j net listing reading p).1 = .ok plaintext.length) := by
  obtain ⟨written, j', hwrite⟩ : ∃ written j', j.writeFile reading p plaintext = (written, j') :=
    ⟨_, _, rfl⟩
  simp only [recover, h, hwrite]
  cases written with
  | ok _ => exact ⟨rfl, fun _ => rfl⟩
  | error e => exact ⟨rfl, fun herror => nomatch herror⟩

/-- A file of one chunk is recovered as the bytes that are fetched for it. -/
theorem recoverChunks_of_single {net : ReplicaNetwork} {listing : Listing} {id : Text}
    {info : ChunkInfo} {data : Bytes} (hchunks : listing.chunks = [(id, info)])
    (hfetch : fetchFromAnyHolder net listing id = some data) :
    recoverChunks net listing = .ok data := by
  simp [recoverChunks, hchunks, hfetch, Chunks.join_singleton]

/-- Every chunk gets the replicas that are asked for. -/
def Suffices (m : ReplicationManager) (chunks : List (Nat × Bytes)) (answers : List ChunkAnswer) :
    Prop :=
  chunks ≠ [] ∧ Completes chunks answers ∧
    ∀ x ∈ chunks.zip answers, m.minReplicas ≤ x.2.placed

/-- A push that renews a backup completely: no chunk is left over from a longer file, every chunk is
in the registry, and every holder recorded for a chunk takes its new bytes. -/
structure Renews (m : ReplicationManager) (net : ReplicaNetwork) (ref : Text)
    (chunks : List (Nat × Bytes)) (answers : List ChunkAnswer) : Prop where
  replicas : 1 ≤ m.minReplicas
  no_rest : ∀ id info, net.chunks.get id = some info → info.fileRef = ref →
    info.idx < chunks.length
  registered : ∀ x ∈ chunks.zip answers,
    x.2.registered = true ∨ (net.chunks.get (m.chunkId ref x.1.1)).isSome
  reached : ∀ x ∈ chunks.zip answers, ∀ device, (m.chunkId ref x.1.1, device) ∈ net.replicas →
    ∃ y ∈ x.2.holders, y.1 = device ∧ y.2.stores = true

/-- A push that replaces what earlier ones left: no chunk of the reference lies beyond those that are
pushed, and a holder recorded for a chunk takes its new bytes, where it does not store them already. -/
structure Replaces (m : ReplicationManager) (net : ReplicaNetwork) (ref : Text)
    (chunks : List (Nat × Bytes)) (answers : List ChunkAnswer) : Prop where
  no_rest : ∀ id info, net.chunks.get id = some info → info.fileRef = ref →
    info.idx < chunks.length
  reached : ∀ x ∈ chunks.zip answers, ∀ device, (m.chunkId ref x.1.1, device) ∈ net.replicas →
    (∃ y ∈ x.2.holders, y.1 = device ∧ y.2.stores = true) ∨
      net.stored.get (m.chunkId ref x.1.1, device) = some x.1.2

theorem Renews.replaces {m : ReplicationManager} {net : ReplicaNetwork} {ref : Text}
    {chunks : List (Nat × Bytes)} {answers : List ChunkAnswer}
    (h : m.Renews net ref chunks answers) : m.Replaces net ref chunks answers :=
  ⟨h.no_rest, fun x hx device hdevice => Or.inl (h.reached x hx device hdevice)⟩

theorem exists_recorded {answer : ChunkAnswer} (h : 1 ≤ answer.placed) :
    ∃ device, (device, .recorded) ∈ answer.holders := by
  obtain ⟨x, hx, hrecorded⟩ := List.countP_pos_iff.mp h
  have heq : x = (x.1, PushAnswer.recorded) := Prod.ext rfl (of_decide_eq_true hrecorded)
  exact ⟨x.1, heq ▸ hx⟩

theorem exists_zip {α β : Type*} {l : List α} {l' : List β} (hlength : l.length ≤ l'.length)
    {a : α} (ha : a ∈ l) : ∃ b, (a, b) ∈ l.zip l' := by
  have hmap : (l.zip l').map Prod.fst = l := List.map_fst_zip hlength
  rw [← hmap, List.mem_map] at ha
  obtain ⟨x, hx, rfl⟩ := ha
  exact ⟨x.2, hx⟩

/-- **What a sufficient replication leaves** that registers every chunk and replaces what was there is
a backup of the blob. -/
theorem backup_of_replicateChunks {m : ReplicationManager} {net net' : ReplicaNetwork} {ref : Text}
    {blob : Bytes} {chunks : List (Nat × Bytes)} {answers : List ChunkAnswer} {counts : List Nat}
    (hsplit : m.splitBlob blob = some chunks) (hnamed : m.WellNamed net)
    (hmin : 1 ≤ m.minReplicas) (hsuffices : m.Suffices chunks answers)
    (hregistered : ∀ x ∈ chunks.zip answers,
      x.2.registered = true ∨ (net.chunks.get (m.chunkId ref x.1.1)).isSome)
    (hreplaces : m.Replaces net ref chunks answers)
    (h : m.replicateChunks ref chunks answers net = (some counts, net')) :
    m.Backup net' ref blob := by
  unfold splitBlob at hsplit
  split_ifs at hsplit with hsize
  rw [Option.some_inj] at hsplit
  subst hsplit
  obtain ⟨hne, -, hplaced⟩ := hsuffices
  have hcount := Chunks.length_split m.chunkSize blob
  have hnamed' : m.WellNamed net' := by
    have hkept := hnamed.replicateChunks ref (Chunks.split m.chunkSize blob) answers
    rw [h] at hkept
    exact hkept
  obtain ⟨hlength, -, hpushed⟩ := m.replicateChunks_ok ref
    (Chunks.nodup_map_fst_split _ _) h
  have hfind : ∀ idx < Chunks.count blob.length m.chunkSize, ∃ answer,
      ((idx, (blob.drop (idx * m.chunkSize)).take m.chunkSize), answer) ∈
        (Chunks.split m.chunkSize blob).zip answers := fun idx hidx =>
    exists_zip hlength (Chunks.mem_split.mpr ⟨hidx, rfl⟩)
  have hfound : ∀ idx < Chunks.count blob.length m.chunkSize,
      ∃ info, net'.chunks.get (m.chunkId ref idx) = some info := by
    intro idx hidx
    obtain ⟨answer, hmem⟩ := hfind idx hidx
    have hchunks := (hpushed _ hmem).chunks
    dsimp only at hchunks
    rw [hchunks]
    split_ifs with hreg
    · exact ⟨_, rfl⟩
    · exact Option.isSome_iff_exists.mp ((hregistered _ hmem).resolve_left hreg)
  refine ⟨Nat.pos_of_ne_zero hsize, ?_, fun id info hget href => ?_, fun idx hidx => ?_,
    fun idx hidx => ?_, fun idx hidx device hmem => ?_⟩
  · rw [← hcount]
    exact List.length_pos_of_ne_nil hne
  · by_contra hlarge
    have hid := hnamed' id info hget
    have hsame := m.sameAt_replicateChunks ref id (Chunks.split m.chunkSize blob) answers net
      fun chunk hchunk he => hlarge (by
        rw [hid] at he
        rw [(m.chunkId_injective he).2]
        exact (Chunks.mem_split.mp hchunk).1)
    rw [h] at hsame
    rw [hsame.chunks] at hget
    exact hlarge (hcount ▸ hreplaces.no_rest id info hget href)
  · obtain ⟨info, hget⟩ := hfound idx hidx
    have hid := m.chunkId_injective (hnamed' _ info hget)
    exact ⟨info, hget, hid.1.symm, hid.2.symm⟩
  · obtain ⟨answer, hmem⟩ := hfind idx hidx
    obtain ⟨device, hdevice⟩ := exists_recorded (hmin.trans (hplaced _ hmem))
    exact ⟨device, ((hpushed _ hmem).replicas device).mpr (Or.inr hdevice)⟩
  · obtain ⟨answer, hzip⟩ := hfind idx hidx
    have hstored := (hpushed _ hzip).stored device
    dsimp only at hstored
    rw [hstored]
    rcases ((hpushed _ hzip).replicas device).mp hmem with hold | hnew
    · rcases hreplaces.reached _ hzip device hold with htakes | hsame
      · rw [if_pos htakes]
      · rw [hsame, ite_self]
    · rw [if_pos ⟨(device, .recorded), hnew, rfl, rfl⟩]

/-- A replication that ends with the status `replicated` had sufficient answers. -/
theorem suffices_of_statusOf {m : ReplicationManager} {net net' : ReplicaNetwork} {ref : Text}
    {chunks : List (Nat × Bytes)} {answers : List ChunkAnswer} {counts : List Nat}
    (hnodup : (chunks.map Prod.fst).Nodup)
    (h : m.replicateChunks ref chunks answers net = (some counts, net'))
    (hstatus : m.statusOf counts = .replicated) : m.Suffices chunks answers := by
  have hcompletes := (m.replicateChunks_isSome_iff ref chunks answers net).mp (by rw [h]; rfl)
  obtain ⟨hlength, hcounts, -⟩ := m.replicateChunks_ok ref hnodup h
  unfold statusOf at hstatus
  split_ifs at hstatus with hall
  refine ⟨?_, hcompletes, fun x hx => hall.2 _ ?_⟩
  · rintro rfl
    exact hall.1 hcounts
  · rw [hcounts]
    exact List.mem_map_of_mem hx

end ReplicationManager

/-! ### Runs -/

/-- A call on the device: of the volume, or of the replication manager with what the server and the
holders answer. -/
inductive ReplicationEvent where
  | write (reading : Reading) (virtualPath : Text) (data : Bytes)
  | delete (now : Time) (virtualPath : Text)
  | move (src dst : Text)
  | replicate (remote : RemoteRead) (iv : Bytes) (virtualPath : Text) (answers : List ChunkAnswer)

namespace BackedUpDevice

variable (m : ReplicationManager)

/-- One call, whatever its outcome. A UUID that is drawn is a new one. -/
def step (d : BackedUpDevice) : ReplicationEvent → Option BackedUpDevice
  | .write reading p data =>
      if d.jbod.FreshUuid reading p then
        some { d with jbod := (d.jbod.writeFile reading p data).2 }
      else none
  | .delete now p => some { d with jbod := (d.jbod.deleteFile now p).2 }
  | .move src dst => some { d with jbod := (d.jbod.moveFile src dst).2 }
  | .replicate remote iv p answers =>
      let (_, jbod, network) := m.replicate d.jbod d.network remote iv p answers
      some ⟨jbod, network⟩

/-- **The status can be trusted**: a file of this device that is marked replicated is recovered as it
reads now, whatever the order in which the server lists. -/
def Trusted (d : BackedUpDevice) : Prop :=
  ∀ p row data remote, d.jbod.Held p row → row.replicationStatus = .replicated →
    (d.jbod.readFile remote p).1 = .ok data →
    ∀ listing : Listing, listing.Truthful d.network (m.fileRef p) →
      ReplicationManager.recovered d.jbod d.network listing = .ok data

/-- Before the first backup: no file of the device is marked, and the registry has chunks of this
device's manager only. -/
structure Start (d : BackedUpDevice) : Prop where
  unmarked : ∀ p row, d.jbod.Held p row → row.replicationStatus ≠ .replicated
  apart : d.jbod.PlacesApart
  named : m.WellNamed d.network

/-- What keeps the status true. A path whose record is marked is written with what it reads already,
and is not moved away; a replication of a file of this device that was marked is not broken off, and
one that marks it renews the backup. -/
def StepOk (d : BackedUpDevice) : ReplicationEvent → Prop
  | .write _ p data => ∀ row, d.jbod.metadataStore.lookupAny p = some row →
      row.replicationStatus = .replicated →
        d.jbod.Held p row ∧ ∀ remote, (d.jbod.readFile remote p).1 = .ok data
  | .delete .. => True
  | .move src dst => src = dst ∨
      ∀ row, d.jbod.Held src row → row.replicationStatus ≠ .replicated
  | .replicate remote iv p answers => ∀ row, d.jbod.Held p row →
      ∀ engine plaintext chunks, d.jbod.encryptionEngine = some engine →
        (d.jbod.readFile remote p).1 = .ok plaintext →
        m.splitBlob (engine.encrypt iv plaintext) = some chunks →
          (row.replicationStatus = .replicated → ReplicationManager.Completes chunks answers) ∧
          (m.Suffices chunks answers → m.Renews d.network (m.fileRef p) chunks answers)

/-- The invariant: a marked file has a backup of what it reads. -/
structure Inv (d : BackedUpDevice) : Prop where
  apart : d.jbod.PlacesApart
  named : m.WellNamed d.network
  backed : ∀ p row data remote, d.jbod.Held p row → row.replicationStatus = .replicated →
    (d.jbod.readFile remote p).1 = .ok data →
      ∃ engine blob, d.jbod.encryptionEngine = some engine ∧ engine.decrypt blob = some data ∧
        m.Backup d.network (m.fileRef p) blob

variable {m}

theorem Inv.trusted {d : BackedUpDevice} (h : Inv m d) : Trusted m d := by
  intro p row data remote hrow hmarked hread listing hlist
  obtain ⟨engine, blob, hengine, hdecrypt, hbackup⟩ := h.backed p row data remote hrow hmarked hread
  exact ReplicationManager.recovered_of_ok hengine
    (ReplicationManager.recoverChunks_of_backup hbackup h.named hlist) hdecrypt

theorem inv_of_start {d : BackedUpDevice} (h : Start m d) : Inv m d :=
  ⟨h.apart, h.named, fun p row _ _ hrow hmarked => absurd hmarked (h.unmarked p row hrow)⟩

/-- An operation of the volume keeps the backup of a file whose record and place it leaves alone. -/
theorem Inv.backed_of_frame {d : BackedUpDevice} {j : JbodManager} {changed : Location → Prop}
    (h : Inv m d) (hframe : JbodManager.Frame changed d.jbod j) {p : Text} {row : FileRow}
    {data : Bytes} {remote : RemoteRead} (hrow : d.jbod.Held p row) (hrow' : j.Held p row)
    (hplace : ¬ changed row.location) (hmarked : row.replicationStatus = .replicated)
    (hread : (j.readFile remote p).1 = .ok data) :
    ∃ engine blob, j.encryptionEngine = some engine ∧ engine.decrypt blob = some data ∧
      m.Backup d.network (m.fileRef p) blob := by
  have hbefore := JbodManager.readFile_of_frame hframe hrow hrow' hplace hread
  rw [hframe.engine]
  exact h.backed p row data remote hrow hmarked hbefore

theorem inv_write {d : BackedUpDevice} {reading : Reading} {p : Text} {data : Bytes}
    (h : Inv m d) (hok : StepOk m d (.write reading p data)) (hfresh : d.jbod.FreshUuid reading p) :
    Inv m { d with jbod := (d.jbod.writeFile reading p data).2 } := by
  obtain ⟨result, j, hwrite⟩ : ∃ result j, d.jbod.writeFile reading p data = (result, j) :=
    ⟨_, _, rfl⟩
  rw [hwrite]
  obtain ⟨hframe, hrecords⟩ := JbodManager.writeFile_frame hwrite
  refine ⟨JbodManager.placesApart_writeFile h.apart hfresh hwrite, h.named,
    fun q row data' remote hrow hmarked hread => ?_⟩
  dsimp only at hrow hread ⊢
  cases result with
  | error e =>
      have hbefore := JbodManager.held_of_records (hrecords (fun heq => nomatch heq))
        hframe.deviceId hrow
      refine h.backed_of_frame hframe hbefore hrow ?_ hmarked hread
      rintro (hpath | ⟨hnot, -⟩)
      · exact hfresh.ne hbefore hpath
      · cases hnot
  | ok _ =>
      obtain ⟨place, hw⟩ := JbodManager.writeFile_ok hwrite
      by_cases hq : q = p
      · subst hq
        have hdata : data = data' := by
          rw [hw.readFile_eq hrow remote, Except.ok.injEq] at hread
          exact hread
        subst hdata
        have hlookup := hrow.1
        rw [hw.lookup_self, Option.some_inj] at hlookup
        rw [← hlookup, JbodManager.writtenRow_replicationStatus] at hmarked
        cases hold : d.jbod.metadataStore.lookupAny q with
        | none =>
            rw [hold] at hmarked
            cases hmarked
        | some r =>
            rw [hold] at hmarked
            obtain ⟨hheld, hsame⟩ := hok r hold hmarked
            rw [hw.engine]
            exact h.backed q r data remote hheld hmarked (hsame remote)
      · have hbefore := hw.held_of_ne hq hrow
        refine h.backed_of_frame hframe hbefore hrow ?_ hmarked hread
        rintro (hpath | ⟨-, existing, hexisting, howner, hplace⟩)
        · exact hfresh.ne hbefore hpath
        · exact hq (h.apart q p row existing hbefore ⟨hexisting, howner⟩ hplace)

theorem inv_delete {d : BackedUpDevice} {now : Time} {p : Text} (h : Inv m d) :
    Inv m { d with jbod := (d.jbod.deleteFile now p).2 } := by
  obtain ⟨result, j, hdelete⟩ : ∃ result j, d.jbod.deleteFile now p = (result, j) := ⟨_, _, rfl⟩
  rw [hdelete]
  obtain ⟨hframe, hrecords⟩ := JbodManager.deleteFile_frame hdelete
  refine ⟨JbodManager.placesApart_deleteFile h.apart hdelete, h.named,
    fun q row data remote hrow hmarked hread => ?_⟩
  dsimp only at hrow hread ⊢
  obtain ⟨hbefore, hne⟩ := JbodManager.held_deleteFile hdelete hrow
  refine h.backed_of_frame hframe hbefore hrow ?_ hmarked hread
  rintro ⟨hresult, gone, hgone, howner, hplace⟩
  exact hne hresult (h.apart q p row gone hbefore ⟨hgone, howner⟩ hplace)

theorem inv_move {d : BackedUpDevice} {src dst : Text} (h : Inv m d)
    (hok : StepOk m d (.move src dst)) :
    Inv m { d with jbod := (d.jbod.moveFile src dst).2 } := by
  obtain ⟨result, j, hmove⟩ : ∃ result j, d.jbod.moveFile src dst = (result, j) := ⟨_, _, rfl⟩
  rw [hmove]
  refine ⟨JbodManager.placesApart_moveFile h.apart hmove, h.named,
    fun q row data remote hrow hmarked hread => ?_⟩
  dsimp only at hrow hread ⊢
  have hframe : JbodManager.Frame (fun _ => False) d.jbod j := by
    rcases JbodManager.moveFile_cases hmove with rfl | ⟨-, -, s, -, rfl, -⟩
    · exact JbodManager.Frame.refl _
    · exact (JbodManager.Frame.refl d.jbod).withRecords s _
  rcases JbodManager.held_moveFile hmove hrow with ⟨hbefore, -⟩ | ⟨hne, -, hbefore⟩
  · exact h.backed_of_frame hframe hbefore hrow not_false hmarked hread
  · exact absurd hmarked (hok.resolve_left hne row hbefore)

/-- The chunks of two paths have no id in common. -/
theorem sameAt_of_ne {p q : Text} (hne : q ≠ p) {chunks : List (Nat × Bytes)}
    {answers : List ChunkAnswer} {net net' : ReplicaNetwork} {counts : Option (List Nat)}
    (h : m.replicateChunks (m.fileRef p) chunks answers net = (counts, net')) (idx : Nat) :
    ReplicationManager.SameAt (m.chunkId (m.fileRef q) idx) net net' := by
  have hsame := m.sameAt_replicateChunks (m.fileRef p) (m.chunkId (m.fileRef q) idx) chunks
    answers net fun chunk _ he => hne (m.fileRef_injective (m.chunkId_injective he).1)
  rw [h] at hsame
  exact hsame

theorem inv_replicate {d : BackedUpDevice} {remote : RemoteRead} {iv : Bytes} {p : Text}
    {answers : List ChunkAnswer} {result : Except ReplicationError ReplicationResult}
    {j : JbodManager} {net : ReplicaNetwork} (h : Inv m d)
    (hok : StepOk m d (.replicate remote iv p answers))
    (hrep : m.replicate d.jbod d.network remote iv p answers = (result, j, net)) :
    Inv m ⟨j, net⟩ := by
  rcases m.replicate_cases hrep with ⟨-, rfl, hframe, hrecords⟩ |
    ⟨engine, plaintext, chunks, hengine, hplain, hchunks, hends⟩
  · have hheld : ∀ {q row}, j.Held q row → d.jbod.Held q row :=
      JbodManager.held_of_records hrecords hframe.deviceId
    exact ⟨h.apart.of_subset fun _ _ => hheld, h.named,
      fun q row data remote' hrow hmarked hread =>
        h.backed_of_frame hframe (hheld hrow) hrow not_false hmarked hread⟩
  · have hnamed : ∀ {counts net'}, m.replicateChunks (m.fileRef p) chunks answers d.network =
        (counts, net') → m.WellNamed net' := by
      intro counts net' hpush
      have hkept := h.named.replicateChunks (m.fileRef p) chunks answers
      rw [hpush] at hkept
      exact hkept
    have hother : ∀ {counts net' q}, m.replicateChunks (m.fileRef p) chunks answers d.network =
        (counts, net') → q ≠ p → ∀ blob, m.Backup d.network (m.fileRef q) blob →
        m.Backup net' (m.fileRef q) blob :=
      fun hpush hq blob hbackup => hbackup.congr (hnamed hpush) (sameAt_of_ne hq hpush)
    rcases hends with ⟨hpush, rfl, -⟩ | ⟨counts, hpush, rfl, -⟩
    · refine ⟨h.apart, hnamed hpush, fun q row data remote' hrow hmarked hread => ?_⟩
      dsimp only at hrow hread ⊢
      by_cases hq : q = p
      · -- a broken off replication of a marked file is what the condition excludes
        subst hq
        have hcompletes := (hok row hrow engine plaintext chunks hengine hplain hchunks).1 hmarked
        have hsome := (m.replicateChunks_isSome_iff (m.fileRef q) chunks answers d.network).mpr
          hcompletes
        rw [hpush] at hsome
        cases hsome
      · obtain ⟨engine', blob, hengine', hdecrypt, hbackup⟩ :=
          h.backed q row data remote' hrow hmarked hread
        exact ⟨engine', blob, hengine', hdecrypt, hother hpush hq blob hbackup⟩
    · refine ⟨JbodManager.placesApart_setReplicationStatus h.apart _ _, hnamed hpush,
        fun q row data remote' hrow hmarked hread => ?_⟩
      dsimp only at hrow hread ⊢
      have hbytes := (JbodManager.readFile_eq_ok_iff _ hrow.1 hrow.2).mp hread
      rcases JbodManager.held_setReplicationStatus hrow with ⟨hq, hbefore⟩ | ⟨rfl, r, hr, rfl⟩
      · have hread' := (JbodManager.readFile_eq_ok_iff remote' hbefore.1 hbefore.2).mpr hbytes
        obtain ⟨engine', blob, hengine', hdecrypt, hbackup⟩ :=
          h.backed q row data remote' hbefore hmarked hread'
        exact ⟨engine', blob, hengine', hdecrypt, hother hpush hq blob hbackup⟩
      · have hread' : (d.jbod.readFile remote q).1 = .ok data :=
          (JbodManager.readFile_eq_ok_iff _ hr.1 hr.2).mpr hbytes
        rw [hplain, Except.ok.injEq] at hread'
        subst hread'
        have hnodup : (chunks.map Prod.fst).Nodup := by
          unfold ReplicationManager.splitBlob at hchunks
          split_ifs at hchunks
          rw [Option.some_inj] at hchunks
          exact hchunks ▸ Chunks.nodup_map_fst_split _ _
        have hsuffices := ReplicationManager.suffices_of_statusOf hnodup hpush hmarked
        have hrenews := (hok r hr engine plaintext chunks hengine hplain hchunks).2 hsuffices
        exact ⟨engine, _, hengine, engine.decrypt_encrypt iv plaintext,
          ReplicationManager.backup_of_replicateChunks hchunks h.named hrenews.replicas hsuffices
            hrenews.registered hrenews.replaces hpush⟩

theorem inv_step {d d' : BackedUpDevice} {e : ReplicationEvent} (h : Inv m d)
    (hok : StepOk m d e) (hstep : step m d e = some d') : Inv m d' := by
  cases e with
  | write reading p data =>
      rw [step] at hstep
      split_ifs at hstep with hfresh
      rw [← Option.some_inj.mp hstep]
      exact inv_write h hok hfresh
  | delete now p =>
      rw [← Option.some_inj.mp hstep]
      exact inv_delete h
  | move src dst =>
      rw [← Option.some_inj.mp hstep]
      exact inv_move h hok
  | replicate remote iv p answers =>
      rw [← Option.some_inj.mp hstep]
      exact inv_replicate h hok rfl

/-- **The replicated status.** In every run whose steps keep what a mark stands for, a file that is
marked replicated is recovered as it reads. -/
theorem run_trusted {start d : BackedUpDevice} {es : List ReplicationEvent} (hstart : Start m start)
    (hok : Transitions.StepsMeet (step m) (StepOk m) start es)
    (hrun : Transitions.run (step m) start es = some d) : Trusted m d :=
  (Transitions.run_invariant (fun _ _ _ hinv hcond => inv_step hinv hcond) (inv_of_start hstart) hok
    hrun).trusted

/-- A new device with an empty directory source, before its first backup. The engine of it puts a
mark in front of what it encrypts. -/
def newDevice : BackedUpDevice where
  jbod :=
    { metadataStore := MetadataStore.initial
      sources := Table.empty.insert "s" { kind := .directory }
      encryptionEngine := some
        { encrypt := fun _ data => 1 :: data
          decrypt := fun
            | 1 :: data => some data
            | _ => none
          decrypt_encrypt := fun _ _ => rfl }
      deviceId := some "laptop" }
  network := ⟨Table.empty, [], Table.empty⟩

/-- The replication manager of that device; the digest is the text itself. -/
def newManager : ReplicationManager where
  sha256 := ⟨id, Function.injective_id⟩
  userId := "user".toList
  chunkSize := 4

/-- A write of one byte to a file. -/
def writeByte (uuidDigit : Char) (byte : UInt8) : ReplicationEvent :=
  .write { now := 0, uuid := List.replicate 32 uuidDigit, diskFree := fun _ => 100 } "/a".toList
    [byte]

/-- A backup of that file on one other device. -/
def backUp : ReplicationEvent :=
  .replicate (fun _ _ _ => none) [] "/a".toList [{ holders := [("phone", .recorded)] }]

theorem newDevice_start : Start newManager newDevice where
  unmarked _ _ h := nomatch h.1
  apart _ _ _ _ h := nomatch h.1
  named _ _ h := nomatch h

theorem newDevice_run_trusted : ∃ d, Transitions.run (step newManager) newDevice
    [writeByte 'a' 7, backUp] = some d ∧ Trusted newManager d := by
  obtain ⟨d, hd⟩ : ∃ d, Transitions.run (step newManager) newDevice [writeByte 'a' 7, backUp] =
    some d := ⟨_, rfl⟩
  have hwrite : StepOk newManager newDevice (writeByte 'a' 7) := fun row h => nomatch h
  have hbackUp : ∀ d, step newManager newDevice (writeByte 'a' 7) = some d →
      StepOk newManager d backUp := by
    intro d hd row _ engine plaintext chunks hengine hread hchunks
    have hread' : (step newManager newDevice (writeByte 'a' 7)).map (fun d =>
        (d.jbod.readFile (fun _ _ _ => none) "/a".toList).1) = some (.ok [7]) := by decide
    have hengine' : (step newManager newDevice (writeByte 'a' 7)).map (fun d =>
        d.jbod.encryptionEngine) = some newDevice.jbod.encryptionEngine := rfl
    have hnet : (step newManager newDevice (writeByte 'a' 7)).map (fun d => d.network) =
        some newDevice.network := rfl
    rw [hd, Option.map_some, Option.some_inj] at hread' hengine' hnet
    rw [hread, Except.ok.injEq] at hread'
    rw [hengine] at hengine'
    obtain rfl := hread'
    obtain rfl := Option.some_inj.mp hengine'
    have hsplit : newManager.splitBlob [1, 7] = some [(0, [1, 7])] := by decide
    obtain rfl := Option.some_inj.mp (hsplit.symm.trans hchunks)
    refine ⟨fun _ => ⟨Nat.le_refl 1, ?_⟩, fun _ => ⟨Nat.le_refl 1, ?_, ?_, ?_⟩⟩
    · decide
    · rw [hnet]
      exact fun _ _ h => nomatch h
    · rw [hnet]
      exact List.forall_mem_singleton.mpr (Or.inl rfl)
    · rw [hnet]
      exact fun _ _ _ h => nomatch h
  have hok : Transitions.StepsMeet (step newManager) (StepOk newManager) newDevice
      [writeByte 'a' 7, backUp] := ⟨hwrite, fun d hd => ⟨hbackUp d hd, fun _ _ => trivial⟩⟩
  exact ⟨d, hd, run_trusted newDevice_start hok hd⟩

/-- A file is backed up and then written again: it keeps the mark of the backup, and a recovery
brings the old contents back. -/
theorem overwritten_file_stays_replicated : ∃ d, Transitions.run (step newManager) newDevice
    [writeByte 'a' 7, backUp, writeByte 'b' 8] = some d ∧ Start newManager newDevice ∧
      ¬ Trusted newManager d := by
  obtain ⟨d, hd⟩ : ∃ d, Transitions.run (step newManager) newDevice
    [writeByte 'a' 7, backUp, writeByte 'b' 8] = some d := ⟨_, rfl⟩
  refine ⟨d, hd, newDevice_start, fun htrusted => ?_⟩
  have hengine : (Transitions.run (step newManager) newDevice
      [writeByte 'a' 7, backUp, writeByte 'b' 8]).map (fun d => d.jbod.encryptionEngine) =
      some newDevice.jbod.encryptionEngine := rfl
  have hlisting : (Transitions.run (step newManager) newDevice
      [writeByte 'a' 7, backUp, writeByte 'b' 8]).map (fun d =>
        ((d.network.listing "user:/a".toList).chunks,
          ReplicationManager.fetchFromAnyHolder d.network (d.network.listing "user:/a".toList)
            "user:/a:0".toList)) =
      some ([("user:/a:0".toList, ⟨"user:/a".toList, 0, 2⟩)], some [1, 7]) := by decide
  have hrow : (Transitions.run (step newManager) newDevice
      [writeByte 'a' 7, backUp, writeByte 'b' 8]).bind (fun d =>
        (d.jbod.metadataStore.lookup "/a".toList).map fun row =>
          (row.replicationStatus, d.jbod.ownedElsewhere row,
            (d.jbod.readFile (fun _ _ _ => none) "/a".toList).1)) =
      some (.replicated, false, .ok [8]) := by decide
  rw [hd, Option.map_some, Option.some_inj] at hengine
  rw [hd, Option.map_some, Option.some_inj] at hlisting
  rw [hd, Option.bind_some, Option.map_eq_some_iff] at hrow
  obtain ⟨row, hlookup, hrow⟩ := hrow
  obtain ⟨hmarked, hrow⟩ := Prod.mk.inj hrow
  obtain ⟨howner, hread⟩ := Prod.mk.inj hrow
  obtain ⟨hchunks, hfetch⟩ := Prod.mk.inj hlisting
  have hrecover := ReplicationManager.recovered_of_ok  hengine
    (ReplicationManager.recoverChunks_of_single hchunks hfetch) rfl
  have htrust := htrusted "/a".toList row [8] (fun _ _ _ => none) ⟨hlookup, howner⟩ hmarked hread
    (d.network.listing "user:/a".toList) (d.network.listing_truthful _)
  rw [hrecover] at htrust
  cases htrust

end BackedUpDevice

end StardustFS
