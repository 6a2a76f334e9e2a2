import StardustFS.LastBackup
import StardustFS.ReplicaHealing

/-! Which version of a file a recovery brings back. A path is backed up and healed any number of
times, with contents that change, holders that refuse or are away, and calls that are broken off. The
registry keeps every holder it was ever told of, a holder the last bytes it took, and an id names no
version: what must hold between the calls is that every recorded holder of a chunk has the piece of
the last backup that returned. -/

namespace StardustFS

/-- A path on the network, with the vector and the content of the last `replicate` call that
returned. -/
structure ReplicatedPath where
  network : ReplicaNetwork
  last : Option (Bytes × Bytes) := none

/-- A call on the path. A recovery changes nothing on the network and may come between any two. -/
inductive ReplicaEvent where
  | replicate (call : BackupCall)
  | ensure (jbod : JbodManager) (listed : List (Text × ChunkInfo)) (answers : Text → HealAnswer)

namespace ReplicationManager

variable (m : ReplicationManager)

/-- The server lists the chunks of the reference and, as online, recorded holders of them. -/
def ListsRecorded (net : ReplicaNetwork) (ref : Text) (listed : List (Text × ChunkInfo))
    (answers : Text → HealAnswer) : Prop :=
  listed.Perm (net.chunks.rows.filter fun x => x.2.fileRef = ref) ∧
    ∀ x ∈ listed, ∀ device ∈ (answers x.1).online, (x.1, device) ∈ net.replicas

instance (net : ReplicaNetwork) (ref : Text) (listed : List (Text × ChunkInfo))
    (answers : Text → HealAnswer) : Decidable (ListsRecorded net ref listed answers) :=
  inferInstanceAs (Decidable (_ ∧ _))

/-- The recorded holders of the reference's chunks have the pieces of the blob, where there is one,
and all its chunks are registered. -/
structure Current (net : ReplicaNetwork) (ref : Text) (blob : Option Bytes) : Prop where
  named : m.WellNamed net
  holders : ∀ idx device, (m.chunkId ref idx, device) ∈ net.replicas →
    ∃ b, blob = some b ∧ idx < Chunks.count b.length m.chunkSize ∧
      net.stored.get (m.chunkId ref idx, device) = some (Chunks.piece m.chunkSize b idx)
  registered : ∀ b, blob = some b → ∀ idx < Chunks.count b.length m.chunkSize,
    (net.chunks.get (m.chunkId ref idx)).isSome

variable {m} {net : ReplicaNetwork} {ref : Text} {blob : Option Bytes}

/-- **A recovery where the holders are current** brings the blob back or raises, whichever of them
are online. -/
theorem Current.recoverChunks (h : m.Current net ref blob) {listing : Listing} {b : Bytes}
    (hchunks : listing.chunks.Perm (net.chunks.rows.filter fun x => x.2.fileRef = ref))
    (hholders : ∀ id, ∀ device ∈ listing.holders id, (id, device) ∈ net.replicas)
    (hb : ReplicationManager.recoverChunks net listing = .ok b) : blob = some b := by
  obtain ⟨hsome, hfetched, -⟩ := recoverChunks_eq_ok_iff.mp hb
  have hpiece : ∀ idx, (net.chunks.get (m.chunkId ref idx)).isSome →
      ∃ b, blob = some b ∧ idx < Chunks.count b.length m.chunkSize ∧
        fetchFromAnyHolder net listing (m.chunkId ref idx) =
          some (Chunks.piece m.chunkSize b idx) := by
    intro idx hregistered
    obtain ⟨info, hget⟩ := Option.isSome_iff_exists.mp hregistered
    have hidx := (h.named.of_get_chunkId hget).2
    have hlisted : (m.chunkId ref idx, info) ∈ listing.chunks :=
      (mem_listed h.named hchunks).mpr ⟨by rw [hidx], hget⟩
    obtain ⟨data, hdata⟩ := Option.isSome_iff_exists.mp (hfetched _ hlisted)
    obtain ⟨device, hdevice, hstored⟩ := List.exists_of_findSome?_eq_some hdata
    obtain ⟨b, hblob, hlt, hcurrent⟩ := h.holders idx device (hholders _ device hdevice)
    refine ⟨b, hblob, hlt, hdata.trans ?_⟩
    rw [← hcurrent, ← hstored]
  obtain ⟨x, hx⟩ := List.exists_mem_of_ne_nil _ hsome
  obtain ⟨hid, hget⟩ := (mem_listed h.named hchunks).mp hx
  obtain ⟨last, hlast, hlt, -⟩ := hpiece x.2.idx (by rw [← hid, hget]; rfl)
  have hindices : ∀ idx, (net.chunks.get (m.chunkId ref idx)).isSome ↔
      idx < Chunks.count last.length m.chunkSize := by
    intro idx
    refine ⟨fun hregistered => ?_, h.registered last hlast idx⟩
    obtain ⟨b', hb', hidx, -⟩ := hpiece idx hregistered
    rw [hlast, Option.some_inj] at hb'
    exact hb' ▸ hidx
  have hfetch : ∀ idx < Chunks.count last.length m.chunkSize,
      fetchFromAnyHolder net listing (m.chunkId ref idx) =
        some (Chunks.piece m.chunkSize last idx) := by
    intro idx hidx
    obtain ⟨b', hb', -, hdata⟩ := hpiece idx ((hindices idx).mpr hidx)
    rw [hlast, Option.some_inj] at hb'
    exact hb' ▸ hdata
  have hsize : 0 < m.chunkSize := by
    rcases Nat.eq_zero_or_pos m.chunkSize with hzero | hpos
    · simp [Chunks.count, hzero] at hlt
    · exact hpos
  have hjoined := recoverChunks_of_fetch h.named hchunks (Nat.zero_lt_of_lt hlt) hindices hfetch
  rw [hb, Except.ok.injEq, Chunks.flatten_pieces_count hsize] at hjoined
  rw [hlast, hjoined]

/-! ### Healing -/

/-- A copy of the current piece to one more holder. -/
theorem Current.pushHolder (h : m.Current net ref blob) {b : Bytes} {idx : Nat}
    (hblob : blob = some b) (hidx : idx < Chunks.count b.length m.chunkSize)
    (x : DeviceId × PushAnswer) :
    m.Current (ReplicationManager.pushHolder (m.chunkId ref idx) (Chunks.piece m.chunkSize b idx)
      net x) ref blob := by
  have hchunks := chunks_pushHolder (m.chunkId ref idx) (Chunks.piece m.chunkSize b idx) net x
  refine ⟨fun id info hget => ?_, fun idx' device hmem => ?_, fun b' hb' idx' hidx' => ?_⟩
  · rw [hchunks] at hget
    exact h.named id info hget
  · rw [get_stored_pushHolder]
    split_ifs with htakes
    · obtain rfl := (m.chunkId_injective (Prod.mk.inj htakes.1).1).2
      exact ⟨b, hblob, hidx, rfl⟩
    · rcases (mem_replicas_pushHolder _ _ _ _ _).mp hmem with hold | ⟨hnew, hrecorded⟩
      · exact h.holders idx' device hold
      · exact absurd ⟨hnew, by rw [hrecorded]; rfl⟩ htakes
  · rw [hchunks]
    exact h.registered b' hb' idx' hidx'

theorem Current.placeCopies (h : m.Current net ref blob) {b : Bytes} {idx : Nat}
    (hblob : blob = some b) (hidx : idx < Chunks.count b.length m.chunkSize) (need added : Nat)
    (candidates : List (DeviceId × PushAnswer)) :
    m.Current (ReplicationManager.placeCopies (m.chunkId ref idx) (Chunks.piece m.chunkSize b idx)
      need candidates added net).2 ref blob := by
  induction candidates generalizing added net with
  | nil => exact h
  | cons x candidates ih =>
      rw [ReplicationManager.placeCopies]
      split_ifs
      · exact h
      · exact ih (h.pushHolder hblob hidx x) _
      · exact ih (h.pushHolder hblob hidx x) _

/-- What a holder that is recorded for the chunk is fetched from has is the current piece. -/
theorem Current.fetchOnline (h : m.Current net ref blob) {idx : Nat} {answer : HealAnswer}
    {data : Bytes} (honline : ∀ device ∈ answer.online, (m.chunkId ref idx, device) ∈ net.replicas)
    (hdata : ReplicationManager.fetchOnline net (m.chunkId ref idx) answer = some data) :
    ∃ b, blob = some b ∧ idx < Chunks.count b.length m.chunkSize ∧
      data = Chunks.piece m.chunkSize b idx := by
  obtain ⟨device, hdevice, hget⟩ := List.exists_of_findSome?_eq_some hdata
  split_ifs at hget
  obtain ⟨b, hblob, hidx, hstored⟩ := h.holders idx device (honline device hdevice)
  rw [hstored, Option.some_inj] at hget
  exact ⟨b, hblob, hidx, hget.symm⟩

theorem Current.healChunk (h : m.Current net ref blob) {idx : Nat} {answer : HealAnswer}
    (honline : ∀ device ∈ answer.online, (m.chunkId ref idx, device) ∈ net.replicas) :
    m.Current (m.healChunk net (m.chunkId ref idx) answer).2 ref blob := by
  unfold ReplicationManager.healChunk
  dsimp only
  split_ifs
  · exact h
  · split
    · exact h
    · rename_i data hdata
      obtain ⟨b, hblob, hidx, rfl⟩ := h.fetchOnline honline hdata
      exact h.placeCopies hblob hidx _ 0 answer.candidates

theorem replicas_subset_placeCopies (id : Text) (data : Bytes) (need added : Nat)
    (candidates : List (DeviceId × PushAnswer)) (net : ReplicaNetwork) :
    net.replicas ⊆ (ReplicationManager.placeCopies id data need candidates added net).2.replicas := by
  induction candidates generalizing added net with
  | nil => exact fun r hr => hr
  | cons x candidates ih =>
      have hpush : net.replicas ⊆ (ReplicationManager.pushHolder id data net x).replicas :=
        fun r hr => (mem_replicas_pushHolder id data net x r).mpr (Or.inl hr)
      rw [ReplicationManager.placeCopies]
      split_ifs
      · exact fun r hr => hr
      · exact List.Subset.trans hpush (ih _ _)
      · exact List.Subset.trans hpush (ih _ _)

theorem replicas_subset_healChunk (net : ReplicaNetwork) (id : Text) (answer : HealAnswer) :
    net.replicas ⊆ (m.healChunk net id answer).2.replicas := by
  unfold ReplicationManager.healChunk
  dsimp only
  split_ifs
  · exact fun r hr => hr
  · split
    · exact fun r hr => hr
    · exact replicas_subset_placeCopies id _ _ 0 answer.candidates net

theorem replicas_subset_healChunks (answers : Text → HealAnswer)
    (listed : List (Text × ChunkInfo)) (net : ReplicaNetwork) :
    net.replicas ⊆ (m.healChunks answers listed net).2.replicas := by
  induction listed generalizing net with
  | nil => exact fun r hr => hr
  | cons x listed ih =>
      exact List.Subset.trans (replicas_subset_healChunk net x.1 (answers x.1)) (ih _)

/-- Healing keeps the holders current: what it copies it has from one of them. -/
theorem Current.healChunks (h : m.Current net ref blob) {answers : Text → HealAnswer}
    {listed : List (Text × ChunkInfo)} (hids : ∀ x ∈ listed, x.1 = m.chunkId ref x.2.idx)
    (honline : ∀ x ∈ listed, ∀ device ∈ (answers x.1).online, (x.1, device) ∈ net.replicas) :
    m.Current (m.healChunks answers listed net).2 ref blob := by
  induction listed generalizing net with
  | nil => exact h
  | cons x listed ih =>
      obtain ⟨hid, hids⟩ := List.forall_mem_cons.mp hids
      obtain ⟨hfirst, honline⟩ := List.forall_mem_cons.mp honline
      have hhealed : m.Current (m.healChunk net x.1 (answers x.1)).2 ref blob := by
        rw [hid] at hfirst ⊢
        exact h.healChunk hfirst
      exact ih hhealed hids fun y hy device hdevice =>
        replicas_subset_healChunk net x.1 (answers x.1) (honline y hy device hdevice)

theorem ensureReplicas_network (j : JbodManager) (net : ReplicaNetwork) (p : Text)
    (listed : List (Text × ChunkInfo)) (answers : Text → HealAnswer) :
    (m.ensureReplicas j net p listed answers).2.2 = (m.healChunks answers listed net).2 := by
  unfold ReplicationManager.ensureReplicas
  dsimp only
  split_ifs with hempty
  · rw [hempty]
    rfl
  all_goals rfl

/-- A listing that goes by the registry names the ids of the reference. -/
theorem Current.ensureReplicas (h : m.Current net ref blob) {listed : List (Text × ChunkInfo)}
    {answers : Text → HealAnswer} (hlist : ListsRecorded net ref listed answers) (j : JbodManager)
    (p : Text) : m.Current (m.ensureReplicas j net p listed answers).2.2 ref blob := by
  rw [ensureReplicas_network]
  exact h.healChunks (fun x hx => ((mem_listed h.named hlist.1).mp hx).1) hlist.2

/-! ### Backups -/

/-- A call that supersedes what the ones before it left: every chunk is registered, no chunk beyond
them has a recorded holder, and a recorded holder of a chunk takes its new bytes, where it does not
store them already. -/
structure Supersedes (m : ReplicationManager) (net : ReplicaNetwork) (ref : Text)
    (chunks : List (Nat × Bytes)) (answers : List ChunkAnswer) : Prop where
  registered : ∀ x ∈ chunks.zip answers,
    x.2.registered = true ∨ (net.chunks.get (m.chunkId ref x.1.1)).isSome
  no_rest : ∀ idx device, (m.chunkId ref idx, device) ∈ net.replicas → idx < chunks.length
  reached : ∀ x ∈ chunks.zip answers, ∀ device, (m.chunkId ref x.1.1, device) ∈ net.replicas →
    (∃ y ∈ x.2.holders, y.1 = device ∧ y.2.stores = true) ∨
      net.stored.get (m.chunkId ref x.1.1, device) = some x.1.2

/-- A call whose rounds bring no holder that is recorded, before or by the call, other bytes than the
piece of the blob. -/
def SparesHolders (m : ReplicationManager) (net : ReplicaNetwork) (ref : Text) (blob : Option Bytes)
    (chunks : List (Nat × Bytes)) (answers : List ChunkAnswer) : Prop :=
  ∀ x ∈ rounds chunks answers, ∀ y ∈ x.2.holders, y.2.stores = true →
    (m.chunkId ref x.1.1, y.1) ∈ net.replicas ∨ y.2 = .recorded →
      ∃ b, blob = some b ∧ x.1.1 < Chunks.count b.length m.chunkSize ∧
        x.1.2 = Chunks.piece m.chunkSize b x.1.1

theorem sameAt_of_not_mem_rounds (m : ReplicationManager) (ref : Text)
    {chunks : List (Nat × Bytes)} {answers : List ChunkAnswer} {idx : Nat}
    (h : ∀ x ∈ rounds chunks answers, x.1.1 ≠ idx) (net : ReplicaNetwork) :
    SameAt (m.chunkId ref idx) net (m.replicateChunks ref chunks answers net).2 := by
  rw [replicateChunks_snd]
  apply sameAt_foldl
  intro x hx heq
  exact h x hx (m.chunkId_injective heq).2.symm

theorem stores_of_recorded {holders : List (DeviceId × PushAnswer)} {device : DeviceId}
    (h : (device, PushAnswer.recorded) ∈ holders) :
    ∃ y ∈ holders, y.1 = device ∧ y.2.stores = true :=
  ⟨_, h, rfl, rfl⟩

/-- **A call that is broken off** and spares the holders leaves them current. -/
theorem Current.of_sparesHolders (h : m.Current net ref blob) {chunks : List (Nat × Bytes)}
    {answers : List ChunkAnswer} (hnodup : (chunks.map Prod.fst).Nodup)
    (hspares : m.SparesHolders net ref blob chunks answers) :
    m.Current (m.replicateChunks ref chunks answers net).2 ref blob := by
  refine ⟨h.named.replicateChunks ref chunks answers, fun idx device hmem => ?_,
    fun b hb idx hidx => ?_⟩
  · by_cases hround : ∃ x ∈ rounds chunks answers, x.1.1 = idx
    · obtain ⟨x, hx, rfl⟩ := hround
      have hpushed := m.pushed_replicateChunks ref hnodup net hx
      rw [hpushed.stored]
      have hrecorded := (hpushed.replicas device).mp hmem
      split_ifs with htakes
      · have hbytes : ∃ b, blob = some b ∧ x.1.1 < Chunks.count b.length m.chunkSize ∧
            x.1.2 = Chunks.piece m.chunkSize b x.1.1 := by
          rcases hrecorded with hold | hnew
          · obtain ⟨y, hy, rfl, hstores⟩ := htakes
            exact hspares x hx y hy hstores (Or.inl hold)
          · exact hspares x hx _ hnew rfl (Or.inr rfl)
        obtain ⟨b, hb, hidx, hpiece⟩ := hbytes
        exact ⟨b, hb, hidx, by rw [hpiece]⟩
      · exact h.holders _ device (hrecorded.resolve_right fun hnew => htakes (stores_of_recorded hnew))
    · have hsame := sameAt_of_not_mem_rounds m ref (fun x hx heq => hround ⟨x, hx, heq⟩) net
      rw [hsame.stored]
      exact h.holders idx device ((hsame.replicas device).mp hmem)
  · have hbefore := h.registered b hb idx hidx
    by_cases hround : ∃ x ∈ rounds chunks answers, x.1.1 = idx
    · obtain ⟨x, hx, rfl⟩ := hround
      rw [(m.pushed_replicateChunks ref hnodup net hx).chunks]
      split_ifs
      · rfl
      · exact hbefore
    · rw [(sameAt_of_not_mem_rounds m ref (fun x hx heq => hround ⟨x, hx, heq⟩) net).chunks]
      exact hbefore

/-- **A call that returns** and supersedes what was there leaves every recorded holder with the
pieces of its own blob. -/
theorem current_of_supersedes (hnamed : m.WellNamed net) {b : Bytes} {answers : List ChunkAnswer}
    (hcompletes : Completes (Chunks.split m.chunkSize b) answers)
    (hsupersedes : m.Supersedes net ref (Chunks.split m.chunkSize b) answers) :
    m.Current (m.replicateChunks ref (Chunks.split m.chunkSize b) answers net).2 ref (some b) := by
  have hnodup := Chunks.nodup_map_fst_split m.chunkSize b
  have hround : ∀ idx < Chunks.count b.length m.chunkSize, ∃ answer,
      ((idx, Chunks.piece m.chunkSize b idx), answer) ∈
        (Chunks.split m.chunkSize b).zip answers :=
    fun idx hidx => exists_zip hcompletes.1 (Chunks.piece_mem_split hidx)
  have hpushed : ∀ x ∈ (Chunks.split m.chunkSize b).zip answers, Pushed m ref x.1 x.2 net
      (m.replicateChunks ref (Chunks.split m.chunkSize b) answers net).2 := by
    intro x hx
    rw [← rounds_of_completes hcompletes] at hx
    exact m.pushed_replicateChunks ref hnodup net hx
  refine ⟨hnamed.replicateChunks ref _ answers, fun idx device hmem => ?_, fun b' hb' idx hidx => ?_⟩
  · have hidx : idx < Chunks.count b.length m.chunkSize := by
      by_contra hlarge
      have hnone : ∀ x ∈ rounds (Chunks.split m.chunkSize b) answers, x.1.1 ≠ idx := by
        rintro x hx rfl
        exact hlarge (Chunks.mem_split.mp (List.of_mem_zip (rounds_subset_zip _ _ hx)).1).1
      have hsame := sameAt_of_not_mem_rounds m ref hnone net
      have hlt := hsupersedes.no_rest idx device ((hsame.replicas device).mp hmem)
      rw [Chunks.length_split] at hlt
      exact hlarge hlt
    obtain ⟨answer, hzip⟩ := hround idx hidx
    have hpush := hpushed _ hzip
    refine ⟨b, rfl, hidx, ?_⟩
    rw [hpush.stored]
    split_ifs with htakes
    · rfl
    · have hold := ((hpush.replicas device).mp hmem).resolve_right
        fun hnew => htakes (stores_of_recorded hnew)
      exact (hsupersedes.reached _ hzip device hold).resolve_left htakes
  · obtain rfl := Option.some_inj.mp hb'
    obtain ⟨answer, hzip⟩ := hround idx hidx
    have hchunks := (hpushed _ hzip).chunks
    dsimp only at hchunks
    rw [hchunks]
    split_ifs with hregistered
    · rfl
    · exact (hsupersedes.registered _ hzip).resolve_left hregistered

end ReplicationManager

namespace ReplicatedPath

open ReplicationManager

variable (m : ReplicationManager) (engine : EncryptionEngine) (p : Text)

/-- The volume of the call, with the engine of the path's owner. -/
def volume (call : BackupCall) : JbodManager := { call.jbod with encryptionEngine := some engine }

/-- The blob of the last `replicate` call that returned. -/
def blob (s : ReplicatedPath) : Option Bytes := s.last.map fun x => engine.encrypt x.1 x.2

/-- One call, whatever its outcome. A listing goes by what the registry has recorded. -/
def step (s : ReplicatedPath) : ReplicaEvent → Option ReplicatedPath
  | .replicate call =>
      let (result, _, network) := m.replicate (volume engine call) s.network call.remote call.iv p
        call.answers
      match result with
      | .error _ => some { s with network }
      | .ok _ => some { network, last :=
          ((volume engine call).readFile call.remote p).1.toOption.map fun content =>
            (call.iv, content) }
  | .ensure jbod listed answers =>
      if ListsRecorded s.network (m.fileRef p) listed answers then
        some { s with network := (m.ensureReplicas jbod s.network p listed answers).2.2 }
      else none

/-- A holder the healing of a chunk counts on: listed as online, or recorded by it. -/
def Counted (net net' : ReplicaNetwork) (id : Text) (answer : HealAnswer) (device : DeviceId) :
    Prop :=
  device ∈ answer.online ∨ (id, device) ∈ net'.replicas ∧ (id, device) ∉ net.replicas

/-- **Nothing old comes back.** What a recovery decrypts, with whichever recorded holders online, is
the content of the last call that returned; and where a healing reports `replicated`, the copies it
counts on are of that content's blob. -/
structure Faithful (s : ReplicatedPath) : Prop where
  recovers : ∀ (j : JbodManager) (listing : Listing) (data : Bytes),
    j.encryptionEngine = some engine →
    listing.chunks.Perm (s.network.chunks.rows.filter fun x => x.2.fileRef = m.fileRef p) →
    (∀ id, ∀ device ∈ listing.holders id, (id, device) ∈ s.network.replicas) →
    recovered j s.network listing = .ok data → ∃ iv, s.last = some (iv, data)
  heals : ∀ (j j' : JbodManager) (listed : List (Text × ChunkInfo)) (answers : Text → HealAnswer)
    (report : HealReport) (net' : ReplicaNetwork),
    ListsRecorded s.network (m.fileRef p) listed answers →
    m.ensureReplicas j s.network p listed answers = (.ok report, j', net') →
    report.status = .replicated →
    ∀ x ∈ listed, ∀ device, Counted s.network net' x.1 (answers x.1) device →
      ∃ iv content, s.last = some (iv, content) ∧
        x.2.idx < Chunks.count (engine.encrypt iv content).length m.chunkSize ∧
        net'.stored.get (x.1, device) =
          some (Chunks.piece m.chunkSize (engine.encrypt iv content) x.2.idx)

/-- What a backup may do: one that comes to its end supersedes what was there, one that is broken off
spares the recorded holders. -/
def StepOk (s : ReplicatedPath) : ReplicaEvent → Prop
  | .ensure .. => True
  | .replicate call => ∀ content chunks,
      ((volume engine call).readFile call.remote p).1 = .ok content →
      m.splitBlob (engine.encrypt call.iv content) = some chunks →
        (Completes chunks call.answers →
          m.Supersedes s.network (m.fileRef p) chunks call.answers) ∧
        (¬ Completes chunks call.answers →
          m.SparesHolders s.network (m.fileRef p) (s.blob engine) chunks call.answers)

variable {m engine p}

theorem faithful_of_current {s : ReplicatedPath}
    (h : m.Current s.network (m.fileRef p) (s.blob engine)) : Faithful m engine p s := by
  refine ⟨fun j listing data hengine hchunks hholders hdata => ?_,
    fun j j' listed answers report net' hlist hensure _ x hx device hcounted => ?_⟩
  · unfold recovered at hdata
    rw [hengine] at hdata
    dsimp only at hdata
    split at hdata
    · cases hdata
    · rename_i b hb
      have hblob := h.recoverChunks hchunks hholders hb
      obtain ⟨⟨iv, content⟩, hlast, rfl⟩ := Option.map_eq_some_iff.mp hblob
      dsimp only at hdata
      rw [engine.decrypt_encrypt] at hdata
      obtain rfl := Except.ok.inj hdata
      exact ⟨iv, hlast⟩
  · have hnet : (m.ensureReplicas j s.network p listed answers).2.2 = net' := by rw [hensure]
    have hcurrent := h.ensureReplicas hlist j p
    obtain ⟨hid, -⟩ := (mem_listed h.named hlist.1).mp hx
    have hrecorded : (x.1, device) ∈ net'.replicas := by
      rcases hcounted with honline | ⟨hnew, -⟩
      · rw [← hnet, ensureReplicas_network]
        exact replicas_subset_healChunks answers listed s.network (hlist.2 x hx device honline)
      · exact hnew
    rw [hnet] at hcurrent
    rw [hid] at hrecorded ⊢
    obtain ⟨b, hblob, hidx, hstored⟩ := hcurrent.holders x.2.idx device hrecorded
    obtain ⟨⟨iv, content⟩, hlast, rfl⟩ := Option.map_eq_some_iff.mp hblob
    exact ⟨iv, content, hlast, hidx, hstored⟩

theorem current_replicate {s s' : ReplicatedPath} {call : BackupCall}
    (h : m.Current s.network (m.fileRef p) (s.blob engine))
    (hok : StepOk m engine p s (.replicate call))
    (hstep : step m engine p s (.replicate call) = some s') :
    m.Current s'.network (m.fileRef p) (s'.blob engine) := by
  obtain ⟨result, j, net, hcall⟩ : ∃ result j net, m.replicate (volume engine call) s.network
      call.remote call.iv p call.answers = (result, j, net) := ⟨_, _, _, rfl⟩
  rw [step, hcall] at hstep
  rcases m.replicate_cases hcall with ⟨⟨e, rfl⟩, rfl, -, -⟩ |
    ⟨engine', content, chunks, hengine, hcontent, hsplit, hends⟩
  · rw [← Option.some_inj.mp hstep]
    exact h
  obtain rfl : engine = engine' := Option.some_inj.mp hengine
  obtain ⟨hreturns, hbroken⟩ := hok content chunks hcontent hsplit
  unfold splitBlob at hsplit
  split_ifs at hsplit
  obtain rfl := Option.some_inj.mp hsplit
  have hsome := m.replicateChunks_isSome_iff (m.fileRef p)
    (Chunks.split m.chunkSize (engine.encrypt call.iv content)) call.answers s.network
  rcases hends with ⟨hpush, -, e, rfl⟩ | ⟨counts, hpush, -, rfl⟩
  · rw [← Option.some_inj.mp hstep]
    have hnodup := Chunks.nodup_map_fst_split m.chunkSize (engine.encrypt call.iv content)
    have hkept := h.of_sparesHolders hnodup (hbroken fun hcompletes => by
      have hnone := hsome.mpr hcompletes
      rw [hpush] at hnone
      cases hnone)
    rw [hpush] at hkept
    exact hkept
  · rw [← Option.some_inj.mp hstep]
    have hcompletes := hsome.mp (by rw [hpush]; rfl)
    have hnew := current_of_supersedes h.named hcompletes (hreturns hcompletes)
    rw [hpush] at hnew
    simp only [blob, hcontent, Except.toOption, Option.map_some]
    exact hnew

theorem current_step {s s' : ReplicatedPath} {e : ReplicaEvent}
    (h : m.Current s.network (m.fileRef p) (s.blob engine)) (hok : StepOk m engine p s e)
    (hstep : step m engine p s e = some s') :
    m.Current s'.network (m.fileRef p) (s'.blob engine) := by
  cases e with
  | replicate call => exact current_replicate h hok hstep
  | ensure jbod listed answers =>
      rw [step] at hstep
      split_ifs at hstep with hlist
      rw [← Option.some_inj.mp hstep]
      exact h.ensureReplicas hlist jbod p

/-- **No recovery brings back an old version.** In every run of backups and healings whose backups
supersede what was there, or spare the holders where they are broken off, every recovery at any point
raises or gives the content of the last backup that returned, and no healing reports `replicated` on
older copies. -/
theorem faithful_of_superseding {start : ReplicaNetwork} {events : List ReplicaEvent}
    (hstart : m.NeverBackedUp start (m.fileRef p))
    (hok : Transitions.StepsMeet (step m engine p) (StepOk m engine p) { network := start } events) :
    Transitions.StatesMeet (step m engine p) (Faithful m engine p) { network := start } events := by
  have hfirst : m.Current start (m.fileRef p) none :=
    ⟨hstart.named, fun idx device hmem => absurd hmem (hstart.unheld idx device),
      fun b hb => nomatch hb⟩
  exact Transitions.statesMeet_of_stepsMeet (fun _ => faithful_of_current)
    (fun _ _ _ hs hmeets hstep => current_step hs hmeets hstep) hfirst hok

open BackedUpDevice (newManager newDevice)
open BackupCall (backupOf afterBackupOf lengthEngine)

/-- A file is backed up twice on the same device, the second time with more chunks. -/
theorem faithful_of_superseding_grown :
    Transitions.StatesMeet (step newManager lengthEngine "/a".toList)
      (Faithful newManager lengthEngine "/a".toList) { network := newDevice.network }
      [.replicate (backupOf [7]), .replicate (backupOf [1, 2, 3, 4, 5])] := by
  have hfirst : StepOk newManager lengthEngine "/a".toList { network := newDevice.network }
      (.replicate (backupOf [7])) := by
    intro content chunks hcontent hsplit
    have hread : ((volume lengthEngine (backupOf [7])).readFile (fun _ _ _ => none)
        "/a".toList).1 = .ok [7] := by decide
    obtain rfl := Except.ok.inj (hread.symm.trans hcontent)
    obtain rfl := Option.some_inj.mp hsplit
    exact ⟨fun _ => ⟨by decide, fun _ _ h => (nomatch h), fun _ _ _ h => nomatch h⟩,
      fun hbroken => absurd ⟨by decide, by decide⟩ hbroken⟩
  have hsecond : StepOk newManager lengthEngine "/a".toList
      { network := afterBackupOf [7], last := some ([], [7]) }
      (.replicate (backupOf [1, 2, 3, 4, 5])) := by
    intro content chunks hcontent hsplit
    have hread : ((volume lengthEngine (backupOf [1, 2, 3, 4, 5])).readFile (fun _ _ _ => none)
        "/a".toList).1 = .ok [1, 2, 3, 4, 5] := by decide
    obtain rfl := Except.ok.inj (hread.symm.trans hcontent)
    obtain rfl := Option.some_inj.mp hsplit
    have hfirstChunk : ∀ r ∈ (afterBackupOf [7]).replicas,
        r.1 = newManager.chunkId (newManager.fileRef "/a".toList) 0 := by decide
    refine ⟨fun _ => ⟨by decide, fun idx device hmem => ?_,
      BackupCall.replaces_afterBackupOf.reached⟩,
      fun hbroken => absurd ⟨by decide, by decide⟩ hbroken⟩
    rw [(newManager.chunkId_injective (hfirstChunk _ hmem)).2]
    decide
  refine faithful_of_superseding (BackupCall.newNetwork_neverBackedUp _)
    ⟨hfirst, fun s hs => ?_⟩
  obtain rfl : { network := afterBackupOf [7], last := some ([], [7]) } = s :=
    Option.some_inj.mp hs
  exact ⟨hsecond, fun _ _ => trivial⟩

/-- A file is backed up on the phone, changed, and backed up on the tablet, with success both times.
The phone stays recorded, and while it alone is online a recovery brings the old content back. -/
theorem old_holder_restores_old_content :
    ¬ ∀ (m : ReplicationManager) (engine : EncryptionEngine) (p : Text) (start : ReplicaNetwork)
      (events : List ReplicaEvent), m.NeverBackedUp start (m.fileRef p) →
      Transitions.StatesMeet (step m engine p) (Faithful m engine p) { network := start } events := by
  intro h
  have hstates := h newManager lengthEngine "/a".toList newDevice.network
    [.replicate (backupOf [7]), .replicate (backupOf [8] "tablet")]
    (BackupCall.newNetwork_neverBackedUp _)
  obtain ⟨s, hs⟩ : ∃ s, Transitions.run (step newManager lengthEngine "/a".toList)
      { network := newDevice.network }
      [.replicate (backupOf [7]), .replicate (backupOf [8] "tablet")] = some s := ⟨_, rfl⟩
  have hlast : (Transitions.run (step newManager lengthEngine "/a".toList)
      { network := newDevice.network }
      [.replicate (backupOf [7]), .replicate (backupOf [8] "tablet")]).map (fun s => s.last) =
        some (some ([], [8])) := by decide
  have hrows : (Transitions.run (step newManager lengthEngine "/a".toList)
      { network := newDevice.network }
      [.replicate (backupOf [7]), .replicate (backupOf [8] "tablet")]).map (fun s =>
        ((s.network.listing "user:/a".toList).chunks,
          s.network.stored.get ("user:/a:0".toList, "phone"),
          decide (("user:/a:0".toList, "phone") ∈ s.network.replicas))) =
      some ([("user:/a:0".toList, ⟨"user:/a".toList, 0, 2⟩)], some [1, 7], true) := by decide
  rw [hs, Option.map_some, Option.some_inj] at hlast hrows
  obtain ⟨hchunks, hrows⟩ := Prod.mk.inj hrows
  obtain ⟨hstored, hrecorded⟩ := Prod.mk.inj hrows
  -- the server lists the phone alone as online
  let listing : Listing :=
    { chunks := (s.network.listing "user:/a".toList).chunks
      holders := fun id => if id = "user:/a:0".toList then ["phone"] else [] }
  have hfetch : fetchFromAnyHolder s.network listing "user:/a:0".toList = some [1, 7] := by
    simp only [fetchFromAnyHolder, listing, if_true, List.findSome?_cons, hstored]
  have hrecovered : recovered (volume lengthEngine (backupOf [8])) s.network listing = .ok [7] :=
    recovered_of_ok rfl (recoverChunks_of_single hchunks hfetch) rfl
  obtain ⟨iv, hiv⟩ := (hstates.last hs).recovers _ listing [7] rfl
    (s.network.listing_truthful "user:/a".toList).chunks (fun id device hdevice => by
      simp only [listing] at hdevice
      split_ifs at hdevice with hid
      · rw [List.mem_singleton.mp hdevice, hid]
        exact of_decide_eq_true hrecorded
      · cases hdevice) hrecovered
  rw [hlast, Option.some_inj, Prod.mk.injEq] at hiv
  exact absurd hiv.2 (by decide)

end ReplicatedPath

end StardustFS
