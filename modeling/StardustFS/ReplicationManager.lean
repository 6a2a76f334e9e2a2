import StardustFS.Chunker
import StardustFS.VolumePlaces

/-! The backup of a file on other devices: its bytes are encrypted once more and cut into chunks, the
server registers every chunk and names holders, and the chunks are pushed to them. What the server
and the holders answer is an argument of the call. The server keeps one entry per chunk id, a holder
the last bytes pushed to it. -/

namespace StardustFS

/-- The digest in hexadecimal, without collisions on the texts that are hashed. -/
structure Digest where
  hexdigest : Text → Text
  injective : Function.Injective hexdigest

/-- An entry of the chunk registry. -/
structure ChunkInfo where
  fileRef : Text
  idx : Nat
  size : Nat
  deriving DecidableEq, Repr

/-- The chunk registry by chunk id, the recorded replicas and what the holders store. -/
structure ReplicaNetwork where
  chunks : Table Text ChunkInfo
  replicas : List (Text × DeviceId)
  stored : Table (Text × DeviceId) Bytes

/-- How the push of a chunk to one holder ends. -/
inductive PushAnswer where
  /-- The holder has not taken the chunk. -/
  | refused
  /-- The holder has it, its acknowledgement is lost. -/
  | lost
  /-- The holder has it and says so, the registry does not record the replica. -/
  | unrecorded
  | recorded
  deriving DecidableEq, Repr

def PushAnswer.stores (a : PushAnswer) : Bool := a ≠ .refused

/-- What one chunk meets: whether the server takes the registration, the holders it names with their
answers, and whether the call goes on after them or ends with an exception. -/
structure ChunkAnswer where
  registered : Bool := true
  holders : List (DeviceId × PushAnswer)
  goesOn : Bool := true

/-- The replicas counted for the chunk. -/
def ChunkAnswer.placed (a : ChunkAnswer) : Nat := a.holders.countP fun x => x.2 = .recorded

inductive ReplicationError where
  | noEngine
  | fileNotFound
  | chunkSize
  | network
  | noChunks
  | missingChunks (chunkIds : List Text)
  | decryptionFailed
  | jbod (e : JbodError)
  deriving DecidableEq, Repr

structure ReplicationResult where
  status : ReplicationStatus
  chunkCount : Nat
  minReplicas : Nat
  replicasPerChunk : List Nat
  deriving DecidableEq, Repr

/-- What the server lists for a recovery, in its order: the chunks of a file, and for a chunk id the
recorded holders that are online. -/
structure Listing where
  chunks : List (Text × ChunkInfo)
  holders : Text → List DeviceId

structure ReplicationManager where
  sha256 : Digest
  userId : Text
  chunkSize : Nat
  minReplicas : Nat := 1

namespace ReplicationManager

def setMinReplicas (m : ReplicationManager) (n : Nat) : ReplicationManager :=
  if 1 ≤ n then { m with minReplicas := n } else m

def fileRef (m : ReplicationManager) (virtualPath : Text) : Text :=
  m.sha256.hexdigest (m.userId ++ ':' :: virtualPath)

def chunkId (m : ReplicationManager) (fileRef : Text) (idx : Nat) : Text :=
  m.sha256.hexdigest (fileRef ++ ':' :: Text.decimal idx)

/-- `chunker.split`; a size of zero is refused. -/
def splitBlob (m : ReplicationManager) (blob : Bytes) : Option (List (Nat × Bytes)) :=
  if m.chunkSize = 0 then none else some (Chunks.split m.chunkSize blob)

/-- The push of a chunk to one holder and the record of the replica. -/
def pushHolder (chunkId : Text) (data : Bytes) (net : ReplicaNetwork)
    (x : DeviceId × PushAnswer) : ReplicaNetwork :=
  let net := if x.2.stores then { net with stored := net.stored.put (chunkId, x.1) data } else net
  if x.2 = .recorded then { net with replicas := (chunkId, x.1) :: net.replicas } else net

/-- One round of the loop over the chunks: registration, then the holders one after the other. -/
def pushChunk (m : ReplicationManager) (fileRef : Text) (net : ReplicaNetwork)
    (chunk : Nat × Bytes) (answer : ChunkAnswer) : ReplicaNetwork :=
  let chunkId := m.chunkId fileRef chunk.1
  let net :=
    if answer.registered then
      { net with chunks := net.chunks.put chunkId ⟨fileRef, chunk.1, chunk.2.length⟩ }
    else net
  answer.holders.foldl (pushHolder chunkId chunk.2) net

/-- `_replicate_chunks` up to the counts; `none` where an exception ends the call. -/
def replicateChunks (m : ReplicationManager) (fileRef : Text) :
    List (Nat × Bytes) → List ChunkAnswer → ReplicaNetwork → Option (List Nat) × ReplicaNetwork
  | [], _, net => (some [], net)
  | _ :: _, [], net => (none, net)
  | chunk :: chunks, answer :: answers, net =>
      let net := m.pushChunk fileRef net chunk answer
      if !answer.goesOn then (none, net)
      else match replicateChunks m fileRef chunks answers net with
        | (some counts, net) => (some (answer.placed :: counts), net)
        | (none, net) => (none, net)

/-- Replicated is a file with a chunk and with enough replicas of every chunk. -/
def statusOf (m : ReplicationManager) (counts : List Nat) : ReplicationStatus :=
  if counts ≠ [] ∧ ∀ n ∈ counts, m.minReplicas ≤ n then .replicated else .pending

def replicate (m : ReplicationManager) (j : JbodManager) (net : ReplicaNetwork)
    (remote : RemoteRead) (iv : Bytes) (virtualPath : Text) (answers : List ChunkAnswer) :
    Except ReplicationError ReplicationResult × JbodManager × ReplicaNetwork :=
  match j.encryptionEngine with
  | none => (.error .noEngine, j, net)
  | some engine =>
      match j.metadataStore.lookup virtualPath with
      | none => (.error .fileNotFound, j, net)
      | some _ =>
          match j.readFile remote virtualPath with
          | (.error e, j) => (.error (.jbod e), j, net)
          | (.ok plaintext, j) =>
              match m.splitBlob (engine.encrypt iv plaintext) with
              | none => (.error .chunkSize, j, net)
              | some chunks =>
                  match m.replicateChunks (m.fileRef virtualPath) chunks answers net with
                  | (none, net) => (.error .network, j, net)
                  | (some counts, net) =>
                      let status := m.statusOf counts
                      (.ok ⟨status, chunks.length, m.minReplicas, counts⟩,
                        { j with
                          metadataStore := j.metadataStore.setReplicationStatus virtualPath status },
                        net)

/-- The bytes of the first listed holder that has some. -/
def fetchFromAnyHolder (net : ReplicaNetwork) (listing : Listing) (chunkId : Text) : Option Bytes :=
  (listing.holders chunkId).findSome? fun device => net.stored.get (chunkId, device)

def recoverChunks (net : ReplicaNetwork) (listing : Listing) : Except ReplicationError Bytes :=
  if listing.chunks = [] then .error .noChunks
  else
    let missing := listing.chunks.filter fun x => (fetchFromAnyHolder net listing x.1).isNone
    if missing ≠ [] then .error (.missingChunks (missing.map Prod.fst))
    else .ok (Chunks.join (listing.chunks.filterMap fun x =>
      (fetchFromAnyHolder net listing x.1).map fun data => (x.2.idx, data)))

/-- The bytes a recovery writes back. -/
def recovered (j : JbodManager) (net : ReplicaNetwork) (listing : Listing) :
    Except ReplicationError Bytes :=
  match j.encryptionEngine with
  | none => .error .noEngine
  | some engine =>
      match recoverChunks net listing with
      | .error e => .error e
      | .ok blob =>
          match engine.decrypt blob with
          | some plaintext => .ok plaintext
          | none => .error .decryptionFailed

/-- The recovery of a path; the listing is the server's for the reference of the path. -/
def recover (j : JbodManager) (net : ReplicaNetwork) (listing : Listing) (reading : Reading)
    (virtualPath : Text) : Except ReplicationError Nat × JbodManager :=
  match recovered j net listing with
  | .error e => (.error e, j)
  | .ok plaintext =>
      match j.writeFile reading virtualPath plaintext with
      | (.ok _, j) => (.ok plaintext.length, j)
      | (.error e, j) => (.error (.jbod e), j)

/-- The chunks of a replication are the chunker's. -/
theorem splitBlob_eq (m : ReplicationManager) (blob : Bytes) :
    m.splitBlob blob = (Chunker.split blob m.chunkSize).toOption := by
  by_cases hsize : m.chunkSize = 0
  · rw [splitBlob, if_pos hsize, Chunker.split, hsize, if_pos (by decide)]
    rfl
  · rw [splitBlob, if_neg hsize, Chunker.split_eq (Nat.pos_of_ne_zero hsize)]
    rfl

/-! ### Names -/

theorem fileRef_injective (m : ReplicationManager) : Function.Injective m.fileRef := by
  intro p q h
  exact (List.cons.inj (List.append_cancel_left (m.sha256.injective h))).2

/-- The index is what follows the last colon. -/
theorem chunkId_injective (m : ReplicationManager) {ref ref' : Text} {idx idx' : Nat}
    (h : m.chunkId ref idx = m.chunkId ref' idx') : ref = ref' ∧ idx = idx' := by
  have htext := m.sha256.injective h
  have hlast := congrArg (Text.afterLast ':') htext
  rw [Text.afterLast_append_cons _ (Text.not_mem_decimal (by decide) idx),
    Text.afterLast_append_cons _ (Text.not_mem_decimal (by decide) idx')] at hlast
  rw [hlast] at htext
  exact ⟨List.append_cancel_right htext, Text.decimal_injective hlast⟩

/-! ### What a push leaves -/

theorem chunks_pushHolder (id : Text) (data : Bytes) (net : ReplicaNetwork)
    (x : DeviceId × PushAnswer) : (pushHolder id data net x).chunks = net.chunks := by
  unfold pushHolder
  dsimp only
  split_ifs <;> rfl

theorem mem_replicas_pushHolder (id : Text) (data : Bytes) (net : ReplicaNetwork)
    (x : DeviceId × PushAnswer) (r : Text × DeviceId) :
    r ∈ (pushHolder id data net x).replicas ↔
      r ∈ net.replicas ∨ r = (id, x.1) ∧ x.2 = .recorded := by
  unfold pushHolder
  dsimp only
  by_cases hrecorded : x.2 = .recorded
  · rw [if_pos hrecorded, List.mem_cons, or_comm]
    split_ifs <;> simp [hrecorded]
  · rw [if_neg hrecorded]
    split_ifs <;> simp [hrecorded]

theorem get_stored_pushHolder (id : Text) (data : Bytes) (net : ReplicaNetwork)
    (x : DeviceId × PushAnswer) (r : Text × DeviceId) :
    (pushHolder id data net x).stored.get r =
      if r = (id, x.1) ∧ x.2.stores = true then some data else net.stored.get r := by
  have hstored : (pushHolder id data net x).stored =
      if x.2.stores then net.stored.put (id, x.1) data else net.stored := by
    unfold pushHolder
    dsimp only
    split_ifs <;> rfl
  rw [hstored]
  by_cases hstores : x.2.stores
  · rw [if_pos hstores]
    by_cases hr : r = (id, x.1)
    · rw [hr, Table.get_put_self, if_pos ⟨rfl, hstores⟩]
    · rw [Table.get_put_of_ne _ _ hr, if_neg fun h => hr h.1]
  · rw [if_neg hstores, if_neg fun h => hstores h.2]

/-- The replicas a chunk has after its holders have answered, and what they store for it. -/
theorem foldl_pushHolder (id : Text) (data : Bytes) (holders : List (DeviceId × PushAnswer))
    (net : ReplicaNetwork) (id' : Text) (device : DeviceId) :
    (holders.foldl (pushHolder id data) net).chunks = net.chunks ∧
    ((id', device) ∈ (holders.foldl (pushHolder id data) net).replicas ↔
      (id', device) ∈ net.replicas ∨ id' = id ∧ (device, .recorded) ∈ holders) ∧
    (holders.foldl (pushHolder id data) net).stored.get (id', device) =
      if id' = id ∧ ∃ x ∈ holders, x.1 = device ∧ x.2.stores = true then some data
      else net.stored.get (id', device) := by
  induction holders generalizing net with
  | nil => simp
  | cons x holders ih =>
      obtain ⟨hchunks, hreplicas, hstored⟩ := ih (pushHolder id data net x)
      rw [List.foldl_cons]
      refine ⟨hchunks.trans (chunks_pushHolder id data net x), ?_, ?_⟩
      · rw [hreplicas, mem_replicas_pushHolder, Prod.mk.injEq, List.mem_cons, Prod.ext_iff]
        dsimp only
        constructor
        · rintro ((h | ⟨⟨hid, hdev⟩, hrec⟩) | ⟨hid, h⟩)
          · exact Or.inl h
          · exact Or.inr ⟨hid, Or.inl ⟨hdev, hrec.symm⟩⟩
          · exact Or.inr ⟨hid, Or.inr h⟩
        · rintro (h | ⟨hid, ⟨hdev, hrec⟩ | h⟩)
          · exact Or.inl (Or.inl h)
          · exact Or.inl (Or.inr ⟨⟨hid, hdev⟩, hrec.symm⟩)
          · exact Or.inr ⟨hid, h⟩
      · rw [hstored, get_stored_pushHolder]
        simp only [Prod.mk.injEq, List.exists_mem_cons_iff]
        by_cases hid : id' = id
        · by_cases hrest : ∃ y ∈ holders, y.1 = device ∧ y.2.stores = true
          · rw [if_pos ⟨hid, hrest⟩, if_pos ⟨hid, Or.inr hrest⟩]
          · rw [if_neg fun h => hrest h.2]
            refine if_congr ?_ rfl rfl
            rw [and_iff_right hid, and_iff_right hid, or_iff_left hrest, eq_comm]
        · rw [if_neg fun h => hid h.1, if_neg fun h => hid h.1.1, if_neg fun h => hid h.1]

/-- What one round of the loop leaves for a chunk id: the push for that chunk, or nothing new. -/
structure Pushed (m : ReplicationManager) (ref : Text) (chunk : Nat × Bytes) (answer : ChunkAnswer)
    (net net' : ReplicaNetwork) : Prop where
  chunks : net'.chunks.get (m.chunkId ref chunk.1) =
    if answer.registered then some ⟨ref, chunk.1, chunk.2.length⟩
    else net.chunks.get (m.chunkId ref chunk.1)
  replicas : ∀ device, (m.chunkId ref chunk.1, device) ∈ net'.replicas ↔
    (m.chunkId ref chunk.1, device) ∈ net.replicas ∨ (device, .recorded) ∈ answer.holders
  stored : ∀ device, net'.stored.get (m.chunkId ref chunk.1, device) =
    if ∃ x ∈ answer.holders, x.1 = device ∧ x.2.stores = true then some chunk.2
    else net.stored.get (m.chunkId ref chunk.1, device)

/-- Two networks agree on a chunk id. -/
structure SameAt (id : Text) (net net' : ReplicaNetwork) : Prop where
  chunks : net'.chunks.get id = net.chunks.get id
  replicas : ∀ device, (id, device) ∈ net'.replicas ↔ (id, device) ∈ net.replicas
  stored : ∀ device, net'.stored.get (id, device) = net.stored.get (id, device)

theorem SameAt.refl (id : Text) (net : ReplicaNetwork) : SameAt id net net :=
  ⟨rfl, fun _ => Iff.rfl, fun _ => rfl⟩

theorem SameAt.trans {id : Text} {net net' net'' : ReplicaNetwork} (h : SameAt id net net')
    (h' : SameAt id net' net'') : SameAt id net net'' :=
  ⟨h'.chunks.trans h.chunks, fun device => (h'.replicas device).trans (h.replicas device),
    fun device => (h'.stored device).trans (h.stored device)⟩

theorem pushed_pushChunk (m : ReplicationManager) (ref : Text) (net : ReplicaNetwork)
    (chunk : Nat × Bytes) (answer : ChunkAnswer) :
    Pushed m ref chunk answer net (m.pushChunk ref net chunk answer) := by
  unfold pushChunk
  dsimp only
  split_ifs with hregistered
  · have hfold := foldl_pushHolder (m.chunkId ref chunk.1) chunk.2 answer.holders
      { net with chunks := net.chunks.put (m.chunkId ref chunk.1) ⟨ref, chunk.1, chunk.2.length⟩ }
      (m.chunkId ref chunk.1)
    refine ⟨?_, fun device => ?_, fun device => ?_⟩
    · rw [(hfold "").1, Table.get_put_self, if_pos hregistered]
    · rw [(hfold device).2.1]
      simp
    · rw [(hfold device).2.2]
      exact if_congr (and_iff_right rfl) rfl rfl
  · have hfold := foldl_pushHolder (m.chunkId ref chunk.1) chunk.2 answer.holders net
      (m.chunkId ref chunk.1)
    refine ⟨?_, fun device => ?_, fun device => ?_⟩
    · rw [(hfold "").1, if_neg hregistered]
    · rw [(hfold device).2.1]
      simp
    · rw [(hfold device).2.2]
      exact if_congr (and_iff_right rfl) rfl rfl

theorem sameAt_pushChunk (m : ReplicationManager) (ref : Text) (net : ReplicaNetwork)
    (chunk : Nat × Bytes) (answer : ChunkAnswer) (id : Text) (hid : id ≠ m.chunkId ref chunk.1) :
    SameAt id net (m.pushChunk ref net chunk answer) := by
  unfold pushChunk
  dsimp only
  split_ifs
  · have hfold := foldl_pushHolder (m.chunkId ref chunk.1) chunk.2 answer.holders
      { net with chunks := net.chunks.put (m.chunkId ref chunk.1) ⟨ref, chunk.1, chunk.2.length⟩ } id
    refine ⟨?_, fun device => ?_, fun device => ?_⟩
    · rw [(hfold "").1, Table.get_put_of_ne _ _ hid]
    · rw [(hfold device).2.1]
      simp [hid]
    · rw [(hfold device).2.2, if_neg fun h => hid h.1]
  · have hfold := foldl_pushHolder (m.chunkId ref chunk.1) chunk.2 answer.holders net id
    refine ⟨by rw [(hfold "").1], fun device => ?_, fun device => ?_⟩
    · rw [(hfold device).2.1]
      simp [hid]
    · rw [(hfold device).2.2, if_neg fun h => hid h.1]

/-- The rounds a replication makes, up to its end or to the exception that ends it. -/
def rounds : List (Nat × Bytes) → List ChunkAnswer → List ((Nat × Bytes) × ChunkAnswer)
  | chunk :: chunks, answer :: answers =>
      (chunk, answer) :: if answer.goesOn then rounds chunks answers else []
  | _, _ => []

theorem rounds_subset_zip (chunks : List (Nat × Bytes)) (answers : List ChunkAnswer) :
    rounds chunks answers ⊆ chunks.zip answers := by
  induction chunks generalizing answers with
  | nil => exact List.nil_subset _
  | cons chunk chunks ih =>
      cases answers with
      | nil => exact List.nil_subset _
      | cons answer answers =>
          rw [rounds, List.zip_cons_cons]
          apply List.cons_subset_cons
          split_ifs
          · exact ih answers
          · exact List.nil_subset _

/-- A replication, whatever its outcome, leaves what its rounds leave. -/
theorem replicateChunks_snd (m : ReplicationManager) (ref : Text) (chunks : List (Nat × Bytes))
    (answers : List ChunkAnswer) (net : ReplicaNetwork) :
    (m.replicateChunks ref chunks answers net).2 =
      (rounds chunks answers).foldl (fun net x => m.pushChunk ref net x.1 x.2) net := by
  induction chunks generalizing answers net with
  | nil => rfl
  | cons chunk chunks ih =>
      cases answers with
      | nil => rfl
      | cons answer answers =>
          have hrest := ih answers (m.pushChunk ref net chunk answer)
          rw [replicateChunks, rounds, List.foldl_cons]
          cases hgoes : answer.goesOn with
          | false => simp
          | true =>
              simp only [Bool.not_true, Bool.false_eq_true, if_false, if_true]
              rw [← hrest]
              split <;> rename_i heq <;> rw [heq]

/-- Rounds leave the ids of other chunks alone. -/
theorem sameAt_foldl (m : ReplicationManager) (ref id : Text)
    {xs : List ((Nat × Bytes) × ChunkAnswer)} (hid : ∀ x ∈ xs, id ≠ m.chunkId ref x.1.1)
    (net : ReplicaNetwork) :
    SameAt id net (xs.foldl (fun net x => m.pushChunk ref net x.1 x.2) net) := by
  refine List.foldlRecOn _ _ (motive := fun net' => SameAt id net net') (SameAt.refl id net) ?_
  intro net' hsame x hx
  exact hsame.trans (sameAt_pushChunk m ref net' x.1 x.2 id (hid x hx))

theorem Pushed.trans_sameAt {m : ReplicationManager} {ref : Text} {chunk : Nat × Bytes}
    {answer : ChunkAnswer} {net net₁ net' : ReplicaNetwork} (h : Pushed m ref chunk answer net net₁)
    (hlater : SameAt (m.chunkId ref chunk.1) net₁ net') : Pushed m ref chunk answer net net' :=
  ⟨hlater.chunks.trans h.chunks, fun device => (hlater.replicas device).trans (h.replicas device),
    fun device => (hlater.stored device).trans (h.stored device)⟩

theorem SameAt.trans_pushed {m : ReplicationManager} {ref : Text} {chunk : Nat × Bytes}
    {answer : ChunkAnswer} {net net₁ net' : ReplicaNetwork}
    (hearlier : SameAt (m.chunkId ref chunk.1) net net₁) (h : Pushed m ref chunk answer net₁ net') :
    Pushed m ref chunk answer net net' := by
  refine ⟨?_, fun device => ?_, fun device => ?_⟩
  · rw [h.chunks, hearlier.chunks]
  · rw [h.replicas, hearlier.replicas]
  · rw [h.stored, hearlier.stored]

/-- After the rounds the id of each of their chunks is as its own round left it. -/
theorem pushed_foldl (m : ReplicationManager) (ref : Text)
    {xs : List ((Nat × Bytes) × ChunkAnswer)} (hnodup : (xs.map fun x => x.1.1).Nodup)
    (net : ReplicaNetwork) {x : (Nat × Bytes) × ChunkAnswer} (hx : x ∈ xs) :
    Pushed m ref x.1 x.2 net (xs.foldl (fun net x => m.pushChunk ref net x.1 x.2) net) := by
  induction xs generalizing net with
  | nil => cases hx
  | cons y ys ih =>
      rw [List.map_cons, List.nodup_cons] at hnodup
      rw [List.foldl_cons]
      rcases List.mem_cons.mp hx with rfl | hlater
      · apply (pushed_pushChunk m ref net x.1 x.2).trans_sameAt
        apply sameAt_foldl
        intro z hz heq
        apply hnodup.1
        rw [(m.chunkId_injective heq).2]
        exact List.mem_map_of_mem hz
      · refine SameAt.trans_pushed ?_ (ih hnodup.2 _ hlater)
        apply sameAt_pushChunk
        intro heq
        apply hnodup.1
        rw [← (m.chunkId_injective heq).2]
        exact List.mem_map_of_mem hlater

/-- A replication leaves the ids of other chunks alone. -/
theorem sameAt_replicateChunks (m : ReplicationManager) (ref id : Text)
    (chunks : List (Nat × Bytes)) (answers : List ChunkAnswer) (net : ReplicaNetwork)
    (hid : ∀ chunk ∈ chunks, id ≠ m.chunkId ref chunk.1) :
    SameAt id net (m.replicateChunks ref chunks answers net).2 := by
  rw [replicateChunks_snd]
  apply sameAt_foldl
  intro x hx
  exact hid x.1 (List.of_mem_zip (rounds_subset_zip chunks answers hx)).1

theorem nodup_rounds {chunks : List (Nat × Bytes)} (hnodup : (chunks.map Prod.fst).Nodup)
    (answers : List ChunkAnswer) : ((rounds chunks answers).map fun x => x.1.1).Nodup := by
  induction chunks generalizing answers with
  | nil => exact List.nodup_nil
  | cons chunk chunks ih =>
      rw [List.map_cons, List.nodup_cons] at hnodup
      cases answers with
      | nil => exact List.nodup_nil
      | cons answer answers =>
          rw [rounds, List.map_cons, List.nodup_cons]
          split_ifs
          · refine ⟨fun hmem => ?_, ih hnodup.2 answers⟩
            obtain ⟨x, hx, heq⟩ := List.mem_map.mp hmem
            apply hnodup.1
            rw [← heq]
            exact List.mem_map_of_mem (List.of_mem_zip (rounds_subset_zip chunks answers hx)).1
          · exact ⟨List.not_mem_nil, List.nodup_nil⟩

/-- **A replication, whatever its outcome**, leaves the id of a chunk it came to as the round of that
chunk left it. -/
theorem pushed_replicateChunks (m : ReplicationManager) (ref : Text) {chunks : List (Nat × Bytes)}
    {answers : List ChunkAnswer} (hnodup : (chunks.map Prod.fst).Nodup) (net : ReplicaNetwork)
    {x : (Nat × Bytes) × ChunkAnswer} (hx : x ∈ rounds chunks answers) :
    Pushed m ref x.1 x.2 net (m.replicateChunks ref chunks answers net).2 := by
  rw [replicateChunks_snd]
  exact pushed_foldl m ref (nodup_rounds hnodup answers) net hx

/-- The answers reach every chunk, and no exception ends the call. -/
def Completes (chunks : List (Nat × Bytes)) (answers : List ChunkAnswer) : Prop :=
  chunks.length ≤ answers.length ∧ ∀ x ∈ chunks.zip answers, x.2.goesOn = true

theorem completes_cons {chunk : Nat × Bytes} {chunks : List (Nat × Bytes)} {answer : ChunkAnswer}
    {answers : List ChunkAnswer} : Completes (chunk :: chunks) (answer :: answers) ↔
      answer.goesOn = true ∧ Completes chunks answers := by
  simp only [Completes, List.length_cons, Nat.succ_le_succ_iff, List.zip_cons_cons,
    List.forall_mem_cons]
  tauto

theorem replicateChunks_isSome_iff (m : ReplicationManager) (ref : Text)
    (chunks : List (Nat × Bytes)) (answers : List ChunkAnswer) (net : ReplicaNetwork) :
    (m.replicateChunks ref chunks answers net).1.isSome ↔ Completes chunks answers := by
  induction chunks generalizing answers net with
  | nil => simp [replicateChunks, Completes]
  | cons chunk chunks ih =>
      cases answers with
      | nil => simp [replicateChunks, Completes]
      | cons answer answers =>
          have hrest := ih answers (m.pushChunk ref net chunk answer)
          rw [completes_cons, ← hrest, replicateChunks]
          cases hgoes : answer.goesOn with
          | false => simp
          | true =>
              cases hpair : m.replicateChunks ref chunks answers (m.pushChunk ref net chunk answer) with
              | mk counts net' =>
                  cases counts with
                  | none => simp
                  | some counts => simp

theorem rounds_of_completes {chunks : List (Nat × Bytes)} {answers : List ChunkAnswer}
    (h : Completes chunks answers) : rounds chunks answers = chunks.zip answers := by
  induction chunks generalizing answers with
  | nil => rfl
  | cons chunk chunks ih =>
      cases answers with
      | nil => rfl
      | cons answer answers =>
          obtain ⟨hgoes, hrest⟩ := completes_cons.mp h
          rw [rounds, if_pos hgoes, ih hrest, List.zip_cons_cons]

theorem replicateChunks_counts (m : ReplicationManager) (ref : Text) {chunks : List (Nat × Bytes)}
    {answers : List ChunkAnswer} {net net' : ReplicaNetwork} {counts : List Nat}
    (h : m.replicateChunks ref chunks answers net = (some counts, net')) :
    counts = (chunks.zip answers).map fun x => x.2.placed := by
  induction chunks generalizing answers net net' counts with
  | nil =>
      rw [replicateChunks, Prod.mk.injEq, Option.some_inj] at h
      exact h.1.symm
  | cons chunk chunks ih =>
      cases answers with
      | nil => cases (Prod.mk.inj h).1
      | cons answer answers =>
          rw [replicateChunks] at h
          split_ifs at h
          · cases (Prod.mk.inj h).1
          · split at h
            · rename_i counts' net₂ heq
              rw [Prod.mk.injEq, Option.some_inj] at h
              rw [← h.1, ih heq, List.zip_cons_cons, List.map_cons]
            · cases (Prod.mk.inj h).1

/-- **A replication that comes to its end** has pushed every chunk, and its counts are those of the
answers. -/
theorem replicateChunks_ok (m : ReplicationManager) (ref : Text) {chunks : List (Nat × Bytes)}
    {answers : List ChunkAnswer} {net net' : ReplicaNetwork} {counts : List Nat}
    (hnodup : (chunks.map Prod.fst).Nodup)
    (h : m.replicateChunks ref chunks answers net = (some counts, net')) :
    chunks.length ≤ answers.length ∧
      counts = (chunks.zip answers).map (fun x => x.2.placed) ∧
      ∀ x ∈ chunks.zip answers, Pushed m ref x.1 x.2 net net' := by
  have hcompletes := (m.replicateChunks_isSome_iff ref chunks answers net).mp (by rw [h]; rfl)
  refine ⟨hcompletes.1, m.replicateChunks_counts ref h, fun x hx => ?_⟩
  rw [← rounds_of_completes hcompletes] at hx
  have hpushed := m.pushed_replicateChunks ref hnodup net hx
  rw [h] at hpushed
  exact hpushed

/-- **The ways a replication ends**: before anything was pushed, by an exception between two pushes,
or with a status for the record. -/
theorem replicate_cases (m : ReplicationManager) {j j' : JbodManager} {net net' : ReplicaNetwork}
    {remote : RemoteRead} {iv : Bytes} {p : Text} {answers : List ChunkAnswer}
    {result : Except ReplicationError ReplicationResult}
    (h : m.replicate j net remote iv p answers = (result, j', net')) :
    ((∃ e, result = .error e) ∧ net' = net ∧ JbodManager.Frame (fun _ => False) j j' ∧
        j'.metadataStore = j.metadataStore) ∨
      ∃ engine plaintext chunks, j.encryptionEngine = some engine ∧
        (j.readFile remote p).1 = .ok plaintext ∧
        m.splitBlob (engine.encrypt iv plaintext) = some chunks ∧
        ((m.replicateChunks (m.fileRef p) chunks answers net = (none, net') ∧ j' = j ∧
            ∃ e, result = .error e) ∨
          ∃ counts, m.replicateChunks (m.fileRef p) chunks answers net = (some counts, net') ∧
            j' = { j with
              metadataStore := j.metadataStore.setReplicationStatus p (m.statusOf counts) } ∧
            result = .ok ⟨m.statusOf counts, chunks.length, m.minReplicas, counts⟩) := by
  unfold replicate at h
  split at h
  · obtain ⟨rfl, hrest⟩ := Prod.mk.inj h
    obtain ⟨rfl, rfl⟩ := Prod.mk.inj hrest
    exact Or.inl ⟨⟨_, rfl⟩, rfl, JbodManager.Frame.refl j, rfl⟩
  · rename_i engine hengine
    split at h
    · obtain ⟨rfl, hrest⟩ := Prod.mk.inj h
      obtain ⟨rfl, rfl⟩ := Prod.mk.inj hrest
      exact Or.inl ⟨⟨_, rfl⟩, rfl, JbodManager.Frame.refl j, rfl⟩
    · split at h
      · rename_i hread
        obtain ⟨hframe, hrecords, -⟩ := JbodManager.readFile_frame hread
        obtain ⟨rfl, hrest⟩ := Prod.mk.inj h
        obtain ⟨rfl, rfl⟩ := Prod.mk.inj hrest
        exact Or.inl ⟨⟨_, rfl⟩, rfl, hframe, hrecords⟩
      · rename_i plaintext j₁ hread
        obtain ⟨-, -, hsame⟩ := JbodManager.readFile_frame hread
        obtain rfl := hsame plaintext rfl
        split at h
        · obtain ⟨rfl, hrest⟩ := Prod.mk.inj h
          obtain ⟨rfl, rfl⟩ := Prod.mk.inj hrest
          exact Or.inl ⟨⟨_, rfl⟩, rfl, JbodManager.Frame.refl _, rfl⟩
        · rename_i chunks hchunks
          refine Or.inr ⟨engine, plaintext, chunks, hengine, by rw [hread], hchunks, ?_⟩
          split at h
          · rename_i hpush
            obtain ⟨rfl, hrest⟩ := Prod.mk.inj h
            obtain ⟨rfl, rfl⟩ := Prod.mk.inj hrest
            exact Or.inl ⟨hpush, rfl, _, rfl⟩
          · rename_i counts _ hpush
            obtain ⟨rfl, hrest⟩ := Prod.mk.inj h
            obtain ⟨rfl, rfl⟩ := Prod.mk.inj hrest
            exact Or.inr ⟨counts, hpush, rfl, rfl⟩

/-! ### The registry -/

/-- Every entry is under the id of its file and index. -/
def WellNamed (m : ReplicationManager) (net : ReplicaNetwork) : Prop :=
  ∀ id info, net.chunks.get id = some info → id = m.chunkId info.fileRef info.idx

theorem WellNamed.pushChunk {m : ReplicationManager} {net : ReplicaNetwork} (h : m.WellNamed net)
    (ref : Text) (chunk : Nat × Bytes) (answer : ChunkAnswer) :
    m.WellNamed (m.pushChunk ref net chunk answer) := by
  intro id info hget
  by_cases hid : id = m.chunkId ref chunk.1
  · subst hid
    rw [(pushed_pushChunk m ref net chunk answer).chunks] at hget
    split_ifs at hget
    · rw [Option.some_inj] at hget
      subst hget
      rfl
    · exact h _ _ hget
  · rw [(sameAt_pushChunk m ref net chunk answer _ hid).chunks] at hget
    exact h _ _ hget

theorem WellNamed.replicateChunks {m : ReplicationManager} {net : ReplicaNetwork}
    (h : m.WellNamed net) (ref : Text) (chunks : List (Nat × Bytes)) (answers : List ChunkAnswer) :
    m.WellNamed (m.replicateChunks ref chunks answers net).2 := by
  rw [replicateChunks_snd]
  exact List.foldlRecOn _ _ (motive := m.WellNamed) h
    fun net' hnamed x _ => hnamed.pushChunk ref x.1 x.2

end ReplicationManager

end StardustFS
