import StardustFS.ReplicatedStatus

/-! The renewal of missing replicas. For every chunk the server lists of a file it is asked for the
holders; where fewer are online than are wanted, the chunk is fetched from one of them and copied as
it is to holders the server proposes. The chunks are healed side by side; each touches its own id
alone, so they are taken in the order of the listing. -/

namespace StardustFS

/-- What the healing of one chunk meets: the holders the server lists as online with an address, in
its order, those of them a fetch reaches, the holders the server proposes with their answers, and
whether an exception ends it. -/
structure HealAnswer where
  online : List DeviceId
  reached : DeviceId → Bool := fun _ => true
  candidates : List (DeviceId × PushAnswer) := []
  raises : Bool := false

structure HealOutcome where
  chunkId : Text
  added : Nat
  healthy : Bool
  deriving DecidableEq, Repr

structure HealReport where
  status : ReplicationStatus
  chunkCount : Nat
  minReplicas : Nat
  repaired : Nat
  unrecoverable : List Text
  deriving DecidableEq, Repr

namespace ReplicationManager

/-- The bytes of the first online holder that is reached and has some. -/
def fetchOnline (net : ReplicaNetwork) (chunkId : Text) (answer : HealAnswer) : Option Bytes :=
  answer.online.findSome? fun device =>
    if answer.reached device then net.stored.get (chunkId, device) else none

/-- The loop over the candidates: it ends when the copies that were needed have been recorded. -/
def placeCopies (chunkId : Text) (data : Bytes) (need : Nat) :
    List (DeviceId × PushAnswer) → Nat → ReplicaNetwork → Nat × ReplicaNetwork
  | [], added, net => (added, net)
  | x :: candidates, added, net =>
      if need ≤ added then (added, net)
      else placeCopies chunkId data need candidates
        (if x.2 = .recorded then added + 1 else added) (pushHolder chunkId data net x)

def healChunk (m : ReplicationManager) (net : ReplicaNetwork) (chunkId : Text)
    (answer : HealAnswer) : HealOutcome × ReplicaNetwork :=
  let need := m.minReplicas - answer.online.length
  if need = 0 then (⟨chunkId, 0, true⟩, net)
  else match fetchOnline net chunkId answer with
    | none => (⟨chunkId, 0, false⟩, net)
    | some data =>
        let (added, net) := placeCopies chunkId data need answer.candidates 0 net
        (⟨chunkId, added, decide (m.minReplicas ≤ answer.online.length + added)⟩, net)

/-- `_ensure_chunks` over the chunks the server lists. -/
def healChunks (m : ReplicationManager) (answers : Text → HealAnswer) :
    List (Text × ChunkInfo) → ReplicaNetwork → List HealOutcome × ReplicaNetwork
  | [], net => ([], net)
  | x :: listed, net =>
      let (outcome, net) := m.healChunk net x.1 (answers x.1)
      let (outcomes, net) := healChunks m answers listed net
      (outcome :: outcomes, net)

def healReport (m : ReplicationManager) (outcomes : List HealOutcome) : HealReport :=
  let unrecoverable := (outcomes.filter fun o => !o.healthy).map HealOutcome.chunkId
  { status := if unrecoverable = [] then .replicated else .pending
    chunkCount := outcomes.length
    minReplicas := m.minReplicas
    repaired := outcomes.countP fun o => decide (0 < o.added)
    unrecoverable }

def ensureReplicas (m : ReplicationManager) (j : JbodManager) (net : ReplicaNetwork)
    (virtualPath : Text) (listed : List (Text × ChunkInfo)) (answers : Text → HealAnswer) :
    Except ReplicationError HealReport × JbodManager × ReplicaNetwork :=
  if listed = [] then (.error .noChunks, j, net)
  else
    let (outcomes, net) := m.healChunks answers listed net
    if listed.any fun x => (answers x.1).raises then (.error .network, j, net)
    else
      let report := m.healReport outcomes
      let j := if (j.metadataStore.lookup virtualPath).isSome then
          { j with
            metadataStore := j.metadataStore.setReplicationStatus virtualPath report.status }
        else j
      (.ok report, j, net)

end ReplicationManager

end StardustFS
