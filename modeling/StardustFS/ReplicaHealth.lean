import StardustFS.ReplicaHealing

/-! Three readers of the replicas of a file: the health check counts them, the repair adds to them, and
the restore fetches from them. Each asks the server for the chunks and for the holders of a chunk; a
refused question counts as an empty answer. A holder is asked at its address, and through the relay
where it has none or nothing answers there. -/

namespace StardustFS

/-- A holder in an answer of the server. `none` is a field that is absent or empty, and offline is only
who is said to be. -/
structure ListedHolder where
  deviceId : Option DeviceId
  connectionAddress : Option Text
  isOnline : Bool := true
  deriving DecidableEq, Repr

/-- How a question to the server ends. -/
inductive QueryAnswer (α : Type) where
  | answered (statusCode : Nat) (items : List α)
  | raised
  deriving DecidableEq, Repr

/-- What the callers read: nothing from a status other than 200. -/
def QueryAnswer.items {α : Type} : QueryAnswer α → Except ReplicationError (List α)
  | answered statusCode items => .ok (if statusCode = 200 then items else [])
  | raised => .error .network

/-- What the server answers during one call: the chunks of the file, the holders of a chunk, the
candidates for a chunk of a size, and the status for a replica to record (`none` for an exception). -/
structure ServerAnswers where
  chunks : QueryAnswer Text
  replicas : Text → QueryAnswer ListedHolder
  placement : Text → Nat → List DeviceId → QueryAnswer ListedHolder
  recordReplica : Text → DeviceId → Option Nat

/-- How a request to an address ends. -/
inductive DirectAnswer (α : Type) where
  /-- A timeout or a network error. -/
  | unreachable
  | answered (a : α)
  /-- Any other exception. -/
  | raised

/-- What the holders answer during one call, at their address and through the relay. -/
structure HolderTransports where
  directFetch : Text → Text → DirectAnswer (Option Bytes)
  relayFetch : DeviceId → Text → Option Bytes
  directStore : Text → Text → Bytes → DirectAnswer Bool
  relayStore : DeviceId → Text → Bytes → Bool

/-- A request to a holder: an answer at the address is final, and the relay needs a device id. -/
def holderRequest {α : Type} (direct : Text → DirectAnswer α) (relay : DeviceId → α) (unreached : α)
    (h : ListedHolder) : Except ReplicationError α :=
  match h.connectionAddress.map direct with
  | some (.answered a) => .ok a
  | some .raised => .error .network
  | some .unreachable | none => .ok ((h.deviceId.map relay).getD unreached)

/-- The loop over holders until one gives data. -/
def firstData (fetch : ListedHolder → Except ReplicationError (Option Bytes)) :
    List ListedHolder → Except ReplicationError (Option Bytes)
  | [] => .ok none
  | h :: holders =>
      match fetch h with
      | .error e => .error e
      | .ok (some data) => .ok (some data)
      | .ok none => firstData fetch holders

/-- The loop over candidates until as many have taken the chunk as are needed. -/
def placeReplicas (store : ListedHolder → Except ReplicationError (Option DeviceId)) (need : Nat) :
    List ListedHolder → List DeviceId → Except ReplicationError (List DeviceId)
  | [], recorded => .ok recorded
  | x :: candidates, recorded =>
      if need ≤ recorded.length then .ok recorded
      else match store x with
        | .error e => .error e
        | .ok none => placeReplicas store need candidates recorded
        | .ok (some device) => placeReplicas store need candidates (recorded ++ [device])

structure HealthSummary where
  degraded : Bool
  chunkCount : Nat
  minOnline : Nat
  deriving DecidableEq, Repr

/-- The repair of one chunk, and the devices recorded as new holders of it. -/
structure HealedChunk where
  outcome : HealOutcome
  recorded : List DeviceId
  deriving DecidableEq, Repr

/-- The holders the health check counts. -/
def onlineHolders (holders : List ListedHolder) : List ListedHolder :=
  holders.filter fun h => h.isOnline

/-- The holders the repair counts and copies from. -/
def addressedHolders (holders : List ListedHolder) : List ListedHolder :=
  holders.filter fun h => h.isOnline && h.connectionAddress.isSome

/-- The holders the restore asks. -/
def askedHolders (holders : List ListedHolder) : List ListedHolder :=
  holders.filter fun h => h.isOnline && (h.deviceId.isSome || h.connectionAddress.isSome)

/-- A manager with what a call of it meets. -/
structure ReplicaCall where
  manager : ReplicationManager
  selfDevice : Option DeviceId
  answers : ServerAnswers
  transports : HolderTransports

namespace ReplicaCall

def holderFetch (r : ReplicaCall) (chunkId : Text) : ListedHolder → Except ReplicationError (Option Bytes) :=
  holderRequest (r.transports.directFetch · chunkId) (r.transports.relayFetch · chunkId) none

def holderStore (r : ReplicaCall) (chunkId : Text) (data : Bytes) :
    ListedHolder → Except ReplicationError Bool :=
  holderRequest (r.transports.directStore · chunkId data) (r.transports.relayStore · chunkId data) false

def onlineCount (r : ReplicaCall) (chunkId : Text) : Except ReplicationError Nat := do
  return (onlineHolders (← (r.answers.replicas chunkId).items)).length

def health (r : ReplicaCall) : Except ReplicationError HealthSummary := do
  let chunkIds ← r.answers.chunks.items
  if chunkIds = [] then return ⟨false, 0, 0⟩
  else
    let counts ← chunkIds.mapM r.onlineCount
    let minOnline := counts.min?.getD 0
    return ⟨decide (minOnline < r.manager.minReplicas), chunkIds.length, minOnline⟩

/-- One candidate: it is sent the chunk, and recorded where it has taken it. -/
def storeReplica (r : ReplicaCall) (chunkId : Text) (data : Bytes) (x : ListedHolder) :
    Except ReplicationError (Option DeviceId) :=
  match x.deviceId with
  | none => .ok none
  | some device => do
      if ← r.holderStore chunkId data x then
        match r.answers.recordReplica chunkId device with
        | none => .error .network
        | some statusCode => return if statusCode = 200 then some device else none
      else return none

/-- The devices that are not to be proposed: the holders, and the device itself. -/
def excluded (r : ReplicaCall) (holders : List ListedHolder) : List DeviceId :=
  let current := holders.filterMap ListedHolder.deviceId
  match r.selfDevice with
  | none => current
  | some device => if device ∈ current then current else current ++ [device]

def healChunk (r : ReplicaCall) (chunkId : Text) : Except ReplicationError HealedChunk := do
  let holders ← (r.answers.replicas chunkId).items
  let online := addressedHolders holders
  let need := r.manager.minReplicas - online.length
  if need = 0 then return ⟨⟨chunkId, 0, true⟩, []⟩
  else match ← firstData (r.holderFetch chunkId) online with
    | none => return ⟨⟨chunkId, 0, false⟩, []⟩
    | some data =>
        let candidates ← (r.answers.placement chunkId data.length (r.excluded holders)).items
        let recorded ← placeReplicas (r.storeReplica chunkId data) need candidates []
        return ⟨⟨chunkId, recorded.length,
          decide (r.manager.minReplicas ≤ online.length + recorded.length)⟩, recorded⟩

/-- `_ensure_chunks` up to the outcomes. -/
def ensureChunks (r : ReplicaCall) : Except ReplicationError (List HealedChunk) := do
  let chunkIds ← r.answers.chunks.items
  if chunkIds = [] then .error .noChunks else chunkIds.mapM r.healChunk

def report (r : ReplicaCall) (healed : List HealedChunk) : HealReport :=
  r.manager.healReport (healed.map HealedChunk.outcome)

def fetchFromAnyHolder (r : ReplicaCall) (chunkId : Text) : Except ReplicationError (Option Bytes) := do
  firstData (r.holderFetch chunkId) (askedHolders (← (r.answers.replicas chunkId).items))

end ReplicaCall

/-! ### The loops -/

section Loops

variable {α β : Type} {f : α → Except ReplicationError β}

theorem mapM_eq_ok_iff {xs : List α} {ys : List β} :
    xs.mapM f = .ok ys ↔ xs.map f = ys.map .ok := by
  induction xs generalizing ys with
  | nil =>
      rw [List.mapM_nil, List.map_nil, eq_comm (a := []), List.map_eq_nil_iff]
      exact ⟨fun h => (Except.ok.inj h).symm, fun h => congrArg Except.ok h.symm⟩
  | cons x xs ih =>
      rw [List.mapM_cons]
      cases hx : f x with
      | error e => cases ys <;> simp [bind, Except.bind, hx]
      | ok y =>
          cases hxs : xs.mapM f with
          | error e =>
              cases ys with
              | nil => simp [bind, Except.bind]
              | cons z zs => simp [bind, Except.bind, hx, ← ih, hxs]
          | ok zs =>
              cases ys with
              | nil => simp [bind, Except.bind, pure, Except.pure]
              | cons w ws => simp [bind, Except.bind, pure, Except.pure, hx, ← ih, hxs]

theorem mapM_eq_error_iff (xs : List α) :
    (∃ e, xs.mapM f = .error e) ↔ ∃ x ∈ xs, ∃ e, f x = .error e := by
  induction xs with
  | nil => simp [pure, Except.pure]
  | cons x xs ih =>
      rw [List.mapM_cons, List.exists_mem_cons_iff, ← ih]
      cases hx : f x with
      | error e => simp [bind, Except.bind]
      | ok y => cases hxs : xs.mapM f <;> simp [bind, Except.bind, pure, Except.pure]

variable {fetch : ListedHolder → Except ReplicationError (Option Bytes)}
  {store : ListedHolder → Except ReplicationError (Option DeviceId)}
  {holders : List ListedHolder} {answer : Except ReplicationError (Option Bytes)}

/-- The first holder that does not just lack the data answers so. -/
def FirstAnswer (fetch : ListedHolder → Except ReplicationError (Option Bytes))
    (holders : List ListedHolder) (answer : Except ReplicationError (Option Bytes)) : Prop :=
  ∃ pre h post, holders = pre ++ h :: post ∧ (∀ x ∈ pre, fetch x = .ok none) ∧ fetch h = answer

theorem firstData_eq_none_iff : firstData fetch holders = .ok none ↔ ∀ h ∈ holders, fetch h = .ok none := by
  induction holders with
  | nil => simp [firstData]
  | cons h holders ih =>
      rw [firstData, List.forall_mem_cons, ← ih]
      rcases fetch h with e | _ | data <;> simp

theorem firstData_eq_iff (hanswer : answer ≠ .ok none) :
    firstData fetch holders = answer ↔ FirstAnswer fetch holders answer := by
  induction holders with
  | nil =>
      refine ⟨fun h => absurd h.symm hanswer, fun ⟨pre, h, post, hsplit, _⟩ => ?_⟩
      exact absurd (congrArg List.length hsplit) (by simp)
  | cons h holders ih =>
      rw [firstData]
      constructor
      · intro hfirst
        cases hfetch : fetch h with
        | error e =>
            rw [hfetch] at hfirst
            exact ⟨[], h, holders, rfl, fun _ hx => (List.not_mem_nil hx).elim, hfetch.trans hfirst⟩
        | ok found =>
            rw [hfetch] at hfirst
            cases found with
            | some data =>
                exact ⟨[], h, holders, rfl, fun _ hx => (List.not_mem_nil hx).elim, hfetch.trans hfirst⟩
            | none =>
                obtain ⟨pre, g, post, hsplit, hpre, hg⟩ := ih.mp hfirst
                exact ⟨h :: pre, g, post, by rw [hsplit, List.cons_append],
                  List.forall_mem_cons.mpr ⟨hfetch, hpre⟩, hg⟩
      · rintro ⟨pre, g, post, hsplit, hpre, hg⟩
        cases pre with
        | nil =>
            obtain ⟨rfl, rfl⟩ := List.cons.inj hsplit
            rw [hg]
            rcases answer with e | _ | data
            · rfl
            · exact absurd rfl hanswer
            · rfl
        | cons x pre =>
            obtain ⟨rfl, rfl⟩ := List.cons.inj hsplit
            obtain ⟨hx, hpre⟩ := List.forall_mem_cons.mp hpre
            rw [hx]
            exact ih.mpr ⟨pre, g, post, rfl, hpre, hg⟩

/-- Who gives data among some of the holders is not missed among all, where the others raise nothing. -/
theorem firstData_of_filter {keep : ListedHolder → Bool} {data : Bytes}
    (hquiet : ∀ h ∈ holders, keep h = false → ∀ e, fetch h ≠ .error e)
    (hfirst : firstData fetch (holders.filter keep) = .ok (some data)) :
    ∃ data, firstData fetch holders = .ok (some data) := by
  induction holders with
  | nil => cases hfirst
  | cons h holders ih =>
      obtain ⟨hh, hrest⟩ := List.forall_mem_cons.mp hquiet
      rw [firstData]
      by_cases hkeep : keep h = true
      · rw [List.filter_cons_of_pos hkeep, firstData] at hfirst
        rcases hfetch : fetch h with e | _ | found
        · rw [hfetch] at hfirst
          cases hfirst
        · rw [hfetch] at hfirst
          exact ih hrest hfirst
        · exact ⟨found, rfl⟩
      · rw [List.filter_cons_of_neg hkeep] at hfirst
        rcases hfetch : fetch h with e | _ | found
        · exact absurd hfetch (hh (Bool.not_eq_true _ ▸ hkeep) e)
        · exact ih hrest hfirst
        · exact ⟨found, rfl⟩

/-- The devices that take the chunk, among the candidates. -/
def takers (store : ListedHolder → Except ReplicationError (Option DeviceId))
    (candidates : List ListedHolder) : List DeviceId :=
  candidates.filterMap fun x => (store x).toOption.join

theorem placeReplicas_eq_ok {need : Nat} {candidates : List ListedHolder} {recorded after : List DeviceId}
    (h : placeReplicas store need candidates recorded = .ok after) :
    after = recorded ++ (takers store candidates).take (need - recorded.length) := by
  induction candidates generalizing recorded with
  | nil =>
      rw [takers, List.filterMap_nil, List.take_nil, List.append_nil]
      exact (Except.ok.inj h).symm
  | cons x candidates ih =>
      rw [placeReplicas] at h
      by_cases hneed : need ≤ recorded.length
      · rw [if_pos hneed] at h
        rw [Nat.sub_eq_zero_of_le hneed, List.take_zero, List.append_nil]
        exact (Except.ok.inj h).symm
      · rw [if_neg hneed] at h
        rcases hstore : store x with e | _ | device
        · rw [hstore] at h
          cases h
        · rw [hstore] at h
          rw [ih h]
          simp [takers, hstore, Except.toOption]
        · rw [hstore] at h
          rw [ih h, List.length_append, List.length_singleton, List.append_assoc]
          have hroom : need - recorded.length = need - (recorded.length + 1) + 1 := by omega
          simp [takers, hstore, Except.toOption, hroom]

/-- The loop over the candidates ends with an exception where one that raises is asked. -/
theorem placeReplicas_eq_error_iff {need : Nat} (candidates : List ListedHolder)
    (recorded : List DeviceId) :
    (∃ e, placeReplicas store need candidates recorded = .error e) ↔
      ∃ pre x post e, candidates = pre ++ x :: post ∧ store x = .error e ∧
        recorded.length + (takers store pre).length < need := by
  induction candidates generalizing recorded with
  | nil => simp [placeReplicas]
  | cons x candidates ih =>
      rw [placeReplicas]
      by_cases hneed : need ≤ recorded.length
      · rw [if_pos hneed]
        constructor
        · rintro ⟨e, h⟩
          cases h
        · rintro ⟨pre, y, post, e, -, -, hlt⟩
          omega
      · rw [if_neg hneed]
        have hsplit : (∃ pre y post e, x :: candidates = pre ++ y :: post ∧ store y = .error e ∧
              recorded.length + (takers store pre).length < need) ↔
            (∃ e, store x = .error e) ∨ ∃ pre y post e, candidates = pre ++ y :: post ∧
              store y = .error e ∧ recorded.length + (takers store (x :: pre)).length < need := by
          constructor
          · rintro ⟨pre, y, post, e, hcands, hy, hlt⟩
            cases pre with
            | nil =>
                obtain ⟨rfl, -⟩ := List.cons.inj hcands
                exact Or.inl ⟨e, hy⟩
            | cons z pre =>
                obtain ⟨rfl, hrest⟩ := List.cons.inj hcands
                exact Or.inr ⟨pre, y, post, e, hrest, hy, hlt⟩
          · rintro (⟨e, hx⟩ | ⟨pre, y, post, e, rfl, hy, hlt⟩)
            · exact ⟨[], x, candidates, e, rfl, hx, by simpa [takers] using hneed⟩
            · exact ⟨x :: pre, y, post, e, rfl, hy, hlt⟩
        rw [hsplit]
        rcases hstore : store x with e | _ | device
        · simp
        · simp [ih, takers, hstore, Except.toOption]
        · simp [ih, takers, hstore, Except.toOption, Nat.add_assoc, Nat.add_comm 1]

end Loops

namespace ReplicaCall

variable {r : ReplicaCall} {chunkId : Text} {holders : List ListedHolder} {healed : List HealedChunk}

/-! ### The health check -/

theorem onlineCount_eq_ok (h : (r.answers.replicas chunkId).items = .ok holders) :
    r.onlineCount chunkId = .ok (onlineHolders holders).length := by
  rw [onlineCount, h]
  rfl

theorem min?_getD_lt_iff {counts : List Nat} (hne : counts ≠ []) (k : Nat) :
    counts.min?.getD 0 < k ↔ ∃ n ∈ counts, n < k := by
  obtain ⟨least, hleast⟩ := Option.isSome_iff_exists.mp (List.isSome_min?_of_ne_nil hne)
  obtain ⟨hmem, hle⟩ := List.min?_eq_some_iff.mp hleast
  rw [hleast, Option.getD_some]
  exact ⟨fun hlt => ⟨least, hmem, hlt⟩, fun ⟨n, hn, hlt⟩ => (hle n hn).trans_lt hlt⟩

theorem health_eq_ok {chunkIds : List Text} {summary : HealthSummary}
    (hchunks : r.answers.chunks.items = .ok chunkIds) (h : r.health = .ok summary) :
    (∀ c ∈ chunkIds, ∃ n, r.onlineCount c = .ok n) ∧
      (summary.degraded = true ↔ ∃ c ∈ chunkIds, ∃ n, r.onlineCount c = .ok n ∧
        n < r.manager.minReplicas) := by
  rw [health, hchunks] at h
  by_cases hempty : chunkIds = []
  · obtain rfl : (⟨false, 0, 0⟩ : HealthSummary) = summary := by
      simpa [bind, Except.bind, pure, Except.pure, hempty] using h
    simp [hempty]
  · cases hcounts : chunkIds.mapM r.onlineCount with
    | error e => simp [bind, Except.bind, hempty, hcounts] at h
    | ok counts =>
        have hmap := mapM_eq_ok_iff.mp hcounts
        obtain rfl : (⟨decide (counts.min?.getD 0 < r.manager.minReplicas), chunkIds.length,
            counts.min?.getD 0⟩ : HealthSummary) = summary := by
          simpa [bind, Except.bind, pure, Except.pure, hempty, hcounts] using h
        have hsome : ∀ c ∈ chunkIds, ∃ n ∈ counts, r.onlineCount c = .ok n := by
          intro c hc
          obtain ⟨n, hn, hcount⟩ := List.mem_map.mp (hmap ▸ List.mem_map_of_mem (f := r.onlineCount) hc)
          exact ⟨n, hn, hcount.symm⟩
        have hof : ∀ n ∈ counts, ∃ c ∈ chunkIds, r.onlineCount c = .ok n := by
          intro n hn
          exact List.mem_map.mp (hmap.symm ▸ List.mem_map_of_mem (f := Except.ok) hn)
        refine ⟨fun c hc => (hsome c hc).imp fun n hn => hn.2, ?_⟩
        have hne : counts ≠ [] := by
          rintro rfl
          exact hempty (List.map_eq_nil_iff.mp hmap)
        rw [decide_eq_true_iff, min?_getD_lt_iff hne]
        constructor
        · rintro ⟨n, hn, hlt⟩
          obtain ⟨c, hc, hcount⟩ := hof n hn
          exact ⟨c, hc, n, hcount, hlt⟩
        · rintro ⟨c, hc, n, hcount, hlt⟩
          obtain ⟨n', hn', hcount'⟩ := hsome c hc
          obtain rfl : n' = n := Except.ok.inj (hcount'.symm.trans hcount)
          exact ⟨n', hn', hlt⟩

theorem onlineCount_eq_error_iff :
    (∃ e, r.onlineCount chunkId = .error e) ↔ ∃ e, (r.answers.replicas chunkId).items = .error e := by
  rw [onlineCount]
  cases (r.answers.replicas chunkId).items <;> simp [bind, Except.bind, pure, Except.pure]

/-- The health check fails where a question of it ends with an exception. -/
theorem health_eq_error_iff : (∃ e, r.health = .error e) ↔
    (∃ e, r.answers.chunks.items = .error e) ∨ ∃ chunkIds, r.answers.chunks.items = .ok chunkIds ∧
      ∃ c ∈ chunkIds, ∃ e, (r.answers.replicas c).items = .error e := by
  rw [health]
  cases hchunks : r.answers.chunks.items with
  | error e => simp [bind, Except.bind]
  | ok chunkIds =>
      have hcounts := mapM_eq_error_iff (f := r.onlineCount) chunkIds
      simp only [onlineCount_eq_error_iff] at hcounts
      simp only [reduceCtorEq, exists_false, false_or, Except.ok.injEq, exists_eq_left', ← hcounts]
      by_cases hempty : chunkIds = []
      · simp [bind, Except.bind, pure, Except.pure, hempty]
      · cases hmap : chunkIds.mapM r.onlineCount <;>
          simp [bind, Except.bind, pure, Except.pure, hempty, hmap]

/-! ### The repair of a chunk -/

/-- One of the candidates is asked, and the answer is an exception. -/
def StoreRaises (store : ListedHolder → Except ReplicationError (Option DeviceId)) (need : Nat)
    (candidates : List ListedHolder) : Prop :=
  ∃ pre x post e, candidates = pre ++ x :: post ∧ store x = .error e ∧ (takers store pre).length < need

/-- An exception ends the repair of a chunk: of the server, of the holder that is asked for the data, or
of a candidate. -/
def RepairRaises (r : ReplicaCall) (chunkId : Text) : Prop :=
  (∃ e, (r.answers.replicas chunkId).items = .error e) ∨
    ∃ holders, (r.answers.replicas chunkId).items = .ok holders ∧
      (addressedHolders holders).length < r.manager.minReplicas ∧
      ((∃ e, FirstAnswer (r.holderFetch chunkId) (addressedHolders holders) (.error e)) ∨
        ∃ data, FirstAnswer (r.holderFetch chunkId) (addressedHolders holders) (.ok (some data)) ∧
          ((∃ e, (r.answers.placement chunkId data.length (r.excluded holders)).items = .error e) ∨
            ∃ candidates,
              (r.answers.placement chunkId data.length (r.excluded holders)).items = .ok candidates ∧
              StoreRaises (r.storeReplica chunkId data)
                (r.manager.minReplicas - (addressedHolders holders).length) candidates))

theorem healChunk_of_covered (hholders : (r.answers.replicas chunkId).items = .ok holders)
    (hcovered : r.manager.minReplicas ≤ (addressedHolders holders).length) :
    r.healChunk chunkId = .ok ⟨⟨chunkId, 0, true⟩, []⟩ := by
  rw [healChunk, hholders]
  simp [bind, Except.bind, pure, Except.pure, Nat.sub_eq_zero_of_le hcovered]

/-- The repair of a chunk that is short of holders, with what its loops end with. -/
theorem healChunk_of_short (hholders : (r.answers.replicas chunkId).items = .ok holders)
    (hshort : (addressedHolders holders).length < r.manager.minReplicas) :
    r.healChunk chunkId = (do
      match ← firstData (r.holderFetch chunkId) (addressedHolders holders) with
      | none => return ⟨⟨chunkId, 0, false⟩, []⟩
      | some data =>
          let recorded ← placeReplicas (r.storeReplica chunkId data)
            (r.manager.minReplicas - (addressedHolders holders).length)
            (← (r.answers.placement chunkId data.length (r.excluded holders)).items) []
          return ⟨⟨chunkId, recorded.length, decide (r.manager.minReplicas ≤
            (addressedHolders holders).length + recorded.length)⟩, recorded⟩) := by
  have hneed : r.manager.minReplicas - (addressedHolders holders).length ≠ 0 :=
    Nat.sub_ne_zero_of_lt hshort
  rw [healChunk, hholders]
  simp only [bind, Except.bind, if_neg hneed]

/-- What the repair of a chunk returns. -/
theorem healChunk_cases {x : HealedChunk} (hholders : (r.answers.replicas chunkId).items = .ok holders)
    (h : r.healChunk chunkId = .ok x) :
    r.manager.minReplicas ≤ (addressedHolders holders).length ∧ x = ⟨⟨chunkId, 0, true⟩, []⟩ ∨
      (addressedHolders holders).length < r.manager.minReplicas ∧
        (firstData (r.holderFetch chunkId) (addressedHolders holders) = .ok none ∧
            x = ⟨⟨chunkId, 0, false⟩, []⟩ ∨
          ∃ data candidates recorded,
            firstData (r.holderFetch chunkId) (addressedHolders holders) = .ok (some data) ∧
            (r.answers.placement chunkId data.length (r.excluded holders)).items = .ok candidates ∧
            recorded = (takers (r.storeReplica chunkId data) candidates).take
              (r.manager.minReplicas - (addressedHolders holders).length) ∧
            x = ⟨⟨chunkId, recorded.length, decide (r.manager.minReplicas ≤
              (addressedHolders holders).length + recorded.length)⟩, recorded⟩) := by
  by_cases hshort : (addressedHolders holders).length < r.manager.minReplicas
  · refine Or.inr ⟨hshort, ?_⟩
    rw [healChunk_of_short hholders hshort] at h
    rcases hfirst : firstData (r.holderFetch chunkId) (addressedHolders holders) with e | _ | data
    · simp [hfirst, bind, Except.bind] at h
    · exact Or.inl ⟨rfl, by simpa [hfirst, bind, Except.bind, pure, Except.pure, eq_comm] using h⟩
    · cases hcands : (r.answers.placement chunkId data.length (r.excluded holders)).items with
      | error e => simp [hfirst, hcands, bind, Except.bind] at h
      | ok candidates =>
          cases hplaced : placeReplicas (r.storeReplica chunkId data)
              (r.manager.minReplicas - (addressedHolders holders).length) candidates [] with
          | error e => simp [hfirst, hcands, hplaced, bind, Except.bind] at h
          | ok recorded =>
              refine Or.inr ⟨data, candidates, recorded, rfl, hcands, placeReplicas_eq_ok hplaced, ?_⟩
              simpa [hfirst, hcands, hplaced, bind, Except.bind, pure, Except.pure, eq_comm] using h
  · rw [not_lt] at hshort
    rw [healChunk_of_covered hholders hshort] at h
    exact Or.inl ⟨hshort, (Except.ok.inj h).symm⟩

theorem healChunk_eq_error_iff : (∃ e, r.healChunk chunkId = .error e) ↔ r.RepairRaises chunkId := by
  unfold RepairRaises
  cases hholders : (r.answers.replicas chunkId).items with
  | error e => simp [healChunk, hholders, bind, Except.bind]
  | ok holders =>
      by_cases hshort : (addressedHolders holders).length < r.manager.minReplicas
      · rw [healChunk_of_short hholders hshort]
        have hraised : ∀ e, FirstAnswer (r.holderFetch chunkId) (addressedHolders holders) (.error e) ↔
            firstData (r.holderFetch chunkId) (addressedHolders holders) = .error e :=
          fun e => (firstData_eq_iff (by simp)).symm
        have hgiven : ∀ data,
            FirstAnswer (r.holderFetch chunkId) (addressedHolders holders) (.ok (some data)) ↔
              firstData (r.holderFetch chunkId) (addressedHolders holders) = .ok (some data) :=
          fun data => (firstData_eq_iff (by simp)).symm
        simp only [reduceCtorEq, exists_false, false_or, Except.ok.injEq, exists_eq_left', hraised, hgiven]
        rcases hfirst : firstData (r.holderFetch chunkId) (addressedHolders holders) with e | _ | data
        · simp [hshort, bind, Except.bind]
        · simp [bind, Except.bind, pure, Except.pure]
        · cases hcands : (r.answers.placement chunkId data.length (r.excluded holders)).items with
          | error e => simp [hshort, hcands, bind, Except.bind]
          | ok candidates =>
              have hstore : (∃ e, placeReplicas (r.storeReplica chunkId data)
                    (r.manager.minReplicas - (addressedHolders holders).length) candidates [] =
                      .error e) ↔ StoreRaises (r.storeReplica chunkId data)
                    (r.manager.minReplicas - (addressedHolders holders).length) candidates := by
                simpa [StoreRaises] using placeReplicas_eq_error_iff candidates []
              cases hplaced : placeReplicas (r.storeReplica chunkId data)
                  (r.manager.minReplicas - (addressedHolders holders).length) candidates [] with
              | error e =>
                  rw [hplaced] at hstore
                  simpa [hshort, hcands, hplaced, bind, Except.bind] using hstore
              | ok recorded =>
                  rw [hplaced] at hstore
                  simpa [hshort, hcands, hplaced, bind, Except.bind, pure, Except.pure] using hstore
      · rw [healChunk_of_covered hholders (not_lt.mp hshort)]
        simp [hshort]

/-- What a repair meets, said once with the network and once with the answers of a call. -/
structure Meets (r : ReplicaCall) (chunkId : Text) (holders : List ListedHolder) (net : ReplicaNetwork)
    (answer : HealAnswer) : Prop where
  online : answer.online.length = (addressedHolders holders).length
  data : firstData (r.holderFetch chunkId) (addressedHolders holders) =
    .ok (ReplicationManager.fetchOnline net chunkId answer)
  recorded : ∀ data candidates,
    (r.answers.placement chunkId data.length (r.excluded holders)).items = .ok candidates →
      answer.candidates.countP (fun y => y.2 = .recorded) =
        (takers (r.storeReplica chunkId data) candidates).length

theorem placeCopies_fst (data : Bytes) (need added : Nat) (candidates : List (DeviceId × PushAnswer))
    (net : ReplicaNetwork) :
    (ReplicationManager.placeCopies chunkId data need candidates added net).1 =
      added + min (need - added) (candidates.countP fun y => y.2 = .recorded) := by
  induction candidates generalizing added net with
  | nil => simp [ReplicationManager.placeCopies]
  | cons y candidates ih =>
      rw [ReplicationManager.placeCopies]
      by_cases hneed : need ≤ added
      · rw [if_pos hneed]
        omega
      · rw [if_neg hneed, ih, List.countP_cons]
        by_cases hrecorded : y.2 = .recorded
        · simp only [hrecorded, if_true, decide_true]
          omega
        · simp only [hrecorded, if_false, decide_false, Bool.false_eq_true]
          omega

/-- The outcome for a chunk is the one over the network. -/
theorem outcome_eq {x : HealedChunk} {net : ReplicaNetwork} {answer : HealAnswer}
    (hholders : (r.answers.replicas chunkId).items = .ok holders) (h : r.healChunk chunkId = .ok x)
    (hmeets : r.Meets chunkId holders net answer) :
    (r.manager.healChunk net chunkId answer).1 = x.outcome := by
  have honline := hmeets.online
  rw [ReplicationManager.healChunk]
  rcases healChunk_cases hholders h with ⟨hcovered, rfl⟩ | ⟨hshort, ⟨hnone, rfl⟩ |
    ⟨data, candidates, recorded, hdata, hcands, hrecorded, rfl⟩⟩
  · rw [honline, if_pos (Nat.sub_eq_zero_of_le hcovered)]
  · rw [honline, if_neg (Nat.sub_ne_zero_of_lt hshort), Except.ok.inj (hmeets.data.symm.trans hnone)]
  · have hadded : recorded.length = min (r.manager.minReplicas - (addressedHolders holders).length)
        (answer.candidates.countP fun y => y.2 = .recorded) := by
      rw [hrecorded, List.length_take, hmeets.recorded data candidates hcands]
    rw [honline, if_neg (Nat.sub_ne_zero_of_lt hshort), Except.ok.inj (hmeets.data.symm.trans hdata)]
    simp only [placeCopies_fst, Nat.sub_zero, Nat.zero_add, ← hadded]

/-- A chunk that the repair leaves short: nobody with an address gives it, or too few take it. -/
theorem unhealthy_iff {x : HealedChunk} (hholders : (r.answers.replicas chunkId).items = .ok holders)
    (h : r.healChunk chunkId = .ok x) :
    x.outcome.healthy = false ↔ (addressedHolders holders).length < r.manager.minReplicas ∧
      (firstData (r.holderFetch chunkId) (addressedHolders holders) = .ok none ∨
        ∃ data candidates,
          firstData (r.holderFetch chunkId) (addressedHolders holders) = .ok (some data) ∧
          (r.answers.placement chunkId data.length (r.excluded holders)).items = .ok candidates ∧
          (addressedHolders holders).length + (takers (r.storeReplica chunkId data) candidates).length <
            r.manager.minReplicas) := by
  rcases healChunk_cases hholders h with ⟨hcovered, rfl⟩ | ⟨hshort, ⟨hnone, rfl⟩ |
    ⟨data, candidates, recorded, hdata, hcands, hrecorded, rfl⟩⟩
  · simp [Nat.not_lt.mpr hcovered]
  · simp [hshort, hnone]
  · have hlength : recorded.length = min (r.manager.minReplicas - (addressedHolders holders).length)
        (takers (r.storeReplica chunkId data) candidates).length := by
      rw [hrecorded, List.length_take]
    have hfew : ¬ r.manager.minReplicas ≤ (addressedHolders holders).length + recorded.length ↔
        (addressedHolders holders).length + (takers (r.storeReplica chunkId data) candidates).length <
          r.manager.minReplicas := by
      omega
    rw [decide_eq_false_iff_not, hfew, and_iff_right hshort, hdata]
    constructor
    · intro hlt
      exact Or.inr ⟨data, candidates, rfl, hcands, hlt⟩
    · rintro (hnone | ⟨data', candidates', hdata', hcands', hlt⟩)
      · cases hnone
      · cases hdata'
        rw [hcands] at hcands'
        cases hcands'
        exact hlt

theorem chunkId_of_healChunk {x : HealedChunk}
    (hholders : (r.answers.replicas chunkId).items = .ok holders) (h : r.healChunk chunkId = .ok x) :
    x.outcome.chunkId = chunkId := by
  rcases healChunk_cases hholders h with ⟨-, rfl⟩ | ⟨-, ⟨-, rfl⟩ | ⟨_, _, _, -, -, -, rfl⟩⟩ <;> rfl

/-- A healthy chunk has its holders, counting those that are recorded for it. -/
theorem enough_of_healed {x : HealedChunk} (hholders : (r.answers.replicas chunkId).items = .ok holders)
    (h : r.healChunk chunkId = .ok x) (hhealthy : x.outcome.healthy = true) :
    r.manager.minReplicas ≤ (addressedHolders holders).length + x.recorded.length := by
  rcases healChunk_cases hholders h with ⟨hcovered, rfl⟩ | ⟨-, ⟨-, rfl⟩ | ⟨_, _, _, -, -, -, rfl⟩⟩
  · exact hcovered
  · cases hhealthy
  · exact decide_eq_true_iff.mp hhealthy

theorem takers_sublist (r : ReplicaCall) (chunkId : Text) (data : Bytes) (candidates : List ListedHolder) :
    (takers (r.storeReplica chunkId data) candidates).Sublist
      (candidates.filterMap ListedHolder.deviceId) := by
  induction candidates with
  | nil => exact List.Sublist.refl _
  | cons x candidates ih =>
      have htaken : ∀ d, (r.storeReplica chunkId data x).toOption.join = some d → x.deviceId = some d := by
        intro d htaken
        unfold storeReplica at htaken
        cases hdevice : x.deviceId with
        | none => simp [hdevice, Except.toOption] at htaken
        | some device =>
            rw [hdevice] at htaken
            rcases hstore : r.holderStore chunkId data x with e | _ | _
            · simp [hstore, bind, Except.bind, Except.toOption] at htaken
            · simp [hstore, bind, Except.bind, pure, Except.pure, Except.toOption] at htaken
            · cases hrecord : r.answers.recordReplica chunkId device with
              | none => simp [hstore, hrecord, bind, Except.bind, Except.toOption] at htaken
              | some statusCode =>
                  simp only [hstore, hrecord, bind, Except.bind, pure, Except.pure, if_true,
                    Except.toOption, Option.join_some] at htaken
                  split_ifs at htaken
                  exact htaken
      rw [takers, List.filterMap_cons, List.filterMap_cons]
      cases hstored : (r.storeReplica chunkId data x).toOption.join with
      | none =>
          cases x.deviceId with
          | none => exact ih
          | some device => exact ih.cons device
      | some d =>
          rw [htaken d hstored]
          exact ih.cons_cons d

/-- The devices recorded for a chunk are some of the candidates for it. -/
theorem recorded_sublist {x : HealedChunk} (hholders : (r.answers.replicas chunkId).items = .ok holders)
    (h : r.healChunk chunkId = .ok x) : x.recorded = [] ∨ ∃ size candidates,
      (r.answers.placement chunkId size (r.excluded holders)).items = .ok candidates ∧
        x.recorded.Sublist (candidates.filterMap ListedHolder.deviceId) := by
  rcases healChunk_cases hholders h with ⟨-, rfl⟩ | ⟨-, ⟨-, rfl⟩ |
    ⟨data, candidates, recorded, -, hcands, hrecorded, rfl⟩⟩
  · exact Or.inl rfl
  · exact Or.inl rfl
  · refine Or.inr ⟨_, candidates, hcands, ?_⟩
    rw [hrecorded]
    exact (List.take_sublist ..).trans (takers_sublist r chunkId data candidates)

theorem mem_excluded {d : DeviceId} (hd : d ∈ holders.filterMap ListedHolder.deviceId) :
    d ∈ r.excluded holders := by
  unfold excluded
  cases r.selfDevice with
  | none => exact hd
  | some device =>
      dsimp only
      split_ifs
      · exact hd
      · exact List.mem_append_left _ hd

/-- A chunk that is left healthy without a copy has its holders. -/
theorem covered_of_healed {x : HealedChunk} (hholders : (r.answers.replicas chunkId).items = .ok holders)
    (h : r.healChunk chunkId = .ok x) (hhealthy : x.outcome.healthy = true)
    (hadded : x.outcome.added = 0) :
    r.manager.minReplicas ≤ (addressedHolders holders).length := by
  rcases healChunk_cases hholders h with ⟨hcovered, -⟩ | ⟨-, ⟨-, rfl⟩ | ⟨_, _, recorded, -, -, -, rfl⟩⟩
  · exact hcovered
  · cases hhealthy
  · rw [decide_eq_true_iff] at hhealthy
    change recorded.length = 0 at hadded
    omega

/-! ### Who can be asked -/

theorem addressed_of_raises {h : ListedHolder} {e : ReplicationError}
    (hraises : r.holderFetch chunkId h = .error e) : h.connectionAddress.isSome = true := by
  unfold holderFetch holderRequest at hraises
  cases haddress : h.connectionAddress with
  | none => simp [haddress] at hraises
  | some address => rfl

theorem asked_of_fetch {h : ListedHolder} (hfetch : r.holderFetch chunkId h ≠ .ok none) :
    (h.deviceId.isSome || h.connectionAddress.isSome) = true := by
  by_contra hnot
  rw [Bool.not_eq_true, Bool.or_eq_false_iff, Option.isSome_eq_false_iff, Option.isNone_iff_eq_none,
    Option.isSome_eq_false_iff, Option.isNone_iff_eq_none] at hnot
  refine hfetch ?_
  unfold holderFetch holderRequest
  simp [hnot.1, hnot.2]

theorem addressedHolders_eq (holders : List ListedHolder) :
    addressedHolders holders = (askedHolders holders).filter fun h => h.connectionAddress.isSome := by
  rw [addressedHolders, askedHolders, List.filter_filter]
  refine List.filter_congr fun h _ => ?_
  cases h.isOnline <;> cases h.connectionAddress <;> simp

theorem mem_askedHolders_iff {h : ListedHolder} : h ∈ askedHolders holders ↔
    h ∈ onlineHolders holders ∧ (h.deviceId.isSome || h.connectionAddress.isSome) = true := by
  rw [askedHolders, onlineHolders, List.mem_filter, List.mem_filter, Bool.and_eq_true, and_assoc]

theorem onlineHolders_append (holders holders' : List ListedHolder) :
    onlineHolders (holders ++ holders') = onlineHolders holders ++ onlineHolders holders' :=
  List.filter_append ..

theorem length_addressedHolders_le (holders : List ListedHolder) :
    (addressedHolders holders).length ≤ (onlineHolders holders).length := by
  have hsub : addressedHolders holders =
      (onlineHolders holders).filter fun h => h.connectionAddress.isSome := by
    rw [addressedHolders, onlineHolders, List.filter_filter]
    exact List.filter_congr fun h _ => Bool.and_comm _ _
  rw [hsub]
  exact List.length_filter_le ..

/-- What a holder with an address gives is not missed by the restore. -/
theorem fetch_of_addressed {data : Bytes} (hholders : (r.answers.replicas chunkId).items = .ok holders)
    (hdata : firstData (r.holderFetch chunkId) (addressedHolders holders) = .ok (some data)) :
    ∃ data, r.fetchFromAnyHolder chunkId = .ok (some data) := by
  rw [addressedHolders_eq] at hdata
  have hfound := firstData_of_filter (fun h _ hunaddressed e hraises => by
    rw [addressed_of_raises hraises] at hunaddressed
    cases hunaddressed) hdata
  rw [fetchFromAnyHolder, hholders]
  exact hfound

/-- Where nobody with an address gives the chunk, the restore finds it just with another online holder. -/
theorem fetch_iff_of_unaddressed (hholders : (r.answers.replicas chunkId).items = .ok holders)
    (hnone : firstData (r.holderFetch chunkId) (addressedHolders holders) = .ok none) :
    (∀ data, r.fetchFromAnyHolder chunkId ≠ .ok (some data)) ↔
      ∀ h ∈ onlineHolders holders, r.holderFetch chunkId h = .ok none := by
  have hasked : (∀ h ∈ onlineHolders holders, r.holderFetch chunkId h = .ok none) ↔
      ∀ h ∈ askedHolders holders, r.holderFetch chunkId h = .ok none := by
    constructor
    · exact fun hall h hh => hall h (mem_askedHolders_iff.mp hh).1
    · intro hall h hh
      by_contra hfetch
      exact hfetch (hall h (mem_askedHolders_iff.mpr ⟨hh, asked_of_fetch hfetch⟩))
  have hcall : r.fetchFromAnyHolder chunkId =
      firstData (r.holderFetch chunkId) (askedHolders holders) := by
    rw [fetchFromAnyHolder, hholders]
    rfl
  rw [hasked, ← firstData_eq_none_iff, hcall]
  constructor
  · intro hno
    rcases hfound : firstData (r.holderFetch chunkId) (askedHolders holders) with e | _ | data
    · -- who raises has an address, and all those have answered without data
      obtain ⟨pre, h, post, hsplit, -, hraises⟩ := (firstData_eq_iff (by simp)).mp hfound
      have hmem : h ∈ addressedHolders holders := by
        rw [addressedHolders_eq, List.mem_filter, hsplit]
        exact ⟨by simp, addressed_of_raises hraises⟩
      rw [firstData_eq_none_iff.mp hnone h hmem] at hraises
      cases hraises
    · rfl
    · exact absurd hfound (hno data)
  · intro hno data hdata
    rw [hno] at hdata
    cases hdata

/-! ### The report -/

theorem ensureChunks_eq_ok_iff {chunkIds : List Text} (hchunks : r.answers.chunks.items = .ok chunkIds) :
    r.ensureChunks = .ok healed ↔ chunkIds ≠ [] ∧ chunkIds.map r.healChunk = healed.map .ok := by
  rw [ensureChunks, hchunks]
  by_cases hempty : chunkIds = []
  · simp [bind, Except.bind, hempty]
  · simp [bind, Except.bind, hempty, mapM_eq_ok_iff]

/-- The repair fails where there is nothing to repair, or where an exception ends it. -/
theorem ensureChunks_eq_error_iff : (∃ e, r.ensureChunks = .error e) ↔
    (∃ e, r.answers.chunks.items = .error e) ∨ ∃ chunkIds, r.answers.chunks.items = .ok chunkIds ∧
      (chunkIds = [] ∨ ∃ c ∈ chunkIds, r.RepairRaises c) := by
  rw [ensureChunks]
  cases hchunks : r.answers.chunks.items with
  | error e => simp [bind, Except.bind]
  | ok chunkIds =>
      by_cases hempty : chunkIds = []
      · simp [bind, Except.bind, hempty]
      · simp [bind, Except.bind, hempty, mapM_eq_error_iff, healChunk_eq_error_iff]

theorem mem_healed_iff {chunkIds : List Text} {x : HealedChunk}
    (hmap : chunkIds.map r.healChunk = healed.map .ok) :
    x ∈ healed ↔ ∃ c ∈ chunkIds, r.healChunk c = .ok x := by
  have hmem : x ∈ healed ↔ Except.ok x ∈ chunkIds.map r.healChunk := by
    rw [hmap, List.mem_map]
    exact ⟨fun h => ⟨x, h, rfl⟩, fun ⟨y, hy, heq⟩ => Except.ok.inj heq ▸ hy⟩
  rw [hmem, List.mem_map]

theorem exists_healed {chunkIds : List Text} (hmap : chunkIds.map r.healChunk = healed.map .ok)
    {c : Text} (hc : c ∈ chunkIds) : ∃ x ∈ healed, r.healChunk c = .ok x := by
  obtain ⟨x, hx, heq⟩ := List.mem_map.mp (hmap ▸ List.mem_map_of_mem (f := r.healChunk) hc)
  exact ⟨x, hx, heq.symm⟩

theorem mem_unrecoverable_iff {c : Text} : c ∈ (r.report healed).unrecoverable ↔
    ∃ x ∈ healed, x.outcome.healthy = false ∧ x.outcome.chunkId = c := by
  simp [report, ReplicationManager.healReport, and_assoc]

theorem status_eq_replicated_iff : (r.report healed).status = .replicated ↔
    ∀ x ∈ healed, x.outcome.healthy = true := by
  simp [report, ReplicationManager.healReport]

theorem repaired_eq_zero_iff : (r.report healed).repaired = 0 ↔ ∀ x ∈ healed, x.outcome.added = 0 := by
  simp [report, ReplicationManager.healReport, List.countP_eq_zero]

end ReplicaCall

/-! ### A registry that can be read -/

/-- The registry, and what the server does with it: it proposes devices that are online, none of them
twice and none to be left out, and lists a device it has recorded once. -/
structure ReplicaServer where
  chunkIds : List Text
  holders : Text → List ListedHolder
  device : DeviceId → ListedHolder
  placement : Text → Nat → List DeviceId → List ListedHolder
  recordReplica : Text → DeviceId → Nat
  device_deviceId : ∀ d, (device d).deviceId = some d
  placement_nodup : ∀ c size exclude,
    ((placement c size exclude).filterMap ListedHolder.deviceId).Nodup
  placement_excludes : ∀ c size exclude, ∀ d ∈ (placement c size exclude).filterMap ListedHolder.deviceId,
    d ∉ exclude
  placement_online : ∀ c size exclude, ∀ d ∈ (placement c size exclude).filterMap ListedHolder.deviceId,
    (device d).isOnline = true

namespace ReplicaServer

def answers (s : ReplicaServer) : ServerAnswers where
  chunks := .answered 200 s.chunkIds
  replicas c := .answered 200 (s.holders c)
  placement c size exclude := .answered 200 (s.placement c size exclude)
  recordReplica c device := some (s.recordReplica c device)

/-- A call of the manager while the registry is as it is. -/
def call (s : ReplicaServer) (m : ReplicationManager) (selfDevice : Option DeviceId)
    (t : HolderTransports) : ReplicaCall :=
  ⟨m, selfDevice, s.answers, t⟩

/-- The holders once a device is recorded. -/
def listDevice (s : ReplicaServer) (holders : List ListedHolder) (device : DeviceId) :
    List ListedHolder :=
  if device ∈ holders.filterMap ListedHolder.deviceId then holders else holders ++ [s.device device]

/-- The registry after a repair; every chunk was healed once. -/
def afterRepair (s : ReplicaServer) (healed : List HealedChunk) : ReplicaServer :=
  { s with
    holders := fun c =>
      match healed.find? fun x => x.outcome.chunkId = c with
      | none => s.holders c
      | some x => x.recorded.foldl s.listDevice (s.holders c) }

/-- The three readers agree on a registry: what the repair gives up cannot be fetched, what the health
check passes needs no copy, and what the repair reports as replicated passes the health check. -/
structure Agreement (s : ReplicaServer) (m : ReplicationManager) (selfDevice : Option DeviceId)
    (t : HolderTransports) : Prop where
  unrecoverable : ∀ healed, (s.call m selfDevice t).ensureChunks = .ok healed →
    ∀ c ∈ ((s.call m selfDevice t).report healed).unrecoverable, ∀ data,
      (s.call m selfDevice t).fetchFromAnyHolder c ≠ .ok (some data)
  healthy : ∀ summary, (s.call m selfDevice t).health = .ok summary → summary.degraded = false →
    ∃ healed, (s.call m selfDevice t).ensureChunks = .ok healed ∧
      ((s.call m selfDevice t).report healed).status = .replicated ∧
      ((s.call m selfDevice t).report healed).repaired = 0
  replicated : ∀ healed, (s.call m selfDevice t).ensureChunks = .ok healed →
    ((s.call m selfDevice t).report healed).status = .replicated →
      ∃ summary, ((s.afterRepair healed).call m selfDevice t).health = .ok summary ∧
        summary.degraded = false

section Agreement

variable {s : ReplicaServer} {m : ReplicationManager} {selfDevice : Option DeviceId}
  {t : HolderTransports} {c : Text} {x : HealedChunk} {healed : List HealedChunk}

/-- A chunk has its holders, or nobody online gives it, or enough candidates take what the first holder
with an address gives. -/
def Settled (s : ReplicaServer) (m : ReplicationManager) (selfDevice : Option DeviceId)
    (t : HolderTransports) (c : Text) : Prop :=
  m.minReplicas ≤ (addressedHolders (s.holders c)).length ∨
    (∀ h ∈ onlineHolders (s.holders c), (s.call m selfDevice t).holderFetch c h = .ok none) ∨
    ∃ data, FirstAnswer ((s.call m selfDevice t).holderFetch c) (addressedHolders (s.holders c))
        (.ok (some data)) ∧
      m.minReplicas ≤ (addressedHolders (s.holders c)).length +
        (takers ((s.call m selfDevice t).storeReplica c data) (s.placement c data.length
          ((s.call m selfDevice t).excluded (s.holders c)))).length

theorem chunks_items : (s.call m selfDevice t).answers.chunks.items = .ok s.chunkIds := rfl

theorem replicas_items : ((s.call m selfDevice t).answers.replicas c).items = .ok (s.holders c) := rfl

theorem exists_healthSummary (s : ReplicaServer) (m : ReplicationManager) (selfDevice : Option DeviceId)
    (t : HolderTransports) : ∃ summary, (s.call m selfDevice t).health = .ok summary := by
  cases hhealth : (s.call m selfDevice t).health with
  | ok summary => exact ⟨summary, rfl⟩
  | error e =>
      rcases ReplicaCall.health_eq_error_iff.mp ⟨e, hhealth⟩ with ⟨e, h⟩ | ⟨ids, -, c, -, e, h⟩
      · cases h
      · cases h

theorem degraded_iff {summary : HealthSummary} (h : (s.call m selfDevice t).health = .ok summary) :
    summary.degraded = true ↔
      ∃ c ∈ s.chunkIds, (onlineHolders (s.holders c)).length < m.minReplicas := by
  rw [(ReplicaCall.health_eq_ok chunks_items h).2]
  refine exists_congr fun c => and_congr_right fun _ => ?_
  rw [ReplicaCall.onlineCount_eq_ok replicas_items]
  exact ⟨fun ⟨n, hn, hlt⟩ => Except.ok.inj hn ▸ hlt, fun hlt => ⟨_, rfl, hlt⟩⟩

/-- A healed chunk is given up only where it cannot be fetched, just where it is settled. -/
theorem givenUp_iff (h : (s.call m selfDevice t).healChunk c = .ok x) :
    (x.outcome.healthy = false → ∀ data,
        (s.call m selfDevice t).fetchFromAnyHolder c ≠ .ok (some data)) ↔
      s.Settled m selfDevice t c := by
  rw [ReplicaCall.unhealthy_iff replicas_items h]
  unfold Settled
  by_cases hshort : (addressedHolders (s.holders c)).length < m.minReplicas
  · rw [or_iff_right (not_le.mpr hshort)]
    rcases hfirst : firstData ((s.call m selfDevice t).holderFetch c)
        (addressedHolders (s.holders c)) with e | _ | data
    · have hraises : (s.call m selfDevice t).RepairRaises c :=
        Or.inr ⟨_, replicas_items, hshort, Or.inl ⟨e, (firstData_eq_iff (by simp)).mp hfirst⟩⟩
      obtain ⟨e, he⟩ := ReplicaCall.healChunk_eq_error_iff.mpr hraises
      rw [h] at he
      cases he
    · rw [← ReplicaCall.fetch_iff_of_unaddressed replicas_items hfirst]
      constructor
      · exact fun hno => Or.inl (hno ⟨hshort, Or.inl rfl⟩)
      · rintro (hno | ⟨data, hdata, -⟩)
        · exact fun _ => hno
        · rw [← firstData_eq_iff (by simp), hfirst] at hdata
          cases hdata
    · obtain ⟨found, hfound⟩ := ReplicaCall.fetch_of_addressed replicas_items hfirst
      constructor
      · intro hno
        refine Or.inr ⟨data, (firstData_eq_iff (by simp)).mp hfirst, ?_⟩
        by_contra hfew
        exact hno ⟨hshort, Or.inr ⟨data, _, rfl, rfl, not_le.mp hfew⟩⟩ found hfound
      · rintro hsettled ⟨-, hnone | ⟨data', candidates, hdata', hcands, hfew⟩⟩
        · cases hnone
        · cases hdata'
          cases hcands
          rcases hsettled with hnobody | ⟨data', hdata', henough⟩
          · -- the first holder with an address is online and gives the chunk
            obtain ⟨pre, h, post, hsplit, -, hgives⟩ := (firstData_eq_iff (by simp)).mp hfirst
            have hmem : h ∈ addressedHolders (s.holders c) := hsplit ▸ by simp
            rw [ReplicaCall.addressedHolders_eq, List.mem_filter] at hmem
            rw [hnobody h (ReplicaCall.mem_askedHolders_iff.mp hmem.1).1] at hgives
            cases hgives
          · rw [← firstData_eq_iff (by simp), hfirst] at hdata'
            cases hdata'
            exact absurd henough (not_le.mpr hfew)
  · exact iff_of_true (fun h => absurd h.1 hshort) (Or.inl (not_lt.mp hshort))

/-- The server lists the devices that are new to it behind those it had. -/
theorem foldl_listDevice {devices : List DeviceId} {holders : List ListedHolder} (hnodup : devices.Nodup)
    (hnew : ∀ d ∈ devices, d ∉ holders.filterMap ListedHolder.deviceId) :
    devices.foldl s.listDevice holders = holders ++ devices.map s.device := by
  induction devices generalizing holders with
  | nil => rw [List.foldl_nil, List.map_nil, List.append_nil]
  | cons d devices ih =>
      obtain ⟨hd, hnodup⟩ := List.nodup_cons.mp hnodup
      obtain ⟨hdnew, hnew⟩ := List.forall_mem_cons.mp hnew
      have hlist : s.listDevice holders d = holders ++ [s.device d] := if_neg hdnew
      rw [List.foldl_cons, hlist, ih hnodup, List.append_assoc, List.map_cons, List.singleton_append]
      intro d' hd'
      rw [List.filterMap_append, List.mem_append, not_or]
      refine ⟨hnew d' hd', fun hmem => ?_⟩
      have heq : d' = d := by simpa [s.device_deviceId] using hmem
      exact hd (heq ▸ hd')

/-- A healthy chunk passes the health check afterwards. -/
theorem online_afterRepair (hmap : s.chunkIds.map (s.call m selfDevice t).healChunk = healed.map .ok)
    (hc : c ∈ s.chunkIds) (hhealthy : ∀ x ∈ healed, x.outcome.healthy = true) :
    m.minReplicas ≤ (onlineHolders ((s.afterRepair healed).holders c)).length := by
  obtain ⟨y, hy, hheal⟩ := ReplicaCall.exists_healed hmap hc
  have hfound : ∃ x, (healed.find? fun x => x.outcome.chunkId = c) = some x := by
    rw [← Option.isSome_iff_exists, List.find?_isSome]
    exact ⟨y, hy, decide_eq_true (ReplicaCall.chunkId_of_healChunk replicas_items hheal)⟩
  obtain ⟨x, hfind⟩ := hfound
  have hx : x ∈ healed := List.mem_of_find?_eq_some hfind
  have hxc : x.outcome.chunkId = c := by simpa using List.find?_some hfind
  obtain ⟨c', -, hheal'⟩ := (ReplicaCall.mem_healed_iff hmap).mp hx
  obtain rfl : c' = c := (ReplicaCall.chunkId_of_healChunk replicas_items hheal').symm.trans hxc
  have hlisted : (s.afterRepair healed).holders c' = s.holders c' ++ x.recorded.map s.device ∧
      ∀ d ∈ x.recorded, (s.device d).isOnline = true := by
    have hafter : (s.afterRepair healed).holders c' = x.recorded.foldl s.listDevice (s.holders c') := by
      unfold afterRepair
      dsimp only
      rw [hfind]
    rw [hafter]
    rcases ReplicaCall.recorded_sublist replicas_items hheal' with hnone | ⟨size, candidates, hcands, hsub⟩
    · simp [hnone]
    · cases hcands
      refine ⟨foldl_listDevice ((s.placement_nodup _ _ _).sublist hsub) fun d hd hmem => ?_,
        fun d hd => s.placement_online _ _ _ d (hsub.subset hd)⟩
      exact s.placement_excludes _ _ _ d (hsub.subset hd) (ReplicaCall.mem_excluded hmem)
  have hrecorded : onlineHolders (x.recorded.map s.device) = x.recorded.map s.device :=
    List.filter_eq_self.mpr (List.forall_mem_map.mpr hlisted.2)
  have henough := ReplicaCall.enough_of_healed replicas_items hheal' (hhealthy x hx)
  have hle := ReplicaCall.length_addressedHolders_le (s.holders c')
  calc m.minReplicas
      ≤ (addressedHolders (s.holders c')).length + x.recorded.length := henough
    _ ≤ (onlineHolders (s.holders c')).length + x.recorded.length := Nat.add_le_add_right hle _
    _ = (onlineHolders ((s.afterRepair healed).holders c')).length := by
        rw [hlisted.1, ReplicaCall.onlineHolders_append, List.length_append, hrecorded, List.length_map]

theorem unrecoverable_iff :
    (∀ healed, (s.call m selfDevice t).ensureChunks = .ok healed →
      ∀ c ∈ ((s.call m selfDevice t).report healed).unrecoverable, ∀ data,
        (s.call m selfDevice t).fetchFromAnyHolder c ≠ .ok (some data)) ↔
      (∃ c ∈ s.chunkIds, (s.call m selfDevice t).RepairRaises c) ∨
        ∀ c ∈ s.chunkIds, s.Settled m selfDevice t c := by
  constructor
  · intro hagree
    by_contra hnot
    rw [not_or] at hnot
    refine hnot.2 fun c hc => ?_
    cases hensure : (s.call m selfDevice t).ensureChunks with
    | error e =>
        rcases ReplicaCall.ensureChunks_eq_error_iff.mp ⟨e, hensure⟩ with ⟨e, h⟩ |
          ⟨ids, hids, hempty | hraises⟩
        · cases h
        · obtain rfl : s.chunkIds = ids := Except.ok.inj hids
          rw [hempty] at hc
          exact (List.not_mem_nil hc).elim
        · obtain rfl : s.chunkIds = ids := Except.ok.inj hids
          exact absurd hraises hnot.1
    | ok healed =>
        obtain ⟨-, hmap⟩ := (ReplicaCall.ensureChunks_eq_ok_iff chunks_items).mp hensure
        obtain ⟨x, hx, hheal⟩ := ReplicaCall.exists_healed hmap hc
        refine (givenUp_iff hheal).mp fun hunhealthy => ?_
        exact hagree healed hensure c (ReplicaCall.mem_unrecoverable_iff.mpr
          ⟨x, hx, hunhealthy, ReplicaCall.chunkId_of_healChunk replicas_items hheal⟩)
  · intro hcond healed hensure c hgiven
    obtain ⟨-, hmap⟩ := (ReplicaCall.ensureChunks_eq_ok_iff chunks_items).mp hensure
    obtain ⟨x, hx, hunhealthy, hxc⟩ := ReplicaCall.mem_unrecoverable_iff.mp hgiven
    obtain ⟨c', hc', hheal⟩ := (ReplicaCall.mem_healed_iff hmap).mp hx
    obtain rfl : c' = c := (ReplicaCall.chunkId_of_healChunk replicas_items hheal).symm.trans hxc
    rcases hcond with ⟨c, hc, hraises⟩ | hsettled
    · obtain ⟨y, -, hy⟩ := ReplicaCall.exists_healed hmap hc
      obtain ⟨e, he⟩ := ReplicaCall.healChunk_eq_error_iff.mpr hraises
      rw [hy] at he
      cases he
    · exact (givenUp_iff hheal).mpr (hsettled c' hc') hunhealthy

theorem healthy_iff :
    (∀ summary, (s.call m selfDevice t).health = .ok summary → summary.degraded = false →
      ∃ healed, (s.call m selfDevice t).ensureChunks = .ok healed ∧
        ((s.call m selfDevice t).report healed).status = .replicated ∧
        ((s.call m selfDevice t).report healed).repaired = 0) ↔
      (∃ c ∈ s.chunkIds, (onlineHolders (s.holders c)).length < m.minReplicas) ∨
        s.chunkIds ≠ [] ∧ ∀ c ∈ s.chunkIds, m.minReplicas ≤ (addressedHolders (s.holders c)).length := by
  obtain ⟨summary, hsummary⟩ := exists_healthSummary s m selfDevice t
  constructor
  · intro hagree
    by_cases hshort : ∃ c ∈ s.chunkIds, (onlineHolders (s.holders c)).length < m.minReplicas
    · exact Or.inl hshort
    · have hhealthy : summary.degraded = false :=
        Bool.not_eq_true _ |>.mp ((degraded_iff hsummary).not.mpr hshort)
      obtain ⟨healed, hensure, hstatus, hrepaired⟩ := hagree summary hsummary hhealthy
      obtain ⟨hne, hmap⟩ := (ReplicaCall.ensureChunks_eq_ok_iff chunks_items).mp hensure
      refine Or.inr ⟨hne, fun c hc => ?_⟩
      obtain ⟨x, hx, hheal⟩ := ReplicaCall.exists_healed hmap hc
      exact ReplicaCall.covered_of_healed replicas_items hheal
        (ReplicaCall.status_eq_replicated_iff.mp hstatus x hx)
        (ReplicaCall.repaired_eq_zero_iff.mp hrepaired x hx)
  · rintro (hshort | ⟨hne, hcovered⟩) summary' hsummary' hhealthy
    · rw [(degraded_iff hsummary').mpr hshort] at hhealthy
      cases hhealthy
    · refine ⟨s.chunkIds.map fun c => ⟨⟨c, 0, true⟩, []⟩, ?_, ?_, ?_⟩
      · rw [ReplicaCall.ensureChunks_eq_ok_iff chunks_items, List.map_map]
        exact ⟨hne, List.map_congr_left fun c hc =>
          ReplicaCall.healChunk_of_covered replicas_items (hcovered c hc)⟩
      · exact ReplicaCall.status_eq_replicated_iff.mpr (List.forall_mem_map.mpr fun _ _ => rfl)
      · exact ReplicaCall.repaired_eq_zero_iff.mpr (List.forall_mem_map.mpr fun _ _ => rfl)

/-- What is reported as replicated passes the health check. -/
theorem health_of_replicated (hensure : (s.call m selfDevice t).ensureChunks = .ok healed)
    (hstatus : ((s.call m selfDevice t).report healed).status = .replicated) :
    ∃ summary, ((s.afterRepair healed).call m selfDevice t).health = .ok summary ∧
      summary.degraded = false := by
  obtain ⟨-, hmap⟩ := (ReplicaCall.ensureChunks_eq_ok_iff chunks_items).mp hensure
  obtain ⟨summary, hsummary⟩ := exists_healthSummary (s.afterRepair healed) m selfDevice t
  refine ⟨summary, hsummary, Bool.not_eq_true _ |>.mp ?_⟩
  rw [degraded_iff hsummary]
  rintro ⟨c, hc, hshort⟩
  have henough := online_afterRepair hmap hc (ReplicaCall.status_eq_replicated_iff.mp hstatus)
  omega

/-- **Health check, repair and restore agree** on a registry just where two things hold. Unless an
exception ends the repair, every chunk is settled; and some chunk has too few online holders, or there
are chunks and each has enough of them with an address. -/
theorem replicaAgreement_iff : s.Agreement m selfDevice t ↔
    ((∃ c ∈ s.chunkIds, (s.call m selfDevice t).RepairRaises c) ∨
        ∀ c ∈ s.chunkIds, s.Settled m selfDevice t c) ∧
      ((∃ c ∈ s.chunkIds, (onlineHolders (s.holders c)).length < m.minReplicas) ∨
        s.chunkIds ≠ [] ∧
          ∀ c ∈ s.chunkIds, m.minReplicas ≤ (addressedHolders (s.holders c)).length) := by
  rw [← unrecoverable_iff, ← healthy_iff]
  exact ⟨fun h => ⟨h.unrecoverable, h.healthy⟩,
    fun h => ⟨h.1, h.2, fun _ hensure hstatus => health_of_replicated hensure hstatus⟩⟩

end Agreement

/-- A registry with one chunk on one device, which is online without an address. -/
def unaddressed : ReplicaServer where
  chunkIds := ["chunk".toList]
  holders _ := [⟨some "phone", none, true⟩]
  device d := ⟨some d, none, true⟩
  placement _ _ _ := []
  recordReplica _ _ := 200
  device_deviceId _ := rfl
  placement_nodup _ _ _ := List.nodup_nil
  placement_excludes _ _ _ _ h := (List.not_mem_nil h).elim
  placement_online _ _ _ _ _ := rfl

/-- Nothing answers at an address, and the relay reaches every device. -/
def onlyRelay : HolderTransports where
  directFetch _ _ := .unreachable
  relayFetch _ _ := some [1]
  directStore _ _ _ := .unreachable
  relayStore _ _ _ := true

/-- A manager that wants one replica of a chunk. -/
def oneReplica : ReplicationManager where
  sha256 := ⟨id, Function.injective_id⟩
  userId := "user".toList
  chunkSize := 4

/-- The repair gives up a chunk that the restore fetches through the relay, and that the health check
counts as held. -/
theorem relayed_chunk_is_given_up :
    ((unaddressed.call oneReplica none onlyRelay).health = .ok ⟨false, 1, 1⟩ ∧
      (unaddressed.call oneReplica none onlyRelay).fetchFromAnyHolder "chunk".toList = .ok (some [1]) ∧
      (unaddressed.call oneReplica none onlyRelay).ensureChunks.map
          ((unaddressed.call oneReplica none onlyRelay).report ·) =
        .ok ⟨.pending, 1, 1, 0, ["chunk".toList]⟩) ∧
      ¬ unaddressed.Agreement oneReplica none onlyRelay := by
  have hfetch : (unaddressed.call oneReplica none onlyRelay).fetchFromAnyHolder "chunk".toList =
      .ok (some [1]) := by decide
  have hensure : (unaddressed.call oneReplica none onlyRelay).ensureChunks =
      .ok [⟨⟨"chunk".toList, 0, false⟩, []⟩] := by decide
  refine ⟨⟨by decide, hfetch, by rw [hensure]; rfl⟩, fun hagree => ?_⟩
  exact hagree.unrecoverable _ hensure "chunk".toList (by decide) [1] hfetch

end ReplicaServer

end StardustFS
