import StardustFS.HealGrace
import StardustFS.ReplicaHealth

/-! What a refused question to the server does to the times of grace. The health check reads a refused
list of chunks as a file without chunks, which is not short of replicas, and a refused list of holders as
a chunk without holders; the heal cycle forgets the time of a path that is not short, or that was
repaired. The statement is about all turns of all heal cycles, each with the answers of its two calls. -/

namespace StardustFS

/-- The question was not answered with 200. -/
def QueryAnswer.Failed {α : Type} : QueryAnswer α → Prop
  | answered statusCode _ => statusCode ≠ 200
  | raised => True

namespace ReplicaCall

variable {r : ReplicaCall} {chunkIds : List Text} {c : Text} {holders : List ListedHolder}

/-- A question of the health check was not answered. -/
def HealthFailed (r : ReplicaCall) : Prop :=
  r.answers.chunks.Failed ∨ ∃ chunkIds, r.answers.chunks.items = .ok chunkIds ∧
    ∃ c ∈ chunkIds, (r.answers.replicas c).Failed

/-- A holder took the chunk, and the server did not record it. -/
def RecordFailed (r : ReplicaCall) (chunkId : Text) (data : Bytes) (need : Nat)
    (candidates : List ListedHolder) : Prop :=
  ∃ pre x post device, candidates = pre ++ x :: post ∧
    (∀ y ∈ pre, ∀ e, r.storeReplica chunkId data y ≠ .error e) ∧
    (takers (r.storeReplica chunkId data) pre).length < need ∧ x.deviceId = some device ∧
    r.holderStore chunkId data x = .ok true ∧ r.answers.recordReplica chunkId device ≠ some 200

/-- A request of the repair to the server failed. -/
def RepairFailed (r : ReplicaCall) : Prop :=
  r.answers.chunks.Failed ∨ ∃ chunkIds, r.answers.chunks.items = .ok chunkIds ∧ ∃ c ∈ chunkIds,
    (r.answers.replicas c).Failed ∨ ∃ holders, (r.answers.replicas c).items = .ok holders ∧
      (addressedHolders holders).length < r.manager.minReplicas ∧
      ∃ data, FirstAnswer (r.holderFetch c) (addressedHolders holders) (.ok (some data)) ∧
        ((r.answers.placement c data.length (r.excluded holders)).Failed ∨
          ∃ candidates, (r.answers.placement c data.length (r.excluded holders)).items = .ok candidates ∧
            r.RecordFailed c data (r.manager.minReplicas - (addressedHolders holders).length) candidates)

/-- An exception ends the health check. -/
def HealthRaises (r : ReplicaCall) : Prop :=
  (∃ e, r.answers.chunks.items = .error e) ∨ ∃ chunkIds, r.answers.chunks.items = .ok chunkIds ∧
    ∃ c ∈ chunkIds, ∃ e, (r.answers.replicas c).items = .error e

/-- The health check gets through, and some chunk is read as short of online holders. -/
def HealthShort (r : ReplicaCall) : Prop :=
  ¬ r.HealthRaises ∧ ∃ chunkIds, r.answers.chunks.items = .ok chunkIds ∧ ∃ c ∈ chunkIds, ∃ holders,
    (r.answers.replicas c).items = .ok holders ∧ (onlineHolders holders).length < r.manager.minReplicas

/-- The repair ends without a report: for an exception, or because no chunk is read. -/
def RepairEnds (r : ReplicaCall) : Prop :=
  (∃ e, r.answers.chunks.items = .error e) ∨ ∃ chunkIds, r.answers.chunks.items = .ok chunkIds ∧
    (chunkIds = [] ∨ ∃ c ∈ chunkIds, r.RepairRaises c)

/-- The registry was read, and every chunk in it has enough online holders. -/
def ReadHealthy (r : ReplicaCall) : Prop :=
  ∃ chunkIds, r.answers.chunks = .answered 200 chunkIds ∧ ∀ c ∈ chunkIds, ∃ holders,
    r.answers.replicas c = .answered 200 holders ∧
      r.manager.minReplicas ≤ (onlineHolders holders).length

/-- A file is found healthy only where it was read to be. -/
def HonestHealth (r : ReplicaCall) : Prop :=
  ∀ summary, r.health = .ok summary → summary.degraded = false → r.ReadHealthy

/-- No question of the health check is refused that an empty answer would pass: not the one for the
chunks, nor, where no replica is wanted, one for holders. -/
def RefusalsCount (r : ReplicaCall) : Prop :=
  r.HealthRaises ∨ ¬ r.answers.chunks.Failed ∧
    (0 < r.manager.minReplicas ∨ ∀ chunkIds, r.answers.chunks.items = .ok chunkIds →
      ∀ c ∈ chunkIds, ¬ (r.answers.replicas c).Failed)

theorem not_failed_iff {α : Type} {a : QueryAnswer α} : ¬ a.Failed ↔ ∃ items, a = .answered 200 items := by
  cases a with
  | answered statusCode items =>
      rw [QueryAnswer.Failed, not_ne_iff]
      constructor
      · exact fun h => ⟨items, by rw [h]⟩
      · rintro ⟨items', h⟩
        cases h
        rfl
  | raised => simp [QueryAnswer.Failed]

/-- A refused question is read as an empty answer. -/
theorem items_of_failed {α : Type} {a : QueryAnswer α} {items : List α} (hfailed : a.Failed)
    (hitems : a.items = .ok items) : items = [] := by
  cases a with
  | answered statusCode _ =>
      rw [QueryAnswer.items, if_neg hfailed] at hitems
      exact (Except.ok.inj hitems).symm
  | raised => cases hitems

theorem health_cases (r : ReplicaCall) :
    r.HealthRaises ∧ (∃ e, r.health = .error e) ∨
      r.HealthShort ∧ (∃ summary, r.health = .ok summary ∧ summary.degraded = true) ∨
      ¬ r.HealthRaises ∧ ¬ r.HealthShort ∧ ∃ summary, r.health = .ok summary ∧ summary.degraded = false := by
  by_cases hraises : r.HealthRaises
  · exact Or.inl ⟨hraises, health_eq_error_iff.mpr hraises⟩
  · obtain ⟨summary, hsummary⟩ : ∃ summary, r.health = .ok summary := by
      cases hhealth : r.health with
      | ok summary => exact ⟨summary, rfl⟩
      | error e => exact absurd (health_eq_error_iff.mp ⟨e, hhealth⟩) hraises
    have hshort : r.HealthShort ↔ summary.degraded = true := by
      cases hchunks : r.answers.chunks.items with
      | error e => exact absurd (Or.inl ⟨e, hchunks⟩) hraises
      | ok chunkIds =>
          rw [(health_eq_ok hchunks hsummary).2, HealthShort, and_iff_right hraises, hchunks]
          simp only [Except.ok.injEq, exists_eq_left']
          refine exists_congr fun c => and_congr_right fun hc => ?_
          cases hholders : (r.answers.replicas c).items with
          | error e => exact absurd (Or.inr ⟨chunkIds, hchunks, c, hc, e, hholders⟩) hraises
          | ok holders => simp [onlineCount_eq_ok hholders]
    cases hdegraded : summary.degraded with
    | true => exact Or.inr (Or.inl ⟨hshort.mpr hdegraded, summary, hsummary, hdegraded⟩)
    | false =>
        refine Or.inr (Or.inr ⟨hraises, fun h => ?_, summary, hsummary, hdegraded⟩)
        rw [hshort.mp h] at hdegraded
        cases hdegraded

/-- A file that is not found short has enough online holders of every chunk that is read. -/
theorem enough_of_not_short (hraises : ¬ r.HealthRaises) (hshort : ¬ r.HealthShort)
    (hchunks : r.answers.chunks.items = .ok chunkIds) (hc : c ∈ chunkIds) :
    ∃ holders, (r.answers.replicas c).items = .ok holders ∧
      r.manager.minReplicas ≤ (onlineHolders holders).length := by
  cases hholders : (r.answers.replicas c).items with
  | error e => exact absurd (Or.inr ⟨chunkIds, hchunks, c, hc, e, hholders⟩) hraises
  | ok holders =>
      refine ⟨holders, rfl, not_lt.mp fun hlt => hshort ⟨hraises, chunkIds, hchunks, c, hc, holders, ?_⟩⟩
      exact ⟨hholders, hlt⟩

theorem honestHealth_iff : r.HonestHealth ↔ r.RefusalsCount := by
  rcases r.health_cases with ⟨hraises, e, herror⟩ | ⟨hshort, summary, hsummary, hdegraded⟩ |
    ⟨hraises, hshort, summary, hsummary, hhealthy⟩
  · refine iff_of_true (fun summary hsummary => ?_) (Or.inl hraises)
    rw [herror] at hsummary
    cases hsummary
  · refine iff_of_true (fun summary' hsummary' hhealthy => ?_) (Or.inr ?_)
    · rw [hsummary] at hsummary'
      cases hsummary'
      rw [hdegraded] at hhealthy
      cases hhealthy
    · -- a chunk was read, and with it the list of chunks; fewer holders than are wanted exist
      obtain ⟨-, chunkIds, hchunks, c, hc, holders, -, hlt⟩ := hshort
      refine ⟨fun hfailed => ?_, Or.inl (Nat.zero_lt_of_lt hlt)⟩
      rw [items_of_failed hfailed hchunks] at hc
      exact List.not_mem_nil hc
  · rw [RefusalsCount, or_iff_right hraises]
    constructor
    · intro hhonest
      obtain ⟨chunkIds, hchunks, hread⟩ := hhonest summary hsummary hhealthy
      refine ⟨not_failed_iff.mpr ⟨chunkIds, hchunks⟩, Or.inr fun chunkIds' hchunks' c hc => ?_⟩
      rw [hchunks] at hchunks'
      cases hchunks'
      obtain ⟨holders, hholders, -⟩ := hread c hc
      exact not_failed_iff.mpr ⟨holders, hholders⟩
    · rintro ⟨hanswered, hcounts⟩ - - -
      obtain ⟨chunkIds, hchunks⟩ := not_failed_iff.mp hanswered
      have hitems : r.answers.chunks.items = .ok chunkIds := by rw [hchunks]; rfl
      refine ⟨chunkIds, hchunks, fun c hc => ?_⟩
      obtain ⟨holders, hholders, henough⟩ := enough_of_not_short hraises hshort hitems hc
      have hread : ¬ (r.answers.replicas c).Failed := by
        rcases hcounts with hpos | hall
        · intro hfailed
          rw [items_of_failed hfailed hholders] at henough
          exact absurd henough (Nat.not_le.mpr hpos)
        · exact hall chunkIds hitems c hc
      obtain ⟨holders', hanswer⟩ := not_failed_iff.mp hread
      rw [hanswer] at hholders
      cases hholders
      exact ⟨holders', hanswer, henough⟩

/-- What a heal cycle takes from a health check; `none` for an exception. -/
def degraded (r : ReplicaCall) : Option Bool :=
  match r.health with
  | .ok summary => some summary.degraded
  | .error _ => none

/-- Whether a repair returns. -/
def ensured (r : ReplicaCall) : Bool :=
  match r.ensureChunks with
  | .ok _ => true
  | .error _ => false

theorem degraded_of_error {e : ReplicationError} (h : r.health = .error e) : r.degraded = none := by
  rw [degraded, h]

theorem degraded_of_ok {summary : HealthSummary} (h : r.health = .ok summary) :
    r.degraded = some summary.degraded := by
  rw [degraded, h]

theorem ensured_eq_false_iff : r.ensured = false ↔ r.RepairEnds := by
  rw [RepairEnds, ← ensureChunks_eq_error_iff, ensured]
  cases r.ensureChunks <;> simp

end ReplicaCall

/-- The answers of a heal cycle: what the store lists, the clock reading, where the stop signal is found,
and for each path the two calls of the manager. -/
structure HealQueries where
  metadata : List ReplicationStatus → Option DeviceId → List Text
  now : Time
  stopped : Text → Bool := fun _ => false
  health : Text → ReplicaCall
  ensure : Text → ReplicaCall

def HealQueries.turn (q : HealQueries) : HealTurn where
  now := q.now
  stopped := q.stopped
  degraded p := (q.health p).degraded
  ensured p := (q.ensure p).ensured

def HealQueries.call (q : HealQueries) : HealCall := ⟨q.metadata, q.turn⟩

/-- The turn of a path, with the scheduler before it. -/
structure HealVisit where
  before : ReplicationScheduler
  queries : HealQueries
  path : Text

namespace HealVisit

def after (v : HealVisit) : ReplicationScheduler := (v.before.healPath v.queries.turn v.path).2

def health (v : HealVisit) : ReplicaCall := v.queries.health v.path

def ensure (v : HealVisit) : ReplicaCall := v.queries.ensure v.path

/-- The path has been short for less than the time of grace. -/
def Waiting (v : HealVisit) : Prop :=
  v.queries.now - (v.before.degradedSince.get v.path).getD v.queries.now < v.before.healGrace

instance (v : HealVisit) : Decidable v.Waiting :=
  inferInstanceAs (Decidable (_ < _))

/-- A request to the server failed in the turn; the repair is called where the path is short and does not
wait. -/
def RequestFailed (v : HealVisit) : Prop :=
  v.health.HealthFailed ∨ v.health.HealthShort ∧ ¬ v.Waiting ∧ v.ensure.RepairFailed

/-- A failed request does not clear the time of the path. -/
def KeepsTime (v : HealVisit) : Prop :=
  ∀ first, v.before.degradedSince.get v.path = some first → v.RequestFailed →
    v.after.degradedSince.get v.path = some first

/-- No time is kept, or no request fails, or the health check raises, or it finds the path short and the
repair waits or ends without a report. -/
def TimeIsSafe (v : HealVisit) : Prop :=
  v.before.degradedSince.get v.path = none ∨ ¬ v.RequestFailed ∨ v.health.HealthRaises ∨
    v.health.HealthShort ∧ (v.Waiting ∨ v.ensure.RepairEnds)

section Turn

variable {v : HealVisit} {first : Time}

/-- What the turn leaves of a kept time. -/
theorem after_of_raises (hdegraded : v.health.degraded = none) : v.after = v.before := by
  have hturn : v.queries.turn.degraded v.path = none := hdegraded
  rw [after, ReplicationScheduler.healPath, hturn]

theorem get_after_of_healthy (hdegraded : v.health.degraded = some false) :
    v.after.degradedSince.get v.path = none := by
  have hturn : v.queries.turn.degraded v.path = some false := hdegraded
  rw [after, ReplicationScheduler.healPath, hturn]
  dsimp only
  rw [Table.get_deleteWhere]
  cases v.before.degradedSince.get v.path <;> simp

theorem get_after_of_short (hdegraded : v.health.degraded = some true)
    (hfirst : v.before.degradedSince.get v.path = some first) :
    v.after.degradedSince.get v.path =
      if v.Waiting ∨ v.ensure.ensured = false then some first else none := by
  have hturn : v.queries.turn.degraded v.path = some true := hdegraded
  have hclock : v.queries.turn.now = v.queries.now := rfl
  have hreturns : v.queries.turn.ensured v.path = v.ensure.ensured := rfl
  have hwaiting : v.Waiting ↔ v.queries.now - first < v.before.healGrace := by
    unfold Waiting
    rw [hfirst, Option.getD_some]
  rw [after, ReplicationScheduler.healPath, hturn]
  simp only [hfirst, Option.getD_some, hclock, hreturns, hwaiting]
  by_cases hwait : v.queries.now - first < v.before.healGrace
  · simp [hwait]
  · cases hensured : v.ensure.ensured with
    | true => simp [hwait, Table.get_deleteWhere]
    | false => simp [hwait]

/-- A turn keeps the time of its path from failed requests just where it is safe. -/
theorem keepsTime_iff (v : HealVisit) : v.KeepsTime ↔ v.TimeIsSafe := by
  unfold KeepsTime TimeIsSafe
  cases hfirst : v.before.degradedSince.get v.path with
  | none => simp
  | some first =>
      simp only [Option.some_inj, forall_eq', reduceCtorEq, false_or]
      rcases v.health.health_cases with ⟨hraises, e, herror⟩ | ⟨hshort, summary, hsummary, hdegraded⟩ |
        ⟨hraises, hshort, summary, hsummary, hhealthy⟩
      · rw [after_of_raises (ReplicaCall.degraded_of_error herror)]
        exact iff_of_true (fun _ => hfirst) (Or.inr (Or.inl hraises))
      · have hturn : v.health.degraded = some true := by
          rw [ReplicaCall.degraded_of_ok hsummary, hdegraded]
        rw [get_after_of_short hturn hfirst, ← ReplicaCall.ensured_eq_false_iff]
        by_cases hkept : v.Waiting ∨ v.ensure.ensured = false
        · rw [if_pos hkept]
          exact iff_of_true (fun _ => rfl) (Or.inr (Or.inr ⟨hshort, hkept⟩))
        · rw [if_neg hkept, or_iff_left fun h => h.elim hshort.1 fun h => hkept h.2]
          exact imp_congr_right fun _ => ⟨nofun, False.elim⟩
      · have hturn : v.health.degraded = some false := by
          rw [ReplicaCall.degraded_of_ok hsummary, hhealthy]
        rw [get_after_of_healthy hturn, or_iff_left fun h => h.elim hraises fun h => hshort h.1]
        exact imp_congr_right fun _ => ⟨nofun, False.elim⟩

end Turn

end HealVisit

namespace ReplicationScheduler

/-- The turns of one cycle over the paths. -/
def cycleVisits (s : ReplicationScheduler) (q : HealQueries) : List Text → List HealVisit
  | [] => []
  | p :: paths =>
      if q.stopped p then [] else ⟨s, q, p⟩ :: (s.healPath q.turn p).2.cycleVisits q paths

/-- The turns of all cycles one after the other. -/
def visits (s : ReplicationScheduler) : List HealQueries → List HealVisit
  | [] => []
  | q :: queries =>
      (s.withListing q.call).cycleVisits q (sliceTo (s.withListing q.call).healPaths s.maxFiles) ++
        ((s.withListing q.call).runHealCycle q.turn).after.visits queries

theorem cycleVisits_events (s : ReplicationScheduler) (q : HealQueries) (paths : List Text) :
    (s.cycleVisits q paths).map (fun v => v.before.healEvent v.queries.turn v.path) =
      s.healEvents q.turn paths := by
  induction paths generalizing s with
  | nil => rfl
  | cons p paths ih =>
      have hstopped : q.turn.stopped p = q.stopped p := rfl
      rw [cycleVisits, healEvents, hstopped]
      cases q.stopped p with
      | true => rfl
      | false =>
          simp only [Bool.false_eq_true, if_false, List.map_cons, ih]

/-- The turns are those of the history of the calls. -/
theorem visits_events (s : ReplicationScheduler) (queries : List HealQueries) :
    (s.visits queries).map (fun v => v.before.healEvent v.queries.turn v.path) =
      (s.history (queries.map HealQueries.call)).1 := by
  induction queries generalizing s with
  | nil => rfl
  | cons q queries ih =>
      rw [visits, List.map_append, cycleVisits_events, ih, List.map_cons, history]
      rfl

/-- **A failed question never looks healthy**, in a health check and in all turns of all heal cycles,
just where no refusal passes a health check and the time of every turn is safe. -/
theorem failedQueries_iff (s : ReplicationScheduler) (r : ReplicaCall) (queries : List HealQueries) :
    (r.HonestHealth ∧ ∀ v ∈ s.visits queries, v.health.HonestHealth ∧ v.KeepsTime) ↔
      r.RefusalsCount ∧ ∀ v ∈ s.visits queries, v.health.RefusalsCount ∧ v.TimeIsSafe := by
  simp only [ReplicaCall.honestHealth_iff, HealVisit.keepsTime_iff]

/-- A call to which the server answers this for the chunks, and no holders of any chunk. -/
def callWith (chunks : QueryAnswer Text) : ReplicaCall where
  manager := ReplicaServer.oneReplica
  selfDevice := none
  answers :=
    { chunks
      replicas := fun _ => .answered 200 []
      placement := fun _ _ _ => .answered 200 []
      recordReplica := fun _ _ => some 200 }
  transports := ReplicaServer.onlyRelay

/-- A heal cycle over one file at a clock reading. -/
def cycleWith (now : Time) (chunks : QueryAnswer Text) : HealQueries where
  metadata _ _ := ["/a".toList]
  now
  health _ := callWith chunks
  ensure _ := callWith chunks

/-- A cycle that finds a chunk without holders, and one in which the list of chunks is refused. -/
def refusedCycles : List HealQueries :=
  [cycleWith 0 (.answered 200 ["chunk".toList]), cycleWith 5 (.answered 500 [])]

/-- The second cycle takes the file for a healthy one and forgets that it has been short since the
first. -/
theorem refused_listing_looks_healthy :
    (patient.visits refusedCycles).map (fun v =>
        (v.health.degraded, v.before.degradedSince.get v.path, v.after.degradedSince.get v.path)) =
      [(some true, none, some 0), (some false, some 0, none)] ∧
    ¬ (callWith (.answered 500 [])).HonestHealth ∧ ¬ ∀ v ∈ patient.visits refusedCycles, v.KeepsTime := by
  have hfailed : (callWith (.answered 500 [])).HealthFailed :=
    Or.inl (show (500 : Nat) ≠ 200 by decide)
  refine ⟨by decide, fun hhonest => ?_, fun hkeeps => ?_⟩
  · obtain ⟨chunkIds, hchunks, -⟩ := hhonest ⟨false, 0, 0⟩ (by decide) rfl
    cases hchunks
  · have hsecond : (patient.visits refusedCycles).drop 1 =
        [⟨{ patient with degradedSince := Table.empty.put "/a".toList 0 },
          cycleWith 5 (.answered 500 []), "/a".toList⟩] := rfl
    have hmem := List.mem_of_mem_drop (hsecond ▸ List.mem_singleton_self _)
    have hkept := hkeeps _ hmem 0 (by decide) (Or.inl hfailed)
    revert hkept
    decide

end ReplicationScheduler

end StardustFS
