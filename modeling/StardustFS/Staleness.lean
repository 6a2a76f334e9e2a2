import StardustFS.Sessions

/-! What the time on file says about a device. Every exchange with the server is observed as it ends,
and beside the run of a device stands the time since when it is up to date with nothing having failed.
Two kinds of exchange leave the device up to date and its syncstate file as it was: the merge of
`initial_sync` and the cycle that finds the version unchanged. -/

namespace StardustFS

/-- How an exchange ends: the PUT is accepted; a cycle merges a newer version; `initial_sync` merges
the snapshot; a cycle finds the version unchanged; or the exchange fails. -/
inductive Exchange where
  | accepted
  | merged
  | adopted
  | unchanged
  | failed
  deriving DecidableEq, Repr

namespace Exchange

/-- The exits at which `_record_sync_success` is called. -/
def recorded : Exchange → Bool
  | accepted | merged => true
  | adopted | unchanged | failed => false

/-- The time since when the device is up to date, after one more exchange. -/
def standing (_since : Option Time) (x : Time × Exchange) : Option Time :=
  if x.2 = failed then none else some x.1

/-- The time on file after one more exchange. -/
def onFile (last : Option Time) (x : Time × Exchange) : Option Time :=
  if x.2.recorded then some x.1 else last

/-- The exchanges of one call, which reads the clock once. -/
def stamp (now : Time) (xs : List Exchange) : List (Time × Exchange) := xs.map (Prod.mk now)

theorem foldl_standing_stamp (now : Time) (xs : List Exchange) (since : Option Time) :
    (stamp now xs).foldl standing since =
      match xs.getLast? with
      | none => since
      | some x => if x = failed then none else some now := by
  rcases xs.eq_nil_or_concat with rfl | ⟨init, x, rfl⟩
  · rfl
  · rw [stamp, List.concat_eq_append, List.map_append, List.foldl_append, List.getLast?_concat]
    rfl

theorem foldl_onFile_stamp (now : Time) (xs : List Exchange) (last : Option Time) :
    (stamp now xs).foldl onFile last = if xs.any recorded then some now else last := by
  induction xs generalizing last with
  | nil => rfl
  | cons x xs ih =>
      rw [stamp, List.map_cons, List.foldl_cons]
      refine (ih _).trans ?_
      rw [List.any_cons, onFile]
      cases x.recorded <;> cases xs.any recorded <;> rfl

theorem any_recorded_stamp (now : Time) (xs : List Exchange) :
    (∃ y ∈ stamp now xs, y.2.recorded = true) ↔ xs.any recorded = true := by
  simp [stamp, List.any_eq_true]

end Exchange

/-! ### The exchanges of a call -/

namespace SyncClient

def forceUploadExchange (c : SyncClient) (net : Net) : Exchange :=
  match (net.record .forcePut).request fun server => server.put none c.store.files with
  | (some (some _), _) => .accepted
  | (_, _) => .failed

def downloadExchange (c : SyncClient) (net : Net) : Exchange :=
  match net.request fun server => (server.status, server) with
  | (none, _) => .failed
  | (some (version, days), net) =>
      match version with
      | none => (c.setRetention days).forceUploadExchange net
      | some version =>
          if version ≤ c.lastSyncedVersion then .unchanged
          else match net.request fun server => (server.metadata, server) with
            | (some (some _), _) => .merged
            | (_, _) => .failed

/-- The exchanges of the attempts of an upload; one that runs out of attempts has failed. -/
def attemptExchanges (r : SyncReading) : Nat → SyncClient → Net → List Exchange
  | 0, _, _ => [.failed]
  | attempts + 1, c, net =>
      if c.pendingPaths = [] then []
      else match (net.record (.put c.lastSyncedVersion)).request
          fun server => server.put (some c.lastSyncedVersion) c.store.files with
        | (some (some _), _) => [.accepted]
        | (some none, net) =>
            c.downloadExchange net ::
              attemptExchanges r attempts (c.downloadAndMerge r net).1 (c.downloadAndMerge r net).2
        | (none, _) => [.failed]

/-- Where nothing is pending there is no exchange. -/
def uploadExchanges (c : SyncClient) (r : SyncReading) (net : Net) : List Exchange :=
  if c.pendingPaths = [] then [] else attemptExchanges r maxCasRetries (c.gcTombstones r.now) net

def initialSyncExchange (c : SyncClient) (net : Net) : Exchange :=
  match net.request fun server => (server.metadata, server) with
  | (none, _) => .failed
  | (some none, net) => c.forceUploadExchange net
  | (some (some _), _) => .adopted

def tryInitialSyncExchange (c : SyncClient) (opens : Bool) (net : Net) : Exchange :=
  if !opens && (net.request fun server => (server.metadata, server)).1.join.isSome then .failed
  else c.initialSyncExchange net

/-- The exchanges of the start-up: none where the device is not stale. -/
def reconcileExchanges (c : SyncClient) (opens : Bool) (r : SyncReading) (net : Net) :
    List Exchange :=
  let (c, net) := c.fetchRetentionDays net
  if !c.isStale r.now then []
  else if !opens && (net.request fun server => (server.metadata, server)).1.join.isSome then
    [.failed]
  else
    let (moved, isolated) := c.isolatePending r.timestamp
    { moved with lastSyncedVersion := 0 }.initialSyncExchange net ::
      if 0 < isolated then
        (c.adoptServerCopy r net).1.uploadExchanges r
          ((c.adoptServerCopy r net).2.record .rebaselined)
      else []

/-! ### The time on file after a call -/

theorem lastSyncAt_setRetention (c : SyncClient) (days : Option Nat) :
    (c.setRetention days).lastSyncAt = c.lastSyncAt := by
  unfold setRetention
  split
  · split_ifs <;> rfl
  · rfl

theorem lastSyncAt_fetchRetentionDays (c : SyncClient) (net : Net) :
    (c.fetchRetentionDays net).1.lastSyncAt = c.lastSyncAt := by
  rw [fetchRetentionDays_fst]
  split_ifs
  · exact c.lastSyncAt_setRetention _
  · rfl

theorem lastSyncAt_forceUpload (c : SyncClient) (now : Time) (net : Net) :
    (c.forceUpload now net).1.lastSyncAt =
      Exchange.onFile c.lastSyncAt (now, c.forceUploadExchange net) := by
  unfold forceUpload forceUploadExchange
  generalize (net.record .forcePut).request _ = answer
  rcases answer with ⟨- | - | version, net⟩ <;> rfl

theorem lastSyncAt_downloadAndMerge (c : SyncClient) (r : SyncReading) (net : Net) :
    (c.downloadAndMerge r net).1.lastSyncAt =
      Exchange.onFile c.lastSyncAt (r.now, c.downloadExchange net) := by
  unfold downloadAndMerge downloadExchange
  generalize net.request _ = status
  rcases status with ⟨- | ⟨version, days⟩, net⟩
  · rfl
  · cases version with
    | none => exact (lastSyncAt_forceUpload _ _ _).trans (by rw [c.lastSyncAt_setRetention])
    | some version =>
        dsimp only
        rw [lastSyncedVersion_setRetention]
        split_ifs
        · exact c.lastSyncAt_setRetention days
        · generalize net.request _ = get
          rcases get with ⟨- | - | snapshot, net⟩
          · exact c.lastSyncAt_setRetention days
          · exact c.lastSyncAt_setRetention days
          · rfl

theorem lastSyncAt_uploadAttempts (r : SyncReading) (attempts : Nat) (c : SyncClient) (net : Net) :
    (uploadAttempts r attempts c net).1.lastSyncAt =
      (Exchange.stamp r.now (attemptExchanges r attempts c net)).foldl Exchange.onFile
        c.lastSyncAt := by
  induction attempts generalizing c net with
  | zero => rfl
  | succ attempts ih =>
      unfold uploadAttempts attemptExchanges
      dsimp only
      split_ifs
      · rfl
      · generalize (net.record _).request _ = put
        rcases put with ⟨- | - | version, net⟩
        · rfl
        · rw [Exchange.stamp, List.map_cons, List.foldl_cons, ← lastSyncAt_downloadAndMerge]
          exact ih _ _
        · rfl

theorem lastSyncAt_uploadMetadata (c : SyncClient) (r : SyncReading) (net : Net) :
    (c.uploadMetadata r net).1.lastSyncAt =
      (Exchange.stamp r.now (c.uploadExchanges r net)).foldl Exchange.onFile c.lastSyncAt := by
  unfold uploadMetadata uploadExchanges
  split_ifs
  · rfl
  · exact lastSyncAt_uploadAttempts r _ _ net

theorem lastSyncAt_initialSync (c : SyncClient) (r : SyncReading) (net : Net) :
    (c.initialSync r net).1.lastSyncAt =
      Exchange.onFile c.lastSyncAt (r.now, c.initialSyncExchange net) := by
  unfold initialSync initialSyncExchange
  generalize net.request _ = get
  rcases get with ⟨- | - | snapshot, net⟩
  · rfl
  · exact lastSyncAt_forceUpload c r.now net
  · have hmerge := (c.sameDevice_mergeServerMetadata r.timestamp snapshot).lastSyncAt
    dsimp only
    split_ifs <;> exact hmerge

theorem lastSyncAt_tryInitialSync (c : SyncClient) (opens : Bool) (r : SyncReading) (net : Net) :
    (c.tryInitialSync opens r net).2.1.lastSyncAt =
      Exchange.onFile c.lastSyncAt (r.now, c.tryInitialSyncExchange opens net) := by
  unfold tryInitialSync tryInitialSyncExchange
  dsimp only
  split_ifs
  · rfl
  · exact c.lastSyncAt_initialSync r net

theorem lastSyncAt_isolatePending (c : SyncClient) (timestamp : Text → Text) :
    (c.isolatePending timestamp).1.lastSyncAt = c.lastSyncAt := by
  have hfold : ∀ (rows : List (Text × FileRow)) (acc : SyncClient × Nat),
      (rows.foldl (isolate timestamp) acc).1.lastSyncAt = acc.1.lastSyncAt := by
    intro rows
    induction rows with
    | nil => exact fun _ => rfl
    | cons x rows ih =>
        intro acc
        rw [List.foldl_cons, ih]
        unfold isolate
        dsimp only
        split_ifs
        · rfl
        · split <;> rfl
  exact hfold _ (c, 0)

theorem lastSyncAt_adoptServerCopy (c : SyncClient) (r : SyncReading) (net : Net) :
    (c.adoptServerCopy r net).1.lastSyncAt = Exchange.onFile c.lastSyncAt (r.now,
      { (c.isolatePending r.timestamp).1 with lastSyncedVersion := 0 }.initialSyncExchange net) := by
  rw [adoptServerCopy, lastSyncAt_initialSync]
  exact congrArg (Exchange.onFile · _) (c.lastSyncAt_isolatePending r.timestamp)

theorem lastSyncAt_tryReconcile (c : SyncClient) (opens : Bool) (r : SyncReading) (net : Net) :
    (c.tryReconcile opens r net).2.1.lastSyncAt =
      (Exchange.stamp r.now (c.reconcileExchanges opens r net)).foldl Exchange.onFile
        c.lastSyncAt := by
  have hfile := c.lastSyncAt_fetchRetentionDays net
  unfold tryReconcile reconcileExchanges
  dsimp only
  cases hstale : (c.fetchRetentionDays net).1.isStale r.now with
  | false =>
      rw [reconcileIfStale_of_fresh hstale]
      exact hfile
  | true =>
      simp only [Bool.true_and, Bool.not_true, Bool.false_eq_true, if_false]
      split_ifs with hraises hisolated
      · exact ((c.fetchRetentionDays net).1.lastSyncAt_isolatePending r.timestamp).trans hfile
      · rw [reconcileIfStale_of_stale hstale, if_pos hisolated, Exchange.stamp, List.map_cons,
          List.foldl_cons, ← hfile, ← lastSyncAt_adoptServerCopy]
        exact lastSyncAt_uploadMetadata _ r _
      · rw [reconcileIfStale_of_stale hstale, if_neg hisolated, ← hfile]
        exact lastSyncAt_adoptServerCopy _ r _

end SyncClient

/-! ### Runs -/

namespace Device

variable {ι : Type} [DecidableEq ι]

/-- The exchanges of a call, each with the time at which it ends. -/
def callExchanges (d : Device ι) (i : ι) : SessionEvent → List (Time × Exchange)
  | .startOnline r fates opens =>
      let d := (d.setSession i {}).contact i r.now
      Exchange.stamp r.now ((d.client i).reconcileExchanges opens r (d.net i fates))
  | .startUpSync r fates opens | .recoverySync r fates opens =>
      Exchange.stamp r.now [(d.client i).tryInitialSyncExchange opens (d.net i fates)]
  | .restoreKey r fates restored =>
      match restored with
      | none => []
      | some opens =>
          let d := d.renewClient i
          Exchange.stamp r.now [(d.client i).tryInitialSyncExchange opens (d.net i fates)]
  | .openCommand r fates opens =>
      let d := (d.setSession i {}).contact i r.now
      Exchange.stamp r.now [(d.client i).tryInitialSyncExchange opens (d.net i fates)]
  | .recoveryUpload r fates =>
      let d := d.contact i r.now
      Exchange.stamp r.now ((d.client i).uploadExchanges r (d.net i fates))
  | .uploadIfOnline r fates | .upload r fates =>
      Exchange.stamp r.now ((d.client i).uploadExchanges r (d.net i fates))
  | .notified r fates | .download r fates =>
      Exchange.stamp r.now [(d.client i).downloadExchange (d.net i fates)]
  | .startOffline | .resume _ | .stop => []

def exchanges (d : Device ι) : DeviceEvent ι → List (Time × Exchange)
  | .session i e => d.callExchanges i e
  | .edit _ | .elsewhere _ | .policy _ => []

/-- The time on file after a call is what its exchanges put there. -/
theorem lastSyncAt_call (d : Device ι) (i : ι) (e : SessionEvent) :
    (d.call i e).lastSyncAt = (d.callExchanges i e).foldl Exchange.onFile d.lastSyncAt := by
  cases e with
  | startOnline r fates opens =>
      have h := (((d.setSession i {}).contact i r.now).client i).lastSyncAt_tryReconcile opens r
        (((d.setSession i {}).contact i r.now).net i fates)
      unfold call
      dsimp only
      generalize (((d.setSession i {}).contact i r.now).client i).tryReconcile opens r _ = answer at h
      rcases answer with ⟨- | - | -, c, net⟩ <;> exact h
  | startUpSync r fates opens =>
      have h := (d.client i).lastSyncAt_tryInitialSync opens r (d.net i fates)
      unfold call
      dsimp only
      generalize (d.client i).tryInitialSync opens r _ = answer at h
      rcases answer with ⟨- | -, c, net⟩ <;> exact h
  | recoverySync r fates opens =>
      have h := (d.client i).lastSyncAt_tryInitialSync opens r (d.net i fates)
      unfold call
      dsimp only
      generalize (d.client i).tryInitialSync opens r _ = answer at h
      rcases answer with ⟨- | -, c, net⟩ <;> exact h
  | restoreKey r fates restored =>
      cases restored with
      | none => rfl
      | some opens => exact ((d.renewClient i).client i).lastSyncAt_tryInitialSync opens r _
  | openCommand r fates opens =>
      exact (((d.setSession i {}).contact i r.now).client i).lastSyncAt_tryInitialSync opens r _
  | recoveryUpload r fates => exact ((d.contact i r.now).client i).lastSyncAt_uploadMetadata r _
  | uploadIfOnline r fates => exact (d.client i).lastSyncAt_uploadMetadata r _
  | upload r fates => exact (d.client i).lastSyncAt_uploadMetadata r _
  | notified r fates => exact (d.client i).lastSyncAt_downloadAndMerge r _
  | download r fates => exact (d.client i).lastSyncAt_downloadAndMerge r _
  | startOffline => rfl
  | resume now => rfl
  | stop => rfl

theorem lastSyncAt_step {d d' : Device ι} {e : DeviceEvent ι} (h : d.step e = some d') :
    d'.lastSyncAt = (d.exchanges e).foldl Exchange.onFile d.lastSyncAt := by
  cases e with
  | edit op => exact Option.some_inj.mp h ▸ rfl
  | elsewhere snapshot => exact Option.some_inj.mp h ▸ rfl
  | policy days => exact Option.some_inj.mp h ▸ rfl
  | session i e =>
      rw [step] at h
      split_ifs at h
      exact Option.some_inj.mp h ▸ d.lastSyncAt_call i e

/-- A call reads the clock once. -/
theorem exists_stamp_of_exchanges (d : Device ι) (e : DeviceEvent ι) :
    ∃ now xs, d.exchanges e = Exchange.stamp now xs := by
  cases e with
  | session i e =>
      cases e with
      | restoreKey r fates restored =>
          cases restored with
          | none => exact ⟨r.now, [], rfl⟩
          | some opens => exact ⟨r.now, _, rfl⟩
      | startOffline => exact ⟨0, [], rfl⟩
      | resume now => exact ⟨0, [], rfl⟩
      | stop => exact ⟨0, [], rfl⟩
      | _ r => exact ⟨r.now, _, rfl⟩
  | _ => exact ⟨0, [], rfl⟩

end Device

/-- A device and the time since when it is up to date with nothing having failed. -/
structure Watched (ι : Type) where
  device : Device ι
  upToDateSince : Option Time := none

namespace Watched

variable {ι : Type} [DecidableEq ι]

def step (w : Watched ι) (e : DeviceEvent ι) : Option (Watched ι) :=
  (w.device.step e).map fun device =>
    { device, upToDateSince := (w.device.exchanges e).foldl Exchange.standing w.upToDateSince }

/-- Less than a retention period after the exchange that left the device up to date, with nothing
failed since, no client that works with this period takes the device for stale, and
`reconcile_if_stale` leaves the rows where they are. -/
def NeverTakenForStale (T : Time) (w : Watched ι) : Prop :=
  ∀ since, w.upToDateSince = some since → ∀ (i : ι) (r : SyncReading), since ≤ r.now →
    r.now - since < T →
      { w.device.client i with retentionSeconds := T }.isStale r.now = false ∧
      ∀ net, ((w.device.client i).fetchRetentionDays net).1.retentionSeconds = T →
        ((w.device.client i).reconcileIfStale r net).1 = false ∧
        ((w.device.client i).reconcileIfStale r net).2.1.store = w.device.jbod.metadataStore

/-- A call whose last exchange leaves the device up to date has put the time on file, or there is none
on file, or one of the second before. -/
def ExchangeMeets (w : Watched ι) (e : DeviceEvent ι) : Prop :=
  ∀ now x, (w.device.exchanges e).getLast? = some (now, x) → x ≠ .failed →
    (∃ y ∈ w.device.exchanges e, y.2.recorded = true) ∨
      ∀ last, w.device.lastSyncAt = some last → now ≤ last + 1

/-- The time on file is not behind. -/
def OnTime (w : Watched ι) : Prop :=
  ∀ since last, w.upToDateSince = some since → w.device.lastSyncAt = some last → since ≤ last + 1

theorem isStale_eq_false_iff {c : SyncClient} {now : Time} :
    c.isStale now = false ↔ ∀ last, c.lastSyncAt = some last → now - last ≤ c.retentionSeconds := by
  unfold SyncClient.isStale
  cases c.lastSyncAt with
  | none => simp
  | some last => simp

omit [DecidableEq ι] in
theorem neverTakenForStale_of_onTime {T : Time} {w : Watched ι} (h : w.OnTime) :
    w.NeverTakenForStale T := by
  intro since hsince i r hle hrecent
  have hfresh : ∀ last, w.device.lastSyncAt = some last → r.now - last ≤ T := by
    intro last hlast
    have hbehind : since ≤ last + 1 := h since last hsince hlast
    have hnext : r.now - since + 1 ≤ T := hrecent
    linarith
  refine ⟨isStale_eq_false_iff.mpr hfresh, fun net hT => ?_⟩
  have hfile := (w.device.client i).lastSyncAt_fetchRetentionDays net
  have hasked : ((w.device.client i).fetchRetentionDays net).1.isStale r.now = false := by
    rw [isStale_eq_false_iff, hfile, hT]
    exact hfresh
  rw [SyncClient.reconcileIfStale_of_fresh hasked]
  refine ⟨rfl, ?_⟩
  dsimp only
  rw [SyncClient.fetchRetentionDays_fst]
  split_ifs
  · exact SyncClient.store_setRetention _ _
  · rfl

omit [DecidableEq ι] in
/-- A time on file that is behind shows at the end of the retention period. -/
theorem onTime_of_neverTakenForStale {T : Time} (hT : 0 < T) (i : ι) {w : Watched ι}
    (h : w.NeverTakenForStale T) : w.OnTime := by
  intro since last hsince hlast
  have hone : 1 ≤ T := hT
  have hle : since ≤ since + T - 1 := by linarith
  have hrecent : since + T - 1 - since < T := by linarith
  obtain ⟨hfresh, -⟩ := h since hsince i ⟨since + T - 1, fun _ => []⟩ hle hrecent
  have hread : since + T - 1 - last ≤ T := isStale_eq_false_iff.mp hfresh last hlast
  linarith

theorem step_eq_some {w w' : Watched ι} {e : DeviceEvent ι} (h : w.step e = some w') :
    w'.device.lastSyncAt = (w.device.exchanges e).foldl Exchange.onFile w.device.lastSyncAt ∧
      w'.upToDateSince = (w.device.exchanges e).foldl Exchange.standing w.upToDateSince := by
  obtain ⟨d, hd, rfl⟩ := Option.map_eq_some_iff.mp h
  exact ⟨Device.lastSyncAt_step hd, rfl⟩

/-- A call with exchanges leaves the time on file behind exactly where the last one leaves the device
up to date and none is recorded. -/
theorem onTime_iff_of_exchanges {w w' : Watched ι} {e : DeviceEvent ι} (he : w.step e = some w')
    (hne : w.device.exchanges e ≠ []) : w'.OnTime ↔ w.ExchangeMeets e := by
  obtain ⟨hfile, hsince⟩ := step_eq_some he
  obtain ⟨now, xs, hxs⟩ := w.device.exists_stamp_of_exchanges e
  obtain ⟨init, x, rfl⟩ : ∃ init x, xs = init ++ [x] := by
    rcases xs.eq_nil_or_concat with rfl | ⟨init, x, rfl⟩
    · exact absurd hxs hne
    · exact ⟨init, x, List.concat_eq_append⟩
  have hlast : (w.device.exchanges e).getLast? = some (now, x) := by
    rw [hxs, Exchange.stamp, List.map_append]
    exact List.getLast?_concat
  rw [hxs, Exchange.foldl_onFile_stamp] at hfile
  rw [hxs, Exchange.foldl_standing_stamp, List.getLast?_concat] at hsince
  have hmeets : w.ExchangeMeets e ↔ (x ≠ .failed → (init ++ [x]).any Exchange.recorded = true ∨
      ∀ last, w.device.lastSyncAt = some last → now ≤ last + 1) := by
    rw [← Exchange.any_recorded_stamp now, ← hxs]
    constructor
    · intro h
      exact h now x hlast
    · intro h now' x' hlast'
      obtain ⟨rfl, rfl⟩ := Prod.mk.inj (Option.some_inj.mp (hlast.symm.trans hlast'))
      exact h
  rw [hmeets, OnTime, hfile, hsince]
  by_cases hfailed : x = .failed
  · simp [hfailed]
  · cases hany : (init ++ [x]).any Exchange.recorded with
    | true => simp [hfailed, (Int.lt_succ now).le]
    | false =>
        simp only [hfailed, if_false, Bool.false_eq_true, Option.some_inj, not_false_eq_true,
          ne_eq, true_imp_iff, false_or]
        exact ⟨fun h last => h now last rfl, fun h since last hs => hs ▸ h last⟩

theorem onTime_of_no_exchange {w w' : Watched ι} {e : DeviceEvent ι} (he : w.step e = some w')
    (hnone : w.device.exchanges e = []) (h : w.OnTime) : w'.OnTime := by
  obtain ⟨hfile, hsince⟩ := step_eq_some he
  rw [hnone, List.foldl_nil] at hfile hsince
  intro since last hs hl
  exact h since last (hsince.symm.trans hs) (hfile.symm.trans hl)

theorem onTime_step {w w' : Watched ι} {e : DeviceEvent ι} (h : w.OnTime) (hok : w.ExchangeMeets e)
    (he : w.step e = some w') : w'.OnTime := by
  by_cases hnone : w.device.exchanges e = []
  · exact onTime_of_no_exchange he hnone h
  · exact (onTime_iff_of_exchanges he hnone).mpr hok

theorem not_neverTakenForStale_step {T : Time} (hT : 0 < T) {w w' : Watched ι} {e : DeviceEvent ι}
    (hbad : ¬ w.ExchangeMeets e) (he : w.step e = some w') : ¬ w'.NeverTakenForStale T := by
  have hne : w.device.exchanges e ≠ [] := fun hnone => hbad fun now x hlast => by
    rw [hnone] at hlast
    exact nomatch hlast
  cases e with
  | session i e =>
      intro h
      exact hbad ((onTime_iff_of_exchanges he hne).mp (onTime_of_neverTakenForStale hT i h))
  | _ => exact (hne rfl).elim

/-- A device that has never been synchronised. -/
def newLaptop : Device Unit := { Device.laptop with lastSyncAt := none }

def onDay (days : Nat) : SyncReading := ⟨days * 86400, fun _ => "20250101_000000".toList⟩

/-- The first start of the daemon, with a server that has no metadata yet. -/
def firstStart : List (DeviceEvent Unit) :=
  [.session () (.startOnline (onDay 0) [] true), .session () (.startUpSync (onDay 0) [] true)]

end Watched

end StardustFS
