import StardustFS.OrphanGc
import StardustFS.SyncExchange
import StardustFS.Transitions

/-! The sessions of a device: the daemon that starts online, the daemon that starts offline and
recovers later, the periodic loop, and the sessions of single commands. Each entry point makes the
calls of the sync client in its own order; only the online start-up of the daemon asks whether the
device has been away for longer than the retention period. -/

namespace StardustFS

namespace Net

/-- The later log is the earlier one and events that all meet `P`. -/
def Grows (P : Event → Prop) (net net' : Net) : Prop :=
  ∃ events, net'.log = net.log ++ events ∧ ∀ e ∈ events, P e

theorem Grows.refl (P : Event → Prop) (net : Net) : Grows P net net :=
  ⟨[], (List.append_nil _).symm, fun _ h => nomatch h⟩

theorem Grows.trans {P : Event → Prop} {a b c : Net} (h : Grows P a b) (h' : Grows P b c) :
    Grows P a c := by
  obtain ⟨es, hes, hP⟩ := h
  obtain ⟨fs, hfs, hP'⟩ := h'
  refine ⟨es ++ fs, by rw [hfs, hes, List.append_assoc], fun e he => ?_⟩
  exact (List.mem_append.mp he).elim (hP e) (hP' e)

theorem Grows.mono {P Q : Event → Prop} (hPQ : ∀ e, P e → Q e) {a b : Net} (h : Grows P a b) :
    Grows Q a b :=
  ⟨h.choose, h.choose_spec.1, fun e he => hPQ e (h.choose_spec.2 e he)⟩

theorem grows_request {α : Type} (P : Event → Prop) (net : Net) (act : Server → α × Server) :
    Grows P net (net.request act).2 :=
  ⟨[], by rw [log_request, List.append_nil], fun _ h => nomatch h⟩

theorem grows_record {P : Event → Prop} (net : Net) {e : Event} (he : P e) :
    Grows P net (net.record e) :=
  ⟨[e], rfl, fun _ h => List.mem_singleton.mp h ▸ he⟩

end Net

namespace SyncClient

/-! ### What the calls send -/

theorem grows_forceUpload (c : SyncClient) (now : Time) (net : Net) :
    Net.Grows (· = .forcePut) net (c.forceUpload now net).2 := by
  have h := (Net.grows_record (P := (· = .forcePut)) net rfl).trans
    (Net.grows_request _ (net.record .forcePut) fun server => server.put none c.store.files)
  unfold forceUpload
  split
  · rename_i hreq
    rwa [hreq] at h
  · rename_i hreq
    rwa [hreq] at h

theorem grows_downloadAndMerge (c : SyncClient) (r : SyncReading) (net : Net) :
    Net.Grows (· = .forcePut) net (c.downloadAndMerge r net).2 := by
  have h := Net.grows_request (· = .forcePut) net fun server => (server.status, server)
  unfold downloadAndMerge
  split
  · rename_i hreq
    rwa [hreq] at h
  · rename_i version days net₁ hreq
    rw [hreq] at h
    dsimp only
    split
    · exact h.trans (grows_forceUpload _ _ _)
    · have h' := Net.grows_request (· = .forcePut) net₁ fun server => (server.metadata, server)
      split_ifs
      · exact h
      · split
        · rename_i hget
          rw [hget] at h'
          exact h.trans h'
        · rename_i hget
          rw [hget] at h'
          exact h.trans h'

theorem grows_initialSync (c : SyncClient) (r : SyncReading) (net : Net) :
    Net.Grows (· = .forcePut) net (c.initialSync r net).2 := by
  have h := Net.grows_request (· = .forcePut) net fun server => (server.metadata, server)
  unfold initialSync
  split
  · rename_i hreq
    rwa [hreq] at h
  · rename_i hreq
    rw [hreq] at h
    exact h.trans (grows_forceUpload _ _ _)
  · rename_i hreq
    rw [hreq] at h
    dsimp only
    split_ifs
    · exact h
    · exact h

/-- An attempt with something pending sends its PUT first, whatever becomes of it. -/
theorem grows_attempt {r : SyncReading} {n : Nat} {c : SyncClient} (net : Net)
    (hpend : c.pendingPaths ≠ [])
    (later : ∀ c net, Net.Grows (· ≠ .rebaselined) net (uploadAttempts r n c net).2) :
    Net.Grows (· ≠ .rebaselined) (net.record (.put c.lastSyncedVersion))
      (uploadAttempts r (n + 1) c net).2 := by
  have h := Net.grows_request (· ≠ .rebaselined) (net.record (.put c.lastSyncedVersion))
    fun server => server.put (some c.lastSyncedVersion) c.store.files
  simp only [uploadAttempts, if_neg hpend]
  split
  · rename_i hreq
    rwa [hreq] at h
  · rename_i net₁ hreq
    rw [hreq] at h
    have hmerge := (grows_downloadAndMerge c r net₁).mono (Q := (· ≠ .rebaselined))
      fun e he => by rw [he]; simp
    exact (h.trans hmerge).trans (later _ _)
  · rename_i hreq
    rwa [hreq] at h

theorem grows_uploadAttempts (r : SyncReading) (attempts : Nat) (c : SyncClient) (net : Net) :
    Net.Grows (· ≠ .rebaselined) net (uploadAttempts r attempts c net).2 := by
  induction attempts generalizing c net with
  | zero => exact Net.Grows.refl _ _
  | succ n ih =>
      by_cases hpend : c.pendingPaths = []
      · rw [uploadAttempts, if_pos hpend]
        exact Net.Grows.refl _ _
      · exact (Net.grows_record net (by simp)).trans (grows_attempt net hpend ih)

theorem grows_uploadMetadata (c : SyncClient) (r : SyncReading) (net : Net) :
    Net.Grows (· ≠ .rebaselined) net (c.uploadMetadata r net).2 := by
  unfold uploadMetadata
  split_ifs
  · exact Net.Grows.refl _ _
  · exact grows_uploadAttempts _ _ _ _

theorem pendingPaths_ne_nil_of_gcTombstones {c : SyncClient} {now : Time}
    (h : (c.gcTombstones now).pendingPaths ≠ []) : c.pendingPaths ≠ [] := by
  obtain ⟨p, hp⟩ := List.exists_mem_of_ne_nil _ h
  obtain ⟨row, hrow, hst⟩ := mem_pendingPaths.mp hp
  exact List.ne_nil_of_mem (mem_pendingPaths.mpr ⟨row, lookupAny_of_gcTombstones hrow, hst⟩)

theorem put_mem_uploadMetadata {c : SyncClient} {r : SyncReading} (net : Net)
    (h : (c.gcTombstones r.now).pendingPaths ≠ []) :
    ∃ base, Event.put base ∈ (c.uploadMetadata r net).2.log := by
  obtain ⟨events, hlog, -⟩ := grows_attempt net h (grows_uploadAttempts r 4)
  rw [uploadMetadata, if_neg (pendingPaths_ne_nil_of_gcTombstones h), maxCasRetries, hlog]
  exact ⟨_, List.mem_append_left _ (List.mem_append_right _ (List.mem_singleton_self _))⟩

theorem log_fetchRetentionDays (c : SyncClient) (net : Net) :
    (c.fetchRetentionDays net).2.log = net.log := by
  rw [fetchRetentionDays_snd, Net.log_request]

/-- A call that re-baselines sends no PUT but the one for a server without metadata before it has
adopted the server's copy. -/
theorem log_reconcileIfStale_of_stale {c : SyncClient} {r : SyncReading} {net : Net}
    (h : (c.fetchRetentionDays net).1.isStale r.now = true) :
    (c.reconcileIfStale r net).1 = true ∧ ∃ adopting after, (∀ e ∈ adopting, e = .forcePut) ∧
      (c.reconcileIfStale r net).2.2.log =
        net.log ++ adopting ++ .rebaselined :: after := by
  have hlog := log_fetchRetentionDays c net
  rw [reconcileIfStale_of_stale h]
  generalize c.fetchRetentionDays net = fetched at hlog
  obtain ⟨adopting, hadopt, hforce⟩ := grows_initialSync
    { (fetched.1.isolatePending r.timestamp).1 with lastSyncedVersion := 0 } r fetched.2
  change (fetched.1.adoptServerCopy r fetched.2).2.log = _ at hadopt
  refine ⟨rfl, ?_⟩
  dsimp only
  split_ifs
  · obtain ⟨after, hafter, -⟩ := grows_uploadMetadata (fetched.1.adoptServerCopy r fetched.2).1 r
      ((fetched.1.adoptServerCopy r fetched.2).2.record .rebaselined)
    refine ⟨adopting, after, hforce, ?_⟩
    rw [hafter, Net.record, hadopt, hlog, List.append_assoc, List.append_assoc, List.append_assoc]
    rfl
  · refine ⟨adopting, [], hforce, ?_⟩
    rw [Net.record, hadopt, hlog]

theorem reconcileIfStale_of_not_stale {c : SyncClient} {r : SyncReading} {net : Net}
    (h : (c.fetchRetentionDays net).1.isStale r.now = false) :
    (c.reconcileIfStale r net).1 = false ∧ (c.reconcileIfStale r net).2.2.log = net.log := by
  rw [reconcileIfStale_of_fresh h]
  exact ⟨rfl, log_fetchRetentionDays c net⟩

end SyncClient

/-! ### Sessions -/

/-- Where a session stands: no process; started offline and waiting for the server; recovering, with
its pending changes sent; started online, with `reconcile_if_stale` answered False; with the exception
of a start-up sync that could not open the server's snapshot; in the periodic loop, asleep or with the
download of a cycle behind it; in the session of a command. -/
inductive SessionPhase where
  | off
  | waiting
  | recovering
  | starting
  | keyMismatch
  | idle
  | cycle
  | command
  deriving DecidableEq, Repr

/-- A process with its sync client's own memory. What was found at the last contact with the server,
and the events since, are history. -/
structure Session where
  phase : SessionPhase := .off
  lastSyncedVersion : Nat := 0
  retentionSeconds : Time := 30 * 86400
  staleAtContact : Bool := false
  log : List Event := []

/-- A device with its volume, its syncstate file and its processes, and the server. -/
structure Device (ι : Type) where
  jbod : JbodManager
  deviceName : Text
  lastSyncAt : Option Time := none
  server : Server := {}
  sessions : ι → Session := fun _ => {}

/-- A call of an entry point, with its clock and the fates of its requests. `opens` says whether the
key at hand opens the server's snapshot, `restored` whether the key was restored from the server and
whether the restored one opens it. -/
inductive SessionEvent where
  | startOnline (r : SyncReading) (fates : List Fate) (opens : Bool)
  | startUpSync (r : SyncReading) (fates : List Fate) (opens : Bool)
  | restoreKey (r : SyncReading) (fates : List Fate) (restored : Option Bool)
  | startOffline
  | recoveryUpload (r : SyncReading) (fates : List Fate)
  | recoverySync (r : SyncReading) (fates : List Fate) (opens : Bool)
  | openCommand (r : SyncReading) (fates : List Fate) (opens : Bool)
  | uploadIfOnline (r : SyncReading) (fates : List Fate)
  | resume (now : Time)
  | notified (r : SyncReading) (fates : List Fate)
  | download (r : SyncReading) (fates : List Fate)
  | upload (r : SyncReading) (fates : List Fate)
  | stop

/-- What happens to a device: a change of its files, another device's upload, a new retention policy,
or a call in one of its sessions. -/
inductive DeviceEvent (ι : Type) where
  | edit (op : LocalOp)
  | elsewhere (snapshot : Files)
  | policy (days : Option Nat)
  | session (i : ι) (e : SessionEvent)

namespace SyncClient

/-- `initial_sync` and whether it returns: where a snapshot arrives that the key does not open, it
raises. -/
def tryInitialSync (c : SyncClient) (opens : Bool) (r : SyncReading) (net : Net) :
    Bool × SyncClient × Net :=
  let get := net.request fun server => (server.metadata, server)
  if !opens && get.1.join.isSome then (false, c, get.2) else (true, c.initialSync r net)

/-- `reconcile_if_stale` with its answer, or `none` where its `initial_sync` raises. -/
def tryReconcile (c : SyncClient) (opens : Bool) (r : SyncReading) (net : Net) :
    Option Bool × SyncClient × Net :=
  let (stale, asked) := c.fetchRetentionDays net
  let get := asked.request fun server => (server.metadata, server)
  if stale.isStale r.now && !opens && get.1.join.isSome then
    (none, { (stale.isolatePending r.timestamp).1 with lastSyncedVersion := 0 }, get.2)
  else
    let (reconciled, c, net) := c.reconcileIfStale r net
    (some reconciled, c, net)

end SyncClient

namespace Device

variable {ι : Type} [DecidableEq ι]

/-- The sync client of a session. -/
def client (d : Device ι) (i : ι) : SyncClient where
  jbod := d.jbod
  deviceName := d.deviceName
  lastSyncedVersion := (d.sessions i).lastSyncedVersion
  retentionSeconds := (d.sessions i).retentionSeconds
  lastSyncAt := d.lastSyncAt

def net (d : Device ι) (i : ι) (fates : List Fate) : Net where
  server := d.server
  fates := fates
  log := (d.sessions i).log

def setSession (d : Device ι) (i : ι) (s : Session) : Device ι :=
  { d with sessions := Function.update d.sessions i s }

/-- What a call leaves behind. -/
def after (d : Device ι) (i : ι) (phase : SessionPhase) (c : SyncClient) (net : Net) : Device ι :=
  { d with jbod := c.jbod, lastSyncAt := c.lastSyncAt, server := net.server }.setSession i
    { phase
      lastSyncedVersion := c.lastSyncedVersion
      retentionSeconds := c.retentionSeconds
      staleAtContact := (d.sessions i).staleAtContact
      log := net.log }

/-- More than the retention period of the server's policy has passed since the last success; where
the server states none, the client's own period counts. -/
def isStale (d : Device ι) (i : ι) (now : Time) : Bool :=
  ((d.client i).setRetention d.server.retentionDays).isStale now

/-- A session reaches the server: what the run is judged by begins anew. -/
def contact (d : Device ι) (i : ι) (now : Time) : Device ι :=
  d.setSession i { d.sessions i with staleAtContact := d.isStale i now, log := [] }

/-- A new sync client, in the same session. -/
def renewClient (d : Device ι) (i : ι) : Device ι :=
  d.setSession i { phase := (d.sessions i).phase, staleAtContact := (d.sessions i).staleAtContact,
                   log := (d.sessions i).log }

def gcAfterCycle (c : SyncClient) : SyncClient := { c with jbod := c.jbod.gcOrphanFilesIfNeeded.2 }

/-- The call of the entry point, the session being where it makes it. -/
def call (d : Device ι) (i : ι) : SessionEvent → Device ι
  | .startOnline r fates opens =>
      let d := (d.setSession i {}).contact i r.now
      match (d.client i).tryReconcile opens r (d.net i fates) with
      | (some true, c, net) => d.after i .idle c net
      | (some false, c, net) => d.after i .starting c net
      | (none, c, net) => d.after i .keyMismatch c net
  | .startUpSync r fates opens =>
      match (d.client i).tryInitialSync opens r (d.net i fates) with
      | (true, c, net) => d.after i .idle c net
      | (false, c, net) => d.after i .keyMismatch c net
  | .restoreKey r fates restored =>
      match restored with
      | none => d.after i .idle (d.client i) (d.net i fates)
      | some opens =>
          let d := d.renewClient i
          let (_, c, net) := (d.client i).tryInitialSync opens r (d.net i fates)
          d.after i .idle c net
  | .startOffline => d.setSession i { phase := .waiting }
  | .recoveryUpload r fates =>
      let d := d.contact i r.now
      let (c, net) := (d.client i).uploadMetadata r (d.net i fates)
      d.after i .recovering c net
  | .recoverySync r fates opens =>
      match (d.client i).tryInitialSync opens r (d.net i fates) with
      | (true, c, net) => d.after i .idle c net
      | (false, c, net) => d.after i .waiting c net
  | .openCommand r fates opens =>
      let d := (d.setSession i {}).contact i r.now
      let (_, c, net) := (d.client i).tryInitialSync opens r (d.net i fates)
      d.after i .command c net
  | .uploadIfOnline r fates =>
      let (c, net) := (d.client i).uploadMetadata r (d.net i fates)
      d.after i .command c net
  | .resume now => d.contact i now
  | .notified r fates =>
      let (c, net) := (d.client i).downloadAndMerge r (d.net i fates)
      d.after i (d.sessions i).phase (gcAfterCycle c) net
  | .download r fates =>
      let (c, net) := (d.client i).downloadAndMerge r (d.net i fates)
      d.after i .cycle c net
  | .upload r fates =>
      let (c, net) := (d.client i).uploadMetadata r (d.net i fates)
      d.after i .idle (gcAfterCycle c) net
  | .stop => d.setSession i {}

/-- The phases in which a session makes a call. -/
def enabled (phase : SessionPhase) : SessionEvent → Bool
  | .startOnline .. => phase = .off
  | .startUpSync .. => phase = .starting
  | .restoreKey .. => phase = .keyMismatch
  | .startOffline => phase = .off
  | .recoveryUpload .. => phase = .waiting
  | .recoverySync .. => phase = .recovering
  | .openCommand .. => phase = .off
  | .uploadIfOnline .. => phase = .command
  | .resume _ => phase ≠ .off && phase ≠ .waiting
  | .notified .. => phase = .idle || phase = .cycle
  | .download .. => phase = .idle
  | .upload .. => phase = .cycle
  | .stop => phase ≠ .off

def step (d : Device ι) : DeviceEvent ι → Option (Device ι)
  | .edit op =>
      some { d with jbod := { d.jbod with metadataStore := op.apply d.jbod.metadataStore } }
  | .elsewhere snapshot => some { d with server := (d.server.put none snapshot).2 }
  | .policy days => some { d with server := { d.server with retentionDays := days } }
  | .session i e => if enabled (d.sessions i).phase e then some (d.call i e) else none

/-- Every PUT of an upload comes after the end of a re-baselining. -/
def PutsFollow (log : List Event) : Prop :=
  ∀ before base after, log = before ++ .put base :: after → .rebaselined ∈ before

/-- A session that reached the server after more than the retention period sends no upload before it
has re-baselined. -/
def Lawful (d : Device ι) : Prop :=
  ∀ i, (d.sessions i).staleAtContact = true → PutsFollow (d.sessions i).log

/-- A session reaches the server in time, or it is the online start-up of the daemon, that learns
enough of the retention policy to find the device stale and whose key opens the snapshot it is
sent. -/
def ContactMeets (d : Device ι) : DeviceEvent ι → Prop
  | .session i (.startOnline r fates opens) =>
      (d.setSession i {}).isStale i r.now = false ∨
        ((fates.head?.getD .ok = .ok ∨ ((d.setSession i {}).client i).isStale r.now = true) ∧
          (opens = true ∨ fates.tail.head?.getD .ok ≠ .ok ∨ d.server.metadata = none))
  | .session i (.openCommand r _ _) => (d.setSession i {}).isStale i r.now = false
  | .session i (.recoveryUpload r _) => d.isStale i r.now = false
  | .session i (.resume now) => d.isStale i now = false
  | _ => True

end Device

/-! ### Runs -/

theorem Device.PutsFollow.append {log events : List Event} (h : Device.PutsFollow log)
    (hmem : .rebaselined ∈ log) : Device.PutsFollow (log ++ events) := by
  intro before base after heq
  rcases List.append_eq_append_iff.mp heq with ⟨more, rfl, -⟩ | ⟨more, rfl, hevents⟩
  · exact List.mem_append_left _ hmem
  · cases more with
    | nil => rwa [List.append_nil] at hmem
    | cons e more =>
        obtain ⟨rfl, -⟩ := List.cons.inj hevents
        exact h before base more rfl

theorem putsFollow_rebaselined {adopting after : List Event}
    (h : ∀ e ∈ adopting, e = .forcePut) :
    Device.PutsFollow (adopting ++ .rebaselined :: after) := by
  rw [← List.singleton_append, ← List.append_assoc]
  refine Device.PutsFollow.append (fun before base after heq => ?_)
    (List.mem_append_right _ (List.mem_singleton_self _))
  have hput : Event.put base ∈ adopting ++ [.rebaselined] :=
    heq ▸ List.mem_append_right _ (List.mem_cons_self)
  rcases List.mem_append.mp hput with hin | hin
  · exact nomatch h _ hin
  · exact nomatch List.mem_singleton.mp hin

namespace SyncClient

theorem log_tryInitialSync (c : SyncClient) (opens : Bool) (r : SyncReading) (net : Net) :
    Net.Grows (· ≠ .rebaselined) net (c.tryInitialSync opens r net).2.2 := by
  unfold tryInitialSync
  dsimp only
  split_ifs
  · exact Net.grows_request _ _ _
  · exact (grows_initialSync c r net).mono fun e he => by rw [he]; simp

/-- The start-up re-baselines, finds the device fresh, or raises without having sent anything. -/
theorem tryReconcile_cases (c : SyncClient) (opens : Bool) (r : SyncReading) (net : Net) :
    ((c.fetchRetentionDays net).1.isStale r.now = false ∧
      (c.tryReconcile opens r net).1 = some false ∧
      (c.tryReconcile opens r net).2.2.log = net.log) ∨
    ((c.fetchRetentionDays net).1.isStale r.now = true ∧
      (opens = false ∧ net.fates.tail.head?.getD .ok = .ok ∧ net.server.metadata ≠ none) ∧
      (c.tryReconcile opens r net).1 = none ∧
      (c.tryReconcile opens r net).2.2.log = net.log) ∨
    ((c.fetchRetentionDays net).1.isStale r.now = true ∧
      ¬ (opens = false ∧ net.fates.tail.head?.getD .ok = .ok ∧ net.server.metadata ≠ none) ∧
      (c.tryReconcile opens r net).1 = some true ∧
      ∃ adopting after, (∀ e ∈ adopting, e = .forcePut) ∧
        (c.tryReconcile opens r net).2.2.log = net.log ++ adopting ++ .rebaselined :: after) := by
  have hraises : (!opens && (((c.fetchRetentionDays net).2.request
      fun server => (server.metadata, server)).1.join).isSome) = true ↔
      opens = false ∧ net.fates.tail.head?.getD .ok = .ok ∧ net.server.metadata ≠ none := by
    rw [fetchRetentionDays_snd, Net.request_fst, Net.nextFate, Net.fates_request,
      Net.server_request_of_reads]
    generalize net.fates.tail.head?.getD Fate.ok = fate
    split_ifs with h
    · cases net.server.metadata <;> simp [h]
    · simp [h]
  unfold tryReconcile
  dsimp only
  cases hstale : (c.fetchRetentionDays net).1.isStale r.now with
  | false =>
      left
      obtain ⟨hno, hlog⟩ := reconcileIfStale_of_not_stale hstale
      simp only [Bool.false_and, Bool.false_eq_true, if_false]
      exact ⟨trivial, congrArg some hno, hlog⟩
  | true =>
      right
      rw [Bool.true_and]
      by_cases hr : opens = false ∧ net.fates.tail.head?.getD .ok = .ok ∧ net.server.metadata ≠ none
      · left
        rw [if_pos (hraises.mpr hr)]
        refine ⟨rfl, hr, rfl, ?_⟩
        show (Net.request _ _).2.log = _
        rw [Net.log_request, log_fetchRetentionDays]
      · right
        rw [if_neg (mt hraises.mp hr)]
        obtain ⟨hyes, hlog⟩ := log_reconcileIfStale_of_stale hstale
        exact ⟨rfl, hr, congrArg some hyes, hlog⟩

end SyncClient

namespace Device

variable {ι : Type} [DecidableEq ι]

/-- The session goes on: it is judged by the same contact, and what it sends ends no
re-baselining. -/
def Continues (s s' : Session) : Prop :=
  s'.staleAtContact = s.staleAtContact ∧
    ∃ events, s'.log = s.log ++ events ∧ ∀ e ∈ events, e ≠ .rebaselined

@[simp] theorem sessions_setSession_self (d : Device ι) (i : ι) (s : Session) :
    (d.setSession i s).sessions i = s := Function.update_self _ _ _

theorem sessions_setSession_of_ne (d : Device ι) {i j : ι} (s : Session) (h : j ≠ i) :
    (d.setSession i s).sessions j = d.sessions j := Function.update_of_ne h _ _

theorem sessions_after_of_ne (d : Device ι) {i j : ι} (phase : SessionPhase) (c : SyncClient)
    (net : Net) (h : j ≠ i) : (d.after i phase c net).sessions j = d.sessions j :=
  Function.update_of_ne h _ _

theorem sessions_after_self (d : Device ι) (i : ι) (phase : SessionPhase) (c : SyncClient)
    (net : Net) : (d.after i phase c net).sessions i =
      { phase
        lastSyncedVersion := c.lastSyncedVersion
        retentionSeconds := c.retentionSeconds
        staleAtContact := (d.sessions i).staleAtContact
        log := net.log } := sessions_setSession_self _ _ _

theorem continues_after (d : Device ι) (i : ι) (phase : SessionPhase) (c : SyncClient)
    {fates : List Fate} {net : Net} (h : Net.Grows (· ≠ .rebaselined) (d.net i fates) net) :
    Continues (d.sessions i) ((d.after i phase c net).sessions i) := by
  show Continues _ ((setSession _ i _).sessions i)
  rw [sessions_setSession_self]
  exact ⟨rfl, h⟩

/-- At start-up and in a recovery the call is the synchronization: its answer decides the phase
alone. -/
theorem call_startUpSync (d : Device ι) (i : ι) (r : SyncReading) (fates : List Fate)
    (opens : Bool) :
    ∃ phase, d.call i (.startUpSync r fates opens) =
      d.after i phase ((d.client i).tryInitialSync opens r (d.net i fates)).2.1
        ((d.client i).tryInitialSync opens r (d.net i fates)).2.2 := by
  unfold call
  dsimp only
  generalize (d.client i).tryInitialSync opens r (d.net i fates) = outcome
  obtain ⟨synced, c, net⟩ := outcome
  cases synced with
  | true => exact ⟨.idle, rfl⟩
  | false => exact ⟨.keyMismatch, rfl⟩

theorem call_recoverySync (d : Device ι) (i : ι) (r : SyncReading) (fates : List Fate)
    (opens : Bool) :
    ∃ phase, d.call i (.recoverySync r fates opens) =
      d.after i phase ((d.client i).tryInitialSync opens r (d.net i fates)).2.1
        ((d.client i).tryInitialSync opens r (d.net i fates)).2.2 := by
  unfold call
  dsimp only
  generalize (d.client i).tryInitialSync opens r (d.net i fates) = outcome
  obtain ⟨synced, c, net⟩ := outcome
  cases synced with
  | true => exact ⟨.idle, rfl⟩
  | false => exact ⟨.waiting, rfl⟩

/-- A call of one session leaves the others as they are. -/
theorem sessions_call_of_ne (d : Device ι) {i j : ι} (e : SessionEvent) (h : j ≠ i) :
    (d.call i e).sessions j = d.sessions j := by
  cases e with
  | startOnline r fates opens =>
      unfold call
      dsimp only
      split <;> rw [sessions_after_of_ne _ _ _ _ h, contact, sessions_setSession_of_ne _ _ h,
        sessions_setSession_of_ne _ _ h]
  | startUpSync r fates opens =>
      obtain ⟨phase, hcall⟩ := d.call_startUpSync i r fates opens
      rw [hcall]
      exact sessions_after_of_ne _ _ _ _ h
  | restoreKey r fates restored =>
      cases restored with
      | none => exact sessions_after_of_ne _ _ _ _ h
      | some opens =>
          exact (sessions_after_of_ne _ _ _ _ h).trans (sessions_setSession_of_ne _ _ h)
  | startOffline => exact sessions_setSession_of_ne _ _ h
  | recoveryUpload r fates =>
      exact (sessions_after_of_ne _ _ _ _ h).trans (sessions_setSession_of_ne _ _ h)
  | recoverySync r fates opens =>
      obtain ⟨phase, hcall⟩ := d.call_recoverySync i r fates opens
      rw [hcall]
      exact sessions_after_of_ne _ _ _ _ h
  | openCommand r fates opens =>
      exact (sessions_after_of_ne _ _ _ _ h).trans ((sessions_setSession_of_ne _ _ h).trans
        (sessions_setSession_of_ne _ _ h))
  | uploadIfOnline r fates => exact sessions_after_of_ne _ _ _ _ h
  | resume now => exact sessions_setSession_of_ne _ _ h
  | notified r fates => exact sessions_after_of_ne _ _ _ _ h
  | download r fates => exact sessions_after_of_ne _ _ _ _ h
  | upload r fates => exact sessions_after_of_ne _ _ _ _ h
  | stop => exact sessions_setSession_of_ne _ _ h

theorem forcePut_ne_rebaselined (e : Event) (h : e = .forcePut) : e ≠ .rebaselined := by
  rw [h]
  simp

/-- The calls at which a session reaches the server anew. -/
def isContact : SessionEvent → Bool
  | .startOnline .. => true
  | .recoveryUpload .. => true
  | .openCommand .. => true
  | .resume _ => true
  | _ => false

/-- The calls a session makes between its contacts. -/
def goesOn (e : SessionEvent) : Bool :=
  !isContact e && match e with
    | .startOffline => false
    | .stop => false
    | _ => true

theorem continues_call (d : Device ι) (i : ι) {e : SessionEvent} (he : goesOn e = true) :
    Continues (d.sessions i) ((d.call i e).sessions i) := by
  cases e with
  | startOnline r fates opens => exact nomatch he
  | recoveryUpload r fates => exact nomatch he
  | openCommand r fates opens => exact nomatch he
  | resume now => exact nomatch he
  | startOffline => exact nomatch he
  | stop => exact nomatch he
  | startUpSync r fates opens =>
      obtain ⟨phase, hcall⟩ := d.call_startUpSync i r fates opens
      rw [hcall]
      exact continues_after d i _ _ ((d.client i).log_tryInitialSync opens r _)
  | recoverySync r fates opens =>
      obtain ⟨phase, hcall⟩ := d.call_recoverySync i r fates opens
      rw [hcall]
      exact continues_after d i _ _ ((d.client i).log_tryInitialSync opens r _)
  | restoreKey r fates restored =>
      cases restored with
      | none => exact continues_after d i _ _ (Net.Grows.refl _ _)
      | some opens =>
          have hlog := ((d.renewClient i).client i).log_tryInitialSync opens r
            ((d.renewClient i).net i fates)
          obtain ⟨hstale, events, hevents, hok⟩ := continues_after (d.renewClient i) i .idle
            ((d.renewClient i).client i |>.tryInitialSync opens r
              ((d.renewClient i).net i fates)).2.1 hlog
          rw [renewClient, sessions_setSession_self] at hstale hevents
          exact ⟨hstale, events, hevents, hok⟩
  | uploadIfOnline r fates =>
      exact continues_after d i _ _ (SyncClient.grows_uploadMetadata _ r _)
  | upload r fates =>
      exact continues_after d i _ _ (SyncClient.grows_uploadMetadata _ r _)
  | notified r fates =>
      exact continues_after d i _ _
        ((SyncClient.grows_downloadAndMerge _ r _).mono forcePut_ne_rebaselined)
  | download r fates =>
      exact continues_after d i _ _
        ((SyncClient.grows_downloadAndMerge _ r _).mono forcePut_ne_rebaselined)

/-- A session that was stale at its last contact has re-baselined since. -/
def Settled (s : Session) : Prop :=
  s.staleAtContact = true → PutsFollow s.log ∧ .rebaselined ∈ s.log

theorem Settled.continues {s s' : Session} (h : Settled s) (hs : Continues s s') : Settled s' := by
  obtain ⟨hstale, events, hlog, -⟩ := hs
  intro hs'
  obtain ⟨hfollow, hmem⟩ := h (hstale ▸ hs')
  rw [hlog]
  exact ⟨hfollow.append hmem, List.mem_append_left _ hmem⟩

theorem settled_of_fresh {s : Session} (h : s.staleAtContact = false) : Settled s :=
  fun hs => nomatch h.symm.trans hs

theorem client_contact (d : Device ι) (i : ι) (now : Time) :
    (d.contact i now).client i = d.client i := by
  unfold client contact
  rw [sessions_setSession_self]
  rfl

theorem staleAtContact_contact (d : Device ι) (i : ι) (now : Time) :
    ((d.contact i now).sessions i).staleAtContact = d.isStale i now := by
  rw [contact, sessions_setSession_self]

theorem log_net_contact (d : Device ι) (i : ι) (now : Time) (fates : List Fate) :
    ((d.contact i now).net i fates).log = [] := by
  rw [net, contact, sessions_setSession_self]

/-- The session of an online start-up after its first call. -/
theorem session_call_startOnline (d : Device ι) (i : ι) (r : SyncReading) (fates : List Fate)
    (opens : Bool) :
    ((d.call i (.startOnline r fates opens)).sessions i).staleAtContact =
      (d.setSession i {}).isStale i r.now ∧
    ((d.call i (.startOnline r fates opens)).sessions i).log =
      (((d.setSession i {}).client i).tryReconcile opens r
        (((d.setSession i {}).contact i r.now).net i fates)).2.2.log := by
  unfold call
  dsimp only
  rw [client_contact, ← staleAtContact_contact]
  split
  all_goals
    rename_i heq
    rw [sessions_after_self, heq]
    exact ⟨rfl, rfl⟩

/-- A device that is stale finds itself so where it learns the policy, or where its own period says
so. -/
theorem isStale_fetchRetentionDays (d : Device ι) (i : ι) (now : Time) (fates : List Fate)
    (h : d.isStale i now = true) :
    (((d.client i).fetchRetentionDays ((d.contact i now).net i fates)).1.isStale now = true) ↔
      (fates.head?.getD .ok = .ok ∨ (d.client i).isStale now = true) := by
  rw [SyncClient.fetchRetentionDays_fst]
  show (if fates.head?.getD .ok = .ok then (d.client i).setRetention d.server.retentionDays
    else d.client i).isStale now = true ↔ _
  split_ifs with hfate
  · exact ⟨fun _ => Or.inl hfate, fun _ => h⟩
  · exact ⟨Or.inr, fun h => h.resolve_left hfate⟩

theorem settled_startOnline {d : Device ι} {i : ι} {r : SyncReading} {fates : List Fate}
    {opens : Bool} (h : d.ContactMeets (.session i (.startOnline r fates opens))) :
    Settled ((d.call i (.startOnline r fates opens)).sessions i) := by
  obtain ⟨hstale, hlog⟩ := d.session_call_startOnline i r fates opens
  intro hs
  rw [hstale] at hs
  obtain ⟨hdetects, hopens⟩ := h.resolve_left (by rw [hs]; simp)
  rw [← isStale_fetchRetentionDays _ i r.now fates hs] at hdetects
  rw [hlog]
  rcases ((d.setSession i {}).client i).tryReconcile_cases opens r
    (((d.setSession i {}).contact i r.now).net i fates) with
    ⟨hno, -⟩ | ⟨-, ⟨hkey, hget, hmeta⟩, -⟩ | ⟨-, -, -, adopting, after, hforce, hevents⟩
  · rw [hdetects] at hno
    exact nomatch hno
  · rcases hopens with hopens | hopens | hopens
    · rw [hkey] at hopens
      exact nomatch hopens
    · exact (hopens hget).elim
    · exact (hmeta hopens).elim
  · rw [hevents, log_net_contact, List.nil_append]
    exact ⟨putsFollow_rebaselined hforce, List.mem_append_right _ List.mem_cons_self⟩

/-- A stale session with no end of a re-baselining behind it. -/
def Exposed (s : Session) : Prop := s.staleAtContact = true ∧ .rebaselined ∉ s.log

theorem Exposed.continues {s s' : Session} (h : Exposed s) (hs : Continues s s') : Exposed s' := by
  obtain ⟨hstale, events, hlog, hno⟩ := hs
  refine ⟨hstale.trans h.1, fun hmem => ?_⟩
  rw [hlog] at hmem
  exact (List.mem_append.mp hmem).elim h.2 fun hin => hno _ hin rfl

theorem exposed_startOnline {d : Device ι} {i : ι} {r : SyncReading} {fates : List Fate}
    {opens : Bool} (h : ¬ d.ContactMeets (.session i (.startOnline r fates opens))) :
    Exposed ((d.call i (.startOnline r fates opens)).sessions i) := by
  obtain ⟨hstale, hlog⟩ := d.session_call_startOnline i r fates opens
  obtain ⟨hs, hcond⟩ := not_or.mp h
  rw [Bool.not_eq_false] at hs
  rw [← isStale_fetchRetentionDays _ i r.now fates hs] at hcond
  rw [Exposed, hstale, hlog]
  refine ⟨hs, ?_⟩
  rcases ((d.setSession i {}).client i).tryReconcile_cases opens r
    (((d.setSession i {}).contact i r.now).net i fates) with
    ⟨-, -, hevents⟩ | ⟨-, -, -, hevents⟩ | ⟨hyes, hopens, -⟩
  · rw [hevents, log_net_contact]
    exact List.not_mem_nil
  · rw [hevents, log_net_contact]
    exact List.not_mem_nil
  · refine (hcond ⟨hyes, ?_⟩).elim
    by_contra hno
    obtain ⟨hkey, hget, hmeta⟩ := not_or.mp hno |>.imp_right not_or.mp
    exact hopens ⟨by simpa using hkey, not_not.mp hget, hmeta⟩

/-- The other contacts leave the session stale exactly where they meet the device so. -/
theorem session_call_contact (d : Device ι) (i : ι) {e : SessionEvent} (he : isContact e = true)
    (hno : ∀ r fates opens, e ≠ .startOnline r fates opens) :
    (((d.call i e).sessions i).staleAtContact = false ↔ d.ContactMeets (.session i e)) ∧
      .rebaselined ∉ ((d.call i e).sessions i).log := by
  have fresh : ∀ (d : Device ι) (now : Time) (phase : SessionPhase) (fates : List Fate)
      (c : SyncClient) (net : Net),
      Net.Grows (· ≠ .rebaselined) ((d.contact i now).net i fates) net →
      ((((d.contact i now).after i phase c net).sessions i).staleAtContact = false ↔
        d.isStale i now = false) ∧
      .rebaselined ∉ (((d.contact i now).after i phase c net).sessions i).log := by
    intro d now phase fates c net ⟨events, hlog, hevents⟩
    rw [log_net_contact, List.nil_append] at hlog
    rw [sessions_after_self, staleAtContact_contact, hlog]
    exact ⟨Iff.rfl, fun h => hevents _ h rfl⟩
  cases e with
  | startOnline r fates opens => exact (hno r fates opens rfl).elim
  | recoveryUpload r fates =>
      exact fresh d r.now .recovering fates _ _ (SyncClient.grows_uploadMetadata _ r _)
  | openCommand r fates opens =>
      exact fresh (d.setSession i {}) r.now .command fates _ _
        (SyncClient.log_tryInitialSync _ opens r _)
  | resume now =>
      refine ⟨by rw [show d.call i (.resume now) = d.contact i now from rfl,
        staleAtContact_contact, ContactMeets], ?_⟩
      show _ ∉ ((d.contact i now).sessions i).log
      rw [contact, sessions_setSession_self]
      exact List.not_mem_nil
  | _ => exact nomatch he

/-- **The step.** Where the contacts meet the condition, every session stays settled. -/
theorem settled_step {d d' : Device ι} {e : DeviceEvent ι} (hd : ∀ i, Settled (d.sessions i))
    (he : d.ContactMeets e) (h : d.step e = some d') (j : ι) : Settled (d'.sessions j) := by
  cases e with
  | edit op =>
      obtain rfl := Option.some_inj.mp h
      exact hd j
  | elsewhere snapshot =>
      obtain rfl := Option.some_inj.mp h
      exact hd j
  | policy days =>
      obtain rfl := Option.some_inj.mp h
      exact hd j
  | session i e =>
      simp only [step, Option.ite_none_right_eq_some, Option.some_inj] at h
      obtain ⟨-, rfl⟩ := h
      by_cases hj : j = i
      · subst hj
        by_cases hon : goesOn e = true
        · exact (hd j).continues (continues_call d j hon)
        · cases e with
          | startOnline r fates opens => exact settled_startOnline he
          | startOffline =>
              exact settled_of_fresh (congrArg Session.staleAtContact (sessions_setSession_self ..))
          | stop =>
              exact settled_of_fresh (congrArg Session.staleAtContact (sessions_setSession_self ..))
          | recoveryUpload r fates =>
              exact settled_of_fresh ((d.session_call_contact j rfl (by simp)).1.mpr he)
          | openCommand r fates opens =>
              exact settled_of_fresh ((d.session_call_contact j rfl (by simp)).1.mpr he)
          | resume now =>
              exact settled_of_fresh ((d.session_call_contact j rfl (by simp)).1.mpr he)
          | _ => exact (hon rfl).elim
      · rw [sessions_call_of_ne d e hj]
        exact hd j

/-! ### Runs that break the law -/

/-- Some run from here breaks the law. -/
def CanBreak (d : Device ι) : Prop :=
  ∃ es d', Transitions.run step d es = some d' ∧ ¬ d'.Lawful

theorem CanBreak.of_step {d d' : Device ι} {e : DeviceEvent ι} (h : d.step e = some d')
    (hd' : d'.CanBreak) : d.CanBreak := by
  obtain ⟨es, d'', hrun, hbad⟩ := hd'
  exact ⟨e :: es, d'', Transitions.run_cons_eq_some.mpr ⟨d', h, hrun⟩, hbad⟩

omit [DecidableEq ι] in
theorem not_lawful_of_put {d : Device ι} {i : ι} {base : Nat} (h : Exposed (d.sessions i))
    (hput : .put base ∈ (d.sessions i).log) : ¬ d.Lawful := by
  intro hlaw
  obtain ⟨before, after, hlog⟩ := List.append_of_mem hput
  exact h.2 (hlog ▸ List.mem_append_left _ (hlaw i h.1 before base after hlog))

/-- A new file of the device, pending. -/
def newFile : LocalOp := .insert "/a".toList "s" "x_a".toList 1 0 0 none

theorem pendingPaths_newFile (c : SyncClient) (now : Time) :
    ((c.setStore (newFile.apply c.store)).gcTombstones now).pendingPaths ≠ [] := by
  obtain ⟨r, hr, hpending, hlive⟩ : ∃ r, (newFile.apply c.store).lookupAny "/a".toList = some r ∧
      r.syncStatus = .pending ∧ r.deleted = false := by
    rw [newFile, LocalOp.apply, MetadataStore.lookupAny_insert_self]
    cases c.store.lookupAny "/a".toList with
    | none => exact ⟨_, rfl, rfl, rfl⟩
    | some r => exact ⟨_, rfl, rfl, rfl⟩
  refine List.ne_nil_of_mem (a := "/a".toList) (SyncClient.mem_pendingPaths.mpr ⟨r, ?_, hpending⟩)
  exact SyncClient.lookupAny_gcTombstones_of_kept hr (SyncClient.expired_of_live hlive _ _)

/-- An exposed session that is about to upload breaks the law with the first file that is
written. -/
theorem canBreak_of_upload {d : Device ι} {i : ι} {e : SessionEvent} {phase : SessionPhase}
    {r : SyncReading} (tidy : SyncClient → SyncClient)
    (hd : Exposed (d.sessions i)) (hon : goesOn e = true)
    (hen : enabled (d.sessions i).phase e = true)
    (he : ∀ d : Device ι, d.call i e = d.after i phase
      (tidy ((d.client i).uploadMetadata r (d.net i [])).1)
      ((d.client i).uploadMetadata r (d.net i [])).2) : d.CanBreak := by
  obtain ⟨d₁, hd₁⟩ : ∃ d₁ : Device ι, d₁ = { d with
      jbod := { d.jbod with metadataStore := newFile.apply d.jbod.metadataStore } } := ⟨_, rfl⟩
  have hsession : d₁.sessions = d.sessions := by rw [hd₁]
  have hstep : d.step (.edit newFile) = some d₁ := by rw [hd₁]; rfl
  refine CanBreak.of_step hstep ⟨[.session i e], d₁.call i e, ?_, ?_⟩
  · rw [Transitions.run_cons_eq_some]
    exact ⟨_, if_pos (hsession ▸ hen), rfl⟩
  · have hpend : ((d₁.client i).gcTombstones r.now).pendingPaths ≠ [] := by
      rw [hd₁]
      exact pendingPaths_newFile (d.client i) r.now
    obtain ⟨base, hput⟩ := SyncClient.put_mem_uploadMetadata (d₁.net i []) hpend
    have hexp : Exposed (d₁.sessions i) := hsession ▸ hd
    refine not_lawful_of_put (hexp.continues (continues_call d₁ i hon))
      (show Event.put base ∈ _ from ?_)
    rw [he, sessions_after_self]
    exact hput

/-- **Exposure is fatal.** From every phase the session may go on to an upload without asking whether
the device is stale. -/
theorem canBreak_of_exposed {d : Device ι} {i : ι} (hd : Exposed (d.sessions i))
    (hoff : (d.sessions i).phase ≠ .off) (hwait : (d.sessions i).phase ≠ .waiting) :
    d.CanBreak := by
  obtain ⟨r, -⟩ : ∃ _ : SyncReading, True := ⟨⟨0, fun _ => []⟩, trivial⟩
  have cycle : ∀ d : Device ι, Exposed (d.sessions i) → (d.sessions i).phase = .cycle →
      d.CanBreak := fun d hd hp =>
    canBreak_of_upload (e := .upload r []) gcAfterCycle hd rfl (by rw [hp]; rfl) fun _ => rfl
  have idle : ∀ d : Device ι, Exposed (d.sessions i) → (d.sessions i).phase = .idle →
      d.CanBreak := fun d hd hp => by
    refine CanBreak.of_step (e := .session i (.download r [])) (if_pos (by rw [hp]; rfl))
      (cycle _ (hd.continues (continues_call d i rfl)) ?_)
    exact congrArg Session.phase (sessions_after_self d i .cycle _ _)
  cases hp : (d.sessions i).phase with
  | off => exact (hoff hp).elim
  | waiting => exact (hwait hp).elim
  | cycle => exact cycle d hd hp
  | idle => exact idle d hd hp
  | command =>
      exact canBreak_of_upload (e := .uploadIfOnline r []) id hd rfl
        (by rw [hp]; rfl) fun _ => rfl
  | recovering =>
      refine CanBreak.of_step (e := .session i (.recoverySync r [] true)) (if_pos (by rw [hp]; rfl))
        (idle _ (hd.continues (continues_call d i rfl)) ?_)
      exact congrArg Session.phase (sessions_after_self d i .idle _ _)
  | starting =>
      refine CanBreak.of_step (e := .session i (.startUpSync r [] true)) (if_pos (by rw [hp]; rfl))
        (idle _ (hd.continues (continues_call d i rfl)) ?_)
      exact congrArg Session.phase (sessions_after_self d i .idle _ _)
  | keyMismatch =>
      refine CanBreak.of_step (e := .session i (.restoreKey r [] none)) (if_pos (by rw [hp]; rfl))
        (idle _ (hd.continues (continues_call d i rfl)) ?_)
      exact congrArg Session.phase (sessions_after_self d i .idle _ _)

/-- A contact leaves the session in the middle of its calls. -/
theorem phase_call_of_contact {d : Device ι} {i : ι} {e : SessionEvent} (he : isContact e = true)
    (hen : enabled (d.sessions i).phase e = true) :
    ((d.call i e).sessions i).phase ≠ .off ∧ ((d.call i e).sessions i).phase ≠ .waiting := by
  cases e with
  | startOnline r fates opens =>
      unfold call
      dsimp only
      split
      all_goals
        rw [sessions_after_self]
        simp
  | recoveryUpload r fates =>
      rw [call, sessions_after_self]
      simp
  | openCommand r fates opens =>
      rw [call, sessions_after_self]
      simp
  | resume now =>
      rw [call, contact, sessions_setSession_self]
      simpa [enabled] using hen
  | _ => exact nomatch he

theorem canBreak_of_contact {d d' : Device ι} {e : DeviceEvent ι} (h : d.step e = some d')
    (hbad : ¬ d.ContactMeets e) : d'.CanBreak := by
  cases e with
  | edit op => exact (hbad trivial).elim
  | elsewhere snapshot => exact (hbad trivial).elim
  | policy days => exact (hbad trivial).elim
  | session i e =>
      simp only [step, Option.ite_none_right_eq_some, Option.some_inj] at h
      obtain ⟨hen, rfl⟩ := h
      by_cases hcontact : isContact e = true
      · obtain ⟨hoff, hwait⟩ := phase_call_of_contact hcontact hen
        refine canBreak_of_exposed ?_ hoff hwait
        cases e with
        | startOnline r fates opens => exact exposed_startOnline hbad
        | _ =>
            obtain ⟨hstale, hlog⟩ := d.session_call_contact i hcontact (by simp)
            exact ⟨Bool.not_eq_false _ ▸ mt hstale.mp hbad, hlog⟩
      · cases e with
        | startOnline r fates opens => exact (hcontact rfl).elim
        | recoveryUpload r fates => exact (hcontact rfl).elim
        | openCommand r fates opens => exact (hcontact rfl).elim
        | resume now => exact (hcontact rfl).elim
        | _ => exact (hbad trivial).elim

/-- A device whose last success was at time 0. -/
def laptop : Device Unit where
  jbod := SyncClient.emptyVolume (some "laptop")
  deviceName := "laptop".toList
  lastSyncAt := some 0

/-- What the clock reads 31 days later. -/
def monthLater : SyncReading := ⟨31 * 86400, fun _ => []⟩

end Device

end StardustFS
