import StardustFS.ServedSources

/-! Whether the operations of the P2P server agree on the source. Reading refuses a `source_id` that names
no source; writing, deleting, making and removing directories fall back to the first source instead. -/

namespace StardustFS

open PosixFiles (isdir isfile openWrite makedirs rmtree)

namespace Mount

/-! ### When a local source takes nothing -/

variable {α : Type} {m : Mount} {t : PosixFiles.Tree Bytes} {p : Text}

/-- The call raised, and left the source and the files as they were. -/
def Refuses (e : Effect α) (m : Mount) (t : PosixFiles.Tree Bytes) : Prop :=
  (∃ x, e.1 = .error x) ∧ e.2 = (m, t)

/-- A write fails before anything is made, and the source stays in service. -/
def SparesWrite (m : Mount) (t : PosixFiles.Tree Bytes) (p : Text) (data : Bytes) : Prop :=
  let fullPath := m.source.resolve p
  let parent := Text.dirname fullPath
  m.isActive = false ∨
    match m.source with
    | .directory _ =>
        (parent ≠ [] ∧ isdir t parent = false ∧
            (makedirs t parent = (.error .nullCharacter, t) ∨
              makedirs t parent = (.error (.os .fileNotFound), t))) ∨
          ((parent = [] ∨ isdir t parent = true) ∧
            (openWrite t fullPath data = .error .nullCharacter ∨
              openWrite t fullPath data = .error (.os .fileNotFound)))
    | .loopback _ =>
        (0 < (data.length : Int) - fileSize t fullPath ∧
            m.sizeBytes - m.usedBytes < (data.length : Int) - fileSize t fullPath) ∨
          (∃ e, makedirs t parent = (.error e, t)) ∨
          (makedirs t parent = (.ok (), t) ∧ ∃ e, openWrite t fullPath data = .error e)

/-- There is nothing to delete. -/
def SparesDelete (m : Mount) (t : PosixFiles.Tree Bytes) (p : Text) : Prop :=
  m.isActive = false ∨ PosixFiles.pathExists t (m.source.resolve p) = false

/-- No directory can be made there, and the source stays in service. -/
def SparesMkdir (m : Mount) (t : PosixFiles.Tree Bytes) (p : Text) : Prop :=
  m.isActive = false ∨
    match m.source with
    | .directory _ => makedirs t (m.source.resolve p) = (.error .nullCharacter, t)
    | .loopback _ => ∃ e, makedirs t (m.source.resolve p) = (.error e, t)

/-- There is no directory to remove, or only the empty directory of a loopback source under a name that
cannot be removed. -/
def SparesRmdir (m : Mount) (t : PosixFiles.Tree Bytes) (p : Text) : Prop :=
  isdir t (m.source.resolve p) = false ∨ m.isActive = false ∨
    ∃ path, m.source = .loopback path ∧ ∃ e, rmtree t (m.source.resolve p) = (.error e, t)

/-- The source takes nothing of an operation at the path. Of a write it may be known already that the
server refuses its data. -/
def Spares : Operation → Mount → PosixFiles.Tree Bytes → Text → Option Bytes → Prop
  | .write, m, t, p, data => ∀ d, data = some d → m.SparesWrite t p d
  | .delete, m, t, p, _ => m.SparesDelete t p
  | .mkdir, m, t, p, _ => m.SparesMkdir t p
  | .rmdir, m, t, p, _ => m.SparesRmdir t p
  | _, _, _, _, _ => True

theorem refuses_error_iff {x : SourceRaised} {m' : Mount} {t' : PosixFiles.Tree Bytes} :
    Refuses ((.error x, m', t') : Effect α) m t ↔ m' = m ∧ t' = t := by
  simp [Refuses]

theorem not_refuses_ok {a : α} {m' : Mount} {t' : PosixFiles.Tree Bytes} :
    ¬ Refuses ((.ok a, m', t') : Effect α) m t := by
  simp [Refuses]

/-- A source that is in service stays so after a failure that is no `OSError`, after a missing file where
that is passed on, and as a loopback source. -/
theorem failed_eq_iff (hactive : m.isActive = true) {e : PosixFiles.Raised} {spared : Bool} :
    m.failed e spared = m ↔
      (∃ path, m.source = .loopback path) ∨ e = .nullCharacter ∨
        (spared = true ∧ e = .os .fileNotFound) := by
  obtain ⟨source, size, active, used⟩ := m
  obtain rfl : active = true := hactive
  cases source with
  | loopback path => simp [failed]
  | directory path =>
      unfold failed
      simp only [reduceCtorEq, exists_false, false_or]
      split_ifs with h
      · exact iff_of_true rfl h
      · exact iff_of_false (fun heq => by cases congrArg Mount.isActive heq) h

theorem refuses_mkdir_iff : Refuses (m.mkdir t p) m t ↔ m.SparesMkdir t p := by
  unfold mkdir SparesMkdir
  by_cases hactive : m.isActive = true
  · simp only [hactive, Bool.not_true, Bool.false_eq_true, if_false, Bool.true_eq_false, false_or]
    generalize m.source.resolve p = fullPath
    rcases makedirs t fullPath with ⟨e | _, made⟩
    · simp only
      rw [refuses_error_iff, failed_eq_iff hactive]
      cases m.source with
      | directory path => simp
      | loopback path => simp
    · refine iff_of_false not_refuses_ok ?_
      cases m.source with
      | directory path => simp
      | loopback path => simp
  · rw [Bool.not_eq_true] at hactive
    simp [hactive, refuses_error_iff]

/-- What is there is deleted, or the source goes out of service. -/
theorem not_refuses_delete (hactive : m.isActive = true)
    (hexists : PosixFiles.pathExists t (m.source.resolve p) = true) : ¬ Refuses (m.delete t p) m t := by
  unfold delete
  simp only [hactive, Bool.not_true, Bool.false_eq_true, if_false]
  revert hexists
  generalize m.source.resolve p = fullPath
  intro hexists
  rw [PosixFiles.pathExists, Bool.or_eq_true] at hexists
  by_cases hfile : isfile t fullPath = true
  · obtain ⟨removed, hremove⟩ := PosixFiles.remove_of_isfile hfile
    cases hsource : m.source with
    | directory path =>
        simp only [hremove]
        exact not_refuses_ok
    | loopback path =>
        simp only [hremove, hfile, if_true]
        exact not_refuses_ok
  · have hdir := hexists.resolve_right hfile
    cases hsource : m.source with
    | directory path =>
        simp only [PosixFiles.remove_of_isdir hdir]
        rw [refuses_error_iff, and_iff_left rfl, failed_eq_iff hactive]
        simp [hsource]
    | loopback path =>
        simp only [hfile]
        exact not_refuses_ok

theorem refuses_rmdir_iff (hdir : isdir t (m.source.resolve p) = true) :
    Refuses (m.rmdir t p) m t ↔ m.SparesRmdir t p := by
  unfold rmdir SparesRmdir
  by_cases hactive : m.isActive = true
  · simp only [hactive, hdir, Bool.not_true, Bool.false_eq_true, Bool.true_eq_false, if_false, if_true,
      false_or]
    revert hdir
    generalize m.source.resolve p = fullPath
    intro hdir
    have hnull := PosixFiles.rmtree_ne_null hdir
    rcases hremoval : rmtree t fullPath with ⟨e | u, t'⟩
    · rw [hremoval] at hnull
      have he : e ≠ .nullCharacter := fun h => hnull (congrArg Except.error h)
      cases hsource : m.source with
      | directory path =>
          simp only [reduceCtorEq, false_and, exists_false, iff_false]
          rw [refuses_error_iff, failed_eq_iff hactive]
          simp [hsource, he]
      | loopback path =>
          simp only
          rw [refuses_error_iff, failed_eq_iff hactive]
          simp [hsource]
    · refine iff_of_false ?_ (by simp)
      cases hsource : m.source with
      | directory path => exact not_refuses_ok
      | loopback path => exact not_refuses_ok
  · rw [Bool.not_eq_true] at hactive
    simp [hactive, refuses_error_iff]

theorem refuses_write_iff {data : Bytes} :
    Refuses (m.write t p data) m t ↔ m.SparesWrite t p data := by
  unfold write SparesWrite
  by_cases hactive : m.isActive = true
  · simp only [hactive, Bool.not_true, Bool.false_eq_true, if_false, Bool.true_eq_false, false_or]
    generalize m.source.resolve p = fullPath
    cases hsource : m.source with
    | directory path =>
        simp only
        by_cases hmissing : Text.dirname fullPath ≠ [] ∧ isdir t (Text.dirname fullPath) = false
        · rw [if_pos hmissing]
          obtain ⟨hne, hnodir⟩ := hmissing
          simp only [ne_eq, hne, hnodir, not_false_eq_true, Bool.false_eq_true, or_self, false_and, or_false,
            true_and]
          have hchanged : makedirs t (Text.dirname fullPath) = (.ok (), t) →
              isdir t (Text.dirname fullPath) = true := PosixFiles.isdir_of_makedirs
          rcases hmake : makedirs t (Text.dirname fullPath) with ⟨e | _, made⟩
          · simp only
            rw [refuses_error_iff, failed_eq_iff hactive]
            simp only [hsource, reduceCtorEq, exists_false, false_or, true_and, Prod.mk.injEq,
              Except.error.injEq]
            tauto
          · -- the parent has been made, whatever comes after it
            have hmade : made ≠ t := by
              rintro rfl
              rw [hchanged hmake] at hnodir
              cases hnodir
            refine iff_of_false ?_ (by simp)
            simp only
            cases openWrite made fullPath data with
            | error e => exact fun h => hmade (refuses_error_iff.mp h).2
            | ok written => exact not_refuses_ok
        · rw [if_neg hmissing]
          have hthere : Text.dirname fullPath = [] ∨ isdir t (Text.dirname fullPath) = true := by
            by_contra h
            obtain ⟨hne, hnodir⟩ := not_or.mp h
            exact hmissing ⟨hne, by simpa using hnodir⟩
          have hnone : ¬ (Text.dirname fullPath ≠ [] ∧ isdir t (Text.dirname fullPath) = false ∧
              (makedirs t (Text.dirname fullPath) = (.error .nullCharacter, t) ∨
                makedirs t (Text.dirname fullPath) = (.error (.os .fileNotFound), t))) :=
            fun h => hmissing ⟨h.1, h.2.1⟩
          rw [or_iff_right hnone, and_iff_right hthere]
          simp only
          cases openWrite t fullPath data with
          | error e =>
              rw [refuses_error_iff, and_iff_left rfl, failed_eq_iff hactive]
              simp [hsource]
          | ok written => exact iff_of_false not_refuses_ok (by simp)
    | loopback path =>
        simp only
        by_cases hspace : 0 < (data.length : Int) - fileSize t fullPath ∧
            m.sizeBytes - m.usedBytes < (data.length : Int) - fileSize t fullPath
        · rw [if_pos hspace]
          exact iff_of_true (refuses_error_iff.mpr ⟨rfl, rfl⟩) (Or.inl hspace)
        · rw [if_neg hspace]
          simp only [hspace, false_or]
          rcases makedirs t (Text.dirname fullPath) with ⟨e | _, made⟩
          · simp [refuses_error_iff]
          · simp only [Prod.mk.injEq, reduceCtorEq, false_and, exists_false, true_and, false_or]
            by_cases hmade : made = t
            · rw [hmade]
              cases openWrite t fullPath data with
              | error e => simp [refuses_error_iff]
              | ok written => exact iff_of_false not_refuses_ok (by simp)
            · simp only [hmade, false_and, iff_false]
              cases openWrite made fullPath data with
              | error e => exact fun h => hmade (refuses_error_iff.mp h).2
              | ok written => exact not_refuses_ok
  · rw [Bool.not_eq_true] at hactive
    simp [hactive, refuses_error_iff]

/-! ### Reading what a local source has written -/

/-- A write that goes through is an `open` for writing in the end. -/
theorem openWrite_of_write {m' : Mount} {t' : PosixFiles.Tree Bytes} {data : Bytes}
    (h : m.write t p data = (.ok (), m', t')) :
    m.isActive = true ∧ m'.source = m.source ∧ m'.isActive = true ∧
      ∃ made, openWrite made (m.source.resolve p) data = .ok t' := by
  unfold write at h
  by_cases hactive : m.isActive = true
  · simp only [hactive, Bool.not_true, Bool.false_eq_true, if_false] at h
    revert h
    generalize m.source.resolve p = fullPath
    intro h
    refine ⟨hactive, ?_⟩
    cases hsource : m.source with
    | directory path =>
        rw [hsource] at h
        simp only at h
        split at h
        · cases h
        · rename_i made _
          cases hwrite : openWrite made fullPath data with
          | error e =>
              rw [hwrite] at h
              cases h
          | ok written =>
              rw [hwrite] at h
              cases h
              exact ⟨hsource, hactive, made, hwrite⟩
    | loopback path =>
        rw [hsource] at h
        simp only at h
        split at h
        · cases h
        · split at h
          · cases h
          · rename_i made _
            cases hwrite : openWrite made fullPath data with
            | error e =>
                rw [hwrite] at h
                cases h
            | ok written =>
                rw [hwrite] at h
                cases h
                exact ⟨rfl, rfl, made, hwrite⟩
  · rw [Bool.not_eq_true] at hactive
    simp [hactive] at h

theorem read_of_write {m' : Mount} {t' : PosixFiles.Tree Bytes} {data : Bytes}
    (h : m.write t p data = (.ok (), m', t')) : m'.read t' p = (.ok data, m', t') := by
  obtain ⟨-, hsource, hactive', made, hwrite⟩ := openWrite_of_write h
  rw [← hsource] at hwrite
  simp only [read, hactive', Bool.not_true, Bool.false_eq_true, if_false,
    PosixFiles.openRead_of_openWrite hwrite]

/-- What can only be a directory is not written. -/
theorem write_ne_ok (hends : PosixFiles.endsAsDirectory (m.source.resolve p) = true) (data : Bytes) :
    (m.write t p data).1 ≠ .ok () := by
  intro h
  have hwritten : m.write t p data = (.ok (), (m.write t p data).2.1, (m.write t p data).2.2) :=
    Prod.ext h rfl
  obtain ⟨-, -, -, made, hwrite⟩ := openWrite_of_write hwritten
  exact PosixFiles.openWrite_of_endsAsDirectory hends made _ data hwrite

end Mount

namespace Hosts

/-- The operations that change a source. -/
def changing : List Operation := [.write, .delete, .mkdir, .rmdir]

/-- The operation raised or answered an error, and nothing has changed. -/
def Refused (o : Outcome) (net : Hosts) : Prop :=
  (∀ r, o.1 = some r → 400 ≤ r.status) ∧ o.2 = net

/-- A call of a source's method raised, and nothing has changed. -/
def Refuses {α : Type} (c : Except SourceRaised α × Hosts) (net : Hosts) : Prop :=
  (∃ e, c.1 = .error e) ∧ c.2 = net

/-- The data that a write hands on. -/
def acceptedData (body : Body) : Option Bytes :=
  (decodeData body).filter fun data => decide (data.length ≤ maxWriteSize)

/-- The payload of the request that a proxy sends for an operation. -/
def forwarded (op : Operation) (physicalPath : Text) (body : Body) : Option Body :=
  match op with
  | .write =>
      (acceptedData body).map fun data =>
        pathOnly physicalPath ++ [("data".toList, .str (Base64.b64encode data))]
  | _ => some (pathOnly physicalPath)

/-- The other device decodes the bytes that the proxy was given. -/
theorem acceptedData_forwarded {p : Text} {body payload : Body}
    (h : forwarded .write p body = some payload) : acceptedData payload = acceptedData body := by
  obtain ⟨data, hdata, rfl⟩ := Option.map_eq_some_iff.mp h
  have hdecoded : decodeData (pathOnly p ++ [("data".toList, .str (Base64.b64encode data))]) =
      some data := Base64.b64decode_b64encode data
  have hlength : data.length ≤ maxWriteSize :=
    of_decide_eq_true (Option.filter_eq_some_iff.mp hdata).2
  rw [hdata, acceptedData, hdecoded, Option.filter_some, if_pos (decide_eq_true hlength)]

/-- What is asked of the first source of a device comes to nothing: the path is rejected, a local source
takes nothing at the path, a proxy is not answered or its device's first source takes nothing. -/
def Spares : Nat → Operation → Hosts → DeviceId → Body → Prop
  | hops, op, net, device, body =>
      ∀ id s, (net device).sources.head? = some (id, s) →
        ∀ p, net.checkedPath device 0 body = some (.ok p) →
          match s with
          | .local m => m.Spares op (net device).tree p (acceptedData body)
          | .remote target answers =>
              answers = true →
                (op = .rmdir → isdir (net device).tree (Text.joinPath (net.rootAt device 0) p) = true) →
                  match hops with
                  | 0 => True
                  | hops + 1 => ∀ payload, forwarded op p body = some payload →
                      Spares hops op net target payload

/-- What a changing operation does on a source. -/
def onSource (peer : Peer) (net : Hosts) (op : Operation) (device : DeviceId) (body : Body) (i : Nat) :
    Outcome :=
  match op with
  | .write => net.writeOn peer device body i
  | .delete => net.deleteOn peer device body i
  | .mkdir => net.mkdirOn peer device body i
  | .rmdir => net.rmdirOn peer device body i
  | _ => (none, net)

/-! ### A call on a source -/

section Calls

variable {α : Type} {peer : Peer} {net : Hosts} {device target : DeviceId} {answers : Bool} {i : Nat}
  {id : Text} {m m' : Mount} {t' : PosixFiles.Tree Bytes} {op : Operation} {payload body : Body}
  {p : Text} {data : Bytes}

theorem setMount_eq_iff (h : (net device).sources[i]? = some (id, .local m)) :
    net.setMount device i id m' t' = net ↔ m' = m ∧ t' = (net device).tree := by
  unfold setMount
  rw [Function.update_eq_self_iff]
  revert h
  rcases net device with ⟨sources, tree⟩
  intro h
  obtain ⟨hi, hget⟩ := List.getElem?_eq_some_iff.mp h
  simp only [P2PHost.mk.injEq]
  refine and_congr_left fun _ => ⟨fun hset => ?_, ?_⟩
  · have hself : (sources.set i (id, .local m'))[i]? = some (id, .local m') := by simp [hi]
    rw [hset, h] at hself
    simpa using hself.symm
  · rintro rfl
    rw [← hget, List.set_getElem_self]

theorem onServed_local {onMount : Mount → PosixFiles.Tree Bytes → Mount.Effect α}
    {result : Value → Except SourceRaised α} (h : (net device).sources[i]? = some (id, .local m)) :
    net.onServed peer device i onMount op payload result =
      ((onMount m (net device).tree).1,
        net.setMount device i id (onMount m (net device).tree).2.1 (onMount m (net device).tree).2.2) := by
  unfold onServed
  rw [h]

/-- What the server joins is what the source resolves. -/
theorem joinPath_rootAt (h : (net device).sources[i]? = some (id, .local m)) (p : Text) :
    Text.joinPath (net.rootAt device i) p = m.source.resolve p := by
  rw [m.source.resolve_eq, rootAt, h]
  rfl

theorem sourceExists_local (h : (net device).sources[i]? = some (id, .local m)) :
    net.sourceExists peer device i p = (m.pathExists (net device).tree p, net) := by
  rw [sourceExists, onServed_local h]
  exact Prod.ext rfl ((setMount_eq_iff h).mpr ⟨rfl, rfl⟩)

/-- A local source refuses a call where its method does. -/
theorem refuses_local_iff {onMount : Mount → PosixFiles.Tree Bytes → Mount.Effect α}
    {result : Value → Except SourceRaised α} (h : (net device).sources[i]? = some (id, .local m)) :
    Refuses (net.onServed peer device i onMount op payload result) net ↔
      Mount.Refuses (onMount m (net device).tree) m (net device).tree := by
  rw [onServed_local h, Refuses, Mount.Refuses, setMount_eq_iff h, Prod.ext_iff]

/-- A proxy refuses a call where its device is out of reach or refuses the request. -/
theorem refuses_remote_iff {onMount : Mount → PosixFiles.Tree Bytes → Mount.Effect α}
    {result : Value → Except SourceRaised α} (hresult : ∀ v, ∃ a, result v = .ok a)
    (h : (net device).sources[i]? = some (id, .remote target answers)) :
    Refuses (net.onServed peer device i onMount op payload result) net ↔
      (answers = true → Refused (peer op net target payload) net) := by
  unfold onServed p2pRequest
  rw [h]
  cases answers with
  | false => simp [Refuses]
  | true =>
      simp only [Bool.not_true, Bool.false_eq_true, if_false, true_implies]
      rcases peer op net target payload with ⟨_ | r, net'⟩
      · simp [Refuses, Refused]
      · by_cases hstatus : 400 ≤ r.status
        · simp [Refuses, Refused, hstatus]
        · obtain ⟨a, ha⟩ := hresult r.result
          simp [Refuses, Refused, hstatus, ha]

theorem status_of_validatePathErr {v : Value} {root : Text} {answer : Response}
    (h : P2PServer.validatePathErr v root = some answer) : 400 ≤ answer.status := by
  unfold P2PServer.validatePathErr at h
  split_ifs at h with hempty
  · obtain rfl := Option.some.inj h
    exact Nat.le_refl _
  · cases hstr : v.str? with
    | none =>
        rw [hstr] at h
        obtain rfl := Option.some.inj h
        decide
    | some path =>
        rw [hstr] at h
        simp only at h
        split_ifs at h
        · obtain rfl := Option.some.inj h
          exact Nat.le_refl _
        · obtain rfl := Option.some.inj h
          exact Nat.le_refl _

theorem status_of_checkedPath {answer : Response}
    (h : net.checkedPath device i body = some (.error answer)) : 400 ≤ answer.status := by
  unfold checkedPath at h
  simp only at h
  split at h
  · cases h
  · split at h
    · rename_i hcheck
      obtain rfl : _ = answer := Except.error.inj (Option.some.inj h)
      exact status_of_validatePathErr hcheck
    · cases h

theorem refused_withPath_iff {rest : Text → Outcome} :
    Refused (net.withPath device i body rest) net ↔
      ∀ p, net.checkedPath device i body = some (.ok p) → Refused (rest p) net := by
  unfold withPath
  rcases hchecked : net.checkedPath device i body with _ | answer | p
  · simp [Refused]
  · simpa [Refused] using status_of_checkedPath hchecked
  · simp

theorem refused_mkdirOn_iff : Refused (net.mkdirOn peer device body i) net ↔
    ∀ p, net.checkedPath device i body = some (.ok p) → Refuses (net.sourceMkdir peer device i p) net := by
  unfold mkdirOn
  rw [refused_withPath_iff]
  refine forall₂_congr fun p _ => ?_
  rcases net.sourceMkdir peer device i p with ⟨e | a, net'⟩
  · simp [Refused, Refuses]
  · simp [Refused, Refuses]

theorem refused_writeOn_iff : Refused (net.writeOn peer device body i) net ↔
    ∀ p, net.checkedPath device i body = some (.ok p) → ∀ data, acceptedData body = some data →
      Refuses (net.sourceWrite peer device i p data) net := by
  unfold writeOn
  rw [refused_withPath_iff]
  refine forall₂_congr fun p _ => ?_
  unfold acceptedData
  cases decodeData body with
  | none => simp [Refused, errorResponse]
  | some data =>
      by_cases hsize : maxWriteSize < data.length
      · simp [Refused, errorResponse, Option.filter, hsize]
      · simp only [hsize, if_false, Option.filter, Nat.not_lt.mp hsize, decide_true, if_true,
          Option.some_inj, forall_eq']
        rcases net.sourceWrite peer device i p data with ⟨e | a, net'⟩
        · simp [Refused, Refuses]
        · simp [Refused, Refuses]

theorem refused_rmdirOn_iff : Refused (net.rmdirOn peer device body i) net ↔
    ∀ p, net.checkedPath device i body = some (.ok p) →
      isdir (net device).tree (Text.joinPath (net.rootAt device i) p) = true →
        Refuses (net.sourceRmdir peer device i p) net := by
  unfold rmdirOn
  rw [refused_withPath_iff]
  refine forall₂_congr fun p _ => ?_
  cases hdir : isdir (net device).tree (Text.joinPath (net.rootAt device i) p) with
  | false => simp [Refused, errorResponse, hdir]
  | true =>
      simp only [hdir, Bool.true_eq_false, if_false, true_implies]
      rcases net.sourceRmdir peer device i p with ⟨e | a, net'⟩
      · simp [Refused, Refuses]
      · simp [Refused, Refuses]

theorem refused_deleteOn_iff (hsame : ∀ p, (net.sourceExists peer device i p).2 = net) :
    Refused (net.deleteOn peer device body i) net ↔
      ∀ p, net.checkedPath device i body = some (.ok p) →
        (net.sourceExists peer device i p).1 = .ok true →
          Refuses (net.sourceDelete peer device i p) net := by
  unfold deleteOn
  rw [refused_withPath_iff]
  refine forall₂_congr fun p _ => ?_
  have hnet := hsame p
  rcases hcall : net.sourceExists peer device i p with ⟨e | found, net'⟩
  · rw [hcall] at hnet
    simpa [Refused] using hnet
  · rw [hcall] at hnet
    obtain rfl : net' = net := hnet
    cases found with
    | false => simp [Refused, errorResponse]
    | true =>
        simp only [true_implies]
        rcases net'.sourceDelete peer device i p with ⟨e | a, net''⟩
        · by_cases hnot : e.isFileNotFound = true
          · simp [Refused, Refuses, errorResponse, hnot]
          · simp [Refused, Refuses, hnot]
        · simp [Refused, Refuses]

end Calls

/-! ### The operations that fall back to the first source -/

section FallBack

variable {reports : Reports} {hops : Nat} {op : Operation} {net : Hosts} {device target : DeviceId}
  {body payload : Body} {peer : Peer} {i : Nat} {p : Text}

/-- What a request to another device comes to when that many hops are left. -/
def peerAt (reports : Reports) : Nat → Peer
  | 0 => fun _ net _ _ => (none, net)
  | hops + 1 => serve reports hops

theorem serve_changing (hop : op ∈ changing) : serve reports hops op net device body =
    net.onSelectedOrFirst device body (net.onSource (peerAt reports hops) op device body) := by
  simp only [changing, List.mem_cons, List.not_mem_nil, or_false] at hop
  rcases hop with rfl | rfl | rfl | rfl
  · cases hops <;> rfl
  · cases hops <;> rfl
  · cases hops <;> rfl
  · cases hops <;> rfl

theorem serve_exists : serve reports hops .exists net device body =
    net.opExists (peerAt reports hops) device body := by
  cases hops <;> rfl

theorem sourceExists_same (hpeer : ∀ net target payload, (peer .exists net target payload).2 = net) :
    (net.sourceExists peer device i p).2 = net := by
  unfold sourceExists onServed
  split
  · rfl
  · rename_i h
    exact (setMount_eq_iff h).mpr ⟨rfl, rfl⟩
  · rename_i target answers h
    unfold p2pRequest
    cases answers with
    | false => rfl
    | true =>
        have hsame := hpeer net target (pathOnly p)
        rcases hanswer : peer .exists net target (pathOnly p) with ⟨_ | r, net'⟩
        · rw [hanswer] at hsame
          exact hsame
        · rw [hanswer] at hsame
          by_cases hstatus : 400 ≤ r.status
          · simpa [hstatus] using hsame
          · simpa [hstatus] using hsame

theorem opExists_same (hcall : ∀ i p, (net.sourceExists peer device i p).2 = net) :
    (net.opExists peer device body).2 = net := by
  unfold opExists onSelected
  rcases (net device).selectSourceOrError body with _ | answer | i
  · rfl
  · rfl
  · simp only [withPath]
    rcases net.checkedPath device i body with _ | answer | p
    · rfl
    · rfl
    · have hsame := hcall i p
      simp only
      rcases hcall : net.sourceExists peer device i p with ⟨e | found, net'⟩
      · rw [hcall] at hsame
        exact hsame
      · rw [hcall] at hsame
        exact hsame

theorem serve_exists_same : (serve reports hops .exists net device body).2 = net := by
  induction hops generalizing net device body with
  | zero =>
      rw [serve_exists]
      exact opExists_same fun i p => sourceExists_same fun _ _ _ => rfl
  | succ hops ih =>
      rw [serve_exists]
      exact opExists_same fun i p => sourceExists_same fun _ _ _ => ih

theorem peerAt_exists_same (net : Hosts) (target : DeviceId) (payload : Body) :
    (peerAt reports hops .exists net target payload).2 = net := by
  cases hops with
  | zero => rfl
  | succ hops => exact serve_exists_same

/-- Without a source by the body there is the first one, and the answer for a device that has none. -/
def ServesFirst (net : Hosts) (device : DeviceId) (body : Body) : Prop :=
  ∀ rest, net.onSelectedOrFirst device body rest =
    if (net device).sources = [] then (some (errorResponse 404 "No source available"), net) else rest 0

theorem servesFirst_of_absent (h : (body.get "source_id").truthy = false) :
    ServesFirst net device body := by
  intro rest
  unfold onSelectedOrFirst P2PHost.selectSourceOrError
  simp only [h, Bool.false_eq_true, if_false]
  split_ifs with hnone
  · simp
  · rfl

/-- A local source in first place. -/
theorem refused_onSource_local_iff {id : Text} {m : Mount} (hop : op ∈ changing)
    (hfirst : (net device).sources[i]? = some (id, .local m))
    (hpeer : ∀ net target payload, (peer .exists net target payload).2 = net) :
    Refused (net.onSource peer op device body i) net ↔
      ∀ p, net.checkedPath device i body = some (.ok p) →
        m.Spares op (net device).tree p (acceptedData body) := by
  simp only [changing, List.mem_cons, List.not_mem_nil, or_false] at hop
  rcases hop with rfl | rfl | rfl | rfl
  · refine refused_writeOn_iff.trans (forall₂_congr fun p _ => forall₂_congr fun data _ => ?_)
    exact (refuses_local_iff hfirst).trans Mount.refuses_write_iff
  · refine (refused_deleteOn_iff fun p => sourceExists_same hpeer).trans (forall₂_congr fun p _ => ?_)
    rw [sourceExists_local hfirst, sourceDelete, refuses_local_iff hfirst]
    simp only [Mount.Spares, Mount.SparesDelete, Mount.pathExists]
    cases hactive : m.isActive with
    | false => simp
    | true =>
        cases hthere : PosixFiles.pathExists (net device).tree (m.source.resolve p) with
        | false => simp
        | true => simpa using Mount.not_refuses_delete hactive hthere
  · refine refused_mkdirOn_iff.trans (forall₂_congr fun p _ => ?_)
    exact (refuses_local_iff hfirst).trans Mount.refuses_mkdir_iff
  · refine refused_rmdirOn_iff.trans (forall₂_congr fun p _ => ?_)
    rw [joinPath_rootAt hfirst, sourceRmdir, refuses_local_iff hfirst]
    by_cases hdir : isdir (net device).tree (m.source.resolve p) = true
    · rw [Mount.refuses_rmdir_iff hdir]
      simp only [hdir, true_implies, Mount.Spares]
    · simp only [hdir, Mount.Spares, Mount.SparesRmdir]
      simp

/-- The request of a proxy in first place. -/
theorem refused_onSource_remote_iff {id : Text} {answers : Bool} (hop : op ∈ changing)
    (hfirst : (net device).sources[i]? = some (id, .remote target answers))
    (hpeer : ∀ net target payload, (peer .exists net target payload).2 = net)
    (hfound : ∀ p, (peer .exists net target (pathOnly p)).1 ≠
        some ⟨200, .dict [("exists".toList, .bool true)]⟩ →
      Refused (peer .delete net target (pathOnly p)) net) :
    Refused (net.onSource peer op device body i) net ↔
      ∀ p, net.checkedPath device i body = some (.ok p) → answers = true →
        (op = .rmdir → isdir (net device).tree (Text.joinPath (net.rootAt device i) p) = true) →
          ∀ payload, forwarded op p body = some payload → Refused (peer op net target payload) net := by
  have hok : ∀ v : Value, ∃ a, (fun _ => .ok () : Value → Except SourceRaised Unit) v = .ok a :=
    fun _ => ⟨(), rfl⟩
  simp only [changing, List.mem_cons, List.not_mem_nil, or_false] at hop
  rcases hop with rfl | rfl | rfl | rfl
  · refine refused_writeOn_iff.trans (forall₂_congr fun p _ => ?_)
    simp only [sourceWrite, refuses_remote_iff hok hfirst, forwarded]
    cases acceptedData body with
    | none => simp
    | some data => simp
  · refine (refused_deleteOn_iff fun p => sourceExists_same hpeer).trans (forall₂_congr fun p _ => ?_)
    simp only [sourceDelete, refuses_remote_iff hok hfirst, forwarded, reduceCtorEq, false_implies,
      true_implies, Option.some_inj, forall_eq']
    refine ⟨fun h hanswers => ?_, fun h _ => h⟩
    by_cases hthere : (peer .exists net target (pathOnly p)).1 =
        some ⟨200, .dict [("exists".toList, .bool true)]⟩
    · refine h ?_ hanswers
      unfold sourceExists onServed p2pRequest
      simp only [hfirst, hanswers]
      rcases hcall : peer .exists net target (pathOnly p) with ⟨answer, net'⟩
      rw [hcall] at hthere
      obtain rfl : answer = _ := hthere
      rfl
    · exact hfound p hthere
  · refine refused_mkdirOn_iff.trans (forall₂_congr fun p _ => ?_)
    simp only [sourceMkdir, refuses_remote_iff hok hfirst, forwarded]
    simp
  · refine refused_rmdirOn_iff.trans (forall₂_congr fun p _ => ?_)
    simp only [sourceRmdir, refuses_remote_iff hok hfirst, forwarded]
    simp only [true_implies, Option.some_inj, forall_eq']
    exact forall_comm

/-- Where the other device does not find the path, it has nothing to delete. -/
theorem refused_delete_of_not_found (hfirst : ServesFirst net device body)
    (habsent : (body.get "source_id").truthy = false)
    (h : (serve reports hops .exists net device body).1 ≠
      some ⟨200, .dict [("exists".toList, .bool true)]⟩) :
    Refused (serve reports hops .delete net device body) net := by
  rw [serve_changing (by decide), hfirst]
  split_ifs with hnone
  · simp [Refused, errorResponse]
  · refine (refused_deleteOn_iff fun p => sourceExists_same peerAt_exists_same).mpr ?_
    intro p hchecked hexists
    exfalso
    apply h
    rw [serve_exists, opExists, onSelected, P2PHost.selectSourceOrError]
    simp only [habsent, hnone, Bool.false_eq_true, if_false, withPath, hchecked]
    rcases hcall : net.sourceExists (peerAt reports hops) device 0 p with ⟨result, net'⟩
    rw [hcall] at hexists
    obtain rfl : result = .ok true := hexists
    rfl

theorem peerAt_delete_of_not_found
    (h : (peerAt reports hops .exists net target (pathOnly p)).1 ≠
      some ⟨200, .dict [("exists".toList, .bool true)]⟩) :
    Refused (peerAt reports hops .delete net target (pathOnly p)) net := by
  cases hops with
  | zero => simp [peerAt, Refused]
  | succ hops => exact refused_delete_of_not_found (servesFirst_of_absent rfl) rfl h

/-- What is left to show of the first source: a request is refused where the other device's first source
is spared. -/
def SparesAt (hops : Nat) (op : Operation) (net : Hosts) (target : DeviceId) (payload : Body) : Prop :=
  match hops with
  | 0 => True
  | hops + 1 => Spares hops op net target payload

theorem refused_serve_step (hop : op ∈ changing) (hfirst : ServesFirst net device body)
    (hpeer : ∀ target p payload, forwarded op p body = some payload →
      (Refused (peerAt reports hops op net target payload) net ↔ SparesAt hops op net target payload)) :
    Refused (serve reports hops op net device body) net ↔ Spares hops op net device body := by
  rw [serve_changing hop, hfirst]
  unfold Spares
  rcases hsources : (net device).sources with _ | ⟨⟨id, s⟩, rest⟩
  · simp [Refused, errorResponse]
  · have hget : (net device).sources[0]? = some (id, s) := by rw [hsources]; rfl
    have hhead : ∀ P : Text → Served → Prop,
        (∀ id' s', some (id, s) = some (id', s') → P id' s') ↔ P id s :=
      fun P => ⟨fun h => h id s rfl, fun h id' s' heq => by cases heq; exact h⟩
    simp only [reduceCtorEq, if_false, List.head?_cons]
    refine Iff.trans ?_ (hhead _).symm
    cases s with
    | «local» m => exact refused_onSource_local_iff hop hget peerAt_exists_same
    | remote target answers =>
        refine (refused_onSource_remote_iff hop hget peerAt_exists_same
          fun p => peerAt_delete_of_not_found).trans ?_
        refine forall₂_congr fun p _ => forall₂_congr fun _ _ => ?_
        refine (forall₂_congr fun payload hpayload => hpeer target p payload hpayload).trans ?_
        cases hops with
        | zero => simp [SparesAt]
        | succ hops => exact Iff.rfl

/-- A request of a proxy names no source. -/
theorem absent_of_forwarded (h : forwarded op p body = some payload) :
    (payload.get "source_id").truthy = false := by
  unfold forwarded at h
  split at h
  · obtain ⟨data, -, rfl⟩ := Option.map_eq_some_iff.mp h
    rfl
  · obtain rfl := Option.some.inj h
    rfl

/-- An operation that goes to the first source is refused where that source is spared. -/
theorem refused_serve_iff (hop : op ∈ changing) (hfirst : ServesFirst net device body) :
    Refused (serve reports hops op net device body) net ↔ Spares hops op net device body := by
  induction hops generalizing net device body with
  | zero => exact refused_serve_step hop hfirst fun _ _ _ _ => by simp [peerAt, Refused, SparesAt]
  | succ hops ih =>
      refine refused_serve_step hop hfirst fun target p payload hpayload => ?_
      exact ih (servesFirst_of_absent (absent_of_forwarded hpayload))

end FallBack

/-! ### Reading back -/

section ReadBack

variable {reports : Reports} {hops : Nat} {net net' : Hosts} {device target : DeviceId}
  {body body' : Body} {peer : Peer} {i : Nat} {p : Text} {r : Response}

/-- The bodies name the same source and the same path. -/
def SameTarget (body body' : Body) : Prop :=
  body.get "source_id" = body'.get "source_id" ∧
    P2PServer.physicalPath body = P2PServer.physicalPath body'

/-- A write that is answered with 200 has handed data to the source, and the source has taken it. -/
theorem writeOn_ok (h : net.writeOn peer device body i = (some r, net')) (hstatus : r.status < 400) :
    ∃ p data, net.checkedPath device i body = some (.ok p) ∧ decodeData body = some data ∧
      net.sourceWrite peer device i p data = (.ok (), net') := by
  unfold writeOn withPath at h
  rcases hchecked : net.checkedPath device i body with _ | answer | p
  · rw [hchecked] at h
    cases h
  · rw [hchecked] at h
    obtain ⟨hr, -⟩ := Prod.mk.inj h
    obtain rfl := Option.some.inj hr
    exact absurd (status_of_checkedPath hchecked) (Nat.not_le.mpr hstatus)
  · rw [hchecked] at h
    simp only at h
    cases hdata : decodeData body with
    | none =>
        rw [hdata] at h
        cases h
        exact absurd hstatus (by decide)
    | some data =>
        rw [hdata] at h
        simp only at h
        split at h
        · cases h
          exact absurd hstatus (by decide)
        · rcases hwrite : net.sourceWrite peer device i p data with ⟨e | u, net''⟩
          · rw [hwrite] at h
            cases h
          · rw [hwrite] at h
            cases h
            exact ⟨p, data, rfl, rfl, hwrite⟩

/-- The path that is checked is the one of the body. -/
theorem physicalPath_of_checkedPath (h : net.checkedPath device i body = some (.ok p)) :
    P2PServer.physicalPath body = .str p ∧
      P2PServer.validatePathErr (.str p) (net.rootAt device i) = none := by
  unfold checkedPath at h
  simp only at h
  split at h
  · cases h
  · split at h
    · cases h
    · rename_i hcheck
      obtain ⟨p', hp', -⟩ := P2PServer.plain_of_validatePathErr hcheck
      rw [hp'] at h hcheck
      obtain rfl : p' = p := Except.ok.inj (Option.some.inj h)
      exact ⟨hp', hcheck⟩

/-- A source takes data into its own files, or its device answers that it has. -/
theorem sourceWrite_ok {data : Bytes} (h : net.sourceWrite peer device i p data = (.ok (), net')) :
    (∃ id m m' t', (net device).sources[i]? = some (id, .local m) ∧
        m.write (net device).tree p data = (.ok (), m', t') ∧ net' = net.setMount device i id m' t') ∨
      ∃ id target payload r, (net device).sources[i]? = some (id, .remote target true) ∧
        P2PServer.physicalPath payload = .str p ∧ (peer .write net target payload).1 = some r ∧
          r.status < 400 := by
  unfold sourceWrite at h
  rcases hget : (net device).sources[i]? with _ | ⟨id, m | ⟨target, answers⟩⟩
  · rw [onServed, hget] at h
    cases h
  · rw [onServed_local hget] at h
    obtain ⟨hwrite, rfl⟩ := Prod.mk.inj h
    exact Or.inl ⟨id, m, _, _, rfl, Prod.ext hwrite rfl, rfl⟩
  · right
    rw [onServed, hget] at h
    cases answers with
    | false => cases h
    | true =>
        simp only [p2pRequest, Bool.not_true, Bool.false_eq_true, if_false] at h
        refine ⟨id, target, pathOnly p ++ [("data".toList, .str (Base64.b64encode data))], ?_⟩
        rcases hanswer : peer .write net target
            (pathOnly p ++ [("data".toList, .str (Base64.b64encode data))]) with ⟨_ | r, net''⟩
        · rw [hanswer] at h
          cases h
        · by_cases hstatus : 400 ≤ r.status
          · simp only [hanswer, hstatus, if_true] at h
            cases h
          · exact ⟨r, rfl, rfl, by rw [hanswer], Nat.not_le.mp hstatus⟩

/-- A source writes nothing to a path without a step, where no other device does. -/
theorem writeOn_silent (hpath : P2PServer.physicalPath body = .str p) (hrel : p.head? ≠ some '/')
    (hsteps : Text.steps p = [])
    (hpeer : ∀ target payload r, P2PServer.physicalPath payload = .str p →
      (peer .write net target payload).1 = some r → 400 ≤ r.status)
    (h : (net.writeOn peer device body i).1 = some r) : 400 ≤ r.status := by
  by_contra hstatus
  obtain ⟨p', data, hchecked, -, hwrite⟩ := writeOn_ok (Prod.ext h rfl) (Nat.not_le.mp hstatus)
  obtain rfl : p' = p := by
    rw [(physicalPath_of_checkedPath hchecked).1] at hpath
    exact Json.str.inj hpath
  rcases sourceWrite_ok hwrite with ⟨id, m, m', t', -, hmount, -⟩ | hremote
  · refine Mount.write_ne_ok ?_ data (congrArg Prod.fst hmount)
    rw [m.source.resolve_eq]
    exact PosixFiles.endsAsDirectory_joinPath hrel hsteps _
  · obtain ⟨id, target, payload, r', -, hpayload, hanswer, hlow⟩ := hremote
    exact Nat.not_le.mpr hlow (hpeer target payload r' hpayload hanswer)

theorem serve_write_silent_step (hpath : P2PServer.physicalPath body = .str p)
    (hrel : p.head? ≠ some '/') (hsteps : Text.steps p = [])
    (hpeer : ∀ target payload r, P2PServer.physicalPath payload = .str p →
      (peerAt reports hops .write net target payload).1 = some r → 400 ≤ r.status)
    (h : (serve reports hops .write net device body).1 = some r) : 400 ≤ r.status := by
  rw [serve_changing (by decide), onSelectedOrFirst] at h
  rcases hselect : (net device).selectSourceOrError body with _ | answer | i
  · rw [hselect] at h
    cases h
  · rw [hselect] at h
    simp only at h
    split at h
    · obtain rfl := Option.some.inj h
      decide
    · exact writeOn_silent hpath hrel hsteps hpeer h
  · rw [hselect] at h
    exact writeOn_silent hpath hrel hsteps hpeer h

/-- No server writes to a path without a step. -/
theorem serve_write_silent (hpath : P2PServer.physicalPath body = .str p) (hrel : p.head? ≠ some '/')
    (hsteps : Text.steps p = []) (h : (serve reports hops .write net device body).1 = some r) :
    400 ≤ r.status := by
  induction hops generalizing device body r with
  | zero =>
      refine serve_write_silent_step hpath hrel hsteps (fun _ _ _ _ hanswer => ?_) h
      cases hanswer
  | succ hops ih => exact serve_write_silent_step hpath hrel hsteps (fun _ _ _ => ih) h

/-- The source a body selects depends on the ids alone. -/
theorem selectSourceOrError_congr {host host' : P2PHost}
    (hids : host'.sources.map Prod.fst = host.sources.map Prod.fst)
    (hsame : body.get "source_id" = body'.get "source_id") :
    host'.selectSourceOrError body' = host.selectSourceOrError body := by
  have hindex : host'.getSourceById = host.getSourceById := by
    funext sourceId
    have hlength : host'.sources.length = host.sources.length := by
      simpa using congrArg List.length hids
    unfold P2PHost.getSourceById
    rw [hlength]
    congr 1
    funext i
    rw [← List.getElem?_map, ← List.getElem?_map, hids]
  have hnil : host'.sources = [] ↔ host.sources = [] := by
    rw [← List.map_eq_nil_iff, hids, List.map_eq_nil_iff]
  unfold P2PHost.selectSourceOrError
  rw [hsame, hindex]
  simp only [hnil]

/-- What a write is answered with 200 for is read from the source that took it. -/
theorem read_of_writeOn (hselect : (net device).selectSourceOrError body = some (.ok i))
    (h : net.writeOn (peerAt reports hops) device body i = (some r, net')) (hstatus : r.status < 400)
    (hsame : SameTarget body body') :
    ∃ data, decodeData body = some data ∧ (serve reports hops .read net' device body').1 =
      some ⟨200, .dict [("data".toList, .str (Base64.b64encode data))]⟩ := by
  obtain ⟨p, data, hchecked, hdata, hwrite⟩ := writeOn_ok h hstatus
  obtain ⟨hpath, hvalid⟩ := physicalPath_of_checkedPath hchecked
  refine ⟨data, hdata, ?_⟩
  rcases sourceWrite_ok hwrite with ⟨id, m, m', t', hget, hmount, rfl⟩ | hremote
  · obtain ⟨hi, -⟩ := List.getElem?_eq_some_iff.mp hget
    have hids : ((net.setMount device i id m' t') device).sources.map Prod.fst =
        (net device).sources.map Prod.fst := by
      have hid : ((net device).sources.map Prod.fst)[i]? = some id := by
        rw [List.getElem?_map, hget]
        rfl
      obtain ⟨hlt, hat⟩ := List.getElem?_eq_some_iff.mp hid
      rw [setMount, Function.update_self, List.map_set, ← hat, List.set_getElem_self]
    have hget' : ((net.setMount device i id m' t') device).sources[i]? = some (id, .local m') := by
      simp [setMount, hi]
    have htree : ((net.setMount device i id m' t') device).tree = t' := by
      simp [setMount]
    have hchecked' : (net.setMount device i id m' t').checkedPath device i body' = some (.ok p) := by
      have hroot : (net.setMount device i id m' t').rootAt device i = net.rootAt device i := by
        obtain ⟨-, hsource, -, -⟩ := Mount.openWrite_of_write hmount
        rw [rootAt, rootAt, hget', hget]
        simp [Served.dataRoot, hsource]
      unfold checkedPath at hchecked ⊢
      rw [← hsame.2, hroot]
      exact hchecked
    have hread : (serve reports hops .read (net.setMount device i id m' t') device body') =
        (net.setMount device i id m' t').opRead (peerAt reports hops) device body' := by
      cases hops <;> rfl
    rw [hread, opRead, onSelected, selectSourceOrError_congr hids hsame.1, hselect]
    simp only [withPath, hchecked', sourceRead]
    rw [onServed_local hget', htree, Mount.read_of_write hmount]
  · -- the proxy has no data root, and accepts a path without a step only
    obtain ⟨id, target, payload, r', hget, hpayload, hanswer, hlow⟩ := hremote
    have hroot : net.rootAt device i = [] := by rw [rootAt, hget]; rfl
    rw [hroot] at hvalid
    obtain ⟨p', hp', -, hplain, hbelow⟩ := P2PServer.plain_of_validatePathErr hvalid
    obtain rfl : p = p' := Json.str.inj hp'
    obtain ⟨hrel, hsteps⟩ := Text.steps_eq_nil_of_below_here hplain hbelow
    cases hops with
    | zero => cases hanswer
    | succ hops =>
        exact absurd (serve_write_silent hpayload hrel hsteps hanswer) (Nat.not_le.mpr hlow)

end ReadBack

/-! ### Agreement on the source -/

section Agreement

variable {reports : Reports} {hops : Nat} {op : Operation} {net : Hosts} {device : DeviceId} {body : Body}

/-- The id of the body is one that no mounted source has. -/
def NamesNoSource (host : P2PHost) (body : Body) : Prop :=
  (body.get "source_id").truthy = true ∧ ∀ x ∈ host.sources, body.get "source_id" ≠ .str x.1

/-- A list or a dictionary is no key: looking it up raises. -/
def hashable : Value → Bool
  | .list _ => false
  | .dict _ => false
  | _ => true

/-- **Agreement**: what a write is answered with 200 for is what a read of the same source and path
returns, and an operation that names no mounted source is refused. -/
structure AgreesOnSource (run : Peer) (net : Hosts) (device : DeviceId) (body : Body) : Prop where
  readBack : ∀ r, (run .write net device body).1 = some r → r.status = 200 →
    ∀ body', SameTarget body body' → ∃ data, decodeData body = some data ∧
      (run .read (run .write net device body).2 device body').1 =
        some ⟨200, .dict [("data".toList, .str (Base64.b64encode data))]⟩
  unknown : NamesNoSource (net device) body → ∀ op ∈ changing, Refused (run op net device body) net

/-- The name of an operation in a relayed request. -/
def opName : Operation → Text
  | .read => "read".toList
  | .write => "write".toList
  | .delete => "delete".toList
  | .list => "list".toList
  | .exists => "exists".toList
  | .mkdir => "mkdir".toList
  | .rmdir => "rmdir".toList
  | .space => "space".toList

theorem opMap_opName (op : Operation) : opMap (opName op) = some op := by
  cases op <;> decide

/-- An operation as the relay has it executed. -/
def relayed (reports : Reports) (hops : Nat) : Peer := fun op net device body =>
  let (r, net) := dispatch reports hops (opName op) net device body
  (some r, net)

theorem relayed_eq : relayed reports hops op net device body =
    (some ((serve reports hops op net device body).1.getD (errorResponse 500 "Internal error")),
      (serve reports hops op net device body).2) := by
  unfold relayed dispatch
  rw [opMap_opName]
  rcases hserve : serve reports hops op net device body with ⟨_ | r, net'⟩
  · simp only [hserve, Option.getD_none]
  · simp only [hserve, Option.getD_some]

theorem refused_relayed_iff : Refused (relayed reports hops op net device body) net ↔
    Refused (serve reports hops op net device body) net := by
  rw [relayed_eq]
  rcases serve reports hops op net device body with ⟨_ | r, net'⟩
  · simp [Refused, errorResponse]
  · simp [Refused]

/-- What the relay answers with 200 the server has answered. -/
theorem AgreesOnSource.relayed (h : AgreesOnSource (serve reports hops) net device body) :
    AgreesOnSource (relayed reports hops) net device body where
  readBack := by
    intro r hr hstatus body' hsame
    rw [relayed_eq] at hr ⊢
    simp only [Option.some_inj] at hr ⊢
    cases hserve : (serve reports hops .write net device body).1 with
    | none =>
        rw [hserve] at hr
        obtain rfl : errorResponse 500 "Internal error" = r := hr
        cases hstatus
    | some answer =>
        rw [hserve] at hr
        obtain rfl : answer = r := hr
        obtain ⟨data, hdata, hread⟩ := h.readBack answer hserve hstatus body' hsame
        refine ⟨data, hdata, ?_⟩
        rw [relayed_eq, hread]
        rfl
  unknown hnone op hop := refused_relayed_iff.mpr (h.unknown hnone op hop)

theorem getSourceById_eq_none_iff {host : P2PHost} {sourceId : Text} :
    host.getSourceById sourceId = none ↔ ∀ x ∈ host.sources, x.1 ≠ sourceId := by
  unfold P2PHost.getSourceById
  rw [List.find?_eq_none]
  constructor
  · rintro h x hx rfl
    obtain ⟨i, hi, hget⟩ := List.mem_iff_getElem.mp hx
    refine h i (List.mem_reverse.mpr (List.mem_range.mpr hi)) ?_
    rw [List.getElem?_eq_getElem hi, hget]
    simp
  · intro h i _ hi
    rw [beq_iff_eq, Option.map_eq_some_iff] at hi
    obtain ⟨x, hx, hid⟩ := hi
    exact h x (List.mem_of_getElem? hx) hid

/-- An id is that of a source, or it names none: then looking it up raises, or finds nothing. -/
theorem selectSourceOrError_cases (host : P2PHost) (body : Body) :
    (¬ NamesNoSource host body ∧ ((∃ i, host.selectSourceOrError body = some (.ok i)) ∨
        (host.sources = [] ∧ ∃ answer, host.selectSourceOrError body = some (.error answer)))) ∨
      (NamesNoSource host body ∧ ((hashable (body.get "source_id") = false ∧
          host.selectSourceOrError body = none) ∨
        (hashable (body.get "source_id") = true ∧
          ∃ answer, host.selectSourceOrError body = some (.error answer)))) := by
  unfold P2PHost.selectSourceOrError NamesNoSource
  cases htruthy : (body.get "source_id").truthy with
  | false =>
      left
      refine ⟨by simp, ?_⟩
      by_cases hnil : host.sources = []
      · exact Or.inr ⟨hnil, errorResponse 404 "No source available", by simp [htruthy, hnil]⟩
      · exact Or.inl ⟨0, by simp [htruthy, hnil]⟩
  | true =>
      cases hid : body.get "source_id" with
      | str sourceId =>
          cases hfound : host.getSourceById sourceId with
          | none =>
              have hnone := getSourceById_eq_none_iff.mp hfound
              right
              exact ⟨⟨rfl, fun x hx heq => hnone x hx (Json.str.inj heq).symm⟩,
                Or.inr ⟨rfl, errorResponse 404 "Source not found", by simp [← hid, htruthy, hfound]⟩⟩
          | some i =>
              left
              refine ⟨fun h => ?_, Or.inl ⟨i, by simp [← hid, htruthy, hfound]⟩⟩
              have hnone := getSourceById_eq_none_iff.mpr fun x hx heq =>
                h.2 x hx (congrArg Json.str heq.symm)
              rw [hfound] at hnone
              cases hnone
      | _ =>
          rw [hid] at htruthy
          right
          simp [hashable, htruthy]

/-- **The operations agree on the source** where the body names no unknown source, or nothing is done on
the first source, to which the changing operations fall back. -/
theorem agreesOnSource_iff (reports : Reports) (hops : Nat) (net : Hosts) (device : DeviceId)
    (body : Body) :
    (AgreesOnSource (serve reports hops) net device body ∧
        AgreesOnSource (relayed reports hops) net device body) ↔
      (NamesNoSource (net device) body → hashable (body.get "source_id") = true →
        ∀ op ∈ changing, Spares hops op net device body) := by
  have hfirst : ∀ answer, (net device).selectSourceOrError body = some (.error answer) →
      ServesFirst net device body := by
    intro answer hselect rest
    rw [onSelectedOrFirst, hselect]
  constructor
  · rintro ⟨h, -⟩ hnone hhash op hop
    rcases selectSourceOrError_cases (net device) body with ⟨hnot, -⟩ | ⟨-, hraises | hfalls⟩
    · exact absurd hnone hnot
    · rw [hraises.1] at hhash
      cases hhash
    · obtain ⟨-, answer, hselect⟩ := hfalls
      exact (refused_serve_iff hop (hfirst answer hselect)).mp (h.unknown hnone op hop)
  · intro h
    have hagrees : AgreesOnSource (serve reports hops) net device body := by
      rcases selectSourceOrError_cases (net device) body with
        ⟨hnot, ⟨i, hselect⟩ | ⟨hnil, answer, hselect⟩⟩ | ⟨hnone, ⟨-, hselect⟩ | ⟨hhash, answer, hselect⟩⟩
      · refine ⟨fun r hr hstatus body' hsame => ?_, fun hnone => absurd hnone hnot⟩
        have hwrite : serve reports hops .write net device body =
            net.writeOn (peerAt reports hops) device body i := by
          rw [serve_changing (by decide), onSelectedOrFirst, hselect]
          rfl
        rw [hwrite] at hr ⊢
        exact read_of_writeOn hselect (Prod.ext hr rfl) (by omega) hsame
      · refine ⟨fun r hr hstatus => ?_, fun hnone => absurd hnone hnot⟩
        rw [serve_changing (by decide), hfirst answer hselect, if_pos hnil] at hr
        obtain rfl := Option.some.inj hr
        cases hstatus
      · have hraises : ∀ op ∈ changing, serve reports hops op net device body = (none, net) := by
          intro op hop
          rw [serve_changing hop, onSelectedOrFirst, hselect]
        constructor
        · intro r hr
          rw [hraises .write (by decide)] at hr
          cases hr
        · intro _ op hop
          rw [hraises op hop]
          exact ⟨fun r hr => (nomatch hr), rfl⟩
      · have hrefused : ∀ op ∈ changing, Refused (serve reports hops op net device body) net :=
          fun op hop => (refused_serve_iff hop (hfirst answer hselect)).mpr (h hnone hhash op hop)
        refine ⟨fun r hr hstatus => ?_, fun _ => hrefused⟩
        have hlow := (hrefused .write (by decide)).1 r hr
        omega
    exact ⟨hagrees, hagrees.relayed⟩

/-- One device with a directory source `a` at `/data`. -/
def laptop : Hosts := fun _ =>
  { sources := [("a".toList, .local { source := .directory "/data".toList })]
    tree := DirectoryTree.root }

/-- A write to a source that is not mounted. -/
def strayWrite : Body :=
  [("source_id".toList, .str "zzz".toList), ("physical_path".toList, .str "f".toList),
    ("data".toList, .str "eA==".toList)]

/-- It is answered with 200, and the file is on the first source; reading it back finds no source. -/
theorem stray_write_is_taken :
    (serve (fun _ _ _ _ => none) 0 .write laptop "laptop" strayWrite).1.map Response.status = some 200 ∧
      ¬ (AgreesOnSource (serve (fun _ _ _ _ => none) 0) laptop "laptop" strayWrite ∧
        AgreesOnSource (relayed (fun _ _ _ _ => none) 0) laptop "laptop" strayWrite) := by
  have hwrite : (serve (fun _ _ _ _ => none) 0 .write laptop "laptop" strayWrite).1.map
      Response.status = some 200 := by decide
  refine ⟨hwrite, fun h => ?_⟩
  obtain ⟨r, hr, hstatus⟩ := Option.map_eq_some_iff.mp hwrite
  have hnone : NamesNoSource (laptop "laptop") strayWrite := by
    refine ⟨by decide, fun x hx => ?_⟩
    obtain rfl := List.mem_singleton.mp hx
    exact fun heq => absurd (Json.str.inj heq) (by decide)
  have hlow := (h.1.unknown hnone .write (by decide)).1 r hr
  omega

end Agreement

end Hosts

end StardustFS
