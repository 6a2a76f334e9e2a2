import StardustFS.PosixFrames
import StardustFS.SourceOutages

/-! What the requests of other devices can change. Whatever they ask for, and through however many proxies
a request goes on, the file system of a device stays as it is outside the data roots of its sources. -/

namespace StardustFS

open PosixFiles (SameOutside Downward Standing)

/-- The local source of a place, by its configured path. -/
def Served.source? : Served → Option LocalSource
  | .local m => some m.source
  | .remote _ _ => none

namespace P2PHost

/-- The sources by their ids and paths. -/
def mountedAs (h : P2PHost) : List (Text × Option LocalSource) :=
  h.sources.map fun x => (x.1, x.2.source?)

/-- At or below the data root of one of the sources. -/
def inside (h : P2PHost) (q : List Text) : Prop :=
  ∃ x ∈ h.mountedAs, ∃ s, x.2 = some s ∧ Text.location s.sourceDataRoot <+: q

/-- The data roots are absolute paths without `".."`, none is the root of the file system, and the
directories above them are there, unless they lie in another data root. -/
def Rooted (h : P2PHost) : Prop :=
  ∀ x ∈ h.mountedAs, ∀ s, x.2 = some s →
    s.sourceDataRoot.head? = some '/' ∧ Text.location s.sourceDataRoot ≠ [] ∧
      Text.Plain s.sourceDataRoot ∧ Standing h.inside h.tree (Text.location s.sourceDataRoot)

theorem downward_inside (h : P2PHost) : Downward h.inside := by
  rintro p q ⟨x, hx, s, hs, hp⟩ hq
  exact ⟨x, hx, s, hs, hp.trans hq⟩

theorem inside_congr {h h' : P2PHost} (hsame : h'.mountedAs = h.mountedAs) : h'.inside = h.inside := by
  unfold inside
  rw [hsame]

end P2PHost

namespace Mount

/-- The call leaves the source where it is and the files outside the region as they are. -/
def Keeps {α : Type} (inside : List Text → Prop) (m : Mount) (t : PosixFiles.Tree Bytes)
    (e : Effect α) : Prop :=
  e.2.1.source = m.source ∧ SameOutside inside t e.2.2

/-- What a source may be asked to open. -/
structure Admitted (inside : List Text → Prop) (t : PosixFiles.Tree Bytes) (fullPath : Text) : Prop where
  plain : Text.Plain fullPath
  within : inside (Text.location fullPath)
  standing : Standing inside t (Text.location fullPath)

section

variable {inside : List Text → Prop} {m : Mount} {t : PosixFiles.Tree Bytes} {p : Text}

theorem source_failed (m : Mount) (e : PosixFiles.Raised) (spared : Bool) :
    (m.failed e spared).source = m.source := by
  unfold failed
  split
  · split_ifs <;> rfl
  · rfl

theorem keeps_same {α : Type} (r : Except SourceRaised α) : Keeps inside m t (r, m, t) :=
  ⟨rfl, SameOutside.refl inside t⟩

theorem keeps_ite {α : Type} {c : Prop} [Decidable c] {a b : Effect α} (ha : Keeps inside m t a)
    (hb : Keeps inside m t b) : Keeps inside m t (if c then a else b) := by
  split_ifs
  · exact ha
  · exact hb

theorem keeps_failed {α : Type} {made : PosixFiles.Tree Bytes} (r : Except SourceRaised α)
    (e : PosixFiles.Raised) (spared : Bool) (h : SameOutside inside t made) :
    Keeps inside m t (r, m.failed e spared, made) :=
  ⟨source_failed m e spared, h⟩

theorem keeps_read : Keeps inside m t (m.read t p) := by
  unfold read
  refine keeps_ite (keeps_same _) ?_
  split
  · exact keeps_same _
  · exact keeps_failed _ _ _ (SameOutside.refl inside t)

theorem keeps_listDir : Keeps inside m t (m.listDir t p) := by
  unfold listDir
  dsimp only
  cases PosixFiles.listdir t (m.source.resolve p) with
  | error e =>
      refine keeps_ite (keeps_same _) ?_
      split
      · exact keeps_failed _ e _ (SameOutside.refl inside t)
      · exact keeps_ite (keeps_failed _ e _ (SameOutside.refl inside t)) (keeps_same _)
  | ok entries =>
      refine keeps_ite (keeps_same _) ?_
      split
      · exact keeps_same _
      · exact keeps_ite (keeps_same _) (keeps_same _)

theorem keeps_querySpace (ofDisk : DiskUsage → Nat)
    (ofLoopback : (sizeBytes : Nat) → (usedBytes : Int) → Nat) (usage : DiskUsage) :
    Keeps inside m t (querySpace ofDisk ofLoopback usage m t) := by
  unfold querySpace
  refine keeps_ite (keeps_same _) ?_
  split
  · split
    · exact keeps_failed _ _ _ (SameOutside.refl inside t)
    · exact keeps_same _
  · exact keeps_same _

variable (h : Admitted inside t (m.source.resolve p))
include h

theorem keeps_write (data : Bytes) : Keeps inside m t (m.write t p data) := by
  have hparent : SameOutside inside t
      (PosixFiles.makedirs t (Text.dirname (m.source.resolve p))).2 :=
    PosixFiles.sameOutside_makedirs_path (PosixFiles.plain_dirname h.plain)
      (h.standing.above (PosixFiles.location_dirname_above h.plain))
  unfold write
  refine keeps_ite (keeps_same _) ?_
  split
  · have hmade : SameOutside inside t
        (if Text.dirname (m.source.resolve p) ≠ [] ∧
            PosixFiles.isdir t (Text.dirname (m.source.resolve p)) = false then
          PosixFiles.makedirs t (Text.dirname (m.source.resolve p))
        else (.ok (), t) : Except PosixFiles.Raised Unit × PosixFiles.Tree Bytes).2 := by
      split_ifs
      · exact hparent
      · exact SameOutside.refl inside t
    revert hmade
    generalize (if Text.dirname (m.source.resolve p) ≠ [] ∧
        PosixFiles.isdir t (Text.dirname (m.source.resolve p)) = false then
      PosixFiles.makedirs t (Text.dirname (m.source.resolve p))
      else (.ok (), t) : Except PosixFiles.Raised Unit × PosixFiles.Tree Bytes) = making
    intro hmade
    rcases making with ⟨e | _, made⟩
    · exact keeps_failed _ e _ hmade
    · dsimp only
      cases hwrite : PosixFiles.openWrite made (m.source.resolve p) data with
      | error e => exact keeps_failed _ e _ hmade
      | ok written => exact ⟨rfl, hmade.trans (PosixFiles.sameOutside_openWrite hwrite h.within)⟩
  · refine keeps_ite (keeps_same _) ?_
    revert hparent
    generalize PosixFiles.makedirs t (Text.dirname (m.source.resolve p)) = making
    intro hmade
    rcases making with ⟨e | _, made⟩
    · exact ⟨rfl, hmade⟩
    · dsimp only
      cases hwrite : PosixFiles.openWrite made (m.source.resolve p) data with
      | error e => exact ⟨rfl, hmade⟩
      | ok written => exact ⟨rfl, hmade.trans (PosixFiles.sameOutside_openWrite hwrite h.within)⟩

theorem keeps_delete : Keeps inside m t (m.delete t p) := by
  unfold delete
  refine keeps_ite (keeps_same _) ?_
  split
  · cases hremove : PosixFiles.remove t (m.source.resolve p) with
    | error e => exact keeps_failed _ e _ (SameOutside.refl inside t)
    | ok removed => exact ⟨rfl, PosixFiles.sameOutside_remove hremove h.within⟩
  · refine keeps_ite ?_ (keeps_same _)
    cases hremove : PosixFiles.remove t (m.source.resolve p) with
    | error e => exact keeps_same _
    | ok removed => exact ⟨rfl, PosixFiles.sameOutside_remove hremove h.within⟩

theorem keeps_mkdir : Keeps inside m t (m.mkdir t p) := by
  have hmake : SameOutside inside t (PosixFiles.makedirs t (m.source.resolve p)).2 :=
    PosixFiles.sameOutside_makedirs_path h.plain h.standing
  unfold mkdir
  refine keeps_ite (keeps_same _) ?_
  revert hmake
  generalize PosixFiles.makedirs t (m.source.resolve p) = making
  intro hmade
  rcases making with ⟨e | _, made⟩
  · exact keeps_failed _ e _ hmade
  · exact ⟨rfl, hmade⟩

theorem keeps_rmdir (hdown : Downward inside) : Keeps inside m t (m.rmdir t p) := by
  have hremove : SameOutside inside t (PosixFiles.rmtree t (m.source.resolve p)).2 :=
    PosixFiles.sameOutside_rmtree hdown h.within
  unfold rmdir
  dsimp only
  revert hremove
  generalize PosixFiles.rmtree t (m.source.resolve p) = removal
  intro hremove
  rcases removal with ⟨e | _, removed⟩
  · refine keeps_ite (keeps_same _) ?_
    split
    · exact keeps_failed _ e _ hremove
    · exact keeps_ite (keeps_failed _ e _ hremove) (keeps_same _)
  · refine keeps_ite (keeps_same _) ?_
    split
    · exact ⟨rfl, hremove⟩
    · exact keeps_ite ⟨rfl, hremove⟩ (keeps_same _)

end

end Mount

namespace Hosts

/-- The devices keep their sources where they are, and their files outside the data roots. -/
def Confines (net net' : Hosts) : Prop :=
  ∀ d, (net' d).mountedAs = (net d).mountedAs ∧ SameOutside (net d).inside (net d).tree (net' d).tree

def AllRooted (net : Hosts) : Prop := ∀ d, (net d).Rooted

/-- Whatever is asked of the server, the devices keep their files outside the data roots. -/
def Confining (peer : Peer) : Prop :=
  ∀ op net device body, AllRooted net → Confines net (peer op net device body).2

theorem Confines.refl (net : Hosts) : Confines net net := fun _ => ⟨rfl, SameOutside.refl _ _⟩

theorem Confines.trans {a b c : Hosts} (h : Confines a b) (h' : Confines b c) : Confines a c := by
  intro d
  obtain ⟨hmounted, hsame⟩ := h d
  obtain ⟨hmounted', hsame'⟩ := h' d
  rw [P2PHost.inside_congr hmounted] at hsame'
  exact ⟨hmounted'.trans hmounted, hsame.trans hsame'⟩

theorem AllRooted.of_confines {net net' : Hosts} (h : AllRooted net) (hconfines : Confines net net') :
    AllRooted net' := by
  intro d x hx s hs
  obtain ⟨hmounted, hsame⟩ := hconfines d
  rw [hmounted] at hx
  obtain ⟨habsolute, hne, hplain, hstanding⟩ := h d x hx s hs
  rw [P2PHost.inside_congr hmounted]
  exact ⟨habsolute, hne, hplain, hstanding.of_sameOutside hsame⟩

section

variable {net : Hosts} {device : DeviceId} {i : Nat} {peer : Peer}

/-- The path passed the check of the server for the source at the place. -/
def Validated (net : Hosts) (device : DeviceId) (i : Nat) (p : Text) : Prop :=
  P2PServer.validatePathErr (.str p) (net.rootAt device i) = none

theorem rootAt_eq (net : Hosts) (device : DeviceId) (i : Nat) : net.rootAt device i =
    ((net device).mountedAs[i]?.map fun x => (x.2.map LocalSource.sourceDataRoot).getD []).getD [] := by
  unfold rootAt P2PHost.mountedAs
  rw [List.getElem?_map]
  cases (net device).sources[i]? with
  | none => rfl
  | some x =>
      obtain ⟨id, m | device'⟩ := x
      · rfl
      · rfl

theorem Validated.of_confines {net' : Hosts} {p : Text} (h : Validated net device i p)
    (hconfines : Confines net net') : Validated net' device i p := by
  unfold Validated at h ⊢
  rw [rootAt_eq, (hconfines device).1, ← rootAt_eq]
  exact h

/-- A path that passed the check may be opened by its source. -/
theorem admitted (hnet : AllRooted net) {p : Text} (hp : Validated net device i p) {id : Text} {m : Mount}
    (hsource : (net device).sources[i]? = some (id, .local m)) :
    Mount.Admitted (net device).inside (net device).tree (m.source.resolve p) := by
  have hmounted : (id, some m.source) ∈ (net device).mountedAs := by
    refine List.mem_map.mpr ⟨(id, .local m), List.mem_of_getElem? hsource, rfl⟩
  obtain ⟨habsolute, hne, hplain, hstanding⟩ := hnet device _ hmounted m.source rfl
  have hroot : net.rootAt device i = m.source.sourceDataRoot := by
    rw [rootAt, hsource]
    rfl
  rw [Validated, hroot] at hp
  obtain ⟨p', hp', -, hplain', -⟩ := P2PServer.plain_of_validatePathErr hp
  obtain rfl : p = p' := by simpa using hp'
  have hbelow := (P2PServer.atOrBelow_of_validatePathErr habsolute hne hp).2
  rw [← LocalSource.resolve_eq] at hbelow
  refine ⟨?_, ⟨_, hmounted, m.source, rfl, hbelow⟩, ?_⟩
  · rw [LocalSource.resolve_eq]
    exact Text.plain_joinPath hplain hplain'
  · intro q hq hout
    rcases List.prefix_or_prefix_of_prefix hq hbelow with habove | hunder
    · exact hstanding q habove hout
    · exact absurd ⟨_, hmounted, m.source, rfl, hunder⟩ hout

theorem confines_setMount {id : Text} {m m' : Mount} {t' : PosixFiles.Tree Bytes}
    (hsource : (net device).sources[i]? = some (id, .local m)) (hsame : m'.source = m.source)
    (hout : SameOutside (net device).inside (net device).tree t') :
    Confines net (net.setMount device i id m' t') := by
  intro d
  by_cases hd : d = device
  · subst hd
    unfold setMount
    rw [Function.update_self]
    refine ⟨?_, hout⟩
    unfold P2PHost.mountedAs
    rw [List.map_set]
    refine List.ext_getElem? fun j => ?_
    rw [List.getElem?_set]
    split_ifs with hj hlt
    · subst hj
      rw [List.getElem?_map, hsource]
      simp only [Served.source?, hsame, Option.map_some]
    · subst hj
      rw [List.getElem?_eq_none (by omega)]
    · rfl
  · unfold setMount
    rw [Function.update_of_ne hd]
    exact ⟨rfl, SameOutside.refl _ _⟩

/-- A call on a source that keeps its part keeps the devices'. -/
theorem confines_onServed {α : Type} (hpeer : Confining peer) (hnet : AllRooted net)
    {onMount : Mount → PosixFiles.Tree Bytes → Mount.Effect α} (op : Operation) (payload : Body)
    (result : Value → Except SourceRaised α)
    (hmount : ∀ id m, (net device).sources[i]? = some (id, .local m) →
      Mount.Keeps (net device).inside m (net device).tree (onMount m (net device).tree)) :
    Confines net (net.onServed peer device i onMount op payload result).2 := by
  unfold onServed
  split
  · exact Confines.refl net
  · rename_i id m hsource
    obtain ⟨hsame, hout⟩ := hmount id m hsource
    exact confines_setMount hsource hsame hout
  · rename_i id target answers hsource
    have hasked : Confines net (net.p2pRequest peer target answers op payload).2 := by
      unfold p2pRequest
      split_ifs
      · exact Confines.refl net
      · have hserved := hpeer op net target payload hnet
        revert hserved
        generalize peer op net target payload = served
        intro hserved
        obtain ⟨_ | r, net'⟩ := served
        · exact hserved
        · dsimp only
          split_ifs
          · exact hserved
          · exact hserved
    revert hasked
    generalize net.p2pRequest peer target answers op payload = asked
    intro hasked
    obtain ⟨_ | v, net'⟩ := asked
    · exact hasked
    · exact hasked

theorem confines_withPath {body : Body} {rest : Text → Outcome}
    (hrest : ∀ p, Validated net device i p → Confines net (rest p).2) :
    Confines net (net.withPath device i body rest).2 := by
  unfold withPath
  cases hchecked : net.checkedPath device i body with
  | none => exact Confines.refl net
  | some checked =>
      cases checked with
      | error answer => exact Confines.refl net
      | ok p =>
          refine hrest p ?_
          unfold checkedPath at hchecked
          dsimp only at hchecked
          split at hchecked
          · cases hchecked
          · cases hvalid : P2PServer.validatePathErr (P2PServer.physicalPath body)
                (net.rootAt device i) with
            | some answer =>
                rw [hvalid] at hchecked
                cases hchecked
            | none =>
                rw [hvalid] at hchecked
                obtain ⟨p', hp', -⟩ := P2PServer.plain_of_validatePathErr hvalid
                rw [hp'] at hchecked hvalid
                obtain rfl : p' = p := Except.ok.inj (Option.some.inj hchecked)
                exact hvalid

theorem confines_onSelected {body : Body} {rest : Nat → Outcome}
    (hrest : ∀ i, Confines net (rest i).2) : Confines net (net.onSelected device body rest).2 := by
  unfold onSelected
  split
  · exact Confines.refl net
  · exact Confines.refl net
  · exact hrest _

theorem confines_onSelectedOrFirst {body : Body} {rest : Nat → Outcome}
    (hrest : ∀ i, Confines net (rest i).2) :
    Confines net (net.onSelectedOrFirst device body rest).2 := by
  unfold onSelectedOrFirst
  split
  · exact Confines.refl net
  · split_ifs
    · exact Confines.refl net
    · exact hrest 0
  · exact hrest _

section Operations

variable {usage : DiskUsage} {body : Body} (hpeer : Confining peer) (hnet : AllRooted net)
include hpeer hnet

theorem confines_sourceExists {p : Text} :
    Confines net (net.sourceExists peer device i p).2 :=
  confines_onServed hpeer hnet _ _ _ fun _ _ _ => Mount.keeps_same _

theorem confines_opRead : Confines net (net.opRead peer device body).2 := by
  refine confines_onSelected fun i => confines_withPath fun p _ => ?_
  have hread : Confines net (net.sourceRead peer device i p).2 :=
    confines_onServed hpeer hnet _ _ _ fun _ _ _ => Mount.keeps_read
  revert hread
  generalize net.sourceRead peer device i p = result
  intro hread
  rcases result with ⟨_ | _, net'⟩
  · exact hread
  · exact hread

theorem confines_opExists : Confines net (net.opExists peer device body).2 := by
  refine confines_onSelected fun i => confines_withPath fun p _ => ?_
  have hexists : Confines net (net.sourceExists peer device i p).2 := confines_sourceExists hpeer hnet
  revert hexists
  generalize net.sourceExists peer device i p = result
  intro hexists
  rcases result with ⟨_ | _, net'⟩
  · exact hexists
  · exact hexists

theorem confines_opList : Confines net (net.opList peer device body).2 := by
  refine confines_onSelected fun i => confines_withPath fun p _ => ?_
  dsimp only
  split_ifs
  · exact Confines.refl net
  · have hlist : Confines net (net.sourceListDir peer device i p).2 :=
      confines_onServed hpeer hnet _ _ _ fun _ _ _ => Mount.keeps_listDir
    revert hlist
    generalize net.sourceListDir peer device i p = result
    intro hlist
    rcases result with ⟨_ | _, net'⟩
    · exact hlist
    · exact hlist

theorem confines_writeOn : Confines net (net.writeOn peer device body i).2 := by
  refine confines_withPath fun p hp => ?_
  split
  · exact Confines.refl net
  · rename_i data _
    split_ifs
    · exact Confines.refl net
    · have hwrite : Confines net (net.sourceWrite peer device i p data).2 :=
        confines_onServed hpeer hnet _ _ _ fun _ _ hsource =>
          Mount.keeps_write (admitted hnet hp hsource) data
      revert hwrite
      generalize net.sourceWrite peer device i p data = result
      intro hwrite
      rcases result with ⟨_ | _, net'⟩
      · exact hwrite
      · exact hwrite

theorem confines_deleteOn : Confines net (net.deleteOn peer device body i).2 := by
  refine confines_withPath fun p hp => ?_
  have hexists : Confines net (net.sourceExists peer device i p).2 := confines_sourceExists hpeer hnet
  revert hexists
  generalize net.sourceExists peer device i p = result
  intro hexists
  rcases result with ⟨_ | found, net₁⟩
  · exact hexists
  · cases found with
    | false => exact hexists
    | true =>
        have hnet₁ := hnet.of_confines hexists
        have hdelete : Confines net₁ (net₁.sourceDelete peer device i p).2 :=
          confines_onServed hpeer hnet₁ _ _ _ fun _ _ hsource =>
            Mount.keeps_delete (admitted hnet₁ (hp.of_confines hexists) hsource)
        dsimp only
        revert hdelete
        generalize net₁.sourceDelete peer device i p = deleted
        intro hdelete
        rcases deleted with ⟨_ | _, net₂⟩
        · exact hexists.trans hdelete
        · exact hexists.trans hdelete

theorem confines_mkdirOn : Confines net (net.mkdirOn peer device body i).2 := by
  refine confines_withPath fun p hp => ?_
  have hmkdir : Confines net (net.sourceMkdir peer device i p).2 :=
    confines_onServed hpeer hnet _ _ _ fun _ _ hsource => Mount.keeps_mkdir (admitted hnet hp hsource)
  revert hmkdir
  generalize net.sourceMkdir peer device i p = result
  intro hmkdir
  rcases result with ⟨_ | _, net'⟩
  · exact hmkdir
  · exact hmkdir

theorem confines_rmdirOn : Confines net (net.rmdirOn peer device body i).2 := by
  refine confines_withPath fun p hp => ?_
  dsimp only
  split_ifs
  · exact Confines.refl net
  · have hrmdir : Confines net (net.sourceRmdir peer device i p).2 :=
      confines_onServed hpeer hnet _ _ _ fun _ _ hsource =>
        Mount.keeps_rmdir (admitted hnet hp hsource) (net device).downward_inside
    revert hrmdir
    generalize net.sourceRmdir peer device i p = result
    intro hrmdir
    rcases result with ⟨_ | _, net'⟩
    · exact hrmdir
    · exact hrmdir

theorem confines_sourceSpace (query : DiskUsage → Mount → PosixFiles.Tree Bytes → Mount.Effect Nat)
    (key : String) (hquery : ∀ inside m t, Mount.Keeps inside m t (query usage m t)) :
    Confines net (net.sourceSpace usage peer device query key i).2 := by
  refine confines_onServed hpeer hnet _ _ _ fun _ m _ => ?_
  exact hquery _ m _

theorem confines_opSpace : Confines net (net.opSpace usage peer device).2 := by
  have havailable : Confines net
      (net.sourceSpace usage peer device Mount.getAvailableSpace "available" 0).2 :=
    confines_sourceSpace hpeer hnet _ _ fun _ _ _ => Mount.keeps_querySpace _ _ _
  unfold opSpace
  revert havailable
  generalize net.sourceSpace usage peer device Mount.getAvailableSpace "available" 0 = result
  intro havailable
  rcases result with ⟨_ | _, net₁⟩
  · exact havailable
  · have htotal : Confines net₁ (net₁.sourceSpace usage peer device Mount.getTotalSpace "total" 0).2 :=
      confines_sourceSpace hpeer (hnet.of_confines havailable) _ _ fun _ _ _ =>
        Mount.keeps_querySpace _ _ _
    dsimp only
    revert htotal
    generalize net₁.sourceSpace usage peer device Mount.getTotalSpace "total" 0 = result
    intro htotal
    rcases result with ⟨_ | _, net₂⟩
    · exact havailable.trans htotal
    · exact havailable.trans htotal

end Operations

end

/-- An operation is confined where those it asks for on other devices are. -/
theorem confining_handle (usage : DiskUsage) {peer : Peer} (hpeer : Confining peer) :
    Confining (handle usage peer) := by
  intro op net device body hnet
  cases op with
  | read => exact confines_opRead hpeer hnet
  | write => exact confines_onSelectedOrFirst fun _ => confines_writeOn hpeer hnet
  | delete => exact confines_onSelectedOrFirst fun _ => confines_deleteOn hpeer hnet
  | list => exact confines_opList hpeer hnet
  | «exists» => exact confines_opExists hpeer hnet
  | mkdir => exact confines_onSelectedOrFirst fun _ => confines_mkdirOn hpeer hnet
  | rmdir => exact confines_onSelectedOrFirst fun _ => confines_rmdirOn hpeer hnet
  | space => exact confines_opSpace hpeer hnet

/-- The server of a device, where a request goes through so many proxies at most; the last one times
out. -/
def serveThrough (usage : DiskUsage) : Nat → Peer
  | 0 => handle usage fun _ net _ _ => (none, net)
  | hops + 1 => handle usage (serveThrough usage hops)

theorem confining_serveThrough (usage : DiskUsage) (hops : Nat) : Confining (serveThrough usage hops) := by
  induction hops with
  | zero => exact confining_handle usage fun _ net _ _ _ => Confines.refl net
  | succ hops ih => exact confining_handle usage ih

/-- A request to the server of a device. -/
structure ServerRequest where
  op : Operation
  device : DeviceId
  body : Body

def serveAll (usage : DiskUsage) (hops : Nat) (net : Hosts) (requests : List ServerRequest) : Hosts :=
  requests.foldl (fun net r => (serveThrough usage hops r.op net r.device r.body).2) net

/-- A laptop that serves the directory `/data` and has a file elsewhere. -/
def laptopWithSecret : Hosts := fun _ =>
  { sources := [("a".toList, .local { source := .directory "/data".toList })]
    tree := ((DirectoryTree.root.makedirs ["data".toList]).bind
      (DirectoryTree.write · ["secret".toList] [120])).toOption.getD DirectoryTree.root }

end Hosts

end StardustFS
