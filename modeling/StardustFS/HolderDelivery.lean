import StardustFS.RelayDelivery
import StardustFS.ReplicaRequests

/-! What an owner gets back from a holder. The exchanges of the device are put in their order beside a map
from chunks and users to bytes; whatever is asked in between, and by whom, every call that succeeds did so at
one place of this order, and a fetch returns what the map held there. -/

namespace StardustFS

open FsEncoding

/-! ### The bodies of the calls -/

theorem decodeBase64_points (t : Text) : decodeBase64 (.str (textPoints t)) = Base64.b64decode t := by
  have hall : (textPoints t).all (fun c => c.val < 128) = t.all (fun c => c.toNat < 128) := by
    rw [textPoints, List.all_map]
    rfl
  have hmap : (textPoints t).map (fun c => Char.ofNat c.val) = t := by
    rw [textPoints, List.map_map]
    exact (List.map_congr_left fun c _ => Char.ofNat_toNat c).trans (List.map_id t)
  rw [decodeBase64, hall, hmap]
  split_ifs with hascii
  · rfl
  · unfold Base64.b64decode
    rw [if_neg hascii]

namespace HolderCall

variable (call : HolderCall)

theorem chunkId_body : ReplicaBody.chunkId call.body = .ok (textPoints call.chunkId) := by
  unfold ReplicaBody.chunkId body
  rw [Json.lookup_cons, if_pos rfl]
  rfl

theorem chunkId_directBody : ReplicaBody.chunkId call.directBody = .ok (textPoints call.chunkId) := by
  unfold ReplicaBody.chunkId directBody body
  rw [List.cons_append, Json.lookup_cons, if_pos rfl]
  rfl

theorem chunk_id_ne_data : codePoints "chunk_id" ≠ codePoints "data" := by decide

theorem data_of_lookup {members : ReplicaBody} {data : Bytes}
    (h : Json.lookup (codePoints "data") members = some (.str (textPoints (Base64.b64encode data)))) :
    members.data = some data := by
  rw [ReplicaBody.data, h, Option.getD_some, decodeBase64_points, Base64.b64decode_b64encode]

theorem data_body {data : Bytes} (h : call.request = .store data) :
    ReplicaBody.data call.body = some data := by
  apply data_of_lookup
  rw [body, h, Json.lookup_cons, if_neg chunk_id_ne_data, Json.lookup_cons, if_pos rfl]

theorem data_directBody {data : Bytes} (h : call.request = .store data) :
    ReplicaBody.data call.directBody = some data := by
  apply data_of_lookup
  rw [directBody, body, h, List.cons_append, Json.lookup_cons, if_neg chunk_id_ne_data,
    List.cons_append, Json.lookup_cons, if_pos rfl]

end HolderCall

/-! ### The statement -/

namespace HostedExchange

/-- The answer has status 200. -/
def Accepted (x : HostedExchange) : Prop := ∃ r, x.answer = some r ∧ r.status = 200

instance (x : HostedExchange) : Decidable x.Accepted :=
  decidable_of_iff (x.answer.any fun r => r.status = 200) (by simp [Accepted, Option.any_eq_true])

/-- What an exchange does to what is owed. -/
def note (ledger : ChunkId → UserId → Option Bytes) (x : HostedExchange) :
    ChunkId → UserId → Option Bytes :=
  if x.Accepted then
    match x.op, x.body.chunkId with
    | .store, .ok c => Hosting.note ledger c x.requester x.body.data
    | .delete, .ok c => Hosting.note ledger c x.requester none
    | _, _ => ledger
  else ledger

/-- Each chunk's bytes for each user: those of the last accepted store that no accepted deletion of the
same user has followed. -/
def owed (log : List HostedExchange) : ChunkId → UserId → Option Bytes := log.foldl note fun _ _ => none

/-- The exchange is as the map says: a fetch gives the bytes of the requester and finds them where there
are any, unless nothing is hosted; nobody gets anywhere with a chunk of somebody else. -/
structure Honest (ledger : ChunkId → UserId → Option Bytes) (x : HostedExchange) : Prop where
  given : x.op = .fetch → x.Accepted → ∃ c data, x.body.chunkId = .ok c ∧
    ledger c x.requester = some data ∧ x.answer = some (P2PServer.dataAnswer data)
  found : ∀ c data, x.op = .fetch → x.body.chunkId = .ok c → ledger c x.requester = some data →
    x.answer = some (P2PServer.dataAnswer data) ∨ x.answer = some P2PServer.disabledAnswer
  others : ∀ c user data, x.body.chunkId = .ok c → ledger c user = some data → user ≠ x.requester →
    ¬x.Accepted

/-- The exchange does what the call asks. -/
structure Serves (x : HostedExchange) (call : HolderCall) : Prop where
  op : x.op = call.op
  requester : x.requester = call.user
  chunk : x.body.chunkId = .ok (textPoints call.chunkId)
  data : ∀ data, call.request = .store data → x.body.data = some data

/-- The exchange is no store that passes the checks for an id whose file is that of another chunk. -/
def KeepsFilesApart (s : ParityStore) (x : HostedExchange) : Prop :=
  x.op = .store → ∀ c ∈ x.body.chunkId.toOption, ∀ data ∈ x.body.data,
    s.refusal c x.requester data.length = none →
    ∀ c' ∈ s.index.keys, ParityStore.chunkPath c' = ParityStore.chunkPath c → c' = c

instance (s : ParityStore) (x : HostedExchange) : Decidable (x.KeepsFilesApart s) :=
  inferInstanceAs (Decidable (_ → _))

end HostedExchange

namespace HolderWorld

open HostedExchange (owed Honest)

/-- The exchange that a step adds to the order. -/
def added (w : HolderWorld) (e : HolderEvent) : Option HostedExchange :=
  (w.step e).bind fun w' => w'.log[w.log.length]?

/-- The step executes no store for the file of another chunk. -/
def KeepsFilesApart (w : HolderWorld) (e : HolderEvent) : Prop :=
  ∀ x ∈ w.added e, x.KeepsFilesApart w.parity

instance (w : HolderWorld) (e : HolderEvent) : Decidable (w.KeepsFilesApart e) :=
  inferInstanceAs (Decidable (∀ x ∈ w.added e, x.KeepsFilesApart w.parity))

/-- At a place of the order, after everything that was there when the call was made, there is an exchange
for the call. -/
def TookPlace (w w' : HolderWorld) (c : Nat) (call : HolderCall)
    (ok : List HostedExchange → HostedExchange → Prop) : Prop :=
  ∃ before x after, w'.log = before ++ x :: after ∧ (w.calls.length ≤ c → w.log <+: before) ∧
    x.call = some c ∧ x.Serves call ∧ ok before x

/-- **The calls as one sequence.** Every exchange is as the map of the exchanges before it says; a store
that succeeded was accepted, and a fetch that gave data gave what the map held, both at a place that is not
earlier than what was there when they were made. -/
structure Sequential (w w' : HolderWorld) : Prop where
  grows : w.log <+: w'.log
  honest : ∀ before x after, w'.log = before ++ x :: after → Honest (owed before) x
  stored : ∀ c call data, w'.calls[c]? = some call → call.request = .store data →
    w'.phases c = .ended (.stored true) → w.TookPlace w' c call fun _ x => x.Accepted
  fetched : ∀ c call data, w'.calls[c]? = some call → call.request = .fetch →
    w'.phases c = .ended (.fetched (some data)) →
    w.TookPlace w' c call fun before _ => owed before (textPoints call.chunkId) call.user = some data

end HolderWorld

/-! ### One exchange -/

namespace P2PServer

theorem refusalAnswer_status {op : ReplicaOp} {e : ParityError} {r : Response}
    (h : refusalAnswer op e = some r) : r.status ≠ 200 := by
  cases op <;> cases e <;> cases h <;> decide

variable {s : ParityStore} {body : ReplicaBody} {u : UserId}

/-- The answer is no success. -/
def Refused (a : Option Response) : Prop := ∀ r, a = some r → r.status ≠ 200

theorem refused_some {r : Response} (h : r.status ≠ 200) : Refused (some r) := by
  intro r' hr'
  exact Option.some.inj hr' ▸ h

theorem refused_onChunk {op : ReplicaOp} {e : Option ParityError} : Refused (e.bind (refusalAnswer op)) := by
  intro r hr
  obtain ⟨e, -, he⟩ := Option.bind_eq_some_iff.mp hr
  exact refusalAnswer_status he

/-- **What an operation does**: it is refused and changes nothing, or the store has taken it. -/
theorem replicaMap_cases (s : ParityStore) (body : ReplicaBody) (u : UserId) (hosting : Bool)
    (op : ReplicaOp) :
    (Refused (replicaMap s body u hosting op).1 ∧ (replicaMap s body u hosting op).2 = s) ∨
    ∃ c, body.chunkId = .ok c ∧
      match op with
      | .store => ∃ data s', body.data = some data ∧ s.store c u data = (.ok (), s') ∧
          replicaMap s body u hosting .store = (some (writtenAnswer data), s')
      | .fetch => ∃ data, s.fetch c u = .ok data ∧
          replicaMap s body u hosting .fetch = (some (dataAnswer data), s)
      | .delete => ∃ s', s.delete c u = (.ok (), s') ∧
          replicaMap s body u hosting .delete = (some deletedAnswer, s') := by
  unfold replicaMap
  cases hosting with
  | false => exact Or.inl ⟨refused_some (by decide), rfl⟩
  | true =>
      simp only [Bool.not_true, Bool.false_eq_true, if_false]
      cases op with
      | store =>
          unfold opReplicaStore onChunk
          cases hdata : body.data with
          | none => exact Or.inl ⟨refused_some (by decide), rfl⟩
          | some data =>
              by_cases hsize : Hosts.maxWriteSize < data.length
              · simp only [if_pos hsize]
                exact Or.inl ⟨refused_some (by decide), trivial⟩
              · simp only [if_neg hsize]
                cases hchunk : body.chunkId with
                | error e => exact Or.inl ⟨refused_onChunk, rfl⟩
                | ok c =>
                    dsimp only
                    rcases s.store_cases c u data with ⟨e, herror, -⟩ | ⟨s', -, hok, -, -⟩
                    · rw [herror]
                      exact Or.inl ⟨fun r => refusalAnswer_status, rfl⟩
                    · exact Or.inr ⟨c, rfl, data, s', rfl, hok, by rw [hok]⟩
      | fetch =>
          unfold opReplicaFetch onChunk
          cases hchunk : body.chunkId with
          | error e => exact Or.inl ⟨refused_onChunk, rfl⟩
          | ok c =>
              dsimp only
              cases hfetch : s.fetch c u with
              | error e => exact Or.inl ⟨fun r => refusalAnswer_status, rfl⟩
              | ok data => exact Or.inr ⟨c, rfl, data, hfetch, rfl⟩
      | delete =>
          unfold opReplicaDelete onChunk
          cases hchunk : body.chunkId with
          | error e => exact Or.inl ⟨refused_onChunk, rfl⟩
          | ok c =>
              dsimp only
              rcases hdelete : s.delete c u with ⟨e | _, s'⟩
              · rcases s.delete_cases c u with ⟨e', herror⟩ | ⟨hok, -⟩ | ⟨s₁, _, _, hok, -⟩
                · obtain ⟨-, rfl⟩ := Prod.mk.inj (hdelete.symm.trans herror)
                  exact Or.inl ⟨fun r => refusalAnswer_status, rfl⟩
                · cases (Prod.mk.inj (hdelete.symm.trans hok)).1
                · cases (Prod.mk.inj (hdelete.symm.trans hok)).1
              · exact Or.inr ⟨c, rfl, s', hdelete, rfl⟩

theorem status_of_parseAndVerifyAnyUser {body : Option (Json CodePoint)} {reply : VerifyReply}
    {r : Response} (h : parseAndVerifyAnyUser body reply = .error r) : r.status ≠ 200 := by
  have htoken : ∀ r, verifyAnyToken reply = .error r → r.status ≠ 200 := by
    intro r hr
    unfold verifyAnyToken at hr
    split at hr
    · exact Except.error.inj hr ▸ (by decide)
    · exact Except.error.inj hr ▸ (by decide)
    · split_ifs at hr
      · exact Except.error.inj hr ▸ (by decide)
      · split at hr
        · exact Except.error.inj hr ▸ (by decide)
        · split_ifs at hr
          exact Except.error.inj hr ▸ (by decide)
  unfold parseAndVerifyAnyUser at h
  split at h
  · exact Except.error.inj h ▸ (by decide)
  · split at h
    · exact Except.error.inj h ▸ (by decide)
    · split_ifs at h
      · exact Except.error.inj h ▸ (by decide)
      · split at h
        · rename_i hr
          exact Except.error.inj h ▸ htoken _ hr
        · dsimp only at h
          split_ifs at h
          exact Except.error.inj h ▸ (by decide)

/-- A request that gets through has an object as its body, and a token that the server vouches for. -/
theorem parsed_of_parseAndVerifyAnyUser {body : Option (Json CodePoint)} {reply : VerifyReply}
    {members : ReplicaBody} {requester : Value}
    (h : parseAndVerifyAnyUser body reply = .ok (members, requester)) :
    body = some (.dict members) ∧
      ∃ data, verifyAnyToken reply = .ok data ∧ Body.get data "user_id" = requester := by
  unfold parseAndVerifyAnyUser at h
  split at h
  · cases h
  · rename_i v
    split at h
    · cases h
    · rename_i members' hmembers
      split_ifs at h
      split at h
      · cases h
      · rename_i data hdata
        dsimp only at h
        split_ifs at h
        obtain ⟨rfl, rfl⟩ := Prod.mk.inj (Except.ok.inj h)
        refine ⟨?_, data, hdata, rfl⟩
        cases v <;> cases hmembers
        rfl

end P2PServer

/-! ### What the device keeps -/

namespace HostedExchange

variable {ledger : ChunkId → UserId → Option Bytes} {x : HostedExchange} {c : ChunkId}

theorem owed_append (log : List HostedExchange) (x : HostedExchange) :
    owed (log ++ [x]) = note (owed log) x := by
  rw [owed, owed, List.foldl_append]
  rfl

theorem note_refused (h : ¬x.Accepted) : note ledger x = ledger := if_neg h

theorem note_fetch (h : x.op = .fetch) : note ledger x = ledger := by
  unfold note
  simp only [h, ite_self]

theorem note_store (hop : x.op = .store) (hchunk : x.body.chunkId = .ok c) (h : x.Accepted) :
    note ledger x = Hosting.note ledger c x.requester x.body.data := by
  simp only [note, if_pos h, hop, hchunk]

theorem note_delete (hop : x.op = .delete) (hchunk : x.body.chunkId = .ok c) (h : x.Accepted) :
    note ledger x = Hosting.note ledger c x.requester none := by
  simp only [note, if_pos h, hop, hchunk]

end HostedExchange

/-- What an owner is given is what it is owed. -/
theorem Hosting.Kept.owed_of_fetch {h : Hosting} (hkept : h.Kept) {c : ChunkId} {u : UserId}
    {data : Bytes} (hfetch : h.parity.fetch c u = .ok data) : h.ledger c u = some data := by
  have hentry : ∃ info, h.parity.index.get c = some info ∧ info.owner = u := by
    unfold ParityStore.fetch at hfetch
    split_ifs at hfetch
    split at hfetch
    · cases hfetch
    · rename_i info hinfo
      split_ifs at hfetch with howner
      exact ⟨info, hinfo, by simpa using howner⟩
  obtain ⟨info, hinfo, rfl⟩ := hentry
  obtain ⟨owedData, howed⟩ := hkept.listed c info hinfo
  have hsame := hkept.isolated.fetched c info.owner owedData howed
  rw [howed, Except.ok.inj (hsame.symm.trans hfetch)]

namespace HolderWorld

open P2PServer
open HostedExchange (owed Honest)

/-- The exchange that the device adds to the order. -/
def record (w : HolderWorld) (call : Option Nat) (op : ReplicaOp) (body : ReplicaBody)
    (requester : UserId) : HostedExchange :=
  { call, op, body, requester, answer := w.answer op body requester }

/-- The store, its files and the map agree, and the exchanges so far were as the map says. -/
structure Settled (w : HolderWorld) : Prop where
  kept : Hosting.Kept ⟨w.parity, owed w.log⟩
  whole : Keeper.Kept ParityStore.dumpIndex ParityStore.readIndex ⟨w.parity, none⟩
  honest : ∀ before x after, w.log = before ++ x :: after → Honest (owed before) x

variable {w : HolderWorld}

section Record

variable (h : w.Settled) (call : Option Nat) (op : ReplicaOp) (body : ReplicaBody) (u : UserId)

include h

theorem Settled.given_record (hop : op = .fetch) (haccepted : (w.record call op body u).Accepted) :
    ∃ c data, body.chunkId = .ok c ∧ owed w.log c u = some data ∧
      w.answer op body u = some (dataAnswer data) := by
  subst hop
  obtain ⟨r, hr, hstatus⟩ := haccepted
  rcases replicaMap_cases w.parity body u w.hosting .fetch with
    ⟨hrefused, -⟩ | ⟨c, hc, data, hfetch, hmap⟩
  · exact absurd hstatus (hrefused r hr)
  · refine ⟨c, data, hc, h.kept.owed_of_fetch hfetch, ?_⟩
    rw [answer, hmap]

theorem Settled.found_record {c : ChunkId} {data : Bytes} (hop : op = .fetch)
    (hc : body.chunkId = .ok c) (howed : owed w.log c u = some data) :
    w.answer op body u = some (dataAnswer data) ∨ w.answer op body u = some disabledAnswer := by
  subst hop
  have hfetch : w.parity.fetch c u = .ok data := h.kept.isolated.fetched c u data howed
  unfold answer replicaMap
  cases w.hosting with
  | false => exact Or.inr rfl
  | true =>
      left
      simp [opReplicaFetch, onChunk, hc, hfetch]

theorem Settled.others_record {c : ChunkId} {user : UserId} {data : Bytes}
    (hc : body.chunkId = .ok c) (howed : owed w.log c user = some data) (hne : user ≠ u) :
    ¬(w.record call op body u).Accepted := by
  rintro ⟨r, hr, hstatus⟩
  have haway := fun new => h.kept.isolated.turnedAway c user u data new howed hne.symm
  rcases replicaMap_cases w.parity body u w.hosting op with ⟨hrefused, -⟩ | ⟨c', hc', hrest⟩
  · exact hrefused r hr hstatus
  · obtain rfl : c = c' := Except.ok.inj (hc.symm.trans hc')
    cases op with
    | store =>
        obtain ⟨new, s', -, hstore, -⟩ := hrest
        cases (Prod.mk.inj (hstore.symm.trans (haway new).2.1)).1
    | fetch =>
        obtain ⟨got, hfetch, -⟩ := hrest
        cases hfetch.symm.trans (haway []).1
    | delete =>
        obtain ⟨s', hdelete, -⟩ := hrest
        cases (Prod.mk.inj (hdelete.symm.trans (haway []).2.2)).1

theorem Settled.honest_record : Honest (owed w.log) (w.record call op body u) :=
  ⟨h.given_record call op body u, fun _ _ => h.found_record op body u,
    fun _ _ _ => h.others_record call op body u⟩

/-- The store and the map after one exchange. -/
theorem Settled.kept_exchange (hapart : (w.record call op body u).KeepsFilesApart w.parity) :
    Hosting.Kept ⟨(w.exchange call op body u).parity,
        HostedExchange.note (owed w.log) (w.record call op body u)⟩ ∧
      Keeper.Kept ParityStore.dumpIndex ParityStore.readIndex
        ⟨(w.exchange call op body u).parity, none⟩ := by
  rcases replicaMap_cases w.parity body u w.hosting op with ⟨hrefused, hsame⟩ | ⟨c, hc, hrest⟩
  · have hparity : (w.exchange call op body u).parity = w.parity := hsame
    have hnot : ¬(w.record call op body u).Accepted := fun ⟨r, hr, hstatus⟩ => hrefused r hr hstatus
    rw [hparity, HostedExchange.note_refused hnot]
    exact ⟨h.kept, h.whole⟩
  · cases op with
    | store =>
        obtain ⟨data, s', hdata, hstore, hmap⟩ := hrest
        have hparity : (w.exchange call .store body u).parity = s' := congrArg Prod.snd hmap
        have haccepted : (w.record call .store body u).Accepted :=
          ⟨_, congrArg Prod.fst hmap, rfl⟩
        have hfiles : w.parity.refusal c u data.length = none → ∀ c' ∈ w.parity.index.keys,
            ParityStore.chunkPath c' = ParityStore.chunkPath c → c' = c :=
          hapart rfl c (by rw [Option.mem_def]; exact congrArg Except.toOption hc) data hdata
        have hnote : HostedExchange.note (owed w.log) (w.record call .store body u) =
            Hosting.note (owed w.log) c u (some data) := by
          rw [HostedExchange.note_store rfl hc haccepted]
          exact congrArg _ hdata
        rw [hparity, hnote]
        constructor
        · have hstep : Hosting.step ⟨w.parity, owed w.log⟩ (.store c u data) =
              some ⟨s', Hosting.note (owed w.log) c u (some data)⟩ := by
            rw [Hosting.step, hstore]
          refine Hosting.kept_step h.kept (fun c₁ u₁ data₁ hcall hchecks => ?_) hstep
          obtain ⟨rfl, rfl, rfl⟩ := HostingCall.store.inj hcall
          exact hfiles hchecks
        · have hstep : Keeper.step ParityStore.readIndex ⟨w.parity, none⟩ (.store c u data none) =
              some ⟨s', none⟩ := by
            simp only [Keeper.step, hstore, Keeper.settle]
          exact Keeper.kept_step (e := .store c u data none) Keeper.readsBack_index h.whole hfiles trivial
            hstep
    | fetch =>
        obtain ⟨data, -, hmap⟩ := hrest
        have hparity : (w.exchange call .fetch body u).parity = w.parity := congrArg Prod.snd hmap
        rw [hparity, HostedExchange.note_fetch rfl]
        exact ⟨h.kept, h.whole⟩
    | delete =>
        obtain ⟨s', hdelete, hmap⟩ := hrest
        have hparity : (w.exchange call .delete body u).parity = s' := congrArg Prod.snd hmap
        have haccepted : (w.record call .delete body u).Accepted :=
          ⟨_, congrArg Prod.fst hmap, rfl⟩
        rw [hparity, HostedExchange.note_delete rfl hc haccepted]
        constructor
        · have hstep : Hosting.step ⟨w.parity, owed w.log⟩ (.delete c u) =
              some ⟨s', Hosting.note (owed w.log) c u none⟩ := by
            rw [Hosting.step, hdelete]
          refine Hosting.kept_step h.kept (fun c₁ u₁ data₁ hcall => ?_) hstep
          cases hcall
        · have hstep : Keeper.step ParityStore.readIndex ⟨w.parity, none⟩ (.delete c u none) =
              some ⟨s', none⟩ := by
            simp only [Keeper.step, hdelete, Keeper.settle]
          exact Keeper.kept_step (e := .delete c u none) Keeper.readsBack_index h.whole trivial trivial
            hstep

theorem Settled.exchange (hapart : (w.record call op body u).KeepsFilesApart w.parity) :
    (w.exchange call op body u).Settled := by
  obtain ⟨hkept, hwhole⟩ := h.kept_exchange call op body u hapart
  have hlog : (w.exchange call op body u).log = w.log ++ [w.record call op body u] := rfl
  refine ⟨?_, hwhole, fun before x after hsplit => ?_⟩
  · rw [hlog, HostedExchange.owed_append]
    exact hkept
  · rw [hlog] at hsplit
    rcases List.eq_nil_or_concat after with rfl | ⟨after, y, rfl⟩
    · obtain ⟨rfl, hx⟩ := List.append_inj' hsplit rfl
      exact List.singleton_inj.mp hx ▸ h.honest_record call op body u
    · rw [List.concat_eq_append, ← List.cons_append, ← List.append_assoc] at hsplit
      exact h.honest before x after (List.append_inj' hsplit rfl).1

end Record

/-! ### What the calls were answered -/

/-- The call has an exchange that was answered so. -/
def Executed (w : HolderWorld) (c : Nat) (call : HolderCall) (r : Response) : Prop :=
  ∃ x ∈ w.log, x.call = some c ∧ x.Serves call ∧ x.answer = some r

/-- A success, now or on its way, has an exchange of the call behind it. -/
def Backed (w : HolderWorld) (c : Nat) (call : HolderCall) : HolderPhase → Prop
  | .direct answer => ∀ r, answer = some r → r.status = 200 → w.Executed c call r
  | .relay answer => ∀ r, answer = some r → r.status = 200 → w.Executed c call r
  | .ended (.stored true) => ∃ r, r.status = 200 ∧ w.Executed c call r
  | .ended (.fetched (some data)) => ∃ r, r.status = 200 ∧ w.Executed c call r ∧
      decodeHolderAnswer (some r.result) = some (some data)
  | .ended _ => True

structure CallsBacked (w : HolderWorld) : Prop where
  backed : ∀ c call, w.calls[c]? = some call → w.Backed c call (w.phases c)
  known : ∀ x ∈ w.log, ∀ c, x.call = some c → c < w.calls.length

section Growth

variable {w' : HolderWorld} {c : Nat} {call : HolderCall} {phase : HolderPhase} {r : Response}

theorem Executed.mono (hlog : w.log ⊆ w'.log) (h : w.Executed c call r) : w'.Executed c call r := by
  obtain ⟨x, hx, hrest⟩ := h
  exact ⟨x, hlog hx, hrest⟩

theorem Backed.mono (hlog : w.log ⊆ w'.log) (h : w.Backed c call phase) : w'.Backed c call phase := by
  cases phase with
  | direct answer => exact fun r hr hstatus => (h r hr hstatus).mono hlog
  | relay answer => exact fun r hr hstatus => (h r hr hstatus).mono hlog
  | ended result =>
      rcases result with (_ | _) | (_ | data) | _
      · trivial
      · obtain ⟨r, hstatus, hexecuted⟩ := h
        exact ⟨r, hstatus, hexecuted.mono hlog⟩
      · trivial
      · obtain ⟨r, hstatus, hexecuted, hdata⟩ := h
        exact ⟨r, hstatus, hexecuted.mono hlog, hdata⟩
      · trivial

theorem CallsBacked.enter (h : w.CallsBacked)
    (hphase : ∀ call, w.calls[c]? = some call → w.Backed c call phase) :
    (w.enter c phase).CallsBacked := by
  refine ⟨fun c' call hcall => ?_, h.known⟩
  by_cases hc : c' = c
  · subst hc
    have hself : (w.enter c' phase).phases c' = phase := Function.update_self ..
    rw [hself]
    exact Backed.mono (List.Subset.refl _) (hphase call hcall)
  · have hother : (w.enter c phase).phases c' = w.phases c' := Function.update_of_ne hc ..
    rw [hother]
    exact Backed.mono (List.Subset.refl _) (h.backed c' call hcall)

theorem CallsBacked.exchange (h : w.CallsBacked) {made : Option Nat}
    (hmade : ∀ c, made = some c → c < w.calls.length) (op : ReplicaOp) (body : ReplicaBody)
    (u : UserId) : (w.exchange made op body u).CallsBacked := by
  refine ⟨fun c call hcall => Backed.mono (List.subset_append_left _ _) (h.backed c call hcall),
    fun x hx c hc => ?_⟩
  rcases List.mem_append.mp hx with hold | hnew
  · exact h.known x hold c hc
  · rw [List.mem_singleton.mp hnew] at hc
    exact hmade c hc

/-- What is answered from an operation, where it does not raise. -/
theorem executed_of_exchange {op : ReplicaOp} {body : ReplicaBody} {u : UserId} {failure : Response}
    (hfailure : failure.status ≠ 200) (hserves : (w.record (some c) op body u).Serves call)
    (hr : (w.answer op body u).getD failure = r) (hstatus : r.status = 200) :
    (w.exchange (some c) op body u).Executed c call r := by
  refine ⟨w.record (some c) op body u, List.mem_append_right _ (List.mem_singleton_self _), rfl,
    hserves, ?_⟩
  show w.answer op body u = some r
  cases hanswer : w.answer op body u with
  | none =>
      rw [hanswer] at hr
      exact absurd hstatus (hr ▸ hfailure)
  | some r' =>
      rw [hanswer] at hr
      exact congrArg some hr

end Growth

/-! ### The steps -/

section Steps

variable {w' : HolderWorld} {made : Option Nat} {op : ReplicaOp}

theorem serve_cases {body : Option (Json CodePoint)} {verified : VerifyReply}
    {x : Response × HolderWorld} (h : w.serve made op body verified = some x) :
    (x.2 = w ∧ x.1.status ≠ 200) ∨ ∃ members user data, body = some (.dict members) ∧
      verifyAnyToken verified = .ok data ∧ Body.get data "user_id" = .str user ∧
      x = ((w.answer op members (String.ofList user)).getD serverError,
        w.exchange made op members (String.ofList user)) := by
  unfold serve at h
  cases hparse : parseAndVerifyAnyUser body verified with
  | error r =>
      rw [hparse] at h
      obtain rfl := Option.some.inj h
      exact Or.inl ⟨rfl, status_of_parseAndVerifyAnyUser hparse⟩
  | ok y =>
      obtain ⟨members, requester⟩ := y
      rw [hparse] at h
      obtain ⟨hbody, data, hverified, hrequester⟩ := parsed_of_parseAndVerifyAnyUser hparse
      obtain ⟨user, huser, rfl⟩ := Option.map_eq_some_iff.mp h
      refine Or.inr ⟨members, user, data, hbody, hverified, ?_, rfl⟩
      rw [hrequester]
      cases requester <;> cases huser
      rfl

theorem dispatch_cases (w : HolderWorld) (made : Option Nat) (op : ReplicaOp)
    (payload : Json CodePoint) :
    ((w.dispatch made op payload).2 = w ∧ (w.dispatch made op payload).1.status ≠ 200) ∨
    ∃ members, payload = .dict members ∧ w.dispatch made op payload =
      ((w.answer op members w.localUser).getD (errorResponse 500 "Internal error"),
        w.exchange made op members w.localUser) := by
  unfold dispatch
  cases payload with
  | dict members => exact Or.inr ⟨members, rfl, rfl⟩
  | _ =>
      refine Or.inl ⟨rfl, ?_⟩
      cases w.hosting with
      | false => exact (by decide : disabledAnswer.status ≠ 200)
      | true => exact (by decide : (errorResponse 500 "Internal error").status ≠ 200)

/-- **What a step does** to the store and the order: nothing, or one exchange, or the store is given another
limit or opened anew. -/
theorem step_cases {e : HolderEvent} (h : w.step e = some w') :
    (w'.parity = w.parity ∧ w'.log = w.log) ∨
    (∃ made op body u, w'.parity = (w.exchange made op body u).parity ∧
      w'.log = w.log ++ [w.record made op body u]) ∨
    (∃ maxBytes, (w'.parity = w.parity.setMaxBytes maxBytes ∨
      w'.parity = w.parity.reopened ParityStore.readIndex maxBytes) ∧ w'.log = w.log) := by
  cases e with
  | called call => exact Or.inl (Option.some.inj h ▸ ⟨rfl, rfl⟩)
  | served c verified =>
      simp only [step] at h
      split at h
      · obtain ⟨x, hx, rfl⟩ := Option.map_eq_some_iff.mp h
        rcases serve_cases hx with ⟨hsame, -⟩ | ⟨members, user, -, -, -, -, rfl⟩
        · exact Or.inl (by rw [hsame]; exact ⟨rfl, rfl⟩)
        · exact Or.inr (Or.inl ⟨_, _, _, _, rfl, rfl⟩)
      · cases h
  | failed c failure =>
      simp only [step] at h
      split at h
      · exact Or.inl (Option.some.inj h ▸ ⟨rfl, rfl⟩)
      · cases h
  | answered c =>
      simp only [step] at h
      split at h
      · exact Or.inl (Option.some.inj h ▸ ⟨rfl, rfl⟩)
      · cases h
  | dispatched c =>
      simp only [step] at h
      split at h
      · rename_i call _ _
        obtain rfl := Option.some.inj h
        exact Or.inr (Or.inl ⟨some c, call.op, call.body, w.localUser, rfl, rfl⟩)
      · cases h
  | relayed c token submission response =>
      simp only [step] at h
      split at h
      · exact Or.inl (Option.some.inj h ▸ ⟨rfl, rfl⟩)
      · cases h
  | requested op body verified =>
      obtain ⟨x, hx, rfl⟩ := Option.map_eq_some_iff.mp h
      rcases serve_cases hx with ⟨hsame, -⟩ | ⟨members, user, -, -, -, -, rfl⟩
      · exact Or.inl (by rw [hsame]; exact ⟨rfl, rfl⟩)
      · exact Or.inr (Or.inl ⟨_, _, _, _, rfl, rfl⟩)
  | relayRequested op payload =>
      obtain rfl := Option.some.inj h
      rcases dispatch_cases w none op payload with ⟨hsame, -⟩ | ⟨members, -, hexchange⟩
      · exact Or.inl (by rw [hsame]; exact ⟨rfl, rfl⟩)
      · rw [hexchange]
        exact Or.inr (Or.inl ⟨_, _, _, _, rfl, rfl⟩)
  | setMaxBytes maxBytes =>
      exact Or.inr (Or.inr ⟨maxBytes, Option.some.inj h ▸ ⟨Or.inl rfl, rfl⟩⟩)
  | signedIn user => exact Or.inl (Option.some.inj h ▸ ⟨rfl, rfl⟩)
  | restarted hosting maxBytes =>
      exact Or.inr (Or.inr ⟨maxBytes, Option.some.inj h ▸ ⟨Or.inr rfl, rfl⟩⟩)

theorem reopened_eq {load : Bytes → Option (Table ChunkId ChunkMeta)} {s : ParityStore}
    (h : ParityStore.Whole load s) (maxBytes : Option Int) :
    s.reopened load maxBytes = s.setMaxBytes maxBytes := by
  rw [ParityStore.reopened, h.saved, ParityStore.setMaxBytes]

theorem Settled.congr (h : w.Settled) (hparity : w'.parity = w.parity) (hlog : w'.log = w.log) :
    w'.Settled := by
  refine ⟨?_, ?_, ?_⟩
  · rw [hparity, hlog]
    exact h.kept
  · rw [hparity]
    exact h.whole
  · rw [hlog]
    exact h.honest

theorem Settled.setMaxBytes (h : w.Settled) {maxBytes : Option Int}
    (hparity : w'.parity = w.parity.setMaxBytes maxBytes) (hlog : w'.log = w.log) : w'.Settled := by
  refine ⟨?_, ?_, ?_⟩
  · rw [hparity, hlog]
    have hstep : Hosting.step ⟨w.parity, owed w.log⟩ (.setMaxBytes maxBytes) =
        some ⟨w.parity.setMaxBytes maxBytes, owed w.log⟩ := rfl
    exact Hosting.kept_step h.kept (fun c u data hcall => by cases hcall) hstep
  · rw [hparity]
    have hstep : Keeper.step ParityStore.readIndex ⟨w.parity, none⟩ (.setMaxBytes maxBytes) =
        some ⟨w.parity.setMaxBytes maxBytes, none⟩ := rfl
    exact Keeper.kept_step (e := .setMaxBytes maxBytes) Keeper.readsBack_index h.whole trivial trivial
      hstep
  · rw [hlog]
    exact h.honest

/-- **One step** keeps what the device keeps. -/
theorem settled_step {e : HolderEvent} (h : w.Settled) (hapart : w.KeepsFilesApart e)
    (hstep : w.step e = some w') : w'.Settled := by
  rcases step_cases hstep with ⟨hparity, hlog⟩ | ⟨made, op, body, u, hparity, hlog⟩ |
    ⟨maxBytes, hparity | hparity, hlog⟩
  · exact h.congr hparity hlog
  · have hadded : w.added e = some (w.record made op body u) := by
      rw [added, hstep, Option.bind_some, hlog, List.getElem?_concat_length]
    exact (h.exchange made op body u (hapart _ hadded)).congr hparity hlog
  · exact h.setMaxBytes hparity hlog
  · rw [reopened_eq h.whole.whole] at hparity
    exact h.setMaxBytes hparity hlog

end Steps

/-! ### The calls -/

section Calls

variable {w' : HolderWorld} {c : Nat} {call : HolderCall}

theorem backed_relayPhase (w : HolderWorld) (c : Nat) (call : HolderCall) :
    w.Backed c call call.relayPhase := by
  unfold HolderCall.relayPhase
  cases call.holder.deviceId with
  | some device => exact fun r hr => by cases hr
  | none =>
      unfold HolderCall.unreached
      cases call.request <;> trivial

theorem backed_firstPhase (w : HolderWorld) (c : Nat) (call : HolderCall) :
    w.Backed c call call.firstPhase := by
  unfold HolderCall.firstPhase
  cases call.holder.connectionAddress with
  | none => exact backed_relayPhase w c call
  | some address => exact fun r hr => by cases hr

theorem backed_afterFailure (w : HolderWorld) (c : Nat) (call : HolderCall) (failure : HttpFailure) :
    w.Backed c call (call.afterFailure failure) := by
  unfold HolderCall.afterFailure
  split_ifs
  · trivial
  · exact backed_relayPhase w c call

/-- An answer with status 200 has its exchange, so has what is made of it. -/
theorem backed_afterAnswer {r : Response} (h : r.status = 200 → w.Executed c call r) :
    w.Backed c call (.ended (call.afterAnswer r)) := by
  unfold HolderCall.afterAnswer
  cases call.request with
  | store data =>
      by_cases hstatus : r.status = 200
      · simp only [hstatus, decide_true]
        exact ⟨r, hstatus, h hstatus⟩
      · simp only [hstatus, decide_false]
        trivial
  | fetch =>
      dsimp only
      split_ifs with hstatus
      · cases hdecode : decodeHolderAnswer (some r.result) with
        | none => trivial
        | some found =>
            cases found with
            | none => trivial
            | some data => exact ⟨r, hstatus, h hstatus, hdecode⟩
      · trivial

theorem decodeHolderAnswer_asDict {v : Value} {data : Bytes}
    (h : decodeHolderAnswer (some (ProxyCall.asDict v)) = some (some data)) :
    decodeHolderAnswer (some v) = some (some data) := by
  cases v with
  | dict members => exact h
  | _ => cases h

theorem relayOp_eq_some {token : AccessToken} {submission response : HttpReply} {v : Value}
    (h : relayOp token submission response = some v) : ∃ envelope,
      RelayWorld.taken response = some envelope ∧
        (Body.get envelope "status").eq (.int 200) = true ∧
        v = ProxyCall.asDict (ProxyCall.resultOf envelope) := by
  unfold relayOp at h
  split at h
  · split at h
    · cases hresponse : ProxyCall.afterResponse response with
      | error e =>
          rw [hresponse] at h
          cases h
      | ok v' =>
          rw [hresponse] at h
          obtain rfl : v' = v := Option.some.inj h
          exact RelayWorld.afterResponse_ok hresponse
    · cases h
  · cases h

/-- An answer by way of the relay. -/
theorem backed_afterRelay {answer : Option Response} {token : AccessToken}
    {submission response : HttpReply}
    (h : ∀ r, answer = some r → r.status = 200 → w.Executed c call r)
    (hvouch : ∀ envelope, RelayWorld.taken response = some envelope →
      (Body.get envelope "status").eq (.int 200) = true →
      ∃ r, answer = some r ∧ r.status = 200 ∧ ProxyCall.resultOf envelope = r.result) :
    w.Backed c call (.ended (call.afterRelay (relayOp token submission response))) := by
  cases hrelay : relayOp token submission response with
  | none =>
      unfold HolderCall.afterRelay
      cases call.request <;> trivial
  | some v =>
      obtain ⟨envelope, htaken, hstatus, rfl⟩ := relayOp_eq_some hrelay
      obtain ⟨r, hr, h200, hresult⟩ := hvouch envelope htaken hstatus
      unfold HolderCall.afterRelay
      cases call.request with
      | store data => exact ⟨r, h200, h r hr h200⟩
      | fetch =>
          cases hdecode : decodeHolderAnswer (some (ProxyCall.asDict (ProxyCall.resultOf envelope))) with
          | none => trivial
          | some found =>
              cases found with
              | none => trivial
              | some data =>
                  rw [hresult] at hdecode
                  exact ⟨r, h200, h r hr h200, decodeHolderAnswer_asDict hdecode⟩

/-- What the device does for the POST of a call it does for the user of the call. -/
theorem serves_directBody {data : Body} {user : Text}
    (hvouch : Body.get data "user_id" = .str call.user.toList)
    (hverified : Body.get data "user_id" = .str user) :
    (w.record (some c) call.op call.directBody (String.ofList user)).Serves call := by
  obtain rfl : user = call.user.toList := Json.str.inj (hverified.symm.trans hvouch)
  exact ⟨rfl, String.ofList_toList, call.chunkId_directBody, fun _ => call.data_directBody⟩

theorem CallsBacked.called (h : w.CallsBacked) (call : HolderCall) :
    ({ w with calls := w.calls ++ [call] }.enter w.calls.length call.firstPhase).CallsBacked := by
  refine ⟨fun c other hother => ?_, fun x hx c hc => ?_⟩
  · by_cases hc : c = w.calls.length
    · subst hc
      have hself : ({ w with calls := w.calls ++ [call] }.enter w.calls.length
          call.firstPhase).phases w.calls.length = call.firstPhase := Function.update_self ..
      have hsame : other = call := by
        have hlast : (w.calls ++ [call])[w.calls.length]? = some other := hother
        rw [List.getElem?_concat_length] at hlast
        exact (Option.some.inj hlast).symm
      rw [hself, hsame]
      exact backed_firstPhase _ _ call
    · have hphase : ({ w with calls := w.calls ++ [call] }.enter w.calls.length
          call.firstPhase).phases c = w.phases c := Function.update_of_ne hc ..
      have hlt : c < w.calls.length := by
        have hbound : c < (w.calls ++ [call]).length := (List.getElem?_eq_some_iff.mp hother).1
        rw [List.length_append, List.length_singleton] at hbound
        omega
      have hold : w.calls[c]? = some other := by
        have hboth : (w.calls ++ [call])[c]? = some other := hother
        rwa [List.getElem?_append_left hlt] at hboth
      rw [hphase]
      exact Backed.mono (List.Subset.refl _) (h.backed c other hold)
  · have hbound := h.known x hx c hc
    show c < (w.calls ++ [call]).length
    rw [List.length_append]
    omega

theorem CallsBacked.of_serve (h : w.CallsBacked) {made : Option Nat} {op : ReplicaOp}
    {body : Option (Json CodePoint)} {verified : VerifyReply} {x : Response × HolderWorld}
    (hmade : ∀ c, made = some c → c < w.calls.length) (hx : w.serve made op body verified = some x) :
    x.2.CallsBacked := by
  rcases serve_cases hx with ⟨hsame, -⟩ | ⟨members, user, -, -, -, -, rfl⟩
  · exact hsame ▸ h
  · exact h.exchange hmade op members _

theorem CallsBacked.of_dispatch (h : w.CallsBacked) {made : Option Nat}
    (hmade : ∀ c, made = some c → c < w.calls.length) (op : ReplicaOp) (payload : Json CodePoint) :
    (w.dispatch made op payload).2.CallsBacked := by
  rcases dispatch_cases w made op payload with ⟨hsame, -⟩ | ⟨members, -, hexchange⟩
  · rw [hsame]
    exact h
  · rw [hexchange]
    exact h.exchange hmade op members _

theorem lt_of_call (hcall : w.calls[c]? = some call) : ∀ c', some c = some c' → c' < w.calls.length := by
  intro c' hc'
  exact Option.some.inj hc' ▸ (List.getElem?_eq_some_iff.mp hcall).1

/-- **One step** keeps what is behind the calls. -/
theorem callsBacked_step {e : HolderEvent} (h : w.CallsBacked) (hvouch : w.Vouches e)
    (hstep : w.step e = some w') : w'.CallsBacked := by
  cases e with
  | called call => exact Option.some.inj hstep ▸ h.called call
  | served c verified =>
      simp only [step] at hstep
      split at hstep
      · rename_i call hcall hphase
        obtain ⟨x, hx, rfl⟩ := Option.map_eq_some_iff.mp hstep
        refine (h.of_serve (lt_of_call hcall) hx).enter fun call' hcall' r hr hstatus => ?_
        obtain rfl := Option.some.inj hr
        rcases serve_cases hx with ⟨-, hrefused⟩ | ⟨members, user, data, hbody, hverified, huser, rfl⟩
        · exact absurd hstatus hrefused
        · obtain rfl : call' = call := Option.some.inj (hcall'.symm.trans hcall)
          obtain rfl : call'.directBody = members := Json.dict.inj (Option.some.inj hbody)
          exact executed_of_exchange (by decide : serverError.status ≠ 200)
            (serves_directBody (hvouch call' data hcall hverified) huser) rfl
            hstatus
      · cases hstep
  | failed c failure =>
      simp only [step] at hstep
      split at hstep
      · rename_i call _ hcall _
        obtain rfl := Option.some.inj hstep
        refine h.enter fun call' hcall' => ?_
        obtain rfl : call' = call := Option.some.inj (hcall'.symm.trans hcall)
        exact backed_afterFailure w c call' failure
      · cases hstep
  | answered c =>
      simp only [step] at hstep
      split at hstep
      · rename_i call r hcall hphase
        obtain rfl := Option.some.inj hstep
        refine h.enter fun call' hcall' => ?_
        obtain rfl : call' = call := Option.some.inj (hcall'.symm.trans hcall)
        have hbacked := h.backed c call' hcall
        rw [hphase] at hbacked
        exact backed_afterAnswer (hbacked r rfl)
      · cases hstep
  | dispatched c =>
      simp only [step] at hstep
      split at hstep
      · rename_i call hcall hphase
        obtain rfl := Option.some.inj hstep
        refine (h.of_dispatch (lt_of_call hcall) _ _).enter fun call' hcall' r hr hstatus => ?_
        obtain rfl := Option.some.inj hr
        obtain rfl : call' = call := Option.some.inj (hcall'.symm.trans hcall)
        refine executed_of_exchange (by decide : (errorResponse 500 "Internal error").status ≠ 200) ?_
          rfl hstatus
        exact ⟨rfl, (hvouch call' hcall).symm, call'.chunkId_body, fun _ => call'.data_body⟩
      · cases hstep
  | relayed c token submission response =>
      simp only [step] at hstep
      split at hstep
      · rename_i call answer hcall hphase
        obtain rfl := Option.some.inj hstep
        refine h.enter fun call' hcall' => ?_
        obtain rfl : call' = call := Option.some.inj (hcall'.symm.trans hcall)
        have hbacked := h.backed c call' hcall
        rw [hphase] at hbacked
        exact backed_afterRelay hbacked fun envelope => hvouch answer envelope hphase
      · cases hstep
  | requested op body verified =>
      obtain ⟨x, hx, rfl⟩ := Option.map_eq_some_iff.mp hstep
      exact h.of_serve (fun c hc => by cases hc) hx
  | relayRequested op payload =>
      exact Option.some.inj hstep ▸ h.of_dispatch (fun c hc => by cases hc) op payload
  | setMaxBytes maxBytes => exact Option.some.inj hstep ▸ ⟨h.backed, h.known⟩
  | signedIn user => exact Option.some.inj hstep ▸ ⟨h.backed, h.known⟩
  | restarted hosting maxBytes => exact Option.some.inj hstep ▸ ⟨h.backed, h.known⟩

end Calls

/-! ### Runs -/

section Runs

open Transitions (StepsMeet run)

variable {w' : HolderWorld}

theorem log_above_step {e : HolderEvent} (h : w.step e = some w') : w.log <+: w'.log := by
  rcases step_cases h with ⟨-, hlog⟩ | ⟨made, op, body, u, -, hlog⟩ | ⟨maxBytes, -, hlog⟩
  · rw [hlog]
  · rw [hlog]
    exact List.prefix_append _ _
  · rw [hlog]

theorem log_above_run {events : List HolderEvent} (h : run step w events = some w') :
    w.log <+: w'.log :=
  Transitions.run_preserves (P := fun m => w.log <+: m.log)
    (fun _ _ _ hlog hstep => hlog.trans (log_above_step hstep)) (List.prefix_refl _) h

/-- An exchange of a call that was made later comes after everything that was there. -/
theorem tookPlace_of_mem {c : Nat} {call : HolderCall} {x : HostedExchange}
    {ok : List HostedExchange → HostedExchange → Prop} (hknown : w.CallsBacked)
    (hgrows : w.log <+: w'.log) (hx : x ∈ w'.log) (hcall : x.call = some c) (hserves : x.Serves call)
    (hok : ∀ before after, w'.log = before ++ x :: after → ok before x) :
    w.TookPlace w' c call ok := by
  by_cases hlater : w.calls.length ≤ c
  · obtain ⟨later, hlog⟩ := hgrows
    have hmem : x ∈ later := by
      rw [← hlog] at hx
      rcases List.mem_append.mp hx with hold | hnew
      · have := hknown.known x hold c hcall
        omega
      · exact hnew
    obtain ⟨before, after, rfl⟩ := List.append_of_mem hmem
    have hsplit : w'.log = (w.log ++ before) ++ x :: after := by
      rw [← hlog, List.append_assoc]
    exact ⟨w.log ++ before, x, after, hsplit, fun _ => List.prefix_append _ _, hcall, hserves,
      hok _ _ hsplit⟩
  · obtain ⟨before, after, hsplit⟩ := List.append_of_mem hx
    exact ⟨before, x, after, hsplit, fun h => absurd h hlater, hcall, hserves, hok _ _ hsplit⟩

theorem settled_first (hosting : Bool) (maxBytes : Option Int) (user : UserId) :
    (first hosting maxBytes user).Settled := by
  refine ⟨Hosting.kept_fresh _ _ _, Keeper.kept_first maxBytes, fun before x after hsplit => ?_⟩
  exact absurd (congrArg List.length hsplit) (by simp [first])

theorem callsBacked_first (hosting : Bool) (maxBytes : Option Int) (user : UserId) :
    (first hosting maxBytes user).CallsBacked :=
  ⟨fun _ _ hcall => (by cases hcall), fun _ hx => (by cases hx)⟩

theorem sequential_of_settled (hcalls : w.CallsBacked) (hgrows : w.log <+: w'.log)
    (hsettled : w'.Settled) (hcalls' : w'.CallsBacked) : w.Sequential w' := by
  refine ⟨hgrows, hsettled.honest, fun c call data hcall hrequest hphase => ?_,
    fun c call data hcall hrequest hphase => ?_⟩
  · have hbacked := hcalls'.backed c call hcall
    rw [hphase] at hbacked
    obtain ⟨r, hstatus, x, hx, hmade, hserves, hanswer⟩ := hbacked
    exact tookPlace_of_mem hcalls hgrows hx hmade hserves fun _ _ _ => ⟨r, hanswer, hstatus⟩
  · have hbacked := hcalls'.backed c call hcall
    rw [hphase] at hbacked
    obtain ⟨r, hstatus, ⟨x, hx, hmade, hserves, hanswer⟩, hdata⟩ := hbacked
    refine tookPlace_of_mem hcalls hgrows hx hmade hserves fun before after hsplit => ?_
    have hop : x.op = .fetch := by
      rw [hserves.op, HolderCall.op, hrequest]
    obtain ⟨chunk, found, hchunk, howed, hgiven⟩ :=
      (hsettled.honest before x after hsplit).given hop ⟨r, hanswer, hstatus⟩
    have hid : chunk = textPoints call.chunkId := Except.ok.inj (hchunk.symm.trans hserves.chunk)
    have hr : r = dataAnswer found := Option.some.inj (hanswer.symm.trans hgiven)
    have hdecode : decodeHolderAnswer (some (dataAnswer found).result) = some (some found) := by
      show some (Base64.b64decode (Base64.b64encode found)) = _
      rw [Base64.b64decode_b64encode]
    have hfound : found = data := by
      rw [hr, hdecode] at hdata
      exact Option.some.inj (Option.some.inj hdata)
    rw [← hid, ← hserves.requester, ← hfound]
    exact howed

def aliceStores : HolderCall :=
  { user := "alice"
    token := "a".toList
    holder := { deviceId := none, connectionAddress := some "host".toList }
    chunkId := "c".toList
    request := .store [1, 2] }

def replyFor (user : String) : VerifyReply :=
  .answered 200 (some (.dict [("valid".toList, .bool true), ("user_id".toList, .str user.toList)]))

def storedRun : List HolderEvent := [.called aliceStores, .served 0 (replyFor "alice"), .answered 0]

/-- Somebody else tries to replace the chunk, and the device is started anew. -/
def fetchedRun : List HolderEvent :=
  [.requested .store (some (.dict aliceStores.directBody)) (replyFor "mallory"),
    .restarted true (some 9), .called { aliceStores with request := .fetch },
    .served 1 (replyFor "alice"), .answered 1]

end Runs

end HolderWorld

end StardustFS
