import StardustFS.ProxyRequests

/-! What the requests of the proxies come to, in every order of the messages and with any of them lost: how
often an operation is executed, where, and what its caller returns. -/

namespace StardustFS

namespace RelayWorld

open ProxyCall
open Transitions (StepsMeet run stepsMeet_cons)

/-! ### The statement -/

/-- The operations that were executed, in their order. -/
def executions (w : RelayWorld) : List ProxyExecution :=
  w.log.filterMap fun
    | .executed x => some x
    | .changed _ => none

/-- No two entries of the list have the property. -/
def AtMostOnce {α : Type} (p : α → Prop) (l : List α) : Prop := l.Pairwise fun a b => ¬(p a ∧ p b)

/-- Executed for the POST of the call to its device. -/
def IsDirect (c : Nat) (x : ProxyExecution) : Prop := ∃ answered, x.channel = .direct c answered

/-- Executed for a request of the call to the relay. -/
def IsRelayed (w : RelayWorld) (c : Nat) (x : ProxyExecution) : Prop :=
  ∃ q ∈ w.queue, q.call = c ∧ x.channel = .relayed q.requestId

/-- The operations and the other changes in the order of the log lead from the first devices to the last,
and the answers are those of this order. -/
def Replays (serve : Hosts.Peer) : Hosts → List LogEntry → Hosts → Prop
  | hosts, [], hosts' => hosts' = hosts
  | hosts, .executed x :: log, hosts' =>
      x.answer = (serve x.op hosts x.device x.body).1 ∧
        Replays serve (serve x.op hosts x.device x.body).2 log hosts'
  | hosts, .changed change :: log, hosts' => Replays serve (change hosts) log hosts'

/-- **Delivery.** A call is executed at most once by its POST and at most once through the relay, there only
after a POST that was not answered; on its own device, as it asked; what it returns is the result of such an
execution with status 200. The devices are as after the executions one by one. -/
structure Delivers (serve : Hosts.Peer) (hosts : Hosts) (w : RelayWorld) : Prop where
  directOnce : ∀ c, AtMostOnce (IsDirect c) w.executions
  relayedOnce : ∀ c, AtMostOnce (w.IsRelayed c) w.executions
  fallback : ∀ c, ∀ x ∈ w.executions, w.IsRelayed c x →
    ∀ y ∈ w.executions, y.channel ≠ .direct c true
  asked : ∀ x ∈ w.executions, ∃ c call, w.calls[c]? = some call ∧ (IsDirect c x ∨ w.IsRelayed c x) ∧
    x.device = call.target ∧ x.op = call.op ∧
    (x.body = call.payload ∨ ∃ token, x.body = call.requestBody token)
  returned : ∀ c v, w.phases c = .ended (.ok v) → ∃ x ∈ w.executions, (IsDirect c x ∨ w.IsRelayed c x) ∧
    ∃ r, x.answer = some r ∧ r.status = 200 ∧ (v = r.result ∨ v = asDict r.result)
  serial : Replays serve hosts w.log w.hosts

/-! ### The invariant -/

/-- The call has been to the relay. -/
def Sent (phase : CallPhase) : Prop := (∃ requestId, phase = .response requestId) ∨ ∃ r, phase = .ended r

/-- The answer to a request is that of an execution for it. -/
def AnswerTo (w : RelayWorld) (requestId : Value) (r : Response) : Prop :=
  r.status = 200 → ∃ x ∈ w.executions, x.channel = .relayed requestId ∧ x.answer = some r

/-- The worker has in hand what is in the queue for its device. -/
def InHand (w : RelayWorld) (device : DeviceId) (requestId : Value) (op : Text) (payload : Value) : Prop :=
  ∃ q ∈ w.queue, q.requestId = requestId ∧ q.target = device ∧ q.op = op ∧ .dict q.payload = payload

/-- What the executions have to do with the calls and the queue. -/
def AsAsked (w : RelayWorld) (x : ProxyExecution) : Prop :=
  match x.channel with
  | .direct c _ => ∃ call token, w.calls[c]? = some call ∧ x.device = call.target ∧ x.op = call.op ∧
      x.body = call.requestBody token
  | .relayed requestId => ∃ q ∈ w.queue, q.requestId = requestId ∧ x.device = q.target ∧
      Hosts.opName x.op = q.op ∧ x.body = q.payload

/-- What a call returns is the result of one of its executions. -/
def Returned (w : RelayWorld) (c : Nat) (v : Value) : Prop :=
  ∃ x ∈ w.executions, (IsDirect c x ∨ w.IsRelayed c x) ∧
    ∃ r, x.answer = some r ∧ r.status = 200 ∧ (v = r.result ∨ v = asDict r.result)

structure RelayInv (serve : Hosts.Peer) (hosts : Hosts) (w : RelayWorld) : Prop where
  requestIds : w.queue.Pairwise fun q q' => q.requestId ≠ q'.requestId
  oneRequest : w.queue.Pairwise fun q q' => q.call ≠ q'.call
  queued : ∀ q ∈ w.queue, Sent (w.phases q.call) ∧ ∃ call, w.calls[q.call]? = some call ∧
    q.target = call.target ∧ q.op = Hosts.opName call.op ∧ q.payload = call.payload
  uncalled : ∀ c, w.calls[c]? = none → w.phases c = .direct true
  unposted : ∀ c retry, w.phases c = .direct retry → ∀ x ∈ w.executions, ¬IsDirect c x
  unanswered : ∀ c, (w.phases c = .relay ∨ ∃ q ∈ w.queue, q.call = c) →
    ∀ x ∈ w.executions, x.channel ≠ .direct c true
  awaiting : ∀ c requestId, w.phases c = .response requestId →
    ∃ q ∈ w.queue, q.call = c ∧ q.requestId = requestId
  returned : ∀ c v, w.phases c = .ended (.ok v) → w.Returned c v
  holding : ∀ worker device requestId op payload,
    w.workers worker = .holding device requestId op payload →
      w.InHand device requestId op payload ∧ requestId ∈ w.handed ∧
        (∀ x ∈ w.executions, x.channel ≠ .relayed requestId) ∧
        ∀ other device' op' payload', w.workers other = .holding device' requestId op' payload' →
          other = worker
  answering : ∀ worker requestId r, w.workers worker = .answering requestId r → w.AnswerTo requestId r
  results : ∀ requestId r, (requestId, r) ∈ w.results → w.AnswerTo requestId r
  directOnce : ∀ c, AtMostOnce (IsDirect c) w.executions
  relayedOnce : ∀ requestId, AtMostOnce (fun x => x.channel = .relayed requestId) w.executions
  executedHanded : ∀ x ∈ w.executions, ∀ requestId, x.channel = .relayed requestId → requestId ∈ w.handed
  asAsked : ∀ x ∈ w.executions, w.AsAsked x
  serial : Replays serve hosts w.log w.hosts

theorem AtMostOnce.concat {α : Type} {p : α → Prop} {l : List α} {a : α} (h : AtMostOnce p l)
    (ha : p a → ∀ b ∈ l, ¬p b) : AtMostOnce p (l ++ [a]) := by
  refine List.pairwise_append.mpr ⟨h, List.pairwise_singleton _ _, ?_⟩
  intro b hb a' ha' hboth
  rw [List.mem_singleton] at ha'
  subst ha'
  exact ha hboth.2 b hb hboth.1

theorem replays_append {serve : Hosts.Peer} {hosts mid hosts' : Hosts} {log log' : List LogEntry}
    (h : Replays serve hosts log mid) (h' : Replays serve mid log' hosts') :
    Replays serve hosts (log ++ log') hosts' := by
  induction log generalizing hosts with
  | nil =>
      rw [Replays] at h
      exact h ▸ h'
  | cons e log ih =>
      cases e with
      | executed x => exact ⟨h.1, ih h.2⟩
      | changed change => exact ih h

section Growth

variable {w w' : RelayWorld} {x : ProxyExecution} {c : Nat} {v requestId : Value} {r : Response}

theorem IsRelayed.mono (hqueue : w.queue ⊆ w'.queue) (h : w.IsRelayed c x) : w'.IsRelayed c x := by
  obtain ⟨q, hq, hrest⟩ := h
  exact ⟨q, hqueue hq, hrest⟩

theorem AsAsked.mono (hcalls : ∀ (c : Nat) (call : ProxyCall), w.calls[c]? = some call → w'.calls[c]? = some call)
    (hqueue : w.queue ⊆ w'.queue) (h : w.AsAsked x) : w'.AsAsked x := by
  unfold AsAsked at h ⊢
  cases hchannel : x.channel with
  | direct c answered =>
      rw [hchannel] at h
      obtain ⟨call, token, hcall, hrest⟩ := h
      exact ⟨call, token, hcalls c call hcall, hrest⟩
  | relayed requestId =>
      rw [hchannel] at h
      obtain ⟨q, hq, hrest⟩ := h
      exact ⟨q, hqueue hq, hrest⟩

theorem Returned.mono (hqueue : w.queue ⊆ w'.queue) (hexecutions : w.executions ⊆ w'.executions)
    (h : w.Returned c v) : w'.Returned c v := by
  obtain ⟨x, hx, hfor, hrest⟩ := h
  exact ⟨x, hexecutions hx, hfor.imp_right (IsRelayed.mono hqueue), hrest⟩

theorem AnswerTo.mono (hexecutions : w.executions ⊆ w'.executions) (h : w.AnswerTo requestId r) :
    w'.AnswerTo requestId r := by
  intro hstatus
  obtain ⟨x, hx, hrest⟩ := h hstatus
  exact ⟨x, hexecutions hx, hrest⟩

theorem InHand.mono {device : DeviceId} {op : Text} {payload : Value} (hqueue : w.queue ⊆ w'.queue)
    (h : w.InHand device requestId op payload) : w'.InHand device requestId op payload := by
  obtain ⟨q, hq, hrest⟩ := h
  exact ⟨q, hqueue hq, hrest⟩

theorem executions_execute (w : RelayWorld) (x : ProxyExecution) (hosts : Hosts) :
    (w.execute x hosts).executions = w.executions ++ [x] := by
  unfold executions execute
  rw [List.filterMap_append]
  rfl

theorem executions_alter (w : RelayWorld) (change : Hosts → Hosts) :
    (w.alter change).executions = w.executions := by
  unfold executions alter
  rw [List.filterMap_append]
  exact List.append_nil _

end Growth

/-! ### What a POST comes to -/

/-- A question about a token passes, or is refused with a status from 400 on. -/
theorem verify_cases (localUserId : Value) (verified : P2PServer.VerifyReply)
    (verification : P2PServer.Verification) :
    (∃ r, P2PServer.verify localUserId verified verification = .error r ∧ 400 ≤ r.status) ∨
      ∃ data, P2PServer.verify localUserId verified verification = .ok data := by
  cases verification with
  | token authToken =>
      unfold P2PServer.verify P2PServer.verifyToken
      cases verified with
      | unreachable => exact Or.inl ⟨_, rfl, by decide⟩
      | failed => exact Or.inl ⟨_, rfl, by decide⟩
      | answered status data =>
          dsimp only
          split_ifs
          · exact Or.inl ⟨_, rfl, by decide⟩
          · split
            · exact Or.inl ⟨_, rfl, by decide⟩
            · split_ifs
              · exact Or.inl ⟨_, rfl, by decide⟩
              · exact Or.inl ⟨_, rfl, by decide⟩
              · exact Or.inr ⟨_, rfl⟩
  | share shareToken physicalPath =>
      unfold P2PServer.verify P2PServer.verifyShareToken
      cases verified with
      | unreachable => exact Or.inl ⟨_, rfl, by decide⟩
      | failed => exact Or.inl ⟨_, rfl, by decide⟩
      | answered status data =>
          dsimp only
          split_ifs
          · exact Or.inl ⟨_, rfl, by decide⟩
          · split
            · exact Or.inl ⟨_, rfl, by decide⟩
            · split_ifs
              · exact Or.inl ⟨_, rfl, by decide⟩
              · exact Or.inl ⟨_, rfl, by decide⟩
              · exact Or.inr ⟨_, rfl⟩

/-- A request that is not executed is answered with a status from 400 on; one that is executed with what
came of the operation. -/
theorem serveRequest_cases (serve : Hosts.Peer) (net : Hosts) (device : DeviceId) (op : Operation)
    (body : Body) (localUserId : Value) (verified : P2PServer.VerifyReply) :
    (∃ r, serveRequest serve net device op body localUserId verified = (r, none) ∧ 400 ≤ r.status) ∨
      serveRequest serve net device op body localUserId verified =
        ((serve op net device body).1.getD serverError, some (serve op net device body).2) := by
  have hparsed : (∃ r, P2PServer.parseAndVerify (P2PServer.handler op) (some (.dict body)) = .error r ∧
      400 ≤ r.status) ∨ ∃ verification,
        P2PServer.parseAndVerify (P2PServer.handler op) (some (.dict body)) = .ok (body, verification) := by
    simp only [P2PServer.parseAndVerify, Json.members?]
    split_ifs
    · exact Or.inr ⟨_, rfl⟩
    · exact Or.inl ⟨_, rfl, by decide⟩
    · exact Or.inr ⟨_, rfl⟩
  unfold serveRequest
  rcases hparsed with ⟨r, hr, hstatus⟩ | ⟨verification, hok⟩
  · rw [hr]
    exact Or.inl ⟨r, rfl, hstatus⟩
  · rw [hok]
    dsimp only
    rcases verify_cases localUserId verified verification with ⟨r, hr, hstatus⟩ | ⟨data, hdata⟩
    · rw [hr]
      exact Or.inl ⟨r, rfl, hstatus⟩
    · rw [hdata]
      exact Or.inr rfl

/-- What the operations of a device answer with, as far as the proxies look at it. -/
def Answerable (serve : Hosts.Peer) : Prop :=
  ∀ op net device body r, (serve op net device body).1 = some r →
    r.status = 200 ∨ (400 ≤ r.status ∧ r.status ≠ 401)

theorem Answerable.getD {serve : Hosts.Peer} (hserve : Answerable serve) (op : Operation) (net : Hosts)
    (device : DeviceId) (body : Body) (default : Response) (hdefault : default.status = 500) :
    (∃ r, (serve op net device body).1 = some r ∧ r.status = 200 ∧
        (serve op net device body).1.getD default = r) ∨
      (400 ≤ ((serve op net device body).1.getD default).status ∧
        ((serve op net device body).1.getD default).status ≠ 401) := by
  cases hanswer : (serve op net device body).1 with
  | none =>
      rw [Option.getD_none, hdefault]
      exact Or.inr (by decide)
  | some r =>
      rw [Option.getD_some]
      exact (hserve _ _ _ _ _ hanswer).imp_left fun h200 => ⟨r, rfl, h200, rfl⟩

/-- The POST to the relay ends in an error, or the call waits under the id of the answer. -/
theorem afterSubmission_cases (reply : HttpReply) :
    (∃ e, afterSubmission reply = .ended (.error e)) ∨
      ∃ data, taken reply = some data ∧ (Body.get data "request_id").truthy = true ∧
        afterSubmission reply = .response (Body.get data "request_id") := by
  cases reply with
  | failed failure =>
      cases failure with
      | timeout => exact Or.inl ⟨_, rfl⟩
      | connectError => exact Or.inl ⟨_, rfl⟩
      | networkError => exact Or.inl ⟨_, rfl⟩
      | other => exact Or.inl ⟨_, rfl⟩
  | answered status body =>
      simp only [afterSubmission, taken]
      split_ifs with hstatus
      · exact Or.inl ⟨_, rfl⟩
      · cases hbody : body.bind Json.members? with
        | none => exact Or.inl ⟨_, rfl⟩
        | some data =>
            dsimp only
            split_ifs with hid
            · exact Or.inl ⟨_, rfl⟩
            · rw [Bool.not_eq_true, Bool.not_eq_false'] at hid
              exact Or.inr ⟨data, rfl, hid, rfl⟩

/-- A call returns what the relay passes on with status 200. -/
theorem afterResponse_ok {reply : HttpReply} {v : Value} (h : afterResponse reply = .ok v) :
    ∃ envelope, taken reply = some envelope ∧ (Body.get envelope "status").eq (.int 200) = true ∧
      v = asDict (resultOf envelope) := by
  cases reply with
  | failed failure => cases failure <;> cases h
  | answered status body =>
      simp only [afterResponse] at h
      split_ifs at h with h504 h400
      cases hbody : body.bind Json.members? with
      | none =>
          rw [hbody] at h
          cases h
      | some envelope =>
          rw [hbody] at h
          dsimp only at h
          split_ifs at h with h200
          refine ⟨envelope, ?_, h200, (Except.ok.inj h).symm⟩
          rw [taken, if_neg h400]
          exact hbody

namespace RelayInv

variable {serve : Hosts.Peer} {hosts : Hosts} {w : RelayWorld}

/-! ### One change at a time -/

/-- A call comes to another phase. -/
theorem enter (h : RelayInv serve hosts w) {c : Nat} {call : ProxyCall} {phase : CallPhase}
    (hcall : w.calls[c]? = some call)
    (hunposted : ∀ retry, phase = .direct retry → ∀ x ∈ w.executions, ¬IsDirect c x)
    (hrelay : phase = .relay → ∀ x ∈ w.executions, x.channel ≠ .direct c true)
    (hsent : Sent phase ∨ ∀ q ∈ w.queue, q.call ≠ c)
    (hawaiting : ∀ requestId, phase = .response requestId →
      ∃ q ∈ w.queue, q.call = c ∧ q.requestId = requestId)
    (hreturned : ∀ v, phase = .ended (.ok v) → w.Returned c v) :
    RelayInv serve hosts (w.enter c phase) := by
  have hhere : (w.enter c phase).phases c = phase := w.phases_enter_self c phase
  have hthere : ∀ c', c' ≠ c → (w.enter c phase).phases c' = w.phases c' := fun c' hne =>
    w.phases_enter_of_ne phase hne
  refine { h with queued := ?_, uncalled := ?_, unposted := ?_, unanswered := ?_, awaiting := ?_
                  returned := ?_ }
  · intro q hq
    obtain ⟨hphase, hrest⟩ := h.queued q hq
    refine ⟨?_, hrest⟩
    by_cases hc : q.call = c
    · rw [hc, hhere]
      exact hsent.resolve_right fun hnone => hnone q hq hc
    · rwa [hthere _ hc]
  · intro c' hnone
    have hne : c' ≠ c := by
      rintro rfl
      cases hcall.symm.trans hnone
    rw [hthere c' hne]
    exact h.uncalled c' hnone
  · intro c' retry hphase
    by_cases hc : c' = c
    · subst hc
      exact hunposted retry (hhere.symm.trans hphase)
    · exact h.unposted c' retry ((hthere c' hc).symm.trans hphase)
  · intro c' hat
    by_cases hc : c' = c
    · subst hc
      rcases hat with hphase | hqueue
      · exact hrelay (hhere.symm.trans hphase)
      · exact h.unanswered c' (Or.inr hqueue)
    · exact h.unanswered c' (hat.imp_left (hthere c' hc).symm.trans)
  · intro c' requestId hphase
    by_cases hc : c' = c
    · subst hc
      exact hawaiting requestId (hhere.symm.trans hphase)
    · exact h.awaiting c' requestId ((hthere c' hc).symm.trans hphase)
  · intro c' v hphase
    by_cases hc : c' = c
    · subst hc
      exact hreturned v (hhere.symm.trans hphase)
    · exact h.returned c' v ((hthere c' hc).symm.trans hphase)

/-- A call ends with an exception. -/
theorem fails (h : RelayInv serve hosts w) {c : Nat} {call : ProxyCall} (hcall : w.calls[c]? = some call)
    (e : ProxyError) : RelayInv serve hosts (w.enter c (.ended (.error e))) := by
  refine h.enter hcall ?_ ?_ (Or.inl (Or.inr ⟨_, rfl⟩)) ?_ ?_
  · intro _ hphase
    cases hphase
  · intro hphase
    cases hphase
  · intro _ hphase
    cases hphase
  · intro _ hphase
    cases hphase

/-- A worker comes to another phase. -/
theorem turn (h : RelayInv serve hosts w) {worker : Nat} {phase : WorkerPhase}
    (hholding : ∀ device requestId op payload, phase = .holding device requestId op payload →
      w.InHand device requestId op payload ∧ requestId ∈ w.handed ∧
        (∀ x ∈ w.executions, x.channel ≠ .relayed requestId) ∧
        ∀ other device' op' payload', w.workers other ≠ .holding device' requestId op' payload')
    (hanswering : ∀ requestId r, phase = .answering requestId r → w.AnswerTo requestId r) :
    RelayInv serve hosts (w.turn worker phase) := by
  have hhere : (w.turn worker phase).workers worker = phase :=
    w.workers_turn_self worker phase
  have hthere : ∀ other, other ≠ worker → (w.turn worker phase).workers other = w.workers other :=
    fun other hne => w.workers_turn_of_ne phase hne
  refine { h with holding := ?_, answering := ?_ }
  · intro wk device requestId op payload hphase
    by_cases hwk : wk = worker
    · subst hwk
      obtain ⟨hhand, hhanded, hnone, honly⟩ :=
        hholding device requestId op payload (hhere.symm.trans hphase)
      refine ⟨hhand, hhanded, hnone, fun other device' op' payload' hother => ?_⟩
      by_contra hne
      exact honly other device' op' payload' ((hthere other hne).symm.trans hother)
    · obtain ⟨hhand, hhanded, hnone, honly⟩ :=
        h.holding wk device requestId op payload ((hthere wk hwk).symm.trans hphase)
      refine ⟨hhand, hhanded, hnone, fun other device' op' payload' hother => ?_⟩
      by_cases hne : other = worker
      · subst hne
        have hnew := hholding device' requestId op' payload' (hhere.symm.trans hother)
        exact absurd ((hthere wk hwk).symm.trans hphase) (hnew.2.2.2 wk device op payload)
      · exact honly other device' op' payload' ((hthere other hne).symm.trans hother)
  · intro wk requestId r hphase
    by_cases hwk : wk = worker
    · subst hwk
      exact hanswering requestId r (hhere.symm.trans hphase)
    · exact h.answering wk requestId r ((hthere wk hwk).symm.trans hphase)

theorem idle (h : RelayInv serve hosts w) (worker : Nat) : RelayInv serve hosts (w.turn worker .idle) := by
  refine h.turn ?_ ?_
  · intro _ _ _ _ hphase
    cases hphase
  · intro _ _ hphase
    cases hphase

/-- The relay accepts a request of a call, which then waits for the answer or has given up. -/
theorem accept (h : RelayInv serve hosts w) {q : QueuedRequest} {call : ProxyCall}
    (hcall : w.calls[q.call]? = some call)
    (hasked : q.target = call.target ∧ q.op = Hosts.opName call.op ∧ q.payload = call.payload)
    (hsent : Sent (w.phases q.call)) (hnew : ∀ q' ∈ w.queue, q'.requestId ≠ q.requestId)
    (hfirst : ∀ q' ∈ w.queue, q'.call ≠ q.call)
    (hunanswered : ∀ x ∈ w.executions, x.channel ≠ .direct q.call true) :
    RelayInv serve hosts (w.accept q) := by
  have hqueue : w.queue ⊆ (w.accept q).queue := List.subset_append_left _ _
  have hmem : ∀ q', q' ∈ (w.accept q).queue → q' ∈ w.queue ∨ q' = q := fun q' hq' =>
    (List.mem_append.mp hq').imp_right List.mem_singleton.mp
  refine { h with requestIds := ?_, oneRequest := ?_, queued := ?_, unanswered := ?_, awaiting := ?_
                  returned := ?_, holding := ?_, asAsked := ?_ }
  · refine List.pairwise_append.mpr ⟨h.requestIds, List.pairwise_singleton _ _, ?_⟩
    intro q' hq' q'' hq''
    rw [List.mem_singleton.mp hq'']
    exact hnew q' hq'
  · refine List.pairwise_append.mpr ⟨h.oneRequest, List.pairwise_singleton _ _, ?_⟩
    intro q' hq' q'' hq''
    rw [List.mem_singleton.mp hq'']
    exact hfirst q' hq'
  · intro q' hq'
    rcases hmem q' hq' with hold | rfl
    · exact h.queued q' hold
    · exact ⟨hsent, call, hcall, hasked⟩
  · intro c hat
    rcases hat with hphase | ⟨q', hq', hc⟩
    · exact h.unanswered c (Or.inl hphase)
    · rcases hmem q' hq' with hold | rfl
      · exact h.unanswered c (Or.inr ⟨q', hold, hc⟩)
      · subst hc
        exact hunanswered
  · intro c requestId hphase
    obtain ⟨q', hq', hrest⟩ := h.awaiting c requestId hphase
    exact ⟨q', hqueue hq', hrest⟩
  · intro c v hphase
    exact (h.returned c v hphase).mono hqueue (List.Subset.refl _)
  · intro worker device requestId op payload hphase
    obtain ⟨hhand, hrest⟩ := h.holding worker device requestId op payload hphase
    exact ⟨hhand.mono hqueue, hrest⟩
  · intro x hx
    exact AsAsked.mono (w := w) (fun _ _ h => h) hqueue (h.asAsked x hx)

/-- A device executes an operation, the first of its kind for its call or its request. -/
theorem execute (h : RelayInv serve hosts w) {x : ProxyExecution}
    (hanswer : x.answer = (serve x.op w.hosts x.device x.body).1) (hasked : w.AsAsked x)
    (hdirect : ∀ c answered, x.channel = .direct c answered →
      (∀ retry, w.phases c ≠ .direct retry) ∧ (∀ y ∈ w.executions, ¬IsDirect c y) ∧
        w.phases c ≠ .relay ∧ ∀ q ∈ w.queue, q.call ≠ c)
    (hrelayed : ∀ requestId, x.channel = .relayed requestId →
      requestId ∈ w.handed ∧ (∀ y ∈ w.executions, y.channel ≠ .relayed requestId) ∧
        ∀ worker device op payload, w.workers worker ≠ .holding device requestId op payload) :
    RelayInv serve hosts (w.execute x (serve x.op w.hosts x.device x.body).2) := by
  have hexecutions : w.executions ⊆
      (w.execute x (serve x.op w.hosts x.device x.body).2).executions := by
    rw [executions_execute]
    exact List.subset_append_left _ _
  have hmem : ∀ y, y ∈ (w.execute x (serve x.op w.hosts x.device x.body).2).executions →
      y ∈ w.executions ∨ y = x := by
    intro y hy
    rw [executions_execute] at hy
    exact (List.mem_append.mp hy).imp_right List.mem_singleton.mp
  refine { h with unposted := ?_, unanswered := ?_, returned := ?_, holding := ?_, answering := ?_
                  results := ?_, directOnce := ?_, relayedOnce := ?_, executedHanded := ?_, asAsked := ?_
                  serial := ?_ }
  · intro c retry hphase y hy hfor
    rcases hmem y hy with hold | rfl
    · exact h.unposted c retry hphase y hold hfor
    · obtain ⟨answered, hchannel⟩ := hfor
      exact (hdirect c answered hchannel).1 retry hphase
  · intro c hat y hy hchannel
    rcases hmem y hy with hold | rfl
    · exact h.unanswered c hat y hold hchannel
    · obtain ⟨-, -, hphase, hqueue⟩ := hdirect c true hchannel
      rcases hat with hrelay | ⟨q, hq, hc⟩
      · exact hphase hrelay
      · exact hqueue q hq hc
  · intro c v hphase
    have hold : w.Returned c v := h.returned c v hphase
    exact hold.mono (List.Subset.refl w.queue) hexecutions
  · intro worker device requestId op payload hphase
    obtain ⟨hhand, hhanded, hnone, honly⟩ := h.holding worker device requestId op payload hphase
    refine ⟨hhand, hhanded, fun y hy hchannel => ?_, honly⟩
    rcases hmem y hy with hold | rfl
    · exact hnone y hold hchannel
    · exact (hrelayed requestId hchannel).2.2 worker device op payload hphase
  · intro worker requestId r hphase
    exact (h.answering worker requestId r hphase).mono hexecutions
  · intro requestId r hr
    exact (h.results requestId r hr).mono hexecutions
  · intro c
    rw [executions_execute]
    refine (h.directOnce c).concat ?_
    rintro ⟨answered, hchannel⟩
    exact (hdirect c answered hchannel).2.1
  · intro requestId
    rw [executions_execute]
    exact (h.relayedOnce requestId).concat fun hchannel => (hrelayed requestId hchannel).2.1
  · intro y hy requestId hchannel
    rcases hmem y hy with hold | rfl
    · exact h.executedHanded y hold requestId hchannel
    · exact (hrelayed requestId hchannel).1
  · intro y hy
    rcases hmem y hy with hold | rfl
    · exact h.asAsked y hold
    · exact hasked
  · exact replays_append h.serial ⟨hanswer, rfl⟩

/-! ### The events -/

theorem called (h : RelayInv serve hosts w) (call : ProxyCall) :
    RelayInv serve hosts { w with calls := w.calls ++ [call] } := by
  have hcalls : ∀ (c : Nat) (call' : ProxyCall), w.calls[c]? = some call' →
      (w.calls ++ [call])[c]? = some call' := by
    intro c call' hcall
    obtain ⟨hlt, -⟩ := List.getElem?_eq_some_iff.mp hcall
    rwa [List.getElem?_append_left hlt]
  refine { h with queued := ?_, uncalled := ?_, asAsked := ?_ }
  · intro q hq
    obtain ⟨hphase, call', hcall, hrest⟩ := h.queued q hq
    exact ⟨hphase, call', hcalls _ _ hcall, hrest⟩
  · intro c hnone
    refine h.uncalled c ?_
    cases hcall : w.calls[c]? with
    | none => rfl
    | some call' => cases (hcalls c call' hcall).symm.trans hnone
  · intro x hx
    exact AsAsked.mono (w := w) hcalls (List.Subset.refl _) (h.asAsked x hx)

theorem alter (h : RelayInv serve hosts w) (change : Hosts → Hosts) :
    RelayInv serve hosts (w.alter change) := by
  have hexecutions : (w.alter change).executions = w.executions := executions_alter w change
  have hsame : w.executions ⊆ (w.alter change).executions := hexecutions ▸ List.Subset.refl _
  have hqueue : w.queue ⊆ (w.alter change).queue := List.Subset.refl _
  exact
    { requestIds := h.requestIds
      oneRequest := h.oneRequest
      queued := h.queued
      uncalled := h.uncalled
      unposted := by rw [hexecutions]; exact h.unposted
      unanswered := by rw [hexecutions]; exact h.unanswered
      awaiting := h.awaiting
      returned := fun c v hphase => Returned.mono (w := w) hqueue hsame (h.returned c v hphase)
      holding := by rw [hexecutions]; exact h.holding
      answering := fun worker requestId r hphase =>
        AnswerTo.mono (w := w) hsame (h.answering worker requestId r hphase)
      results := fun requestId r hr => AnswerTo.mono (w := w) hsame (h.results requestId r hr)
      directOnce := by rw [hexecutions]; exact h.directOnce
      relayedOnce := by rw [hexecutions]; exact h.relayedOnce
      executedHanded := by rw [hexecutions]; exact h.executedHanded
      asAsked := by
        rw [hexecutions]
        exact fun x hx => AsAsked.mono (w := w) (fun _ _ h => h) hqueue (h.asAsked x hx)
      serial := replays_append h.serial rfl }

/-- The relay is asked where the POST was not answered. -/
theorem fallsBack (h : RelayInv serve hosts w) {c : Nat} {call : ProxyCall}
    (hcall : w.calls[c]? = some call) (hqueue : ∀ q ∈ w.queue, q.call ≠ c)
    (hunanswered : ∀ x ∈ w.executions, x.channel ≠ .direct c true) (failure : HttpFailure) :
    RelayInv serve hosts (w.enter c (call.afterFailure failure)) := by
  unfold afterFailure relayFallback
  split_ifs with hother henabled
  · exact h.fails hcall _
  · refine h.enter hcall ?_ (fun _ => hunanswered) (Or.inr hqueue) ?_ ?_
    · intro _ hphase
      cases hphase
    · intro _ hphase
      cases hphase
    · intro _ hphase
      cases hphase
  · exact h.fails hcall _

/-- An answer from status 400 on brings no result. -/
theorem refused (h : RelayInv serve hosts w) {c : Nat} {call : ProxyCall} (hcall : w.calls[c]? = some call)
    (hqueue : ∀ q ∈ w.queue, q.call ≠ c) {r : Response} (hstatus : 400 ≤ r.status)
    (hunposted : r.status = 401 → ∀ x ∈ w.executions, ¬IsDirect c x) (retry : Bool)
    (refreshed : TokenRefreshed) : RelayInv serve hosts (w.enter c (afterAnswer retry refreshed r)) := by
  unfold afterAnswer
  split_ifs with hretry
  · cases refreshed with
    | done =>
        refine h.enter hcall (fun _ _ => hunposted hretry.1) ?_ (Or.inr hqueue) ?_ ?_
        · intro hphase
          cases hphase
        · intro _ hphase
          cases hphase
        · intro _ hphase
          cases hphase
    | authenticationError => exact h.fails hcall _
    | raised => exact h.fails hcall _
  · exact h.fails hcall _

theorem queue_of_direct (h : RelayInv serve hosts w) {c : Nat} {retry : Bool}
    (hphase : w.phases c = .direct retry) : ∀ q ∈ w.queue, q.call ≠ c := by
  rintro q hq rfl
  have hsent := (h.queued q hq).1
  rw [hphase] at hsent
  rcases hsent with ⟨_, hsent⟩ | ⟨_, hsent⟩
  · cases hsent
  · cases hsent

theorem queue_of_relay (h : RelayInv serve hosts w) {c : Nat} (hphase : w.phases c = .relay) :
    ∀ q ∈ w.queue, q.call ≠ c := by
  rintro q hq rfl
  have hsent := (h.queued q hq).1
  rw [hphase] at hsent
  rcases hsent with ⟨_, hsent⟩ | ⟨_, hsent⟩
  · cases hsent
  · cases hsent

/-- The device executes the operation of a POST. In between the call is taken for one that has ended. -/
theorem posted (hserve : Answerable serve) (h : RelayInv serve hosts w) {c : Nat} {call : ProxyCall}
    (hcall : w.calls[c]? = some call) {retry : Bool} (hphase : w.phases c = .direct retry)
    (refreshed : TokenRefreshed) (token : Text) (failure : Option HttpFailure) :
    RelayInv serve hosts ((w.execute
      { channel := .direct c failure.isNone
        device := call.target
        op := call.op
        body := call.requestBody token
        answer := (serve call.op w.hosts call.target (call.requestBody token)).1 }
      (serve call.op w.hosts call.target (call.requestBody token)).2).enter c
        (match failure with
          | some failure => call.afterFailure failure
          | none => afterAnswer retry refreshed
              ((serve call.op w.hosts call.target (call.requestBody token)).1.getD serverError))) := by
  have hqueue := h.queue_of_direct hphase
  have hunposted := h.unposted c retry hphase
  let x : ProxyExecution :=
    { channel := .direct c failure.isNone
      device := call.target
      op := call.op
      body := call.requestBody token
      answer := (serve call.op w.hosts call.target (call.requestBody token)).1 }
  have hended : RelayInv serve hosts (w.enter c (.ended (.error .raised))) := h.fails hcall _
  have hdone : RelayInv serve hosts ((w.enter c (.ended (.error .raised))).execute x
      (serve x.op w.hosts x.device x.body).2) := by
    refine hended.execute (x := x) rfl ⟨call, token, hcall, rfl, rfl, rfl⟩ ?_ ?_
    · intro c' answered hchannel
      obtain ⟨rfl, -⟩ := Channel.direct.inj hchannel
      rw [phases_enter_self]
      refine ⟨?_, hunposted, ?_, hqueue⟩
      · intro _ hdirect
        cases hdirect
      · intro hrelay
        cases hrelay
    · intro requestId hchannel
      cases hchannel
  have hexecutions := executions_execute (w.enter c (.ended (.error .raised))) x
    (serve x.op w.hosts x.device x.body).2
  have hmem : ∀ y ∈ ((w.enter c (.ended (.error .raised))).execute x
      (serve x.op w.hosts x.device x.body).2).executions, IsDirect c y → y = x := by
    intro y hy hfor
    rw [hexecutions] at hy
    rcases List.mem_append.mp hy with hold | hnew
    · exact absurd hfor (hunposted y hold)
    · exact List.mem_singleton.mp hnew
  rw [← enter_enter _ c (.ended (.error .raised))]
  cases failure with
  | some failure =>
      refine hdone.fallsBack hcall hqueue ?_ failure
      intro y hy hchannel
      rw [hmem y hy ⟨true, hchannel⟩] at hchannel
      cases hchannel
  | none =>
      dsimp only
      rcases hserve.getD call.op w.hosts call.target (call.requestBody token) serverError (by decide) with
        ⟨r, hanswer, h200, hr⟩ | ⟨h400, h401⟩
      · rw [hr]
        have hok : afterAnswer retry refreshed r = .ended (.ok r.result) := by simp [afterAnswer, h200]
        rw [hok]
        refine hdone.enter hcall ?_ ?_ (Or.inl (Or.inr ⟨_, rfl⟩)) ?_ ?_
        · intro _ hdirect
          cases hdirect
        · intro hrelay
          cases hrelay
        · intro _ hresponse
          cases hresponse
        · intro v hv
          obtain rfl := Except.ok.inj (CallPhase.ended.inj hv)
          refine ⟨x, ?_, Or.inl ⟨_, rfl⟩, r, hanswer, h200, Or.inl rfl⟩
          rw [hexecutions]
          exact List.mem_append_right _ (List.mem_singleton_self x)
      · exact hdone.refused hcall hqueue h400 (fun h => absurd h h401) retry refreshed

theorem post (hserve : Answerable serve) (h : RelayInv serve hosts w) {c : Nat} {call : ProxyCall}
    (hcall : w.calls[c]? = some call) {retry : Bool} (hphase : w.phases c = .direct retry)
    (refreshed : TokenRefreshed) (token : AccessToken) (delivery : Delivery) :
    RelayInv serve hosts (w.post serve c call retry refreshed token delivery) := by
  have hqueue := h.queue_of_direct hphase
  have hunposted := h.unposted c retry hphase
  have hunanswered : ∀ x ∈ w.executions, x.channel ≠ .direct c true := fun x hx hchannel =>
    hunposted x hx ⟨true, hchannel⟩
  cases token with
  | authenticationError => exact h.fails hcall _
  | raised => exact h.fails hcall _
  | valid token =>
      cases delivery with
      | lost failure => exact h.fallsBack hcall hqueue hunanswered failure
      | reached localUserId verified failure =>
          unfold RelayWorld.post
          dsimp only
          rcases serveRequest_cases serve w.hosts call.target call.op (call.requestBody token) localUserId
            verified with ⟨r, hr, hstatus⟩ | hexecuted
          · rw [hr]
            cases failure with
            | some failure => exact h.fallsBack hcall hqueue hunanswered failure
            | none => exact h.refused hcall hqueue hstatus (fun _ => hunposted) retry refreshed
          · rw [hexecuted]
            exact h.posted hserve hcall hphase refreshed token failure

theorem submit (h : RelayInv serve hosts w) {c : Nat} {call : ProxyCall} (hcall : w.calls[c]? = some call)
    (hphase : w.phases c = .relay) {accepted : Option Value} {reply : HttpReply}
    (haccepts : w.Accepts accepted reply) (token : AccessToken) :
    RelayInv serve hosts (w.submit c call accepted reply token) := by
  have hqueue := h.queue_of_relay hphase
  cases token with
  | authenticationError => exact h.fails hcall _
  | raised => exact h.fails hcall _
  | valid token =>
      cases accepted with
      | none =>
          rcases afterSubmission_cases reply with ⟨e, he⟩ | ⟨data, hdata, htruthy, -⟩
          · unfold RelayWorld.submit
            rw [he]
            exact h.fails hcall e
          · cases haccepts.2 data hdata htruthy
      | some requestId =>
          -- in between the call is taken for one that has ended
          have hended : RelayInv serve hosts (w.enter c (.ended (.error .raised))) := h.fails hcall _
          have hsent : Sent ((w.enter c (.ended (.error .raised))).phases c) := by
            rw [phases_enter_self]
            exact Or.inr ⟨_, rfl⟩
          have hkept := hended.accept
            (q := ⟨requestId, call.target, Hosts.opName call.op, call.payload, c⟩) hcall ⟨rfl, rfl, rfl⟩
            hsent (haccepts.1 requestId rfl) hqueue (h.unanswered c (Or.inl hphase))
          have hlast : (⟨requestId, call.target, Hosts.opName call.op, call.payload, c⟩ : QueuedRequest) ∈
              w.queue ++ [⟨requestId, call.target, Hosts.opName call.op, call.payload, c⟩] :=
            List.mem_append_right _ (List.mem_singleton_self _)
          unfold RelayWorld.submit
          dsimp only
          rw [← enter_enter _ c (.ended (.error .raised))]
          rcases afterSubmission_cases reply with ⟨e, he⟩ | ⟨data, hdata, htruthy, hwaits⟩
          · rw [he]
            exact hkept.fails hcall e
          · rw [hwaits]
            refine hkept.enter hcall ?_ ?_ (Or.inl (Or.inl ⟨_, rfl⟩)) ?_ ?_
            · intro _ hdirect
              cases hdirect
            · intro hrelay
              cases hrelay
            · intro requestId' hresponse
              have hid := Option.some.inj (haccepts.2 data hdata htruthy)
              have hid' := CallPhase.response.inj hresponse
              exact ⟨_, hlast, rfl, hid.trans hid'⟩
            · intro _ hend
              cases hend

theorem await (h : RelayInv serve hosts w) {c : Nat} {requestId : Value}
    (hphase : w.phases c = .response requestId) {reply : HttpReply} (hanswers : w.Answers c reply) :
    RelayInv serve hosts (w.enter c (.ended (afterResponse reply))) := by
  obtain ⟨q, hq, hcall, hid⟩ := h.awaiting c requestId hphase
  obtain ⟨-, call, hknown, -⟩ := h.queued q hq
  rw [hcall] at hknown
  refine h.enter hknown ?_ ?_ (Or.inl (Or.inr ⟨_, rfl⟩)) ?_ ?_
  · intro _ hdirect
    cases hdirect
  · intro hrelay
    cases hrelay
  · intro _ hresponse
    cases hresponse
  · intro v hv
    obtain ⟨envelope, htaken, hstatus, rfl⟩ := afterResponse_ok (CallPhase.ended.inj hv)
    obtain ⟨r, hr, h200, hresult⟩ := hanswers requestId envelope hphase htaken hstatus
    obtain ⟨x, hx, hchannel, hanswer⟩ := h.results requestId r hr h200
    rw [hresult]
    exact ⟨x, hx, Or.inr ⟨q, hq, hcall, hid ▸ hchannel⟩, r, hanswer, h200, Or.inr rfl⟩

theorem hand (h : RelayInv serve hosts w) (worker : Nat) {device : DeviceId} {reply : HttpReply}
    (hhands : w.Hands device reply) : RelayInv serve hosts (w.hand worker device reply) := by
  unfold RelayWorld.hand
  rcases RelayWorker.poll_cases device reply with hidle | ⟨requestId, op, payload, hpoll⟩
  · rw [hidle]
    exact h.idle worker
  · rw [hpoll]
    dsimp only
    obtain ⟨hnew, hinhand⟩ := hhands device requestId op payload hpoll
    have hnone : ∀ x ∈ w.executions, x.channel ≠ .relayed requestId := fun x hx hchannel =>
      hnew (h.executedHanded x hx requestId hchannel)
    have hgiven : RelayInv serve hosts { w with handed := requestId :: w.handed } := by
      refine { h with holding := ?_, executedHanded := ?_ }
      · intro wk device' requestId' op' payload' hwk
        obtain ⟨hin, hhanded, hrest⟩ := h.holding wk device' requestId' op' payload' hwk
        exact ⟨hin, List.mem_cons_of_mem _ hhanded, hrest⟩
      · intro x hx requestId' hchannel
        exact List.mem_cons_of_mem _ (h.executedHanded x hx requestId' hchannel)
    refine hgiven.turn ?_ ?_
    · intro device' requestId' op' payload' hphase
      obtain ⟨rfl, rfl, rfl, rfl⟩ := WorkerPhase.holding.inj hphase
      refine ⟨hinhand, List.mem_cons_self, hnone, ?_⟩
      intro other device'' op'' payload'' hother
      exact hnew (h.holding other device'' requestId op'' payload'' hother).2.1
    · intro _ _ hphase
      cases hphase

theorem dispatch (hserve : Answerable serve) (h : RelayInv serve hosts w) {worker : Nat}
    {device : DeviceId} {requestId : Value} {op : Text} {payload : Value}
    (hphase : w.workers worker = .holding device requestId op payload) :
    RelayInv serve hosts (w.dispatch serve worker device requestId op payload) := by
  obtain ⟨⟨q, hq, hid, htarget, hop, hpayload⟩, hhanded, hnone, honly⟩ :=
    h.holding worker device requestId op payload hphase
  obtain ⟨-, call, hcall, htarget', hop', hpayload'⟩ := h.queued q hq
  let x : ProxyExecution :=
    { channel := .relayed requestId
      device
      op := call.op
      body := call.payload
      answer := (serve call.op w.hosts device call.payload).1 }
  have hrun : w.dispatch serve worker device requestId op payload =
      ((w.turn worker .idle).execute x (serve x.op w.hosts x.device x.body).2).turn worker
        (.answering requestId ((serve call.op w.hosts device call.payload).1.getD
          (errorResponse 500 "Internal error"))) := by
    have hname : Hosts.opMap op = some call.op := by
      rw [← hop, hop']
      exact Hosts.opMap_opName call.op
    have hmembers : payload = .dict call.payload := by rw [← hpayload, hpayload']
    unfold RelayWorld.dispatch RelayWorker.dispatch
    rw [hname, hmembers]
    exact (turn_turn (w.execute x _) worker .idle _).symm
  have hidle : RelayInv serve hosts (w.turn worker .idle) := h.idle worker
  have hdone : RelayInv serve hosts
      ((w.turn worker .idle).execute x (serve x.op w.hosts x.device x.body).2) := by
    refine hidle.execute (x := x) rfl ⟨q, hq, hid, htarget.symm, hop'.symm, hpayload'.symm⟩ ?_ ?_
    · intro c answered hchannel
      cases hchannel
    · intro requestId' hchannel
      obtain rfl := Channel.relayed.inj hchannel
      refine ⟨hhanded, hnone, fun other device' op' payload' hother => ?_⟩
      by_cases hne : other = worker
      · subst hne
        rw [workers_turn_self] at hother
        cases hother
      · rw [workers_turn_of_ne w .idle hne] at hother
        exact hne (honly other device' op' payload' hother)
  rw [hrun]
  refine hdone.turn ?_ ?_
  · intro _ _ _ _ hholding
    cases hholding
  · intro requestId' r hanswering hstatus
    obtain ⟨rfl, rfl⟩ := WorkerPhase.answering.inj hanswering
    refine ⟨x, ?_, rfl, ?_⟩
    · rw [executions_execute]
      exact List.mem_append_right _ (List.mem_singleton_self x)
    · rcases hserve.getD call.op w.hosts device call.payload (errorResponse 500 "Internal error") rfl with
        ⟨r, hanswer, -, hr⟩ | ⟨h400, -⟩
      · rw [hr]
        exact hanswer
      · omega

theorem respond (h : RelayInv serve hosts w) {worker : Nat} {requestId : Value} {r : Response}
    (hphase : w.workers worker = .answering requestId r) :
    RelayInv serve hosts
      { w.turn worker .idle with results := (requestId, r) :: (w.turn worker .idle).results } := by
  have hidle : RelayInv serve hosts (w.turn worker .idle) := h.idle worker
  refine { hidle with results := ?_ }
  intro requestId' r' hr
  rcases List.mem_cons.mp hr with hnew | hold
  · obtain ⟨rfl, rfl⟩ := Prod.mk.inj hnew
    exact h.answering worker requestId' r' hphase
  · exact h.results requestId' r' hold

/-- Every event that the relay has its part in as its clients take it keeps the invariant. -/
theorem step (hserve : Answerable serve) {w' : RelayWorld} {e : RelayEvent} (h : RelayInv serve hosts w)
    (hkeeps : w.RelayKeeps e) (hstep : w.step serve e = some w') : RelayInv serve hosts w' := by
  cases e with
  | called call =>
      obtain rfl := Option.some.inj hstep
      exact h.called call
  | posted c token delivery refreshed =>
      simp only [RelayWorld.step] at hstep
      cases hcall : w.calls[c]? with
      | none =>
          rw [hcall] at hstep
          cases hstep
      | some call =>
          cases hphase : w.phases c with
          | direct retry =>
              rw [hcall, hphase] at hstep
              obtain rfl := Option.some.inj hstep
              exact h.post hserve hcall hphase refreshed token delivery
          | _ =>
              rw [hcall, hphase] at hstep
              cases hstep
  | submitted c token accepted reply =>
      simp only [RelayWorld.step] at hstep
      cases hcall : w.calls[c]? with
      | none =>
          rw [hcall] at hstep
          cases hstep
      | some call =>
          cases hphase : w.phases c with
          | relay =>
              rw [hcall, hphase] at hstep
              obtain rfl := Option.some.inj hstep
              exact h.submit hcall hphase hkeeps token
          | _ =>
              rw [hcall, hphase] at hstep
              cases hstep
  | awaited c reply =>
      simp only [RelayWorld.step] at hstep
      cases hphase : w.phases c with
      | response requestId =>
          rw [hphase] at hstep
          obtain rfl := Option.some.inj hstep
          exact h.await hphase hkeeps
      | _ =>
          rw [hphase] at hstep
          cases hstep
  | polled worker device reply =>
      simp only [RelayWorld.step] at hstep
      cases hphase : w.workers worker with
      | idle =>
          rw [hphase] at hstep
          obtain rfl := Option.some.inj hstep
          exact h.hand worker hkeeps
      | _ =>
          rw [hphase] at hstep
          cases hstep
  | dispatched worker =>
      simp only [RelayWorld.step] at hstep
      cases hphase : w.workers worker with
      | holding device requestId op payload =>
          rw [hphase] at hstep
          obtain rfl := Option.some.inj hstep
          exact h.dispatch hserve hphase
      | _ =>
          rw [hphase] at hstep
          cases hstep
  | responded worker delivered =>
      simp only [RelayWorld.step] at hstep
      cases hphase : w.workers worker with
      | answering requestId r =>
          rw [hphase] at hstep
          obtain rfl := Option.some.inj hstep
          cases delivered with
          | false => exact h.idle worker
          | true => exact h.respond hphase
      | _ =>
          rw [hphase] at hstep
          cases hstep
  | stopped worker =>
      obtain rfl := Option.some.inj hstep
      exact h.idle worker
  | changed change =>
      obtain rfl := Option.some.inj hstep
      exact h.alter change

theorem initial (serve : Hosts.Peer) (hosts : Hosts) : RelayInv serve hosts { hosts } where
  requestIds := List.Pairwise.nil
  oneRequest := List.Pairwise.nil
  queued := fun _ hq => absurd hq List.not_mem_nil
  uncalled := fun _ _ => rfl
  unposted := fun _ _ _ _ hx => absurd hx List.not_mem_nil
  unanswered := fun _ _ _ hx => absurd hx List.not_mem_nil
  awaiting := fun _ _ hphase => by cases hphase
  returned := fun _ _ hphase => by cases hphase
  holding := fun _ _ _ _ _ hphase => by cases hphase
  answering := fun _ _ _ hphase => by cases hphase
  results := fun _ _ hr => absurd hr List.not_mem_nil
  directOnce := fun _ => List.Pairwise.nil
  relayedOnce := fun _ => List.Pairwise.nil
  executedHanded := fun _ hx => absurd hx List.not_mem_nil
  asAsked := fun _ hx => absurd hx List.not_mem_nil
  serial := rfl

/-- A call has one request in the queue. -/
theorem request_unique (h : RelayInv serve hosts w) {q q' : QueuedRequest} (hq : q ∈ w.queue)
    (hq' : q' ∈ w.queue) (hcall : q.call = q'.call) : q = q' := by
  have hsymm : Std.Symm fun q q' : QueuedRequest => q.call ≠ q'.call := ⟨fun _ _ hne => hne.symm⟩
  by_contra hne
  exact h.oneRequest.forall hq hq' hne hcall

theorem delivers (h : RelayInv serve hosts w) : Delivers serve hosts w where
  directOnce := h.directOnce
  relayedOnce := by
    intro c
    by_cases hnone : ∃ q ∈ w.queue, q.call = c
    · obtain ⟨q, hq, hcall⟩ := hnone
      refine (h.relayedOnce q.requestId).imp ?_
      rintro x y hxy ⟨⟨q₁, hq₁, hcall₁, hx⟩, q₂, hq₂, hcall₂, hy⟩
      rw [h.request_unique hq₁ hq (hcall₁.trans hcall.symm)] at hx
      rw [h.request_unique hq₂ hq (hcall₂.trans hcall.symm)] at hy
      exact hxy ⟨hx, hy⟩
    · refine (h.directOnce c).imp ?_
      rintro x y - ⟨⟨q, hq, hcall, -⟩, -⟩
      exact hnone ⟨q, hq, hcall⟩
  fallback := by
    rintro c - - ⟨q, hq, hcall, -⟩
    exact h.unanswered c (Or.inr ⟨q, hq, hcall⟩)
  asked := by
    intro x hx
    have hasked := h.asAsked x hx
    unfold AsAsked at hasked
    cases hchannel : x.channel with
    | direct c answered =>
        rw [hchannel] at hasked
        obtain ⟨call, token, hcall, hdevice, hop, hbody⟩ := hasked
        exact ⟨c, call, hcall, Or.inl ⟨answered, hchannel⟩, hdevice, hop, Or.inr ⟨token, hbody⟩⟩
    | relayed requestId =>
        rw [hchannel] at hasked
        obtain ⟨q, hq, hid, hdevice, hop, hbody⟩ := hasked
        obtain ⟨-, call, hcall, htarget, hname, hpayload⟩ := h.queued q hq
        have hsame : some x.op = some call.op := by
          rw [← Hosts.opMap_opName x.op, hop, hname, Hosts.opMap_opName]
        exact ⟨q.call, call, hcall, Or.inr ⟨q, hq, rfl, hid ▸ hchannel⟩, hdevice.trans htarget,
          Option.some.inj hsame, Or.inl (hbody.trans hpayload)⟩
  returned := h.returned
  serial := h.serial

end RelayInv

/-- A laptop with the directory source `a` and the file `f` in it. -/
def laptopWithFile : Hosts := fun _ =>
  { sources := [("a".toList, .local { source := .directory "/data".toList })]
    tree := ((DirectoryTree.root.makedirs ["data".toList]).bind
      (DirectoryTree.write · ["data".toList, "f".toList] [120])).toOption.getD DirectoryTree.root }

/-- Nothing is asked of another device. -/
def nobodyAsked : Hosts.Peer := fun _ net _ _ => (none, net)

def askForFile : ProxyCall :=
  { target := "laptop", op := .exists, payload := Hosts.pathOnly "f".toList }

/-- A dictionary in an answer with status 200. -/
def answeredWith (members : Body) : HttpReply := .answered 200 (some (.dict members))

/-- The device executes the operation, its answer is lost, and the relay has it executed again. -/
def executedTwice : List RelayEvent :=
  [.called askForFile,
    .posted 0 (.valid "jwt".toList)
      (.reached (.str "u".toList)
        (.answered 200 (some (.dict [("valid".toList, .bool true), ("user_id".toList, .str "u".toList)])))
        (some .timeout)) .done,
    .submitted 0 (.valid "jwt".toList) (some (.str "q".toList))
      (answeredWith [("request_id".toList, .str "q".toList)]),
    .polled 7 "laptop" (answeredWith [("request_id".toList, .str "q".toList),
      ("op".toList, .str "exists".toList), ("payload".toList, .dict (Hosts.pathOnly "f".toList))]),
    .dispatched 7,
    .responded 7 true,
    .awaited 0 (answeredWith [("status".toList, .int 200),
      ("result".toList, .dict [("exists".toList, .bool true)])])]

end RelayWorld

end StardustFS
