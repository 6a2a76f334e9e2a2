import StardustFS.RemoteSource
import StardustFS.SourceOutages
import StardustFS.Transitions

/-! The requests of the proxies. A proxy posts an operation to the server of its device; where no answer
comes back it has the central server relay the operation, and a worker on the device takes it from there,
executes it and posts what came of it. Any number of requests and workers are under way at once. -/

namespace StardustFS

/-- How a request of the HTTP client fails. A `ConnectError` is a `NetworkError`. -/
inductive HttpFailure where
  | timeout
  | connectError
  | networkError
  | other
  deriving DecidableEq, Repr

/-- How a request of the HTTP client ends. A body that is no JSON text is `none`. -/
inductive HttpReply where
  | failed (failure : HttpFailure)
  | answered (status : Nat) (body : Option Value)

/-- What `get_valid_token` comes to. -/
inductive AccessToken where
  | valid (token : Text)
  | authenticationError
  | raised

/-- What `refresh_token` comes to. -/
inductive TokenRefreshed where
  | done
  | authenticationError
  | raised

/-- The `OSError`s of `_async_request`, with what their texts tell. -/
inductive RelayError where
  /-- `Relay auth failed` -/
  | authentication
  /-- `Relay request failed` -/
  | request
  /-- `Relay request rejected` -/
  | rejected (status : Nat)
  /-- `Relay request: missing request_id` -/
  | missingRequestId
  /-- `Relay response wait failed` -/
  | wait
  /-- `Relay timeout: target device did not respond` -/
  | timeout
  /-- `Relay response error` -/
  | response (status : Nat)
  /-- `Relay op failed` -/
  | failed (status error : Value)

/-- What a request of a proxy raises. -/
inductive ProxyError where
  /-- `authentication failed` -/
  | authentication
  /-- `token refresh failed` -/
  | tokenRefresh
  /-- `P2P request failed` -/
  | status (status : Nat)
  /-- `P2P direct failed` -/
  | direct
  /-- `P2P direct failed ...; relay also failed` -/
  | relay (e : RelayError)
  /-- An exception that is no `OSError`. -/
  | raised

/-- One `_p2p_request` of a proxy. -/
structure ProxyCall where
  target : DeviceId
  relayEnabled : Bool := true
  op : Operation
  payload : Body

/-- Where a request stands: before its POST to the device, with the second try still open or not; before its
POST to the relay; before it asks the relay for the answer; at its end. -/
inductive CallPhase where
  | direct (retry : Bool)
  | relay
  | response (requestId : Value)
  | ended (result : Except ProxyError Value)

namespace ProxyCall

open P2PServer (parseAndVerify handler verify VerifyReply)

/-- `{**payload, "auth_token": token}`. -/
def requestBody (call : ProxyCall) (token : Text) : Body :=
  if call.payload.any fun m => m.1 = "auth_token".toList then
    call.payload.map fun m => if m.1 = "auth_token".toList then (m.1, .str token) else m
  else call.payload ++ [("auth_token".toList, .str token)]

/-- `_relay_fallback`, up to the relay's own request. Every operation of a proxy has a name there. -/
def relayFallback (call : ProxyCall) : CallPhase :=
  if call.relayEnabled then .relay else .ended (.error .direct)

/-- The branches of `_do_p2p_request` for a POST that failed. -/
def afterFailure (call : ProxyCall) (failure : HttpFailure) : CallPhase :=
  if failure = .other then .ended (.error .raised) else call.relayFallback

/-- The branches of `_do_p2p_request` for an answer. -/
def afterAnswer (retry : Bool) (refreshed : TokenRefreshed) (r : Response) : CallPhase :=
  if r.status = 401 ∧ retry = true then
    match refreshed with
    | .done => .direct false
    | .authenticationError => .ended (.error .tokenRefresh)
    | .raised => .ended (.error .raised)
  else if 400 ≤ r.status then .ended (.error (.status r.status))
  else .ended (.ok r.result)

/-- A POST handled by the device: the token is checked against the central server's reply, and the
operation is executed. Without an execution there are no devices after it. -/
def serveRequest (serve : Hosts.Peer) (net : Hosts) (device : DeviceId) (op : Operation) (body : Body)
    (localUserId : Value) (verified : VerifyReply) : Response × Option Hosts :=
  match parseAndVerify (handler op) (some (.dict body)) with
  | .error r => (r, none)
  | .ok (body, verification) =>
      match verify localUserId verified verification with
      | .error r => (r, none)
      | .ok _ => ((serve op net device body).1.getD serverError, some (serve op net device body).2)

/-- The first half of `_async_request`, from the relay's answer to the POST. -/
def afterSubmission : HttpReply → CallPhase
  | .failed .timeout => .ended (.error (.relay .request))
  | .failed .connectError => .ended (.error (.relay .request))
  | .failed _ => .ended (.error .raised)
  | .answered status body =>
      if 400 ≤ status then .ended (.error (.relay (.rejected status)))
      else match body.bind Json.members? with
        | none => .ended (.error .raised)
        | some data =>
            if !(Body.get data "request_id").truthy then .ended (.error (.relay .missingRequestId))
            else .response (Body.get data "request_id")

/-- `envelope.get("result", {})`. -/
def resultOf (envelope : Body) : Value := (Json.lookup "result".toList envelope).getD (.dict [])

/-- `result if isinstance(result, dict) else {}`. -/
def asDict (result : Value) : Value := if result.members?.isSome then result else .dict []

/-- The second half of `_async_request`, from the relay's answer to the GET. -/
def afterResponse : HttpReply → Except ProxyError Value
  | .failed .timeout => .error (.relay .wait)
  | .failed .connectError => .error (.relay .wait)
  | .failed _ => .error .raised
  | .answered status body =>
      if status = 504 then .error (.relay .timeout)
      else if 400 ≤ status then .error (.relay (.response status))
      else match body.bind Json.members? with
        | none => .error .raised
        | some envelope =>
            let result := resultOf envelope
            if (Body.get envelope "status").eq (.int 200) then .ok (asDict result)
            else .error (.relay (.failed (Body.get envelope "status")
              ((result.members?.map fun members => Body.get members "error").getD .null)))

end ProxyCall

/-- Where a relay worker stands: between two polls; with a request in hand; with the answer to one. -/
inductive WorkerPhase where
  | idle
  | holding (device : DeviceId) (requestId : Value) (op : Text) (payload : Value)
  | answering (requestId : Value) (answer : Response)

namespace RelayWorker

/-- `_poll_once` up to the dispatch. An op that is no text is not taken. -/
def poll (device : DeviceId) : HttpReply → WorkerPhase
  | .failed _ => .idle
  | .answered status body =>
      if status = 204 ∨ 400 ≤ status then .idle
      else match body.bind Json.members? with
        | none => .idle
        | some data =>
            let requestId := Body.get data "request_id"
            if !requestId.truthy then .idle
            else match ((Json.lookup "op".toList data).getD (.str [])).str? with
              | none => .idle
              | some op =>
                  .holding device requestId op ((Json.lookup "payload".toList data).getD (.dict []))

/-- A poll leaves the worker idle, or with a request for its device. -/
theorem poll_cases (device : DeviceId) (reply : HttpReply) :
    poll device reply = .idle ∨ ∃ requestId op payload, poll device reply =
      .holding device requestId op payload := by
  cases reply with
  | failed failure => exact Or.inl rfl
  | answered status body =>
      simp only [poll]
      split_ifs with hstatus
      · exact Or.inl rfl
      · cases hbody : body.bind Json.members? with
        | none => exact Or.inl rfl
        | some data =>
            dsimp only
            split_ifs with hid
            · exact Or.inl rfl
            · split
              · exact Or.inl rfl
              · exact Or.inr ⟨_, _, _, rfl⟩

/-- `dispatch` for the operations on sources, with the operation that is executed and the devices after it.
Only `space` does without the members of the payload. -/
def dispatch (serve : Hosts.Peer) (net : Hosts) (device : DeviceId) (op : Text) (payload : Value) :
    Response × Option (Operation × Body × Hosts) :=
  match Hosts.opMap op with
  | none => (⟨400, .dict [("error".toList, .str ("Unknown op: ".toList ++ op))]⟩, none)
  | some op =>
      match payload.members?, op with
      | none, .space => executed op []
      | none, _ => (errorResponse 500 "Internal error", none)
      | some body, op => executed op body
where
  executed (op : Operation) (body : Body) : Response × Option (Operation × Body × Hosts) :=
    ((serve op net device body).1.getD (errorResponse 500 "Internal error"),
      some (op, body, (serve op net device body).2))

end RelayWorker

/-- A request as the relay keeps it for a device; the call it is made for is not known there. -/
structure QueuedRequest where
  requestId : Value
  target : DeviceId
  op : Text
  payload : Body
  call : Nat

/-- How an operation came to its device: by the POST of a call, which was answered or not, or through the
relay. -/
inductive Channel where
  | direct (call : Nat) (answered : Bool)
  | relayed (requestId : Value)

/-- An operation that a device executed. -/
structure ProxyExecution where
  channel : Channel
  device : DeviceId
  op : Operation
  body : Body
  answer : Option Response

/-- What changes the devices: an operation, or anything they do themselves. -/
inductive LogEntry where
  | executed (x : ProxyExecution)
  | changed (change : Hosts → Hosts)

/-- The devices, the calls that were made so far with their phases, the workers, and what the relay was
asked: the requests it accepted, those it gave to workers and the answers that were posted. -/
structure RelayWorld where
  hosts : Hosts
  calls : List ProxyCall := []
  phases : Nat → CallPhase := fun _ => .direct true
  workers : Nat → WorkerPhase := fun _ => .idle
  queue : List QueuedRequest := []
  handed : List Value := []
  results : List (Value × Response) := []
  log : List LogEntry := []

/-- What becomes of a POST to a device. -/
inductive Delivery where
  | lost (failure : HttpFailure)
  /-- The device handles it, with the central server's reply about the token; `failure` where the answer is
  lost. -/
  | reached (localUserId : Value) (verified : P2PServer.VerifyReply) (failure : Option HttpFailure)

inductive RelayEvent where
  | called (call : ProxyCall)
  /-- The POST of a call to its device, with the refresh that a 401 leads to. -/
  | posted (c : Nat) (token : AccessToken) (delivery : Delivery) (refreshed : TokenRefreshed)
  /-- The POST of a call to the relay, which accepts it under an id or not. -/
  | submitted (c : Nat) (token : AccessToken) (accepted : Option Value) (reply : HttpReply)
  | awaited (c : Nat) (reply : HttpReply)
  | polled (worker : Nat) (device : DeviceId) (reply : HttpReply)
  | dispatched (worker : Nat)
  /-- The POST of an answer, which reaches the relay or not. -/
  | responded (worker : Nat) (delivered : Bool)
  /-- The worker is stopped, or its process ends; it may start again. -/
  | stopped (worker : Nat)
  /-- Anything else that happens on the devices. -/
  | changed (change : Hosts → Hosts)

namespace RelayWorld

open ProxyCall

def enter (w : RelayWorld) (c : Nat) (phase : CallPhase) : RelayWorld :=
  { w with phases := Function.update w.phases c phase }

def turn (w : RelayWorld) (worker : Nat) (phase : WorkerPhase) : RelayWorld :=
  { w with workers := Function.update w.workers worker phase }

@[simp] theorem phases_enter_self (w : RelayWorld) (c : Nat) (phase : CallPhase) :
    (w.enter c phase).phases c = phase := by
  simp [enter]

theorem phases_enter_of_ne (w : RelayWorld) {c c' : Nat} (phase : CallPhase) (h : c' ≠ c) :
    (w.enter c phase).phases c' = w.phases c' := by
  simp [enter, h]

theorem enter_enter (w : RelayWorld) (c : Nat) (phase phase' : CallPhase) :
    (w.enter c phase).enter c phase' = w.enter c phase' := by
  simp [enter]

@[simp] theorem workers_turn_self (w : RelayWorld) (worker : Nat) (phase : WorkerPhase) :
    (w.turn worker phase).workers worker = phase := by
  simp [turn]

theorem workers_turn_of_ne (w : RelayWorld) {worker other : Nat} (phase : WorkerPhase)
    (h : other ≠ worker) : (w.turn worker phase).workers other = w.workers other := by
  simp [turn, h]

theorem turn_turn (w : RelayWorld) (worker : Nat) (phase phase' : WorkerPhase) :
    (w.turn worker phase).turn worker phase' = w.turn worker phase' := by
  simp [turn]

/-- An execution, and the devices after it. -/
def execute (w : RelayWorld) (x : ProxyExecution) (hosts : Hosts) : RelayWorld :=
  { w with hosts, log := w.log ++ [.executed x] }

/-- Something else happens on the devices. -/
def alter (w : RelayWorld) (change : Hosts → Hosts) : RelayWorld :=
  { w with hosts := change w.hosts, log := w.log ++ [.changed change] }

def accept (w : RelayWorld) (q : QueuedRequest) : RelayWorld := { w with queue := w.queue ++ [q] }

section

variable (serve : Hosts.Peer)

/-- `_do_p2p_request`, up to the answer or the failure of its POST. -/
def post (w : RelayWorld) (c : Nat) (call : ProxyCall) (retry : Bool) (refreshed : TokenRefreshed) :
    AccessToken → Delivery → RelayWorld
  | .authenticationError, _ => w.enter c (.ended (.error .authentication))
  | .raised, _ => w.enter c (.ended (.error .raised))
  | .valid _, .lost failure => w.enter c (call.afterFailure failure)
  | .valid token, .reached localUserId verified failure =>
      let body := call.requestBody token
      let (r, executed) := serveRequest serve w.hosts call.target call.op body localUserId verified
      let phase := match failure with
        | some failure => call.afterFailure failure
        | none => afterAnswer retry refreshed r
      match executed with
      | none => w.enter c phase
      | some hosts =>
          (w.execute
            { channel := .direct c failure.isNone
              device := call.target
              op := call.op
              body
              answer := (serve call.op w.hosts call.target body).1 } hosts).enter c phase

/-- The first half of `_async_request`. -/
def submit (w : RelayWorld) (c : Nat) (call : ProxyCall) (accepted : Option Value) (reply : HttpReply) :
    AccessToken → RelayWorld
  | .authenticationError => w.enter c (.ended (.error (.relay .authentication)))
  | .raised => w.enter c (.ended (.error .raised))
  | .valid _ =>
      let w := match accepted with
        | none => w
        | some requestId =>
            w.accept ⟨requestId, call.target, Hosts.opName call.op, call.payload, c⟩
      w.enter c (afterSubmission reply)

/-- The relay gives a request to the worker that polls. -/
def hand (w : RelayWorld) (worker : Nat) (device : DeviceId) (reply : HttpReply) : RelayWorld :=
  let w := w.turn worker (RelayWorker.poll device reply)
  match RelayWorker.poll device reply with
  | .holding _ requestId _ _ => { w with handed := requestId :: w.handed }
  | _ => w

def dispatch (w : RelayWorld) (worker : Nat) (device : DeviceId) (requestId : Value) (op : Text)
    (payload : Value) : RelayWorld :=
  let (r, executed) := RelayWorker.dispatch serve w.hosts device op payload
  let w := match executed with
    | none => w
    | some (op, body, hosts) =>
        w.execute
          { channel := .relayed requestId
            device
            op
            body
            answer := (serve op w.hosts device body).1 } hosts
  w.turn worker (.answering requestId r)

def step (w : RelayWorld) : RelayEvent → Option RelayWorld
  | .called call => some { w with calls := w.calls ++ [call] }
  | .posted c token delivery refreshed =>
      match w.calls[c]?, w.phases c with
      | some call, .direct retry => some (w.post serve c call retry refreshed token delivery)
      | _, _ => none
  | .submitted c token accepted reply =>
      match w.calls[c]?, w.phases c with
      | some call, .relay => some (w.submit c call accepted reply token)
      | _, _ => none
  | .awaited c reply =>
      match w.phases c with
      | .response _ => some (w.enter c (.ended (afterResponse reply)))
      | _ => none
  | .polled worker device reply =>
      match w.workers worker with
      | .idle => some (w.hand worker device reply)
      | _ => none
  | .dispatched worker =>
      match w.workers worker with
      | .holding device requestId op payload =>
          some (w.dispatch serve worker device requestId op payload)
      | _ => none
  | .responded worker delivered =>
      match w.workers worker with
      | .answering requestId r =>
          let w := w.turn worker .idle
          some (if delivered then { w with results := (requestId, r) :: w.results } else w)
      | _ => none
  | .stopped worker => some (w.turn worker .idle)
  | .changed change => some (w.alter change)

end

/-! ### What the relay answers -/

/-- The dictionary of an answer that the client takes. -/
def taken (reply : HttpReply) : Option Body :=
  match reply with
  | .failed _ => none
  | .answered status body => if 400 ≤ status then none else body.bind Json.members?

/-- The relay accepts a request under a new id, and the id it answers with is that one. -/
def Accepts (w : RelayWorld) (accepted : Option Value) (reply : HttpReply) : Prop :=
  (∀ requestId, accepted = some requestId → ∀ q ∈ w.queue, q.requestId ≠ requestId) ∧
    ∀ data, taken reply = some data → (Body.get data "request_id").truthy = true →
      accepted = some (Body.get data "request_id")

/-- What a worker is given is a request for its device, once. -/
def Hands (w : RelayWorld) (device : DeviceId) (reply : HttpReply) : Prop :=
  ∀ d requestId op payload, RelayWorker.poll device reply = .holding d requestId op payload →
    requestId ∉ w.handed ∧ ∃ q ∈ w.queue, q.requestId = requestId ∧ q.target = device ∧ q.op = op ∧
      .dict q.payload = payload

/-- An answer with status 200 is one that was posted for the request. -/
def Answers (w : RelayWorld) (c : Nat) (reply : HttpReply) : Prop :=
  ∀ requestId envelope, w.phases c = .response requestId → taken reply = some envelope →
    (Body.get envelope "status").eq (.int 200) = true →
    ∃ r, (requestId, r) ∈ w.results ∧ r.status = 200 ∧ resultOf envelope = r.result

/-- The relay as its clients take it: it keeps each request under an id of its own, gives it to one poll of
the target, and passes on the answers. Requests and answers may be lost. -/
def RelayKeeps (w : RelayWorld) : RelayEvent → Prop
  | .submitted _ _ accepted reply => w.Accepts accepted reply
  | .polled _ device reply => w.Hands device reply
  | .awaited c reply => w.Answers c reply
  | _ => True

end RelayWorld

/-! ### The answers of the operations -/

namespace Hosts

/-- An answer with status 200, or with one from 400 on that is not the refusal of a token. -/
def Unrefused (o : Outcome) : Prop :=
  ∀ r, o.1 = some r → r.status = 200 ∨ (400 ≤ r.status ∧ r.status ≠ 401)

variable {net : Hosts} {device : DeviceId} {body : Body}

theorem unrefused_none (net : Hosts) : Unrefused (none, net) := by
  intro r hr
  cases hr

theorem unrefused_some {r : Response} (h : r.status = 200 ∨ (400 ≤ r.status ∧ r.status ≠ 401))
    (net : Hosts) : Unrefused (some r, net) := by
  intro r' hr'
  rwa [← Option.some.inj hr']

theorem unrefused_withPath {i : Nat} {rest : Text → Outcome} (hrest : ∀ p, Unrefused (rest p)) :
    Unrefused (net.withPath device i body rest) := by
  have herror : ∀ v root answer, P2PServer.validatePathErr v root = some answer →
      answer.status = 200 ∨ (400 ≤ answer.status ∧ answer.status ≠ 401) := by
    intro v root answer h
    unfold P2PServer.validatePathErr at h
    split_ifs at h
    · exact Option.some.inj h ▸ Or.inr (by decide)
    · split at h
      · exact Option.some.inj h ▸ Or.inr (by decide)
      · split_ifs at h
        · exact Option.some.inj h ▸ Or.inr (by decide)
        · dsimp only at h
          split_ifs at h
          exact Option.some.inj h ▸ Or.inr (by decide)
  unfold withPath checkedPath
  dsimp only
  cases hpath : P2PServer.validatePathErr (P2PServer.physicalPath body) (net.rootAt device i) with
  | none =>
      split
      · exact unrefused_none net
      · rename_i heq
        split at heq
        · cases heq
        · cases heq
      · exact hrest _
  | some answer =>
      split
      · exact unrefused_none net
      · rename_i heq
        split at heq
        · cases heq
        · obtain rfl := Except.error.inj (Option.some.inj heq)
          exact unrefused_some (herror _ _ _ hpath) net
      · rename_i heq
        split at heq
        · cases heq
        · cases heq

theorem status_of_selectSourceOrError {h : P2PHost} {answer : Response}
    (hselect : h.selectSourceOrError body = some (.error answer)) : answer.status = 404 := by
  unfold P2PHost.selectSourceOrError at hselect
  dsimp only at hselect
  split_ifs at hselect
  · split at hselect
    · split at hselect
      · cases hselect
      · exact Except.error.inj (Option.some.inj hselect) ▸ rfl
    · cases hselect
    · cases hselect
    · exact Except.error.inj (Option.some.inj hselect) ▸ rfl
  · exact Except.error.inj (Option.some.inj hselect) ▸ rfl
  · cases hselect

theorem unrefused_onSelected {rest : Nat → Outcome} (hrest : ∀ i, Unrefused (rest i)) :
    Unrefused (net.onSelected device body rest) := by
  unfold onSelected
  split
  · exact unrefused_none net
  · rename_i hselect
    exact unrefused_some (Or.inr (by rw [status_of_selectSourceOrError hselect]; decide)) net
  · exact hrest _

theorem unrefused_onSelectedOrFirst {rest : Nat → Outcome} (hrest : ∀ i, Unrefused (rest i)) :
    Unrefused (net.onSelectedOrFirst device body rest) := by
  unfold onSelectedOrFirst
  split
  · exact unrefused_none net
  · split_ifs
    · exact unrefused_some (Or.inr (by decide)) net
    · exact hrest 0
  · exact hrest _

theorem unrefused_handle (usage : DiskUsage) (peer : Peer) (op : Operation) (net : Hosts)
    (device : DeviceId) (body : Body) : Unrefused (handle usage peer op net device body) := by
  cases op with
  | read =>
      refine unrefused_onSelected fun i => unrefused_withPath fun p => ?_
      split
      · exact unrefused_some (Or.inl rfl) _
      · split_ifs
        · exact unrefused_some (Or.inr (by decide)) _
        · exact unrefused_none _
  | write =>
      refine unrefused_onSelectedOrFirst fun i => unrefused_withPath fun p => ?_
      split
      · exact unrefused_some (Or.inr (by decide)) _
      · split_ifs
        · exact unrefused_some (Or.inr (by decide)) _
        · split
          · exact unrefused_some (Or.inl rfl) _
          · exact unrefused_none _
  | delete =>
      refine unrefused_onSelectedOrFirst fun i => unrefused_withPath fun p => ?_
      split
      · exact unrefused_none _
      · exact unrefused_some (Or.inr (by decide)) _
      · split
        · exact unrefused_some (Or.inl rfl) _
        · split_ifs
          · exact unrefused_some (Or.inr (by decide)) _
          · exact unrefused_none _
  | list =>
      refine unrefused_onSelected fun i => unrefused_withPath fun p => ?_
      dsimp only
      split_ifs
      · exact unrefused_some (Or.inr (by decide)) _
      · split
        · exact unrefused_some (Or.inl rfl) _
        · exact unrefused_none _
  | «exists» =>
      refine unrefused_onSelected fun i => unrefused_withPath fun p => ?_
      split
      · exact unrefused_some (Or.inl rfl) _
      · exact unrefused_none _
  | mkdir =>
      refine unrefused_onSelectedOrFirst fun i => unrefused_withPath fun p => ?_
      split
      · exact unrefused_some (Or.inl rfl) _
      · exact unrefused_none _
  | rmdir =>
      refine unrefused_onSelectedOrFirst fun i => unrefused_withPath fun p => ?_
      dsimp only
      split_ifs
      · exact unrefused_some (Or.inr (by decide)) _
      · split
        · exact unrefused_some (Or.inl rfl) _
        · exact unrefused_none _
  | space =>
      change Unrefused (net.opSpace usage peer device)
      unfold opSpace
      split
      · exact unrefused_none _
      · split
        · exact unrefused_none _
        · exact unrefused_some (Or.inl rfl) _

end Hosts

end StardustFS
