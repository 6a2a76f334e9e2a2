import StardustFS.ParityRecovery
import StardustFS.ProxyRequests
import StardustFS.ReplicaHealth

/-! Requests about the chunks that a device keeps for other users: the server's operations on the parity
store, and the two calls by which an owner gives a chunk to a holder and gets it back. A holder is asked at
its address and, where nothing answers there, through the relay; anybody may send requests in between. -/

namespace StardustFS

open FsEncoding

/-- The members of a request about a chunk. A text in it is any string of the host language, as the name of
a chunk is. -/
abbrev ReplicaBody := List (List CodePoint × Json CodePoint)

inductive ReplicaOp where
  | store
  | fetch
  | delete
  deriving DecidableEq, Repr

/-- A text as a string of the host language. -/
def textPoints (t : Text) : List CodePoint := t.map fun c => ⟨c.toNat, char_toNat_lt c⟩

/-- `base64.b64decode` of a JSON value. What is no ASCII text raises. -/
def decodeBase64 : Json CodePoint → Option Bytes
  | .str s =>
      if s.all fun c => c.val < 128 then Base64.b64decode (s.map fun c => Char.ofNat c.val) else none
  | _ => none

/-- `base64.b64decode(body.get("data", ""))`. -/
def ReplicaBody.data (body : ReplicaBody) : Option Bytes :=
  decodeBase64 ((Json.lookup (codePoints "data") body).getD (.str []))

/-- `body.get("chunk_id", "")` as the store takes it: the id, or the `ValueError` of `_validate_chunk_id`, or
`none` for the `TypeError` of a value that cannot be searched or cannot be a key. -/
def ReplicaBody.chunkId (body : ReplicaBody) : Except (Option ParityError) ChunkId :=
  match (Json.lookup (codePoints "chunk_id") body).getD (.str []) with
  | .str chunkId => .ok chunkId
  | .list items =>
      .error (if items = [] ∨ items.any (fun x => parts.any fun part => x.eq (.str part)) then
        some .valueError else none)
  | .dict members =>
      .error (if members = [] ∨ members.any (fun x => parts.contains x.1) then some .valueError else none)
  | v => .error (if v.truthy then none else some .valueError)
where
  parts : List (List CodePoint) := [codePoints "/", codePoints "\\", codePoints ".."]

namespace P2PServer

/-! ### The server -/

/-- `_verify_token` with `same_user=False`. -/
def verifyAnyToken : VerifyReply → Except Response Body
  | .unreachable => .error (errorResponse 503 "Auth service unavailable")
  | .failed => .error serverError
  | .answered status data =>
      if status ≠ 200 then .error (errorResponse 401 "Invalid or expired token")
      else match data.bind Json.members? with
        | none => .error serverError
        | some data =>
            if !(Body.get data "valid").truthy then
              .error (errorResponse 401 "Invalid or expired token")
            else .ok data

/-- With `same_user` the user is compared afterwards. -/
theorem verifyToken_eq (localUserId : Value) (reply : VerifyReply) :
    verifyToken localUserId reply = (verifyAnyToken reply).bind fun data =>
      if (Body.get data "user_id").eq localUserId then .ok data
      else .error (errorResponse 403 "User ID mismatch") := by
  cases reply with
  | unreachable => rfl
  | failed => rfl
  | answered status data =>
      simp only [verifyToken, verifyAnyToken]
      by_cases hstatus : status = 200
      · rw [if_neg (not_not_intro hstatus), if_neg (not_not_intro hstatus)]
        cases data.bind Json.members? with
        | none => rfl
        | some data =>
            dsimp only
            cases (Body.get data "valid").truthy with
            | false => rfl
            | true => cases huser : (Body.get data "user_id").eq localUserId <;> simp [Except.bind, huser]
      · rw [if_pos hstatus, if_pos hstatus]
        rfl

/-- `_parse_and_verify_any_user`, at the central server's reply: the body and the user of the token. -/
def parseAndVerifyAnyUser (body : Option (Json CodePoint)) (reply : VerifyReply) :
    Except Response (ReplicaBody × Value) :=
  match body with
  | none => .error (errorResponse 400 "Invalid JSON body")
  | some body =>
      match body.members? with
      | none => .error serverError
      | some body =>
          if !(Json.get body (codePoints "auth_token")).truthy then
            .error (errorResponse 401 "Missing auth_token")
          else match verifyAnyToken reply with
            | .error r => .error r
            | .ok data =>
                let requester := Body.get data "user_id"
                if !requester.truthy then .error (errorResponse 401 "Invalid token (no user_id)")
                else .ok (body, requester)

/-- What an operation answers where the store raises, `none` where it does not catch that. -/
def refusalAnswer : ReplicaOp → ParityError → Option Response
  | _, .valueError => some (errorResponse 400 "Invalid chunk_id")
  | .store, .permission => some (errorResponse 403 "Chunk owner mismatch")
  | .store, .quotaExceeded => some (errorResponse 507 "Insufficient storage (quota exceeded)")
  | .fetch, .fileNotFound => some (errorResponse 404 "Chunk not found")
  | .fetch, .permission => some (errorResponse 403 "Not chunk owner")
  | .delete, .permission => some (errorResponse 403 "Not chunk owner")
  | _, _ => none

/-- An operation on the chunk that the body names. -/
def onChunk (op : ReplicaOp) (s : ParityStore) (body : ReplicaBody)
    (rest : ChunkId → Option Response × ParityStore) : Option Response × ParityStore :=
  match body.chunkId with
  | .error e => (e.bind (refusalAnswer op), s)
  | .ok chunkId => rest chunkId

def writtenAnswer (data : Bytes) : Response :=
  ⟨200, .dict [("bytes_written".toList, .int data.length)]⟩

def dataAnswer (data : Bytes) : Response :=
  ⟨200, .dict [("data".toList, .str (Base64.b64encode data))]⟩

def deletedAnswer : Response := ⟨200, .dict [("status".toList, .str "deleted".toList)]⟩

section Operations

variable (s : ParityStore) (body : ReplicaBody) (requester : UserId)

def opReplicaStore : Option Response × ParityStore :=
  match body.data with
  | none => (some (errorResponse 400 "Invalid base64 data"), s)
  | some data =>
      if Hosts.maxWriteSize < data.length then
        (some (errorResponse 413 "Payload too large (max 100MB)"), s)
      else onChunk .store s body fun chunkId =>
        match s.store chunkId requester data with
        | (.error e, s) => (refusalAnswer .store e, s)
        | (.ok _, s) => (some (writtenAnswer data), s)

def opReplicaFetch : Option Response × ParityStore :=
  onChunk .fetch s body fun chunkId =>
    match s.fetch chunkId requester with
    | .error e => (refusalAnswer .fetch e, s)
    | .ok data => (some (dataAnswer data), s)

def opReplicaDelete : Option Response × ParityStore :=
  onChunk .delete s body fun chunkId =>
    match s.delete chunkId requester with
    | (.error e, s) => (refusalAnswer .delete e, s)
    | (.ok _, s) => (some deletedAnswer, s)

def disabledAnswer : Response := errorResponse 503 "Parity hosting not enabled"

/-- `replica_map`, with the check that each of the operations begins with. -/
def replicaMap (hosting : Bool) (op : ReplicaOp) : Option Response × ParityStore :=
  if !hosting then (some disabledAnswer, s)
  else match op with
    | .store => opReplicaStore s body requester
    | .fetch => opReplicaFetch s body requester
    | .delete => opReplicaDelete s body requester

end Operations

end P2PServer

/-! ### The owner -/

inductive HolderRequest where
  /-- `_holder_store` -/
  | store (data : Bytes)
  /-- `_holder_fetch` -/
  | fetch

/-- How a call ends: `raised` is an exception that the call does not catch. -/
inductive HolderResult where
  | stored (ok : Bool)
  | fetched (data : Option Bytes)
  | raised

/-- A call of a user, who has a token, about one of the chunks. -/
structure HolderCall where
  user : UserId
  token : Text
  holder : ListedHolder
  chunkId : Text
  request : HolderRequest

/-- Where a call stands: at its POST to the holder, or at its exchange with the relay, with the answer of the
holder that is on its way; or at its end. -/
inductive HolderPhase where
  | direct (answer : Option Response)
  | relay (answer : Option Response)
  | ended (result : HolderResult)

/-- What `_holder_fetch` makes of the body of an answer with status 200, `none` where that raises. -/
def decodeHolderAnswer : Option Value → Option (Option Bytes)
  | none => some none
  | some (.dict members) =>
      match Json.lookup "data".toList members with
      | none => some none
      | some (.str text) => some (Base64.b64decode text)
      | some _ => none
  | some _ => none

/-- `_relay_op`, `none` for any exception. -/
def relayOp (token : AccessToken) (submission response : HttpReply) : Option Value :=
  match token with
  | .valid _ =>
      match ProxyCall.afterSubmission submission with
      | .response _ => (ProxyCall.afterResponse response).toOption
      | _ => none
  | _ => none

namespace HolderCall

def op (call : HolderCall) : ReplicaOp :=
  match call.request with
  | .store _ => .store
  | .fetch => .fetch

/-- The body of the request through the relay. -/
def body (call : HolderCall) : ReplicaBody :=
  (codePoints "chunk_id", .str (textPoints call.chunkId)) ::
    match call.request with
    | .store data => [(codePoints "data", .str (textPoints (Base64.b64encode data)))]
    | .fetch => []

/-- `{**body, "auth_token": token}`. -/
def directBody (call : HolderCall) : ReplicaBody :=
  call.body ++ [(codePoints "auth_token", .str (textPoints call.token))]

/-- What is returned where no holder was reached. -/
def unreached (call : HolderCall) : HolderResult :=
  match call.request with
  | .store _ => .stored false
  | .fetch => .fetched none

/-- The relay is tried where the holder has a device id. -/
def relayPhase (call : HolderCall) : HolderPhase :=
  match call.holder.deviceId with
  | none => .ended call.unreached
  | some _ => .relay none

/-- The first phase. -/
def firstPhase (call : HolderCall) : HolderPhase :=
  match call.holder.connectionAddress with
  | none => call.relayPhase
  | some _ => .direct none

/-- A POST to the holder that failed. -/
def afterFailure (call : HolderCall) (failure : HttpFailure) : HolderPhase :=
  if failure = .other then .ended .raised else call.relayPhase

/-- An answer of the holder is final. -/
def afterAnswer (call : HolderCall) (r : Response) : HolderResult :=
  match call.request with
  | .store _ => .stored (r.status = 200)
  | .fetch =>
      if r.status = 200 then
        match decodeHolderAnswer (some r.result) with
        | none => .raised
        | some data => .fetched data
      else .fetched none

/-- The end of the exchange with the relay. -/
def afterRelay (call : HolderCall) (result : Option Value) : HolderResult :=
  match call.request with
  | .store _ => .stored result.isSome
  | .fetch => .fetched ((decodeHolderAnswer result).getD none)

end HolderCall

/-! ### The system -/

/-- A request that the device executed, for a call or for nobody known, with its answer; `none` where the
operation raised. -/
structure HostedExchange where
  call : Option Nat
  op : ReplicaOp
  body : ReplicaBody
  requester : UserId
  answer : Option Response

/-- The device that keeps the chunks, with the user who is signed in there, and the calls of the owners. -/
structure HolderWorld where
  parity : ParityStore
  hosting : Bool := true
  localUser : UserId
  calls : List HolderCall := []
  phases : Nat → HolderPhase := fun _ => .direct none
  log : List HostedExchange := []

inductive HolderEvent where
  | called (call : HolderCall)
  /-- The device handles the POST of a call, with the central server's reply about the token. -/
  | served (c : Nat) (verified : P2PServer.VerifyReply)
  /-- The POST of a call fails for the caller, handled or not. -/
  | failed (c : Nat) (failure : HttpFailure)
  | answered (c : Nat)
  /-- A relay worker of the device executes the request of a call. -/
  | dispatched (c : Nat)
  | relayed (c : Nat) (token : AccessToken) (submission response : HttpReply)
  /-- Any other POST to the device. -/
  | requested (op : ReplicaOp) (body : Option (Json CodePoint)) (verified : P2PServer.VerifyReply)
  /-- Any other request that the relay has for the device. -/
  | relayRequested (op : ReplicaOp) (payload : Json CodePoint)
  | setMaxBytes (maxBytes : Option Int)
  | signedIn (user : UserId)
  /-- The device starts anew on its directory, with or without hosting. -/
  | restarted (hosting : Bool) (maxBytes : Option Int)

namespace HolderWorld

open P2PServer

def enter (w : HolderWorld) (c : Nat) (phase : HolderPhase) : HolderWorld :=
  { w with phases := Function.update w.phases c phase }

def answer (w : HolderWorld) (op : ReplicaOp) (body : ReplicaBody) (requester : UserId) :
    Option Response :=
  (replicaMap w.parity body requester w.hosting op).1

/-- The device executes an operation. -/
def exchange (w : HolderWorld) (call : Option Nat) (op : ReplicaOp) (body : ReplicaBody)
    (requester : UserId) : HolderWorld :=
  { w with
    parity := (replicaMap w.parity body requester w.hosting op).2
    log := w.log ++ [{ call, op, body, requester, answer := w.answer op body requester }] }

/-- `handle_replica_store` and its siblings; `none` for a user whose id is no text. -/
def serve (w : HolderWorld) (call : Option Nat) (op : ReplicaOp) (body : Option (Json CodePoint))
    (verified : VerifyReply) : Option (Response × HolderWorld) :=
  match parseAndVerifyAnyUser body verified with
  | .error r => some (r, w)
  | .ok (body, requester) =>
      requester.str?.map fun user =>
        ((w.answer op body (String.ofList user)).getD serverError,
          w.exchange call op body (String.ofList user))

/-- `dispatch` of an operation on chunks, for the user who is signed in. -/
def dispatch (w : HolderWorld) (call : Option Nat) (op : ReplicaOp) (payload : Json CodePoint) :
    Response × HolderWorld :=
  match payload.members? with
  | none => (if w.hosting then errorResponse 500 "Internal error" else disabledAnswer, w)
  | some body =>
      ((w.answer op body w.localUser).getD (errorResponse 500 "Internal error"),
        w.exchange call op body w.localUser)

def step (w : HolderWorld) : HolderEvent → Option HolderWorld
  | .called call => some ({ w with calls := w.calls ++ [call] }.enter w.calls.length call.firstPhase)
  | .served c verified =>
      match w.calls[c]?, w.phases c with
      | some call, .direct none =>
          (w.serve (some c) call.op (some (.dict call.directBody)) verified).map fun x =>
            x.2.enter c (.direct (some x.1))
      | _, _ => none
  | .failed c failure =>
      match w.calls[c]?, w.phases c with
      | some call, .direct _ => some (w.enter c (call.afterFailure failure))
      | _, _ => none
  | .answered c =>
      match w.calls[c]?, w.phases c with
      | some call, .direct (some r) => some (w.enter c (.ended (call.afterAnswer r)))
      | _, _ => none
  | .dispatched c =>
      match w.calls[c]?, w.phases c with
      | some call, .relay none =>
          let x := w.dispatch (some c) call.op (.dict call.body)
          some (x.2.enter c (.relay (some x.1)))
      | _, _ => none
  | .relayed c token submission response =>
      match w.calls[c]?, w.phases c with
      | some call, .relay _ =>
          some (w.enter c (.ended (call.afterRelay (relayOp token submission response))))
      | _, _ => none
  | .requested op body verified => (w.serve none op body verified).map Prod.snd
  | .relayRequested op payload => some (w.dispatch none op payload).2
  | .setMaxBytes maxBytes => some { w with parity := w.parity.setMaxBytes maxBytes }
  | .signedIn user => some { w with localUser := user }
  | .restarted hosting maxBytes =>
      some { w with hosting, parity := w.parity.reopened ParityStore.readIndex maxBytes }

/-- A device on a new directory. -/
def first (hosting : Bool) (maxBytes : Option Int) (localUser : UserId) : HolderWorld :=
  { parity := ParityStore.opened ParityStore.dumpIndex Table.empty maxBytes, hosting, localUser }

/-- What the central server is taken for: it names the user of a token, relays between the devices of one
user, and answers with status 200 only what the device answered. -/
def Vouches (w : HolderWorld) : HolderEvent → Prop
  | .served c verified => ∀ call data, w.calls[c]? = some call → verifyAnyToken verified = .ok data →
      Body.get data "user_id" = .str call.user.toList
  | .dispatched c => ∀ call, w.calls[c]? = some call → call.user = w.localUser
  | .relayed c _ _ response => ∀ answer envelope, w.phases c = .relay answer →
      RelayWorld.taken response = some envelope →
      (Body.get envelope "status").eq (.int 200) = true →
      ∃ r, answer = some r ∧ r.status = 200 ∧ ProxyCall.resultOf envelope = r.result
  | _ => True

end HolderWorld

end StardustFS
