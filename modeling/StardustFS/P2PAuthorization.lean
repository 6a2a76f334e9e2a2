import StardustFS.KeyedTable
import StardustFS.P2PServer
import StardustFS.Transitions

/-! The P2P server of a client whose authentication changes. A request waits for the central server's
reply about its token; when the reply comes, it is compared with the user of that moment and the operation
is executed. -/

namespace StardustFS

/-- What `AuthClient` keeps in memory of a session. The expiry of the access token is left out. -/
structure AuthState where
  accessToken : Value := .null
  refreshTokenValue : Value := .null
  userId : Value := .null

namespace AuthState

section

variable (loads : Text → Option Value) (readsAsFloat : Text → Bool)

/-- `_decode_jwt_payload`; `loads` decodes base64 text and then JSON, `none` where one of them raises
a `ValueError`. -/
def decodeJwtPayload (token : Text) : Option Value :=
  match token.splitOn '.' with
  | [_, payload, _] =>
      let padding := 4 - payload.length % 4
      loads (if padding = 4 then payload else payload ++ List.replicate padding '=')
  | _ => none

/-- `float(x)` does not raise; `readsAsFloat` tells it of texts. -/
def floats : Value → Bool
  | .bool _ => true
  | .float _ => true
  | .int n => decide (n.natAbs < 2 ^ 1024 - 2 ^ 970)
  | .str s => readsAsFloat s
  | _ => false

/-- `_store_tokens`. Where the payload cannot be read, the user stays the one before, whether the
exception is caught or not. -/
def storeTokens (a : AuthState) (accessToken refreshToken : Value) : AuthState :=
  let a := { a with accessToken, refreshTokenValue := refreshToken }
  match (accessToken.str?.bind (decodeJwtPayload loads)).bind Json.members? with
  | none => a
  | some payload =>
      if floats readsAsFloat ((Json.lookup "exp".toList payload).getD (.int 0)) then
        { a with userId := Body.get payload "sub" }
      else a

/-- The answer to a login or a refresh: the tokens are stored where both of them are there. -/
def receiveTokens (a : AuthState) (data : Option Value) : AuthState :=
  match data.bind Json.members? with
  | none => a
  | some data =>
      match Json.lookup "access_token".toList data, Json.lookup "refresh_token".toList data with
      | some accessToken, some refreshToken =>
          a.storeTokens loads readsAsFloat accessToken refreshToken
      | _, _ => a

/-- `_clear_tokens`. -/
def clearTokens (_ : AuthState) : AuthState := {}

/-- `load_from_store` and `_reload_tokens_from_store`, with what the store holds. -/
def loadFromStore (a : AuthState) (data : Option Body) : AuthState :=
  match data with
  | none => a
  | some [] => a
  | some data =>
      let a :=
        { a with
          accessToken := Body.get data "access_token"
          refreshTokenValue := Body.get data "refresh_token" }
      let expiresAt := Body.get data "access_expires_at"
      if floats readsAsFloat (if expiresAt.truthy then expiresAt else .float (.finite 0)) then
        { a with userId := Body.get data "user_id" }
      else a

end

end AuthState

abbrev RequestId := Nat

/-- A request whose handler waits for the central server. -/
structure PendingRequest where
  op : Operation
  body : Body
  verification : P2PServer.Verification

/-- An operation that was executed, with the reply it was executed on and the local user of that
moment. -/
structure Execution extends PendingRequest where
  reply : P2PServer.VerifyReply
  userId : Value

/-- The server with what its operations work on. -/
structure P2PService (V : Type) where
  auth : AuthState := {}
  volume : V
  pending : Table RequestId PendingRequest := Table.empty
  executed : List Execution := []

inductive P2PEvent where
  /-- A login, or a refresh, is answered with this body. -/
  | receiveTokens (data : Option Value)
  /-- A refresh is answered with a 401. -/
  | refused
  | load (data : Option Body)
  | request (k : RequestId) (op : Operation) (body : Option Value)
  | reply (k : RequestId) (reply : P2PServer.VerifyReply)

namespace P2PService

open P2PServer

variable {V : Type} (operation : Operation → Body → V → Response × V)
  (loads : Text → Option Value) (readsAsFloat : Text → Bool)

/-- A reply ends the wait of its request; the check and the operation are one step. -/
def receive (s : P2PService V) (k : RequestId) (p : PendingRequest) (reply : VerifyReply) :
    P2PService V :=
  let pending := s.pending.deleteWhere fun k' _ => k' = k
  match verify s.auth.userId reply p.verification with
  | .error _ => { s with pending }
  | .ok _ =>
      { s with
        pending
        volume := (operation p.op p.body s.volume).2
        executed := { p with reply, userId := s.auth.userId } :: s.executed }

def step (s : P2PService V) : P2PEvent → Option (P2PService V)
  | .receiveTokens data =>
      some { s with auth := s.auth.receiveTokens loads readsAsFloat data }
  | .refused => some { s with auth := s.auth.clearTokens }
  | .load data => some { s with auth := s.auth.loadFromStore readsAsFloat data }
  | .request k op body =>
      if (s.pending.get k).isSome then none
      else match parseAndVerify (handler op) body with
        | .error _ => some s
        | .ok (body, verification) =>
            some { s with pending := s.pending.put k { op, body, verification } }
  | .reply k reply => (s.pending.get k).map fun p => s.receive operation k p reply

/-! ### The local user only -/

/-- A read that brings a share token. -/
def SharedRead (p : PendingRequest) : Prop :=
  p.op = .read ∧ (p.body.get "share_token").truthy = true

/-- The reply has status 200, says that the token is valid and names the local user. -/
def ForLocalUser (x : Execution) : Prop :=
  ∃ data : Body, x.reply = .answered 200 (some (.dict data)) ∧ data.get "valid" = .bool true ∧
    data.get "user_id" ≠ .null ∧ (data.get "user_id").eq x.userId = true

/-- Everything that was executed was executed for the local user, reads with a share token apart. -/
def LocalUserOnly (s : P2PService V) : Prop :=
  ∀ x ∈ s.executed, ¬ SharedRead x.toPendingRequest → ForLocalUser x

/-- A reply of status 200 about an access token that counts as valid and names the local user, by the
comparison the server makes, says `true`, and there is a local user. -/
def Telling (s : P2PService V) : P2PEvent → Prop
  | .reply k (.answered 200 (some (.dict data))) =>
      ∀ p, s.pending.get k = some p → ¬ SharedRead p → (Body.get data "valid").truthy = true →
        (Body.get data "user_id").eq s.auth.userId = true →
        Body.get data "valid" = .bool true ∧ s.auth.userId ≠ .null
  | _ => True

/-- A request waits for an answer about its share token only where it is a read with one. -/
def Matches (p : PendingRequest) : Prop :=
  (SharedRead p ∧ ∃ shareToken path, p.verification = .share shareToken path) ∨
    (¬ SharedRead p ∧ ∃ authToken, p.verification = .token authToken)

theorem matches_of_parseAndVerify {op : Operation} {body : Option Value} {body' : Body}
    {verification : Verification}
    (h : parseAndVerify (handler op) body = .ok (body', verification)) :
    Matches { op, body := body', verification } := by
  unfold parseAndVerify at h
  cases body with
  | none => cases h
  | some body =>
      cases hmembers : body.members? with
      | none => simp only [hmembers, reduceCtorEq] at h
      | some members =>
          simp only [hmembers] at h
          split_ifs at h with hshare hauth
          · obtain ⟨rfl, rfl⟩ := Prod.mk.inj (Except.ok.inj h)
            rw [Bool.and_eq_true] at hshare
            refine Or.inl ⟨⟨?_, hshare.2⟩, _, _, rfl⟩
            have hallow := hshare.1
            cases op with
            | read => rfl
            | _ => cases hallow
          · obtain ⟨rfl, rfl⟩ := Prod.mk.inj (Except.ok.inj h)
            refine Or.inr ⟨fun hshared => hshare ?_, _, rfl⟩
            obtain ⟨hop, htoken⟩ := hshared
            subst hop
            exact Bool.and_eq_true_iff.mpr ⟨rfl, htoken⟩

/-- What the runs keep: the requests that wait ask the right question. -/
structure Served (s : P2PService V) : Prop where
  pending : ∀ k p, s.pending.get k = some p → Matches p
  executed : LocalUserOnly s

/-- What a reply leads to: nothing is executed, or the verified request. -/
theorem receive_cases (s : P2PService V) (k : RequestId) (p : PendingRequest)
    (reply : VerifyReply) :
    ((s.receive operation k p reply).executed = s.executed ∧
        ∃ answer, verify s.auth.userId reply p.verification = .error answer) ∨
      ((s.receive operation k p reply).executed =
          { p with reply, userId := s.auth.userId } :: s.executed ∧
        ∃ data, verify s.auth.userId reply p.verification = .ok data) := by
  cases hverify : verify s.auth.userId reply p.verification with
  | error answer => exact Or.inl ⟨by simp only [receive, hverify], answer, rfl⟩
  | ok data => exact Or.inr ⟨by simp only [receive, hverify], data, rfl⟩

theorem receive_pending (s : P2PService V) (k : RequestId) (p : PendingRequest)
    (reply : VerifyReply) :
    (s.receive operation k p reply).pending = s.pending.deleteWhere fun k' _ => k' = k := by
  cases hverify : verify s.auth.userId reply p.verification with
  | error answer => simp only [receive, hverify]
  | ok data => simp only [receive, hverify]

/-- An execution on an access token is for the local user exactly where the reply is telling. -/
theorem forLocalUser_iff {p : PendingRequest} {authToken : Value} {userId : Value}
    {reply : VerifyReply} {data : Body} (hp : p.verification = .token authToken)
    (h : verify userId reply p.verification = .ok data) :
    ForLocalUser { p with reply, userId } ↔
      data.get "valid" = .bool true ∧ userId ≠ .null := by
  rw [hp, verify, verifyToken_eq_ok_iff] at h
  obtain ⟨rfl, -, heq⟩ := h
  have hnull := Json.null_iff_of_eq heq
  constructor
  · rintro ⟨data', hreply, hvalid, huser, -⟩
    simp only [VerifyReply.answered.injEq, true_and, Option.some_inj, Json.dict.injEq] at hreply
    subst hreply
    exact ⟨hvalid, fun h => huser (hnull.mpr h)⟩
  · rintro ⟨hvalid, huser⟩
    exact ⟨data, rfl, hvalid, fun h => huser (hnull.mp h), heq⟩

theorem served_step {s s' : P2PService V} {e : P2PEvent} (h : Served s) (hok : Telling s e)
    (hstep : step operation loads readsAsFloat s e = some s') : Served s' := by
  cases e with
  | receiveTokens data =>
      rw [step, Option.some_inj] at hstep
      subst hstep
      exact ⟨h.pending, h.executed⟩
  | refused =>
      rw [step, Option.some_inj] at hstep
      subst hstep
      exact ⟨h.pending, h.executed⟩
  | load data =>
      rw [step, Option.some_inj] at hstep
      subst hstep
      exact ⟨h.pending, h.executed⟩
  | request k op body =>
      simp only [step] at hstep
      split_ifs at hstep
      cases hparse : parseAndVerify (handler op) body with
      | error answer =>
          simp only [hparse, Option.some_inj] at hstep
          exact hstep ▸ h
      | ok question =>
          simp only [hparse, Option.some_inj] at hstep
          subst hstep
          refine ⟨fun k' p hp => ?_, h.executed⟩
          rw [Table.get_put] at hp
          split_ifs at hp
          · rw [Option.some_inj] at hp
            subst hp
            exact matches_of_parseAndVerify hparse
          · exact h.pending k' p hp
  | reply k reply =>
      obtain ⟨p, hp, rfl⟩ := Option.map_eq_some_iff.mp hstep
      constructor
      · intro k' p' hp'
        rw [receive_pending, Table.get_deleteWhere] at hp'
        exact h.pending k' p' (Option.filter_eq_some_iff.mp hp').1
      · rcases receive_cases operation s k p reply with ⟨hsame, -⟩ | ⟨hnew, data, hdata⟩
        · rw [LocalUserOnly, hsame]
          exact h.executed
        · rw [LocalUserOnly, hnew]
          intro x hx hshared
          rcases List.mem_cons.mp hx with rfl | hx
          · rcases h.pending k p hp with ⟨hread, -⟩ | ⟨-, authToken, htoken⟩
            · exact absurd hread hshared
            · refine (forLocalUser_iff htoken hdata).mpr ?_
              rw [htoken, verify, verifyToken_eq_ok_iff] at hdata
              obtain ⟨rfl, hvalid, huser⟩ := hdata
              exact hok p hp hshared hvalid huser
          · exact h.executed x hx hshared

theorem not_localUserOnly_step {s s' : P2PService V} {e : P2PEvent} (h : Served s)
    (hbad : ¬ Telling s e) (hstep : step operation loads readsAsFloat s e = some s') :
    ¬ LocalUserOnly s' := by
  cases e with
  | receiveTokens data => exact absurd trivial hbad
  | refused => exact absurd trivial hbad
  | load data => exact absurd trivial hbad
  | request k op body => exact absurd trivial hbad
  | reply k reply =>
      obtain ⟨p, hp, rfl⟩ := Option.map_eq_some_iff.mp hstep
      intro honly
      apply hbad
      unfold Telling
      split
      · rename_i k' data heq
        obtain ⟨rfl, rfl⟩ := P2PEvent.reply.inj heq
        intro p' hp' hshared hvalid huser
        rw [hp, Option.some_inj] at hp'
        subst hp'
        rcases h.pending k p hp with ⟨hread, -⟩ | ⟨-, authToken, htoken⟩
        · exact absurd hread hshared
        · have hok : verify s.auth.userId (.answered 200 (some (.dict data))) p.verification =
              .ok data := by
            rw [htoken, verify, verifyToken_eq_ok_iff]
            exact ⟨rfl, hvalid, huser⟩
          refine (forLocalUser_iff htoken hok).mp (honly _ ?_ hshared)
          rcases receive_cases operation s k p (.answered 200 (some (.dict data))) with
            ⟨-, answer, herror⟩ | ⟨hnew, -⟩
          · rw [hok] at herror
            cases herror
          · rw [hnew]
            exact List.mem_cons_self
      · trivial

/-- The requests change the volume by what is executed and by nothing else. -/
theorem volume_eq_executed {auth : AuthState} {volume : V} {events : List P2PEvent}
    {s' : P2PService V}
    (hrun : Transitions.run (step operation loads readsAsFloat) { auth, volume } events = some s') :
    s'.volume = s'.executed.foldr (fun x v => (operation x.op x.body v).2) volume := by
  refine Transitions.run_preserves
    (P := fun s => s.volume = s.executed.foldr (fun x v => (operation x.op x.body v).2) volume)
    (fun s e s' h hstep => ?_) rfl hrun
  cases e with
  | receiveTokens data =>
      rw [step, Option.some_inj] at hstep
      exact hstep ▸ h
  | refused =>
      rw [step, Option.some_inj] at hstep
      exact hstep ▸ h
  | load data =>
      rw [step, Option.some_inj] at hstep
      exact hstep ▸ h
  | request k op body =>
      simp only [step] at hstep
      split_ifs at hstep
      cases hparse : parseAndVerify (handler op) body with
      | error answer =>
          simp only [hparse, Option.some_inj] at hstep
          exact hstep ▸ h
      | ok question =>
          simp only [hparse, Option.some_inj] at hstep
          exact hstep ▸ h
  | reply k reply =>
      obtain ⟨p, hp, rfl⟩ := Option.map_eq_some_iff.mp hstep
      cases hverify : verify s.auth.userId reply p.verification with
      | error answer => simpa only [receive, hverify] using h
      | ok data => simp only [receive, hverify, List.foldr_cons, h]

/-- **Only the local user is served** exactly in the runs in which every reply that passes for a token
of the local user is telling: it says `true`, and there is a local user. -/
theorem localUserOnly_iff_telling (auth : AuthState) (volume : V) (events : List P2PEvent)
    {s' : P2PService V}
    (hrun : Transitions.run (step operation loads readsAsFloat) { auth, volume } events = some s') :
    Transitions.StatesMeet (step operation loads readsAsFloat) LocalUserOnly { auth, volume }
        events ↔
      Transitions.StepsMeet (step operation loads readsAsFloat) Telling { auth, volume } events :=
  Transitions.statesMeet_iff_stepsMeet (fun _ => Served.executed)
    (fun _ _ _ h hok hstep => served_step operation loads readsAsFloat h hok hstep)
    (fun _ _ _ h hbad hstep => not_localUserOnly_step operation loads readsAsFloat h hbad hstep)
    ⟨fun k p hp => by simp at hp, fun x hx => by cases hx⟩ hrun

/-- A session whose token payload names `"alice"` serves her write. -/
def servedRun : List P2PEvent :=
  [.receiveTokens (some (.dict [("access_token".toList, .str "h.p.s".toList),
      ("refresh_token".toList, .str "r".toList)])),
    .request 0 .write (some (.dict [("auth_token".toList, .str "t".toList)])),
    .reply 0 (.answered 200 (some (.dict [("valid".toList, .bool true),
      ("user_id".toList, .str "alice".toList)])))]

theorem localUserOnly_iff_telling_served :
    Transitions.StatesMeet (step (fun _ _ n => (⟨200, .null⟩, n + 1))
        (fun _ => some (.dict [("sub".toList, .str "alice".toList)])) (fun _ => true))
        LocalUserOnly { volume := 0 } servedRun ↔
      Transitions.StepsMeet (step (fun _ _ n => (⟨200, .null⟩, n + 1))
        (fun _ => some (.dict [("sub".toList, .str "alice".toList)])) (fun _ => true))
        Telling { volume := 0 } servedRun :=
  localUserOnly_iff_telling _ _ _ {} 0 servedRun rfl

/-- While a deletion waits, the session of the device is refused; then nobody is the local user, and a
reply that names nobody lets the deletion pass. -/
def refusedRun : List P2PEvent :=
  [.request 0 .delete (some (.dict [("auth_token".toList, .str "t".toList)])), .refused,
    .reply 0 (.answered 200 (some (.dict [("valid".toList, .bool true)])))]

theorem cleared_session_serves_anybody :
    ¬ ∀ (operation : Operation → Body → Nat → Response × Nat) (loads : Text → Option Value)
        (readsAsFloat : Text → Bool) (auth : AuthState) (volume : Nat) (events : List P2PEvent),
      Transitions.StatesMeet (step operation loads readsAsFloat) LocalUserOnly { auth, volume }
        events := by
  intro h
  have honly := (h (fun _ _ n => (⟨200, .null⟩, n + 1)) (fun _ => none) (fun _ => true)
    { userId := .str "alice".toList } 0 refusedRun).last rfl
  obtain ⟨data, -, -, huser, heq⟩ :=
    honly _ List.mem_cons_self fun hshared => absurd hshared.1 (by decide)
  exact huser (Json.eq_null_iff.mp heq)

end P2PService

end StardustFS
