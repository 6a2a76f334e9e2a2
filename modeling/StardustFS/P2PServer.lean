import StardustFS.JsonValue
import StardustFS.PosixPath

/-! The HTTP handlers of the P2P server. Every handler parses the body, has the central server verify a
token, and then executes one operation; a read may bring a share token instead of an access token. -/

namespace StardustFS

/-- A JSON value of a request or an answer. -/
abbrev Value := Json Char

/-- The members of a JSON object. -/
abbrev Body := List (Text × Value)

/-- `body.get(key)`. -/
def Body.get (body : Body) (key : String) : Value := Json.get body key.toList

/-- What a handler answers. -/
structure Response where
  status : Nat
  result : Value

def errorResponse (status : Nat) (text : String) : Response :=
  ⟨status, .dict [("error".toList, .str text.toList)]⟩

/-- What aiohttp answers for a handler that raised. -/
def serverError : Response := ⟨500, .str "500: Internal Server Error".toList⟩

inductive Operation where
  | read
  | write
  | delete
  | list
  | exists
  | mkdir
  | rmdir
  | space
  deriving DecidableEq, Repr

namespace P2PServer

/-- The operation a handler executes, and whether it takes a share token. -/
structure Handler where
  op : Operation
  allowShareToken : Bool := false

def handleRead : Handler := { op := .read, allowShareToken := true }

def handleWrite : Handler := { op := .write }

def handleDelete : Handler := { op := .delete }

def handleList : Handler := { op := .list }

def handleExists : Handler := { op := .exists }

def handleMkdir : Handler := { op := .mkdir }

def handleRmdir : Handler := { op := .rmdir }

def handleSpace : Handler := { op := .space }

/-- The route of each operation. -/
def handler : Operation → Handler
  | .read => handleRead
  | .write => handleWrite
  | .delete => handleDelete
  | .list => handleList
  | .exists => handleExists
  | .mkdir => handleMkdir
  | .rmdir => handleRmdir
  | .space => handleSpace

/-- What a handler asks the central server. -/
inductive Verification where
  /-- `POST /auth/verify` -/
  | token (authToken : Value)
  /-- `POST /shares/{token}/verify` -/
  | share (shareToken physicalPath : Value)

/-- `body.get("physical_path", "")`. -/
def physicalPath (body : Body) : Value := (Json.lookup "physical_path".toList body).getD (.str [])

/-- `_parse_and_verify` up to its question. The body is `none` where it is no JSON; a body that is no
object makes the handler raise. -/
def parseAndVerify (h : Handler) (body : Option Value) : Except Response (Body × Verification) :=
  match body with
  | none => .error (errorResponse 400 "Invalid JSON body")
  | some body =>
      match body.members? with
      | none => .error serverError
      | some body =>
          let shareToken := Body.get body "share_token"
          if h.allowShareToken && shareToken.truthy then
            .ok (body, .share shareToken (physicalPath body))
          else
            let authToken := Body.get body "auth_token"
            if !authToken.truthy then .error (errorResponse 401 "Missing auth_token")
            else .ok (body, .token authToken)

/-- How a question to the central server ends. -/
inductive VerifyReply where
  /-- A timeout or a failed connection. -/
  | unreachable
  /-- Any other exception of the HTTP client. -/
  | failed
  /-- The status and the body, `none` where it is no JSON. -/
  | answered (status : Nat) (data : Option Value)

/-- `_verify_token`. A reply that is no object makes the handler raise. -/
def verifyToken (localUserId : Value) : VerifyReply → Except Response Body
  | .unreachable => .error (errorResponse 503 "Auth service unavailable")
  | .failed => .error serverError
  | .answered status data =>
      if status ≠ 200 then .error (errorResponse 401 "Invalid or expired token")
      else match data.bind Json.members? with
        | none => .error serverError
        | some data =>
            if !(Body.get data "valid").truthy then
              .error (errorResponse 401 "Invalid or expired token")
            else if !(Body.get data "user_id").eq localUserId then
              .error (errorResponse 403 "User ID mismatch")
            else .ok data

/-- `_verify_share_token`. -/
def verifyShareToken : VerifyReply → Except Response Body
  | .unreachable => .error (errorResponse 503 "Auth service unavailable")
  | .failed => .error serverError
  | .answered status data =>
      if status ≠ 200 then .error (errorResponse 401 "Invalid or expired share token")
      else match data.bind Json.members? with
        | none => .error serverError
        | some data =>
            if !(Body.get data "valid").truthy then
              if (Body.get data "device_id").truthy then
                .error (errorResponse 403 "Share token path mismatch")
              else .error (errorResponse 401 "Invalid or expired share token")
            else .ok data

/-- The second half of `_parse_and_verify`, at the reply. -/
def verify (localUserId : Value) (reply : VerifyReply) : Verification → Except Response Body
  | .token _ => verifyToken localUserId reply
  | .share _ _ => verifyShareToken reply

/-- `_validate_path_err`: what is answered for a path that is not taken. A path that is no string makes
the handler raise. -/
def validatePathErr (physicalPath : Value) (sourceRoot : Text) : Option Response :=
  if !physicalPath.truthy then some (errorResponse 400 "Missing physical_path")
  else match physicalPath.str? with
    | none => some serverError
    | some path =>
        if Text.dotdot ∈ (Text.turnBackslashes path).splitOn '/' then
          some (errorResponse 400 "Path traversal detected")
        else
          let root := Text.normpath sourceRoot
          let resolved := Text.normpath (Text.joinPath root path)
          if resolved = root ∨ (root ++ ['/']).isPrefixOf resolved then none
          else some (errorResponse 400 "Path traversal detected")

/-! ### What the checks let through -/

/-- A token passes with a reply of status 200 whose `valid` counts as true and whose user is the local
one, by Python's equality. -/
theorem verifyToken_eq_ok_iff {localUserId : Value} {reply : VerifyReply} {data : Body} :
    verifyToken localUserId reply = .ok data ↔
      reply = .answered 200 (some (.dict data)) ∧
        (Body.get data "valid").truthy = true ∧
        (Body.get data "user_id").eq localUserId = true := by
  cases reply with
  | unreachable => simp [verifyToken]
  | failed => simp [verifyToken]
  | answered status answer =>
      simp only [verifyToken]
      split_ifs with hstatus
      · simp only [VerifyReply.answered.injEq, hstatus, false_and]
      · rw [ne_eq, Decidable.not_not] at hstatus
        rw [VerifyReply.answered.injEq, hstatus]
        cases hdata : answer.bind Json.members? with
        | none =>
            simp only [reduceCtorEq, true_and, false_iff]
            rintro ⟨rfl, -⟩
            cases hdata
        | some members =>
            have hanswer : answer = some (.dict members) := by
              cases answer with
              | none => cases hdata
              | some v =>
                  cases v with
                  | dict ms => simpa [Json.members?] using hdata
                  | _ => cases hdata
            rw [hanswer]
            dsimp only
            split_ifs with hvalid huser
            · simp only [true_and, Option.some_inj, Json.dict.injEq, false_iff]
              rintro ⟨rfl, htruthy, -⟩
              rw [htruthy] at hvalid
              cases hvalid
            · simp only [true_and, Option.some_inj, Json.dict.injEq, false_iff]
              rintro ⟨rfl, -, heq⟩
              rw [heq] at huser
              cases huser
            · rw [Bool.not_eq_true, Bool.not_eq_false'] at hvalid huser
              simp only [Except.ok.injEq, true_and, Option.some_inj, Json.dict.injEq]
              constructor
              · rintro rfl
                exact ⟨rfl, hvalid, huser⟩
              · rintro ⟨rfl, -⟩
                rfl

theorem plain_of_validatePathErr {v : Value} {root : Text} (h : validatePathErr v root = none) :
    ∃ p : Text, v = .str p ∧ p ≠ [] ∧ Text.Plain p ∧
      (Text.normpath (Text.joinPath (Text.normpath root) p) = Text.normpath root ∨
        Text.normpath root ++ ['/'] <+: Text.normpath (Text.joinPath (Text.normpath root) p)) := by
  unfold validatePathErr at h
  split_ifs at h with hempty
  cases v with
  | str p =>
      simp only [Json.str?] at h
      split_ifs at h with hdots hinside
      refine ⟨p, rfl, ?_, Text.Plain.of_turnBackslashes hdots, ?_⟩
      · rintro rfl
        exact hempty rfl
      · rwa [List.isPrefixOf_iff_prefix] at hinside
  | _ => cases h

/-- A relative path without `".."` is taken below every root that is not the root of the file
system. -/
theorem validatePathErr_eq_none {root p : Text} (hroot : root.head? = some '/')
    (hne : Text.location root ≠ []) (hnil : p ≠ []) (hrel : p.head? ≠ some '/')
    (hplain : Text.Plain (Text.turnBackslashes p)) : validatePathErr (.str p) root = none := by
  obtain ⟨hnorm, hjoin⟩ := Text.normpath_joinPath hroot hne hrel hplain.of_turnBackslashes
  have hproper : ∀ name ∈ Text.location root ++ Text.steps p, Text.ProperName name := by
    intro name hname
    rcases List.mem_append.mp hname with h | h
    · exact Text.proper_of_mem_location h
    · exact Text.proper_of_mem_steps hplain.of_turnBackslashes h
  have hinside : Text.normpath (Text.joinPath (Text.normpath root) p) = Text.normpath root ∨
      (Text.normpath root ++ ['/']).isPrefixOf
        (Text.normpath (Text.joinPath (Text.normpath root) p)) = true := by
    rw [hjoin, hnorm]
    by_cases hsteps : Text.steps p = []
    · exact Or.inl (by rw [hsteps, List.append_nil])
    · right
      rw [List.isPrefixOf_iff_prefix, Text.spell_append hne hsteps hproper]
      exact ⟨['/'].intercalate (Text.steps p), by simp⟩
  have htruthy : (Json.str p : Value).truthy = true := by simpa [Json.truthy] using hnil
  unfold validatePathErr
  rw [htruthy]
  simp only [Bool.not_true, Bool.false_eq_true, if_false, Json.str?, if_neg hplain, if_pos hinside]

end P2PServer

end StardustFS
