import Mathlib.Logic.Function.Basic
import StardustFS.KeyedTable
import StardustFS.MetadataStore
import StardustFS.Transitions

/-! The refresh of tokens by several clients over one credential store. The server exchanges a refresh
token once. `get_valid_token` refreshes inside a lock file, after it has read the store again; the retry
of a P2P request refreshes without either, with the token the client has in memory. -/

namespace StardustFS

/-- The refresh tokens in the order the server issues them. -/
abbrev RefreshToken := Nat

abbrev ClientId := Nat

/-- A call that may refresh, in any of the clients. -/
abbrev TaskId := Nat

/-- What a client has in memory, and what the store keeps of it. -/
structure AuthTokens where
  accessToken : Option Nat := none
  refreshTokenValue : Option RefreshToken := none
  tokenExpiresAt : Time := 0
  deriving DecidableEq, Repr

/-- Where a refresh is. -/
inductive RefreshStage where
  /-- It spins on the lock file. -/
  | waiting
  /-- It has made the lock file. -/
  | acquired
  /-- It has read the store again and found the access token about to expire. -/
  | reloaded
  | sent (token : RefreshToken)
  /-- The server has answered, with new tokens or with a 401. -/
  | answered (reply : Option AuthTokens)
  /-- The tokens are in memory and in the temporary file. -/
  | saving
  | ended
  deriving DecidableEq, Repr

/-- The refresh has begun to rely on what it read, and its outcome is not in the store yet. -/
def RefreshStage.busy : RefreshStage → Bool
  | .waiting | .acquired | .ended => false
  | .reloaded | .sent _ | .answered _ | .saving => true

/-- A refresh, inside the lock or not. -/
structure RefreshTask where
  client : ClientId
  inside : Bool
  stage : RefreshStage
  deriving DecidableEq, Repr

/-- The clients of one store with their refreshes, and the server: the last refresh token it has issued
and the one it accepts. -/
structure AuthClients where
  memory : ClientId → AuthTokens
  store : Option AuthTokens
  tmp : Option AuthTokens := none
  lockFile : Bool := false
  tasks : Table TaskId RefreshTask := Table.empty
  issued : RefreshToken
  current : Option RefreshToken

/-- A step of one refresh, or of the server for it. `now` is what the client's clock shows. -/
inductive RefreshStep where
  | giveUp
  | acquire
  | reload (now : Time)
  | send
  | answer (expiresAt : Time)
  | receive
  | replace
  | leave
  deriving DecidableEq, Repr

inductive AuthEvent where
  /-- A client starts and reads the store. -/
  | load (c : ClientId)
  /-- `get_valid_token` finds the access token about to expire. -/
  | enter (k : TaskId) (c : ClientId) (now : Time)
  /-- A P2P request is answered with a 401. -/
  | retry (k : TaskId) (c : ClientId)
  | task (k : TaskId) (a : RefreshStep)
  deriving DecidableEq, Repr

namespace AuthClients

/-- `load_from_store` and `_reload_tokens_from_store`. Where there is no store, the memory stays. -/
def loadFromStore (r : AuthClients) (c : ClientId) : AuthClients :=
  match r.store with
  | none => r
  | some tokens => { r with memory := Function.update r.memory c tokens }

/-- `get_valid_token` refreshes from one minute before the access token expires. -/
def expiring (tokens : AuthTokens) (now : Time) : Bool := tokens.tokenExpiresAt - 60 ≤ now

def putTask (r : AuthClients) (k : TaskId) (x : RefreshTask) : AuthClients :=
  { r with tasks := r.tasks.put k x }

def dropTask (r : AuthClients) (k : TaskId) : AuthClients :=
  { r with tasks := r.tasks.deleteWhere fun k' _ => k' = k }

/-- The answer of the server: the token it accepts is exchanged, any other is refused. -/
def exchange (r : AuthClients) (token : RefreshToken) (expiresAt : Time) :
    Option AuthTokens × AuthClients :=
  if r.current = some token then
    let new := r.issued + 1
    (some ⟨some new, some new, expiresAt⟩, { r with issued := new, current := some new })
  else (none, r)

def stepTask (r : AuthClients) (k : TaskId) (x : RefreshTask) : RefreshStep → Option AuthClients
  | .giveUp => if x.stage = .waiting then some (r.dropTask k) else none
  | .acquire =>
      if x.stage = .waiting ∧ r.lockFile = false then
        some ({ r with lockFile := true }.putTask k { x with inside := true, stage := .acquired })
      else none
  | .reload now =>
      if x.stage = .acquired then
        let r := r.loadFromStore x.client
        let tokens := r.memory x.client
        some (r.putTask k { x with
          stage := if tokens.accessToken.isSome && !expiring tokens now then .ended else .reloaded })
      else none
  | .send =>
      if x.stage = .reloaded then
        match (r.memory x.client).refreshTokenValue with
        | none => some (r.putTask k { x with stage := .ended })
        | some token => some (r.putTask k { x with stage := .sent token })
      else none
  | .answer expiresAt =>
      match x.stage with
      | .sent token =>
          let (reply, r) := r.exchange token expiresAt
          some (r.putTask k { x with stage := .answered reply })
      | _ => none
  | .receive =>
      match x.stage with
      | .answered reply =>
          let tokens := reply.getD {}
          some ({ r with
            memory := Function.update r.memory x.client tokens
            tmp := some tokens }.putTask k { x with stage := .saving })
      | _ => none
  | .replace =>
      if x.stage = .saving then
        match r.tmp with
        | none => some (r.putTask k { x with stage := .ended })
        | some tokens =>
            some ({ r with store := some tokens, tmp := none }.putTask k { x with stage := .ended })
      else none
  | .leave =>
      if x.stage = .ended then some { r.dropTask k with lockFile := r.lockFile && !x.inside } else none

def step (r : AuthClients) : AuthEvent → Option AuthClients
  | .load c => some (r.loadFromStore c)
  | .enter k c now =>
      if r.tasks.get k = none ∧ (r.memory c).accessToken.isSome ∧ expiring (r.memory c) now then
        some (r.putTask k ⟨c, false, .waiting⟩)
      else none
  | .retry k c =>
      if r.tasks.get k = none then
        (r.memory c).refreshTokenValue.map fun token => r.putTask k ⟨c, false, .sent token⟩
      else none
  | .task k a => (r.tasks.get k).bind fun x => r.stepTask k x a

/-- What a step of a refresh does, by the stage it is in. -/
inductive Moves (r : AuthClients) (k : TaskId) (x : RefreshTask) : RefreshStep → AuthClients → Prop
  | giveUp (h : x.stage = .waiting) : Moves r k x .giveUp (r.dropTask k)
  | acquire (h : x.stage = .waiting) (hfree : r.lockFile = false) :
      Moves r k x .acquire ({ r with lockFile := true }.putTask k { x with inside := true, stage := .acquired })
  | reload {now : Time} {stage : RefreshStage} (h : x.stage = .acquired)
      (hstage : stage = .ended ∨ stage = .reloaded) :
      Moves r k x (.reload now) ((r.loadFromStore x.client).putTask k { x with stage })
  | raise (h : x.stage = .reloaded) (hnone : (r.memory x.client).refreshTokenValue = none) :
      Moves r k x .send (r.putTask k { x with stage := .ended })
  | send {token : RefreshToken} (h : x.stage = .reloaded)
      (htoken : (r.memory x.client).refreshTokenValue = some token) :
      Moves r k x .send (r.putTask k { x with stage := .sent token })
  | answer {token : RefreshToken} {expiresAt : Time} (h : x.stage = .sent token) :
      Moves r k x (.answer expiresAt) ((r.exchange token expiresAt).2.putTask k
        { x with stage := .answered (r.exchange token expiresAt).1 })
  | receive {reply : Option AuthTokens} (h : x.stage = .answered reply) :
      Moves r k x .receive ({ r with
        memory := Function.update r.memory x.client (reply.getD {})
        tmp := some (reply.getD {}) }.putTask k { x with stage := .saving })
  | lostFile (h : x.stage = .saving) (hnone : r.tmp = none) :
      Moves r k x .replace (r.putTask k { x with stage := .ended })
  | replace {tokens : AuthTokens} (h : x.stage = .saving) (htmp : r.tmp = some tokens) :
      Moves r k x .replace
        ({ r with store := some tokens, tmp := none }.putTask k { x with stage := .ended })
  | leave (h : x.stage = .ended) :
      Moves r k x .leave { r.dropTask k with lockFile := r.lockFile && !x.inside }

theorem moves_of_stepTask {r r' : AuthClients} {k : TaskId} {x : RefreshTask} {a : RefreshStep}
    (h : r.stepTask k x a = some r') : Moves r k x a r' := by
  cases a with
  | giveUp =>
      simp only [stepTask, Option.ite_none_right_eq_some, Option.some_inj] at h
      obtain ⟨hstage, rfl⟩ := h
      exact .giveUp hstage
  | acquire =>
      simp only [stepTask, Option.ite_none_right_eq_some, Option.some_inj] at h
      obtain ⟨⟨hstage, hfree⟩, rfl⟩ := h
      exact .acquire hstage hfree
  | reload now =>
      simp only [stepTask, Option.ite_none_right_eq_some, Option.some_inj] at h
      obtain ⟨hstage, rfl⟩ := h
      refine .reload hstage ?_
      split_ifs
      · exact Or.inl rfl
      · exact Or.inr rfl
  | send =>
      simp only [stepTask, Option.ite_none_right_eq_some] at h
      obtain ⟨hstage, h⟩ := h
      cases htoken : (r.memory x.client).refreshTokenValue with
      | none =>
          rw [htoken, Option.some_inj] at h
          rw [← h]
          exact .raise hstage htoken
      | some token =>
          rw [htoken, Option.some_inj] at h
          rw [← h]
          exact .send hstage htoken
  | answer expiresAt =>
      simp only [stepTask] at h
      split at h
      · rename_i token hstage
        rw [Option.some_inj] at h
        rw [← h]
        exact .answer hstage
      · cases h
  | receive =>
      simp only [stepTask] at h
      split at h
      · rename_i reply hstage
        rw [Option.some_inj] at h
        rw [← h]
        exact .receive hstage
      · cases h
  | replace =>
      simp only [stepTask, Option.ite_none_right_eq_some] at h
      obtain ⟨hstage, h⟩ := h
      cases htmp : r.tmp with
      | none =>
          rw [htmp, Option.some_inj] at h
          rw [← h]
          exact .lostFile hstage htmp
      | some tokens =>
          rw [htmp, Option.some_inj] at h
          rw [← h]
          exact .replace hstage htmp
  | leave =>
      simp only [stepTask, Option.ite_none_right_eq_some, Option.some_inj] at h
      obtain ⟨hstage, rfl⟩ := h
      exact .leave hstage

/-! ### The lock -/

/-- **At most one refresh is inside the lock**, and its file is there. -/
structure LockHeld (r : AuthClients) : Prop where
  unique : ∀ k k' x x', r.tasks.get k = some x → r.tasks.get k' = some x' → x.inside = true →
    x'.inside = true → k = k'
  file : ∀ k x, r.tasks.get k = some x → x.inside = true → r.lockFile = true
  acquired : ∀ k x, r.tasks.get k = some x → x.stage = .acquired → x.inside = true

theorem lockHeld_of_no_tasks {r : AuthClients} (h : r.tasks = Table.empty) : r.LockHeld := by
  have hnone : ∀ k x, r.tasks.get k ≠ some x := by
    intro k x
    rw [h, Table.get_empty]
    exact (Option.some_ne_none x).symm
  exact ⟨fun k _ x _ hx => absurd hx (hnone k x), fun k x hx => absurd hx (hnone k x),
    fun k x hx => absurd hx (hnone k x)⟩

theorem get_dropTask (r : AuthClients) (k k' : TaskId) :
    (r.dropTask k).tasks.get k' = if k' = k then none else r.tasks.get k' := by
  unfold dropTask
  dsimp only
  rw [Table.get_deleteWhere]
  split_ifs with h
  · simp [h]
  · cases r.tasks.get k' <;> simp [h]

theorem get_putTask (r : AuthClients) (k k' : TaskId) (x : RefreshTask) :
    (r.putTask k x).tasks.get k' = if k' = k then some x else r.tasks.get k' :=
  Table.get_put _ _ _ _

@[simp] theorem tasks_loadFromStore (r : AuthClients) (c : ClientId) :
    (r.loadFromStore c).tasks = r.tasks := by
  unfold loadFromStore
  cases r.store <;> rfl

@[simp] theorem lockFile_loadFromStore (r : AuthClients) (c : ClientId) :
    (r.loadFromStore c).lockFile = r.lockFile := by
  unfold loadFromStore
  cases r.store <;> rfl

@[simp] theorem tasks_exchange (r : AuthClients) (token : RefreshToken) (expiresAt : Time) :
    (r.exchange token expiresAt).2.tasks = r.tasks := by
  unfold exchange
  split_ifs <;> rfl

@[simp] theorem lockFile_exchange (r : AuthClients) (token : RefreshToken) (expiresAt : Time) :
    (r.exchange token expiresAt).2.lockFile = r.lockFile := by
  unfold exchange
  split_ifs <;> rfl

/-- The lock stays held where every refresh was there before, inside the lock as it is now, and the file
is kept for those inside. -/
theorem LockHeld.of_subset {r r' : AuthClients} (h : r.LockHeld)
    (hsub : ∀ k x, r'.tasks.get k = some x →
      (x.inside = true → r'.lockFile = true ∧ ∃ y, r.tasks.get k = some y ∧ y.inside = true) ∧
        (x.stage = .acquired → x.inside = true)) : r'.LockHeld := by
  refine ⟨fun k k' x x' hx hx' hin hin' => ?_, fun k x hx hin => ((hsub k x hx).1 hin).1,
    fun k x hx => (hsub k x hx).2⟩
  obtain ⟨-, y, hy, hyin⟩ := (hsub k x hx).1 hin
  obtain ⟨-, y', hy', hyin'⟩ := (hsub k' x' hx').1 hin'
  exact h.unique k k' y y' hy hy' hyin hyin'

/-- A refresh that has no lock goes on, or begins. -/
theorem LockHeld.put_outside {r : AuthClients} (h : r.LockHeld) (k : TaskId) {x : RefreshTask}
    (hout : x.inside = false) (hstage : x.stage ≠ .acquired) : (r.putTask k x).LockHeld := by
  refine h.of_subset fun k' y hy => ?_
  rw [get_putTask] at hy
  split_ifs at hy
  · cases hy
    refine ⟨fun hin => ?_, fun hst => absurd hst hstage⟩
    rw [hout] at hin
    cases hin
  · exact ⟨fun hin => ⟨h.file k' y hy hin, y, hy, hin⟩, h.acquired k' y hy⟩

/-- A refresh past the acquisition goes on. -/
theorem LockHeld.put_stage {r r' : AuthClients} (h : r.LockHeld) {k : TaskId} {x : RefreshTask}
    {stage : RefreshStage} (hx : r.tasks.get k = some x) (hlock : r'.lockFile = r.lockFile)
    (htasks : r'.tasks = r.tasks) (hstage : stage ≠ .acquired) :
    (r'.putTask k { x with stage }).LockHeld := by
  refine h.of_subset fun k' y hy => ?_
  have hfile : (r'.putTask k { x with stage }).lockFile = r.lockFile := hlock
  rw [get_putTask, htasks] at hy
  rw [hfile]
  split_ifs at hy with hk
  · cases hy
    exact ⟨fun hin => ⟨h.file k x hx hin, x, hk ▸ hx, hin⟩, fun hst => absurd hst hstage⟩
  · exact ⟨fun hin => ⟨h.file k' y hy hin, y, hy, hin⟩, h.acquired k' y hy⟩

theorem lockHeld_step {r r' : AuthClients} {e : AuthEvent} (h : r.LockHeld)
    (hstep : r.step e = some r') : r'.LockHeld := by
  cases e with
  | load c =>
      cases Option.some_inj.mp hstep
      refine h.of_subset fun k x hx => ?_
      rw [tasks_loadFromStore] at hx
      rw [lockFile_loadFromStore]
      exact ⟨fun hin => ⟨h.file k x hx hin, x, hx, hin⟩, h.acquired k x hx⟩
  | enter k c now =>
      simp only [step, Option.ite_none_right_eq_some, Option.some_inj] at hstep
      obtain ⟨-, rfl⟩ := hstep
      exact h.put_outside k rfl (by simp)
  | retry k c =>
      simp only [step, Option.ite_none_right_eq_some, Option.map_eq_some_iff] at hstep
      obtain ⟨-, token, -, rfl⟩ := hstep
      exact h.put_outside k rfl (by simp)
  | task k a =>
      obtain ⟨x, hx, hmove⟩ := Option.bind_eq_some_iff.mp hstep
      cases moves_of_stepTask hmove with
      | giveUp hstage =>
          refine h.of_subset fun k' y hy => ?_
          rw [get_dropTask] at hy
          split_ifs at hy
          exact ⟨fun hin => ⟨h.file k' y hy hin, y, hy, hin⟩, h.acquired k' y hy⟩
      | acquire hstage hfree =>
          have hnobody : ∀ k' y, r.tasks.get k' = some y → y.inside = false := by
            intro k' y hy
            cases hin : y.inside with
            | false => rfl
            | true =>
                rw [h.file k' y hy hin] at hfree
                cases hfree
          have honly : ∀ k' y, (putTask { r with lockFile := true } k
              { x with inside := true, stage := .acquired }).tasks.get k' = some y →
              y.inside = true → k' = k := by
            intro k' y hy hin
            rw [get_putTask] at hy
            split_ifs at hy with hk
            · exact hk
            · rw [hnobody k' y hy] at hin
              cases hin
          refine ⟨fun k₁ k₂ y₁ y₂ hy₁ hy₂ hin₁ hin₂ =>
            (honly k₁ y₁ hy₁ hin₁).trans (honly k₂ y₂ hy₂ hin₂).symm, fun _ _ _ _ => rfl,
            fun k' y hy hst => ?_⟩
          rw [get_putTask] at hy
          split_ifs at hy
          · cases hy
            rfl
          · exact h.acquired k' y hy hst
      | reload hstage hnext =>
          refine h.put_stage hx (lockFile_loadFromStore _ _) (tasks_loadFromStore _ _) ?_
          rcases hnext with rfl | rfl <;> simp
      | raise hstage _ => exact h.put_stage hx rfl rfl (by simp)
      | send hstage _ => exact h.put_stage hx rfl rfl (by simp)
      | answer hstage =>
          exact h.put_stage hx (lockFile_exchange _ _ _) (tasks_exchange _ _ _) (by simp)
      | receive hstage => exact h.put_stage hx rfl rfl (by simp)
      | lostFile hstage _ => exact h.put_stage hx rfl rfl (by simp)
      | replace hstage _ => exact h.put_stage hx rfl rfl (by simp)
      | leave hstage =>
          refine h.of_subset fun k' y hy => ?_
          have hy' : (if k' = k then none else r.tasks.get k') = some y :=
            (get_dropTask r k k').symm.trans hy
          split_ifs at hy' with hk
          refine ⟨fun hin => ⟨?_, y, hy', hin⟩, h.acquired k' y hy'⟩
          have hopen : x.inside = false := by
            cases hinside : x.inside with
            | false => rfl
            | true => exact absurd (h.unique k' k y x hy' hx hin hinside) hk
          rw [hopen, Bool.not_false, Bool.and_true]
          exact h.file k' y hy' hin

/-- Clients that have all read the store; their access token is good until the clock shows 100. -/
def startedClients : AuthClients where
  memory := fun _ => ⟨some 0, some 0, 100⟩
  store := some ⟨some 0, some 0, 100⟩
  issued := 0
  current := some 0

/-- A refresh inside the lock, up to its exchange. -/
def lockedUntilSent (k : TaskId) (c : ClientId) (now : Time) : List AuthEvent :=
  [.enter k c now, .task k .acquire, .task k (.reload now), .task k .send]

/-- The rest of a refresh that has got its answer. -/
def afterAnswer (k : TaskId) : List AuthEvent := [.task k .receive, .task k .replace, .task k .leave]

end AuthClients

end StardustFS
