import StardustFS.TokenRefresh

/-! A logout beside the refreshes of other processes. It does not take the lock and leaves no mark: it
removes the store, the temporary file and the lock file one after the other, and a refresh that is under
way, or that begins with tokens in memory, writes the store again. -/

namespace StardustFS

/-- Where `cmd_logout` is. -/
inductive LogoutPhase where
  | idle
  /-- It has loaded the store; `token` is still to be revoked. -/
  | loaded (token : Option RefreshToken)
  | clearingTmp
  | clearingLock
  | returned
  deriving DecidableEq, Repr

/-- The clients of a store and a logout of it. `gone` tells that a logout has found no store or removed
it, and that nobody has logged in since; `awaited` are the refreshes that were under way when the logout
returned and have not ended. -/
structure LogoutRun where
  clients : AuthClients
  logout : LogoutPhase := .idle
  gone : Bool := false
  awaited : List TaskId := []

inductive LogoutEvent where
  | client (e : AuthEvent)
  /-- The exchange of a refresh fails: the network, or a server error. -/
  | lose (k : TaskId)
  | login (c : ClientId) (expiresAt : Time)
  | start
  | revoke (reached : Bool)
  | clearStore
  | clearTmp
  | clearLock
  deriving DecidableEq, Repr

namespace LogoutRun

open AuthClients (startedClients lockedUntilSent afterAnswer)

/-- The clients have gone on; a refresh that is no longer there has ended. -/
def withClients (r : LogoutRun) (clients : AuthClients) : LogoutRun :=
  { r with clients, awaited := r.awaited.filter fun k => (clients.tasks.get k).isSome }

/-- The logout returns while some refreshes are under way. -/
def finished (r : LogoutRun) : LogoutRun :=
  { r with logout := .returned, awaited := r.clients.tasks.keys }

/-- `cmd_logout` looks for the store and loads it. -/
def started (r : LogoutRun) : LogoutRun :=
  match r.clients.store with
  | none => { r with gone := true }.finished
  | some tokens => { r with logout := .loaded tokens.refreshTokenValue }

/-- `login` stores new tokens in memory and writes the store. -/
def loggedIn (r : LogoutRun) (c : ClientId) (expiresAt : Time) : LogoutRun :=
  let new := r.clients.issued + 1
  let tokens : AuthTokens := ⟨some new, some new, expiresAt⟩
  { r with
    gone := false
    clients := { r.clients with
      issued := new
      current := some new
      memory := Function.update r.clients.memory c tokens
      store := some tokens
      tmp := none } }

def step (r : LogoutRun) : LogoutEvent → Option LogoutRun
  | .client e => (r.clients.step e).map r.withClients
  | .lose k =>
      (r.clients.tasks.get k).bind fun x =>
        match x.stage with
        | .sent _ | .answered _ =>
            some (r.withClients (r.clients.putTask k { x with stage := .ended }))
        | _ => none
  | .login c expiresAt => some (r.loggedIn c expiresAt)
  | .start =>
      match r.logout with
      | .idle | .returned => some r.started
      | _ => none
  | .revoke reached =>
      match r.logout with
      | .loaded (some token) =>
          let revoked := reached && r.clients.current = some token
          some { r with
            logout := .loaded none
            clients := { r.clients with
              current := if revoked then none else r.clients.current } }
      | _ => none
  | .clearStore =>
      match r.logout with
      | .loaded _ =>
          some { r with
            logout := .clearingTmp, gone := true, clients := { r.clients with store := none } }
      | _ => none
  | .clearTmp =>
      match r.logout with
      | .clearingTmp =>
          some { r with logout := .clearingLock, clients := { r.clients with tmp := none } }
      | _ => none
  | .clearLock =>
      match r.logout with
      | .clearingLock => some { r with clients := { r.clients with lockFile := false } }.finished
      | _ => none

/-- **Logout is final**: the store stays away once the refreshes that were under way have ended, and two
refreshes are never inside the lock. -/
structure Final (r : LogoutRun) : Prop where
  removed : r.logout = .returned → r.gone = true → r.awaited = [] → r.clients.store = none
  exclusive : ∀ k k' x x', r.clients.tasks.get k = some x → r.clients.tasks.get k' = some x' →
    x.inside = true → x'.inside = true → k = k'

/-- With the store gone, no refresh gets an answer once the temporary file has been removed too, none
puts its temporary file in place before that, and nobody is inside the lock when its file is removed. -/
def Settled (r : LogoutRun) : LogoutEvent → Prop
  | .client (.task _ .receive) => r.gone = true → r.logout = .clearingTmp
  | .client (.task _ .replace) => r.gone = true → r.logout ≠ .clearingTmp
  | .start => r.clients.store = none → r.clients.tmp = none
  | .clearLock => ∀ x ∈ r.clients.tasks.rows, x.2.inside = false
  | _ => True

instance (r : LogoutRun) : DecidablePred r.Settled
  | .client (.task _ .receive) => inferInstanceAs (Decidable (_ → _))
  | .client (.task _ .replace) => inferInstanceAs (Decidable (_ → _))
  | .start => inferInstanceAs (Decidable (_ → _))
  | .clearLock => inferInstanceAs (Decidable (∀ x ∈ r.clients.tasks.rows, _))
  | .client (.load _) => inferInstanceAs (Decidable True)
  | .client (.enter _ _ _) => inferInstanceAs (Decidable True)
  | .client (.retry _ _) => inferInstanceAs (Decidable True)
  | .client (.task _ .giveUp) => inferInstanceAs (Decidable True)
  | .client (.task _ .acquire) => inferInstanceAs (Decidable True)
  | .client (.task _ (.reload _)) => inferInstanceAs (Decidable True)
  | .client (.task _ .send) => inferInstanceAs (Decidable True)
  | .client (.task _ (.answer _)) => inferInstanceAs (Decidable True)
  | .client (.task _ .leave) => inferInstanceAs (Decidable True)
  | .lose _ => inferInstanceAs (Decidable True)
  | .login _ _ => inferInstanceAs (Decidable True)
  | .revoke _ => inferInstanceAs (Decidable True)
  | .clearStore => inferInstanceAs (Decidable True)
  | .clearTmp => inferInstanceAs (Decidable True)

/-! ### The invariant -/

/-- The store stays away, with no temporary file that could take its place but the one the logout is
about to remove. -/
def Away (r : LogoutRun) : Prop :=
  r.clients.store = none ∧ (r.logout ≠ .clearingTmp → r.clients.tmp = none)

structure Calm (r : LogoutRun) : Prop where
  lock : r.clients.LockHeld
  away : r.gone = true → r.Away

theorem Calm.final {r : LogoutRun} (h : r.Calm) : r.Final :=
  ⟨fun _ hgone _ => (h.away hgone).1, h.lock.unique⟩

/-- With the store gone, a step of a client does not bring it back. -/
theorem away_client {r : LogoutRun} {clients : AuthClients} {e : AuthEvent} (hgone : r.gone = true)
    (h : r.Away) (hsettled : r.Settled (.client e)) (hstep : r.clients.step e = some clients) :
    (r.withClients clients).Away := by
  have hload : ∀ c, r.clients.loadFromStore c = r.clients := by
    intro c
    rw [AuthClients.loadFromStore, h.1]
  cases e with
  | load c =>
      cases Option.some_inj.mp hstep
      rw [hload]
      exact h
  | enter k c now =>
      simp only [AuthClients.step, Option.ite_none_right_eq_some, Option.some_inj] at hstep
      obtain ⟨-, rfl⟩ := hstep
      exact h
  | retry k c =>
      simp only [AuthClients.step, Option.ite_none_right_eq_some, Option.map_eq_some_iff] at hstep
      obtain ⟨-, token, -, rfl⟩ := hstep
      exact h
  | task k a =>
      obtain ⟨x, -, hmove⟩ := Option.bind_eq_some_iff.mp hstep
      cases AuthClients.moves_of_stepTask hmove with
      | giveUp _ => exact h
      | acquire _ _ => exact h
      | reload _ _ =>
          rw [hload]
          exact h
      | raise _ _ => exact h
      | send _ _ => exact h
      | @answer token expiresAt _ =>
          unfold AuthClients.exchange
          split_ifs
          · exact h
          · exact h
      | receive _ => exact ⟨h.1, fun hphase => absurd (hsettled hgone) hphase⟩
      | lostFile _ _ => exact h
      | replace _ htmp =>
          rw [h.2 (hsettled hgone)] at htmp
          cases htmp
      | leave _ => exact h

theorem calm_started {r : LogoutRun} (h : r.Calm) (hsettled : r.Settled .start) :
    r.started.Calm := by
  unfold started
  cases hstore : r.clients.store with
  | none => exact ⟨h.lock, fun _ => ⟨hstore, fun _ => hsettled hstore⟩⟩
  | some tokens =>
      refine ⟨h.lock, fun (hgone : r.gone = true) => ?_⟩
      have haway := (h.away hgone).1
      rw [hstore] at haway
      cases haway

/-- **A settled step keeps the store away and the lock exclusive.** -/
theorem calm_step {r r' : LogoutRun} {e : LogoutEvent} (h : r.Calm) (hsettled : r.Settled e)
    (hstep : r.step e = some r') : r'.Calm := by
  have hlock : ∀ {clients : AuthClients}, clients.tasks = r.clients.tasks →
      clients.lockFile = r.clients.lockFile → clients.LockHeld := by
    intro clients htasks hfile
    refine h.lock.of_subset fun k x hx => ?_
    rw [htasks] at hx
    rw [hfile]
    exact ⟨fun hin => ⟨h.lock.file k x hx hin, x, hx, hin⟩, h.lock.acquired k x hx⟩
  cases e with
  | client e =>
      obtain ⟨clients, hclients, rfl⟩ := Option.map_eq_some_iff.mp hstep
      exact ⟨AuthClients.lockHeld_step h.lock hclients, fun (hgone : r.gone = true) =>
        away_client hgone (h.away hgone) hsettled hclients⟩
  | lose k =>
      obtain ⟨x, hx, hlose⟩ := Option.bind_eq_some_iff.mp hstep
      have hended : Calm (r.withClients (r.clients.putTask k { x with stage := .ended })) :=
        ⟨h.lock.put_stage hx rfl rfl (by simp), h.away⟩
      split at hlose
      · cases Option.some_inj.mp hlose
        exact hended
      · cases Option.some_inj.mp hlose
        exact hended
      · cases hlose
  | login c expiresAt =>
      cases Option.some_inj.mp hstep
      refine ⟨hlock rfl rfl, fun hgone => ?_⟩
      cases hgone
  | start =>
      simp only [step] at hstep
      split at hstep
      · cases Option.some_inj.mp hstep
        exact calm_started h hsettled
      · cases Option.some_inj.mp hstep
        exact calm_started h hsettled
      · cases hstep
  | revoke reached =>
      simp only [step] at hstep
      split at hstep
      · rename_i token hphase
        cases Option.some_inj.mp hstep
        refine ⟨hlock rfl rfl, fun (hgone : r.gone = true) => ⟨(h.away hgone).1, fun _ => ?_⟩⟩
        exact (h.away hgone).2 (by simp [hphase])
      · cases hstep
  | clearStore =>
      simp only [step] at hstep
      split at hstep
      · cases Option.some_inj.mp hstep
        exact ⟨hlock rfl rfl, fun _ => ⟨rfl, fun hphase => absurd rfl hphase⟩⟩
      · cases hstep
  | clearTmp =>
      simp only [step] at hstep
      split at hstep
      · cases Option.some_inj.mp hstep
        exact ⟨hlock rfl rfl, fun (hgone : r.gone = true) => ⟨(h.away hgone).1, fun _ => rfl⟩⟩
      · cases hstep
  | clearLock =>
      simp only [step] at hstep
      split at hstep
      · rename_i hphase
        cases Option.some_inj.mp hstep
        refine ⟨h.lock.of_subset fun k x hx => ⟨fun hin => ?_, h.lock.acquired k x hx⟩,
          fun (hgone : r.gone = true) => ⟨(h.away hgone).1, fun _ => ?_⟩⟩
        · rw [hsettled (k, x) (Table.mem_rows_of_get hx)] at hin
          cases hin
        · exact (h.away hgone).2 (by simp [hphase])
      · cases hstep

/-- **Logout is final in every run whose steps are settled.** -/
theorem final_of_settled (clients : AuthClients) (events : List LogoutEvent)
    (hnone : clients.tasks = Table.empty)
    (hsettled : Transitions.StepsMeet step Settled { clients } events) :
    Transitions.StatesMeet step Final { clients } events := by
  refine Transitions.statesMeet_of_stepsMeet (fun _ => Calm.final) (fun _ _ _ => calm_step)
    ⟨AuthClients.lockHeld_of_no_tasks hnone, fun hgone => ?_⟩ hsettled
  cases hgone

/-- The events of a logout. -/
def logoutEvents : List LogoutEvent := [.start, .revoke true, .clearStore, .clearTmp, .clearLock]

/-- A refresh ends before a logout starts; the server is out of reach for one that begins after it. Then
a client logs in, refreshes, and logs out again. -/
def logoutsAfterRefreshes : List LogoutEvent :=
  (lockedUntilSent 0 0 50 ++ .task 0 (.answer 4000) :: afterAnswer 0).map .client ++ logoutEvents ++
    (lockedUntilSent 1 1 50).map .client ++ [.lose 1, .client (.task 1 .leave), .login 2 5000] ++
    (lockedUntilSent 2 2 4950 ++ .task 2 (.answer 9000) :: afterAnswer 2).map .client ++
    logoutEvents

theorem final_of_settled_logoutsAfterRefreshes :
    Transitions.StatesMeet step Final { clients := startedClients }
      logoutsAfterRefreshes :=
  final_of_settled startedClients logoutsAfterRefreshes rfl (by decide)

/-- A logout runs while a refresh waits for its answer. -/
def logoutBesideRefresh : List LogoutEvent :=
  (lockedUntilSent 0 0 50).map .client ++ .client (.task 0 (.answer 4000)) :: logoutEvents ++
    (afterAnswer 0).map .client

/-- The refresh writes the store again, with tokens the server accepts. -/
theorem refresh_restores_store_after_logout :
    ¬ ∀ (clients : AuthClients) (events : List LogoutEvent), clients.tasks = Table.empty →
      Transitions.StatesMeet step Final { clients } events := by
  intro h
  obtain ⟨r, hr⟩ : ∃ r, Transitions.run step { clients := startedClients } logoutBesideRefresh =
      some r := ⟨_, rfl⟩
  have hend : (Transitions.run step { clients := startedClients } logoutBesideRefresh).map
      (fun r => (r.logout, r.gone, r.awaited, r.clients.store)) =
      some (.returned, true, [], some ⟨some 1, some 1, 4000⟩) := by decide
  rw [hr, Option.map_some, Option.some_inj] at hend
  obtain ⟨hlogout, hrest⟩ := Prod.mk.inj hend
  obtain ⟨hgone, hrest⟩ := Prod.mk.inj hrest
  obtain ⟨hawaited, hstore⟩ := Prod.mk.inj hrest
  have hfinal := (h startedClients logoutBesideRefresh rfl).last hr
  have hremoved := hfinal.removed hlogout hgone hawaited
  rw [hstore] at hremoved
  cases hremoved

end LogoutRun

end StardustFS
