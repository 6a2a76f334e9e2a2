import StardustFS.TokenRefresh

/-! Rotation of the refresh token. Where the retries keep apart from the refreshes inside the lock, one
exchange is under way at a time and it carries the token the store holds; a retry that does not keep
apart sends a token that has been exchanged, and the answer to it clears the store. -/

namespace StardustFS

namespace AuthClients

/-- **The rotation is respected**: no request carries a token that was exchanged, no answer is a refusal,
and the session the server accepts is in the store or on its way there. -/
structure Respected (r : AuthClients) : Prop where
  unconsumed : ∀ k x token, r.tasks.get k = some x → x.stage = .sent token → r.current = some token
  accepted : ∀ k x, r.tasks.get k = some x → x.stage ≠ .answered none
  kept : ∃ token, r.current = some token ∧
    (r.store.bind AuthTokens.refreshTokenValue = some token ∨
      ∃ k x, r.tasks.get k = some x ∧
        ((∃ tokens, x.stage = .answered (some tokens) ∧ tokens.refreshTokenValue = some token) ∨
          x.stage = .saving ∧ r.tmp.bind AuthTokens.refreshTokenValue = some token))

/-- No refresh relies on what it read before. -/
def Quiet (r : AuthClients) : Prop := ∀ x ∈ r.tasks.rows, x.2.stage.busy = false

/-- The retries keep apart: one begins while no other refresh is under way and with the store's token in
memory, and inside the lock the store is not read while the exchange of a retry is under way. -/
def Apart (r : AuthClients) : AuthEvent → Prop
  | .retry _ c =>
      r.Quiet ∧
        (r.memory c).refreshTokenValue = r.store.bind AuthTokens.refreshTokenValue
  | .task _ (.reload _) => ∀ x ∈ r.tasks.rows, x.2.stage.busy = true → x.2.inside = true
  | _ => True

instance (r : AuthClients) : Decidable r.Quiet :=
  inferInstanceAs (Decidable (∀ x ∈ r.tasks.rows, _))

instance (r : AuthClients) : DecidablePred r.Apart
  | .retry _ _ => inferInstanceAs (Decidable (_ ∧ _))
  | .task _ (.reload _) => inferInstanceAs (Decidable (∀ x ∈ r.tasks.rows, _))
  | .load _ => inferInstanceAs (Decidable True)
  | .enter _ _ _ => inferInstanceAs (Decidable True)
  | .task _ .giveUp => inferInstanceAs (Decidable True)
  | .task _ .acquire => inferInstanceAs (Decidable True)
  | .task _ .send => inferInstanceAs (Decidable True)
  | .task _ (.answer _) => inferInstanceAs (Decidable True)
  | .task _ .receive => inferInstanceAs (Decidable True)
  | .task _ .replace => inferInstanceAs (Decidable True)
  | .task _ .leave => inferInstanceAs (Decidable True)

/-- Clients that share a session, with no refresh under way. What they have in memory is anything they
have read or been given before. -/
structure Shared (r : AuthClients) : Prop where
  server : r.current = some r.issued
  stored : r.store.bind AuthTokens.refreshTokenValue = some r.issued
  tasks : r.tasks = Table.empty

/-! ### The invariant -/

/-- The store holds the token that was issued last. -/
def Stored (r : AuthClients) : Prop :=
  r.store.bind AuthTokens.refreshTokenValue = some r.issued

/-- What is known of a refresh that relies on what it read. -/
def StageSound (r : AuthClients) (x : RefreshTask) : Prop :=
  match x.stage with
  | .reloaded => (r.memory x.client).refreshTokenValue = some r.issued ∧ r.Stored
  | .sent token => token = r.issued ∧ r.Stored
  | .answered reply => reply.bind AuthTokens.refreshTokenValue = some r.issued
  | .saving => r.tmp.bind AuthTokens.refreshTokenValue = some r.issued
  | .waiting | .acquired | .ended => True

structure Sound (r : AuthClients) : Prop where
  lock : r.LockHeld
  server : r.current = some r.issued
  alone : ∀ k k' x x', r.tasks.get k = some x → r.tasks.get k' = some x' →
    x.stage.busy = true → x'.stage.busy = true → k = k'
  stage : ∀ k x, r.tasks.get k = some x → r.StageSound x
  idle : r.Quiet → r.Stored

theorem quiet_iff {r : AuthClients} :
    r.Quiet ↔ ∀ k x, r.tasks.get k = some x → x.stage.busy = false :=
  ⟨fun h k x hx => h (k, x) (Table.mem_rows_of_get hx),
    fun h x hx => h x.1 x.2 (Table.get_of_mem_rows hx)⟩

theorem stageSound_of_idle (r : AuthClients) {x : RefreshTask} (h : x.stage.busy = false) :
    r.StageSound x := by
  unfold StageSound
  cases hstage : x.stage with
  | waiting => trivial
  | acquired => trivial
  | ended => trivial
  | reloaded => simp [hstage, RefreshStage.busy] at h
  | sent _ => simp [hstage, RefreshStage.busy] at h
  | answered _ => simp [hstage, RefreshStage.busy] at h
  | saving => simp [hstage, RefreshStage.busy] at h

/-- One refresh relies on what it read. -/
theorem sound_of_alone {r : AuthClients} {k : TaskId} {x : RefreshTask} (hlock : r.LockHeld)
    (hserver : r.current = some r.issued) (hx : r.tasks.get k = some x)
    (hbusy : x.stage.busy = true) (hstage : r.StageSound x)
    (hothers : ∀ k' y, k' ≠ k → r.tasks.get k' = some y → y.stage.busy = false) : r.Sound := by
  have hone : ∀ k' y, r.tasks.get k' = some y → y.stage.busy = true → k' = k := by
    intro k' y hy hb
    by_contra hne
    rw [hothers k' y hne hy] at hb
    cases hb
  refine ⟨hlock, hserver, fun k₁ k₂ x₁ x₂ hx₁ hx₂ hb₁ hb₂ =>
    (hone k₁ x₁ hx₁ hb₁).trans (hone k₂ x₂ hx₂ hb₂).symm, fun k' y hy => ?_, fun hquiet => ?_⟩
  · by_cases hk : k' = k
    · rw [hk, hx] at hy
      cases hy
      exact hstage
    · exact stageSound_of_idle r (hothers k' y hk hy)
  · rw [quiet_iff.mp hquiet k x hx] at hbusy
    cases hbusy

/-- No refresh relies on what it read. -/
theorem sound_of_quiet {r : AuthClients} (hlock : r.LockHeld) (hserver : r.current = some r.issued)
    (hquiet : r.Quiet) (hstored : r.Stored) : r.Sound := by
  refine ⟨hlock, hserver, fun k _ x _ hx _ hb _ => ?_, fun k x hx => ?_, fun _ => hstored⟩
  · rw [quiet_iff.mp hquiet k x hx] at hb
    cases hb
  · exact stageSound_of_idle r (quiet_iff.mp hquiet k x hx)

/-- The same refreshes rely on the same tokens. -/
theorem Sound.of_same {r r' : AuthClients} (h : r.Sound) (hlock : r'.LockHeld)
    (hmemory : r'.memory = r.memory) (hstore : r'.store = r.store) (htmp : r'.tmp = r.tmp)
    (hissued : r'.issued = r.issued) (hcurrent : r'.current = r.current)
    (hbusy : ∀ k x, x.stage.busy = true →
      (r'.tasks.get k = some x ↔ r.tasks.get k = some x)) : r'.Sound := by
  refine ⟨hlock, ?_, fun k k' x x' hx hx' hb hb' => ?_, fun k x hx => ?_, fun hquiet => ?_⟩
  · rw [hcurrent, hissued]
    exact h.server
  · exact h.alone k k' x x' ((hbusy k x hb).mp hx) ((hbusy k' x' hb').mp hx') hb hb'
  · cases hb : x.stage.busy with
    | false => exact stageSound_of_idle r' hb
    | true =>
        have hstage := h.stage k x ((hbusy k x hb).mp hx)
        unfold StageSound Stored at hstage ⊢
        rw [hmemory, hstore, htmp, hissued]
        exact hstage
  · have hstored := h.idle (quiet_iff.mpr fun k x hx => ?_)
    · unfold Stored at hstored ⊢
      rw [hstore, hissued]
      exact hstored
    · cases hb : x.stage.busy with
      | false => rfl
      | true =>
          have := quiet_iff.mp hquiet k x ((hbusy k x hb).mpr hx)
          rw [hb] at this
          cases this

/-- A refresh that does not rely on what it read is replaced by another such, or is gone. -/
theorem Sound.of_idle_task {r r' : AuthClients} (h : r.Sound) (hlock : r'.LockHeld)
    (hmemory : r'.memory = r.memory) (hstore : r'.store = r.store) (htmp : r'.tmp = r.tmp)
    (hissued : r'.issued = r.issued) (hcurrent : r'.current = r.current) {k : TaskId}
    {y : Option RefreshTask}
    (htasks : ∀ k', r'.tasks.get k' = if k' = k then y else r.tasks.get k')
    (hy : ∀ x, y = some x → x.stage.busy = false)
    (hold : ∀ x, r.tasks.get k = some x → x.stage.busy = false) : r'.Sound := by
  refine h.of_same hlock hmemory hstore htmp hissued hcurrent fun k' x hb => ?_
  rw [htasks]
  split_ifs with hk
  · constructor
    · intro hx
      rw [hy x hx] at hb
      cases hb
    · intro hx
      rw [hold x (hk ▸ hx)] at hb
      cases hb
  · exact Iff.rfl

/-- **The respected rotation** is what the invariant gives. -/
theorem Sound.respected {r : AuthClients} (h : r.Sound) : r.Respected := by
  refine ⟨fun k x token hx hstage => ?_, fun k x hx hstage => ?_, r.issued, h.server, ?_⟩
  · have hsound := h.stage k x hx
    unfold StageSound at hsound
    rw [hstage] at hsound
    rw [h.server, hsound.1]
  · have hsound := h.stage k x hx
    unfold StageSound at hsound
    rw [hstage] at hsound
    cases hsound
  · by_cases hquiet : r.Quiet
    · exact Or.inl (h.idle hquiet)
    · rw [quiet_iff] at hquiet
      push Not at hquiet
      obtain ⟨k, x, hx, hbusy⟩ := hquiet
      have hsound := h.stage k x hx
      unfold StageSound at hsound
      cases hstage : x.stage with
      | waiting => exact absurd (by rw [hstage]; rfl) hbusy
      | acquired => exact absurd (by rw [hstage]; rfl) hbusy
      | ended => exact absurd (by rw [hstage]; rfl) hbusy
      | reloaded =>
          rw [hstage] at hsound
          exact Or.inl hsound.2
      | sent token =>
          rw [hstage] at hsound
          exact Or.inl hsound.2
      | answered reply =>
          rw [hstage] at hsound
          obtain ⟨tokens, rfl, htoken⟩ := Option.bind_eq_some_iff.mp hsound
          exact Or.inr ⟨k, x, hx, Or.inl ⟨tokens, hstage, htoken⟩⟩
      | saving =>
          rw [hstage] at hsound
          exact Or.inr ⟨k, x, hx, Or.inr ⟨hstage, hsound⟩⟩

/-! ### The steps -/

theorem memory_loadFromStore {r : AuthClients} (h : r.Stored) (c : ClientId) :
    ((r.loadFromStore c).memory c).refreshTokenValue = some r.issued := by
  obtain ⟨tokens, htokens, htoken⟩ := Option.bind_eq_some_iff.mp h
  unfold loadFromStore
  rw [htokens]
  dsimp only
  rw [Function.update_self]
  exact htoken

theorem sound_loadFromStore {r : AuthClients} (h : r.Sound) (c : ClientId) :
    (r.loadFromStore c).Sound := by
  have hlock : (r.loadFromStore c).LockHeld := lockHeld_step h.lock (e := .load c) rfl
  cases hstore : r.store with
  | none =>
      have hsame : r.loadFromStore c = r := by
        rw [loadFromStore, hstore]
      rw [hsame]
      exact h
  | some tokens =>
      have hload : r.loadFromStore c =
          { r with memory := Function.update r.memory c tokens } := by
        rw [loadFromStore, hstore]
      rw [hload] at hlock ⊢
      refine ⟨hlock, h.server, h.alone, fun k x hx => ?_, h.idle⟩
      have hstage := h.stage k x hx
      unfold StageSound at hstage ⊢
      cases hst : x.stage with
      | waiting => trivial
      | acquired => trivial
      | ended => trivial
      | reloaded =>
          rw [hst] at hstage
          refine ⟨?_, hstage.2⟩
          by_cases hc : x.client = c
          · have hmemory := memory_loadFromStore hstage.2 c
            rw [hload] at hmemory
            rw [hc]
            exact hmemory
          · show (Function.update r.memory c tokens x.client).refreshTokenValue = some r.issued
            rw [Function.update_of_ne hc]
            exact hstage.1
      | sent token =>
          rw [hst] at hstage
          exact hstage
      | answered reply =>
          rw [hst] at hstage
          exact hstage
      | saving =>
          rw [hst] at hstage
          exact hstage

@[simp] theorem issued_loadFromStore (r : AuthClients) (c : ClientId) :
    (r.loadFromStore c).issued = r.issued := by
  unfold loadFromStore
  cases r.store <;> rfl

/-- What a refresh does keeps the invariant. -/
theorem sound_of_moves {r r' : AuthClients} {k : TaskId} {x : RefreshTask} {a : RefreshStep}
    (h : r.Sound) (hapart : r.Apart (.task k a)) (hlock : r'.LockHeld) (hx : r.tasks.get k = some x)
    (hmove : Moves r k x a r') : r'.Sound := by
  have hself : ∀ {r₁ : AuthClients} {x' : RefreshTask}, (r₁.putTask k x').tasks.get k = some x' :=
    (get_putTask _ _ _ _).trans (if_pos rfl)
  have hothers : ∀ {r₁ : AuthClients} {x' : RefreshTask}, r₁.tasks = r.tasks →
      x.stage.busy = true → ∀ k' y, k' ≠ k → (r₁.putTask k x').tasks.get k' = some y →
      y.stage.busy = false := by
    intro r₁ x' htasks hbusy k' y hk hy
    rw [get_putTask, if_neg hk, htasks] at hy
    cases hb : y.stage.busy with
    | false => rfl
    | true => exact absurd (h.alone k' k y x hy hx hb hbusy) hk
  have hidleTask : x.stage.busy = false → ∀ y, r.tasks.get k = some y → y.stage.busy = false := by
    intro hidle y hy
    rw [hx] at hy
    cases hy
    exact hidle
  have hstage := h.stage k x hx
  unfold StageSound at hstage
  cases hmove with
  | giveUp hst =>
      refine h.of_idle_task hlock rfl rfl rfl rfl rfl (y := none) (get_dropTask _ _)
        (fun y hy => ?_) (hidleTask (by rw [hst]; rfl))
      cases hy
  | acquire hst _ =>
      refine h.of_idle_task hlock rfl rfl rfl rfl rfl (fun k' => get_putTask _ _ _ _) ?_
        (hidleTask (by rw [hst]; rfl))
      rintro y ⟨⟩
      rfl
  | @reload now stage hst hnext =>
      -- whoever relies on what it read is inside the lock, and there this refresh is alone
      have hidle : ∀ k' y, r.tasks.get k' = some y → y.stage.busy = false := by
        intro k' y hy
        cases hb : y.stage.busy with
        | false => rfl
        | true =>
            have hinside := hapart (k', y) (Table.mem_rows_of_get hy) hb
            have hk := h.lock.unique k' k y x hy hx hinside (h.lock.acquired k x hx hst)
            rw [hk, hx] at hy
            cases hy
            rw [hst] at hb
            cases hb
      have hload := sound_loadFromStore h x.client
      have hquiet : (r.loadFromStore x.client).Quiet := by
        rw [quiet_iff, tasks_loadFromStore]
        exact hidle
      rcases hnext with rfl | rfl
      · refine hload.of_idle_task hlock rfl rfl rfl rfl rfl (fun k' => get_putTask _ _ _ _) ?_
          fun y hy => quiet_iff.mp hquiet k y hy
        rintro y ⟨⟩
        rfl
      · refine sound_of_alone hlock hload.server hself rfl ⟨?_, hload.idle hquiet⟩
          fun k' y hk hy => ?_
        · show ((r.loadFromStore x.client).memory x.client).refreshTokenValue = _
          rw [memory_loadFromStore (h.idle (quiet_iff.mpr hidle))]
          exact congrArg some (issued_loadFromStore r x.client).symm
        · rw [get_putTask, if_neg hk] at hy
          exact quiet_iff.mp hquiet k' y hy
  | raise hst hnone =>
      rw [hst] at hstage
      rw [hnone] at hstage
      cases hstage.1
  | @send token hst htoken =>
      rw [hst] at hstage
      rw [htoken] at hstage
      exact sound_of_alone hlock h.server hself rfl ⟨Option.some_inj.mp hstage.1, hstage.2⟩
        (hothers rfl (by rw [hst]; rfl))
  | @answer token expiresAt hst =>
      rw [hst] at hstage
      obtain ⟨rfl, -⟩ := hstage
      have hexchange : r.exchange r.issued expiresAt =
          (some ⟨some (r.issued + 1), some (r.issued + 1), expiresAt⟩,
            { r with issued := r.issued + 1, current := some (r.issued + 1) }) := by
        unfold exchange
        rw [if_pos h.server]
      rw [hexchange] at hlock ⊢
      exact sound_of_alone hlock rfl hself rfl rfl (hothers rfl (by rw [hst]; rfl))
  | @receive reply hst =>
      rw [hst] at hstage
      obtain ⟨tokens, rfl, htoken⟩ := Option.bind_eq_some_iff.mp hstage
      exact sound_of_alone hlock h.server hself rfl htoken (hothers rfl (by rw [hst]; rfl))
  | lostFile hst hnone =>
      rw [hst] at hstage
      rw [hnone] at hstage
      cases hstage
  | @replace tokens hst htmp =>
      rw [hst] at hstage
      rw [htmp] at hstage
      refine sound_of_quiet hlock h.server (quiet_iff.mpr fun k' y hy => ?_) hstage
      by_cases hk : k' = k
      · rw [hk, hself] at hy
        cases hy
        rfl
      · exact hothers rfl (by rw [hst]; rfl) k' y hk hy
  | leave hst =>
      refine h.of_idle_task hlock rfl rfl rfl rfl rfl (y := none) (get_dropTask _ _)
        (fun y hy => ?_) (hidleTask (by rw [hst]; rfl))
      cases hy

theorem sound_step {r r' : AuthClients} {e : AuthEvent} (h : r.Sound) (hapart : r.Apart e)
    (hstep : r.step e = some r') : r'.Sound := by
  have hlock := lockHeld_step h.lock hstep
  cases e with
  | load c =>
      cases Option.some_inj.mp hstep
      exact sound_loadFromStore h c
  | enter k c now =>
      simp only [step, Option.ite_none_right_eq_some, Option.some_inj] at hstep
      obtain ⟨⟨hnew, -, -⟩, rfl⟩ := hstep
      refine h.of_idle_task hlock rfl rfl rfl rfl rfl (fun k' => get_putTask _ _ _ _) ?_ ?_
      · rintro x ⟨⟩
        rfl
      · intro x hx
        rw [hnew] at hx
        cases hx
  | retry k c =>
      simp only [step, Option.ite_none_right_eq_some, Option.map_eq_some_iff] at hstep
      obtain ⟨hnew, token, htoken, rfl⟩ := hstep
      obtain ⟨hquiet, hmemory⟩ := hapart
      have hstored := h.idle hquiet
      refine sound_of_alone hlock h.server (k := k) ((get_putTask _ _ _ _).trans (if_pos rfl)) rfl
        ⟨?_, hstored⟩ fun k' y hk hy => ?_
      · rw [htoken] at hmemory
        exact Option.some_inj.mp (hmemory.trans hstored)
      · rw [get_putTask, if_neg hk] at hy
        exact quiet_iff.mp hquiet k' y hy
  | task k a =>
      obtain ⟨x, hx, hmove⟩ := Option.bind_eq_some_iff.mp hstep
      exact sound_of_moves h hapart hlock hx (moves_of_stepTask hmove)

theorem Shared.sound {r : AuthClients} (h : r.Shared) : r.Sound := by
  refine sound_of_quiet (lockHeld_of_no_tasks h.tasks) h.server (quiet_iff.mpr fun k x hx => ?_)
    h.stored
  rw [h.tasks] at hx
  cases hx

/-- **Rotation is respected in every run whose retries keep apart.** -/
theorem respected_of_apart (r : AuthClients) (events : List AuthEvent) (hshared : r.Shared)
    (hapart : Transitions.StepsMeet step Apart r events) :
    Transitions.StatesMeet step Respected r events :=
  Transitions.statesMeet_of_stepsMeet (fun _ => Sound.respected) (fun _ _ _ => sound_step)
    hshared.sound hapart

theorem startedClients_shared : startedClients.Shared := ⟨rfl, rfl, rfl⟩

/-- Two clients find the token about to expire: the second one finds the tokens of the first in the store.
Then the second retries a request. -/
def refreshesInTurn : List AuthEvent :=
  lockedUntilSent 0 0 50 ++ [.enter 1 1 50, .task 0 (.answer 4000)] ++ afterAnswer 0 ++
    [.task 1 .acquire, .task 1 (.reload 51), .task 1 .leave, .retry 2 1, .task 2 (.answer 8000)] ++
    afterAnswer 2

theorem respected_of_apart_inTurn :
    Transitions.StatesMeet step Respected startedClients refreshesInTurn :=
  respected_of_apart startedClients refreshesInTurn startedClients_shared (by decide)

/-- Two clients retry a request, the second one with the token in its memory. -/
def retriesInTurn : List AuthEvent :=
  [.retry 0 0, .task 0 (.answer 4000)] ++ afterAnswer 0 ++ [.retry 1 1, .task 1 (.answer 0)] ++
    afterAnswer 1

/-- The second retry sends the token the first has exchanged, and the answer clears the store. -/
theorem stale_retry_clears_session :
    ¬ ∀ (r : AuthClients) (events : List AuthEvent), r.Shared →
      Transitions.StatesMeet step Respected r events := by
  intro h
  obtain ⟨r, hr⟩ : ∃ r, Transitions.run step startedClients retriesInTurn = some r := ⟨_, rfl⟩
  have hend : (Transitions.run step startedClients retriesInTurn).map
      (fun r => (r.current, r.store, r.tasks.rows)) = some (some 1, some {}, []) := by decide
  rw [hr, Option.map_some, Option.some_inj] at hend
  obtain ⟨hcurrent, hrest⟩ := Prod.mk.inj hend
  obtain ⟨hstore, htasks⟩ := Prod.mk.inj hrest
  obtain ⟨token, htoken, hkept⟩ :=
    ((h startedClients retriesInTurn startedClients_shared).last hr).kept
  rcases hkept with hkept | ⟨k, x, hx, -⟩
  · rw [hstore] at hkept
    cases hkept
  · have hmem := Table.mem_rows_of_get hx
    rw [htasks] at hmem
    cases hmem

end AuthClients

end StardustFS
