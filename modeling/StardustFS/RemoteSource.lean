import StardustFS.P2PServer
import StardustFS.MetadataStore

/-! The proxy of another device: whether it is in service, and the address that the server's routing last
gave for the device. The coroutine that asks for the routing runs when the proxy is set up and again
whenever the proxy is refreshed. -/

namespace StardustFS

/-- An exception that the coroutine does not handle itself: an `OSError`, or another one. -/
inductive RoutingException where
  | osError
  | other
  deriving DecidableEq

/-- What asking for an access token comes to. -/
inductive TokenAnswer where
  | token
  | authenticationError
  | raised (e : RoutingException)

/-- What the request for the routing comes to. A body that is no JSON text is `none`. -/
inductive RoutingAnswer where
  | timeout
  | connectError
  | raised (e : RoutingException)
  | answered (status : Nat) (body : Option Value)

/-- What one run of the coroutine meets; without a token no request is made. -/
structure RoutingAttempt where
  token : TokenAnswer
  routing : RoutingAnswer

structure RemoteSource where
  isActive : Bool := false
  peerAddress : Value := .null
  lastRefreshAt : Time := 0
  refreshMinInterval : Time := 30

namespace RemoteSource

/-- `data.get("connection_address") or data.get("address")`. -/
def routedAddress (data : Body) : Value :=
  if (data.get "connection_address").truthy then data.get "connection_address" else data.get "address"

/-- `data.get("is_online") is False`. -/
def saysOffline (data : Body) : Bool := (data.get "is_online").bool? == some false

def deactivate (s : RemoteSource) : RemoteSource := { s with isActive := false }

/-- `_async_initialize`. -/
def asyncInitialize (s : RemoteSource) (a : RoutingAttempt) :
    Except RoutingException Unit × RemoteSource :=
  match a.token with
  | .authenticationError => (.ok (), s.deactivate)
  | .raised e => (.error e, s)
  | .token =>
      match a.routing with
      | .timeout => (.ok (), s.deactivate)
      | .connectError => (.ok (), s.deactivate)
      | .raised e => (.error e, s)
      | .answered status body =>
          if 400 ≤ status then (.ok (), s.deactivate)
          -- no JSON text, or a value without `get`
          else match body.bind Json.members? with
            | none => (.error .other, s)
            | some data =>
                let address := routedAddress data
                if !address.truthy then (.ok (), s.deactivate)
                else if saysOffline data then (.ok (), { s with peerAddress := address }.deactivate)
                else (.ok (), { s with peerAddress := address, isActive := true })

/-- `initialize` of the proxy. -/
def initializeSource (s : RemoteSource) (a : RoutingAttempt) : Except RoutingException Unit × RemoteSource :=
  match s.asyncInitialize a with
  | (.ok _, s) => (.ok (), s)
  | (.error .osError, s) => (.error .osError, s)
  | (.error .other, s) => (.ok (), s.deactivate)

/-- The call comes too soon after the last attempt. -/
def throttled (s : RemoteSource) (force : Bool) (now : Time) : Bool :=
  !force && decide (now - s.lastRefreshAt < s.refreshMinInterval)

/-- `refresh`. -/
def refresh (s : RemoteSource) (force : Bool) (now : Time) (a : RoutingAttempt) :
    Except RoutingException Bool × RemoteSource :=
  if s.throttled force now then (.ok s.isActive, s)
  else match { s with lastRefreshAt := now }.asyncInitialize a with
    | (.ok _, s) => (.ok s.isActive, s)
    | (.error _, s) => (.ok s.isActive, s)

/-- The check of `_read_remote` before it reads: an inactive proxy is refreshed once. It raises where that
does not bring the proxy back. -/
def negotiate (s : RemoteSource) (now : Time) (a : RoutingAttempt) :
    Except RoutingException Unit × RemoteSource :=
  if s.isActive then (.ok (), s)
  else match s.refresh false now a with
    | (.error e, s) => (.error e, s)
    | (.ok _, s) => if s.isActive then (.ok (), s) else (.error .osError, s)

/-! ### The statement -/

/-- The dictionary of a successful routing answer. -/
def answer? (a : RoutingAttempt) : Option Body :=
  match a.token, a.routing with
  | .token, .answered status body => if status < 400 then body.bind Json.members? else none
  | _, _ => none

/-- The answer gives a text that is not empty as the address. -/
def StatesAddress (data : Body) : Prop := ∃ c text, routedAddress data = .str (c :: text)

/-- A successful routing answer that states the peer's address or that the peer is offline. -/
def StatesPeer (a : RoutingAttempt) : Prop :=
  ∃ data, answer? a = some data ∧ (StatesAddress data ∨ saysOffline data = true)

/-- The refresh raises nothing, and without an answer that states the peer it leaves whether the proxy is
in service and the address. -/
def KeepsPeer (s : RemoteSource) (force : Bool) (now : Time) (a : RoutingAttempt) : Prop :=
  (∃ active, (s.refresh force now a).1 = .ok active) ∧
    (¬StatesPeer a → (s.refresh force now a).2.isActive = s.isActive ∧
      (s.refresh force now a).2.peerAddress = s.peerAddress)

/-- The failures that the coroutine answers by taking the proxy out of service. -/
def Deactivating (a : RoutingAttempt) : Prop :=
  match a.token, a.routing with
  | .authenticationError, _ => True
  | .token, .timeout => True
  | .token, .connectError => True
  | .token, .answered status body =>
      400 ≤ status ∨ ∃ data, body.bind Json.members? = some data ∧
        (routedAddress data).truthy = false ∧ saysOffline data = false
  | _, _ => False

/-- The answer gives something other than a text for the address, and does not say that the peer is
offline. -/
def Misaddressed (data : Body) : Prop :=
  (routedAddress data).truthy = true ∧ ¬StatesAddress data ∧ saysOffline data = false

/-! ### What a run of the coroutine does -/

theorem StatesAddress.truthy {data : Body} (h : StatesAddress data) :
    (routedAddress data).truthy = true := by
  obtain ⟨c, text, htext⟩ := h
  rw [htext]
  rfl

/-- An answer by which the proxy is taken out of service states nothing. -/
theorem unstated_of_deactivating {a : RoutingAttempt} (h : Deactivating a) {data : Body}
    (hdata : answer? a = some data) :
    (routedAddress data).truthy = false ∧ saysOffline data = false := by
  rcases a with ⟨_ | _ | e, _ | _ | e | ⟨status, body⟩⟩
  case token.answered =>
    by_cases hlt : status < 400
    · rcases h with hstatus | ⟨other, hother, haddress, hoffline⟩
      · omega
      · simp only [answer?, hlt, if_true] at hdata
        obtain rfl : other = data := Option.some.inj (hother.symm.trans hdata)
        exact ⟨haddress, hoffline⟩
    · simp [answer?, hlt] at hdata
  all_goals cases hdata

theorem not_statesPeer_of_deactivating {a : RoutingAttempt} (h : Deactivating a) : ¬StatesPeer a := by
  rintro ⟨data, hdata, haddress | hoffline⟩
  · have := (unstated_of_deactivating h hdata).1
    rw [haddress.truthy] at this
    cases this
  · have := (unstated_of_deactivating h hdata).2
    rw [hoffline] at this
    cases this

/-- The ways a run of the coroutine ends: out of service by a failure; with an exception and the proxy as it
was; with an answer that says the peer is offline; with the address of an answer. -/
theorem asyncInitialize_cases (s : RemoteSource) (a : RoutingAttempt) :
    (Deactivating a ∧ s.asyncInitialize a = (.ok (), s.deactivate)) ∨
    (¬Deactivating a ∧ answer? a = none ∧ ∃ e, s.asyncInitialize a = (.error e, s)) ∨
    (∃ data, answer? a = some data ∧ saysOffline data = true ∧
      (s.asyncInitialize a).2.isActive = false) ∨
    (¬Deactivating a ∧ ∃ data, answer? a = some data ∧ saysOffline data = false ∧
      (routedAddress data).truthy = true ∧
      s.asyncInitialize a = (.ok (), { s with peerAddress := routedAddress data, isActive := true })) := by
  obtain ⟨access, routing⟩ := a
  cases access with
  | authenticationError => exact Or.inl ⟨trivial, rfl⟩
  | raised e => exact Or.inr (Or.inl ⟨id, rfl, e, rfl⟩)
  | token =>
      cases routing with
      | timeout => exact Or.inl ⟨trivial, rfl⟩
      | connectError => exact Or.inl ⟨trivial, rfl⟩
      | raised e => exact Or.inr (Or.inl ⟨id, rfl, e, rfl⟩)
      | answered status body =>
          by_cases hstatus : 400 ≤ status
          · exact Or.inl ⟨Or.inl hstatus, by simp [asyncInitialize, hstatus]⟩
          have hlt : status < 400 := by omega
          cases hbody : body.bind Json.members? with
          | none =>
              refine Or.inr (Or.inl ⟨?_, ?_, .other, ?_⟩)
              · simp [Deactivating, hstatus, hbody]
              · simp [answer?, hlt, hbody]
              · simp [asyncInitialize, hstatus, hbody]
          | some data =>
              have hanswer : answer? ⟨.token, .answered status body⟩ = some data := by
                simp [answer?, hlt, hbody]
              cases haddress : (routedAddress data).truthy with
              | false =>
                  have hrun : s.asyncInitialize ⟨.token, .answered status body⟩
                      = (.ok (), s.deactivate) := by
                    simp [asyncInitialize, hstatus, hbody, haddress]
                  cases hoffline : saysOffline data with
                  | false => exact Or.inl ⟨Or.inr ⟨data, hbody, haddress, hoffline⟩, hrun⟩
                  | true =>
                      refine Or.inr (Or.inr (Or.inl ⟨data, hanswer, hoffline, ?_⟩))
                      rw [hrun]
                      rfl
              | true =>
                  cases hoffline : saysOffline data with
                  | true =>
                      refine Or.inr (Or.inr (Or.inl ⟨data, hanswer, hoffline, ?_⟩))
                      simp [asyncInitialize, hstatus, hbody, haddress, hoffline, deactivate]
                  | false =>
                      refine Or.inr (Or.inr (Or.inr ⟨?_, data, hanswer, hoffline, haddress, ?_⟩))
                      · simp [Deactivating, hstatus, hbody, haddress]
                      · simp [asyncInitialize, hstatus, hbody, haddress, hoffline]

/-- When a run leaves the proxy as it is, unless an answer states the peer. -/
theorem asyncInitialize_keeps_iff (s : RemoteSource) (a : RoutingAttempt) :
    (¬StatesPeer a → (s.asyncInitialize a).2.isActive = s.isActive ∧
        (s.asyncInitialize a).2.peerAddress = s.peerAddress) ↔
      (Deactivating a → s.isActive = false) ∧
        ∀ data, answer? a = some data → Misaddressed data →
          s.isActive = true ∧ s.peerAddress = routedAddress data := by
  rcases asyncInitialize_cases s a with
    ⟨hdeactivating, hrun⟩ | ⟨hdeactivating, hanswer, e, hrun⟩ | ⟨data, hanswer, hoffline, -⟩ |
    ⟨hdeactivating, data, hanswer, hoffline, haddress, hrun⟩
  · have hstates := not_statesPeer_of_deactivating hdeactivating
    rw [hrun]
    constructor
    · intro h
      refine ⟨fun _ => (h hstates).1.symm, fun data hdata hmis => ?_⟩
      have hfalsy := (unstated_of_deactivating hdeactivating hdata).1
      rw [hmis.1] at hfalsy
      cases hfalsy
    · intro h _
      exact ⟨(h.1 hdeactivating).symm, rfl⟩
  · rw [hrun]
    refine iff_of_true (fun _ => ⟨rfl, rfl⟩) ⟨fun h => absurd h hdeactivating, fun data hdata => ?_⟩
    cases hanswer.symm.trans hdata
  · have hstates : StatesPeer a := ⟨data, hanswer, Or.inr hoffline⟩
    refine iff_of_true (absurd hstates)
      ⟨fun h => absurd hstates (not_statesPeer_of_deactivating h), fun data' hdata' hmis => ?_⟩
    obtain rfl : data = data' := Option.some.inj (hanswer.symm.trans hdata')
    rw [hmis.2.2] at hoffline
    cases hoffline
  · rw [hrun]
    constructor
    · intro h
      refine ⟨fun hd => absurd hd hdeactivating, fun data' hdata' hmis => ?_⟩
      obtain rfl : data = data' := Option.some.inj (hanswer.symm.trans hdata')
      have hstates : ¬StatesPeer a := by
        rintro ⟨other, hother, hpeer⟩
        obtain rfl : data = other := Option.some.inj (hanswer.symm.trans hother)
        rcases hpeer with htext | hsays
        · exact hmis.2.1 htext
        · rw [hoffline] at hsays
          cases hsays
      exact ⟨(h hstates).1.symm, (h hstates).2.symm⟩
    · intro h hstates
      have hmis : Misaddressed data :=
        ⟨haddress, fun htext => hstates ⟨data, hanswer, Or.inl htext⟩, hoffline⟩
      obtain ⟨hactive, hsame⟩ := h.2 data hanswer hmis
      exact ⟨hactive.symm, hsame.symm⟩

/-! ### The refresh -/

theorem refresh_of_throttled {s : RemoteSource} {force : Bool} {now : Time}
    (h : s.throttled force now = true) (a : RoutingAttempt) :
    s.refresh force now a = (.ok s.isActive, s) := by
  rw [refresh, if_pos h]

/-- What the coroutine raises ends in the refresh. -/
theorem refresh_of_not_throttled {s : RemoteSource} {force : Bool} {now : Time}
    (h : ¬s.throttled force now = true) (a : RoutingAttempt) :
    s.refresh force now a = (.ok ({ s with lastRefreshAt := now }.asyncInitialize a).2.isActive,
      ({ s with lastRefreshAt := now }.asyncInitialize a).2) := by
  rw [refresh, if_neg h]
  generalize asyncInitialize _ a = run
  rcases run with ⟨_ | _, s'⟩ <;> rfl

theorem refresh_raises_nothing (s : RemoteSource) (force : Bool) (now : Time) (a : RoutingAttempt) :
    ∃ active, (s.refresh force now a).1 = .ok active := by
  by_cases h : s.throttled force now = true
  · exact ⟨_, congrArg Prod.fst (refresh_of_throttled h a)⟩
  · exact ⟨_, congrArg Prod.fst (refresh_of_not_throttled h a)⟩

/-- The peer is kept by a refresh exactly where the call is throttled, or where nothing deactivates an
active proxy and no answer brings an address that is no text. -/
theorem keepsPeer_iff (s : RemoteSource) (force : Bool) (now : Time) (a : RoutingAttempt) :
    KeepsPeer s force now a ↔ s.throttled force now = true ∨
      ((Deactivating a → s.isActive = false) ∧
        ∀ data, answer? a = some data → Misaddressed data →
          s.isActive = true ∧ s.peerAddress = routedAddress data) := by
  rw [KeepsPeer, and_iff_right (refresh_raises_nothing s force now a)]
  by_cases h : s.throttled force now = true
  · rw [refresh_of_throttled h]
    exact iff_of_true (fun _ => ⟨rfl, rfl⟩) (Or.inl h)
  · rw [refresh_of_not_throttled h, or_iff_right h]
    exact asyncInitialize_keeps_iff { s with lastRefreshAt := now } a

/-- A proxy in service, and a routing request that times out. -/
theorem timeout_disconnects :
    ¬KeepsPeer { isActive := true, peerAddress := .str "10.0.0.5:9090".toList } true 60
      ⟨.token, .timeout⟩ := by
  intro h
  have hstates : ¬StatesPeer ⟨.token, .timeout⟩ := not_statesPeer_of_deactivating trivial
  have hactive : false = true := (h.2 hstates).1
  cases hactive

/-! ### Runs -/

/-- The calls that change a proxy. -/
inductive Call where
  | initialized (a : RoutingAttempt)
  | refreshed (force : Bool) (now : Time) (a : RoutingAttempt)
  | negotiated (now : Time) (a : RoutingAttempt)

def after (s : RemoteSource) : Call → RemoteSource
  | .initialized a => (s.initializeSource a).2
  | .refreshed force now a => (s.refresh force now a).2
  | .negotiated now a => (s.negotiate now a).2

/-- In service only with an address. -/
def Addressed (s : RemoteSource) : Prop := s.isActive = true → s.peerAddress.truthy = true

theorem Addressed.asyncInitialize {s : RemoteSource} (h : s.Addressed) (a : RoutingAttempt) :
    (s.asyncInitialize a).2.Addressed := by
  rcases asyncInitialize_cases s a with
    ⟨-, hrun⟩ | ⟨-, -, e, hrun⟩ | ⟨data, -, -, hinactive⟩ | ⟨-, data, -, -, haddress, hrun⟩
  · rw [hrun]
    exact fun hactive => nomatch hactive
  · rw [hrun]
    exact h
  · intro hactive
    rw [hinactive] at hactive
    cases hactive
  · rw [hrun]
    exact fun _ => haddress

theorem Addressed.refresh {s : RemoteSource} (h : s.Addressed) (force : Bool) (now : Time)
    (a : RoutingAttempt) : (s.refresh force now a).2.Addressed := by
  by_cases hthrottled : s.throttled force now = true
  · rw [refresh_of_throttled hthrottled]
    exact h
  · rw [refresh_of_not_throttled hthrottled]
    exact Addressed.asyncInitialize (s := { s with lastRefreshAt := now }) h a

theorem initializeSource_snd (s : RemoteSource) (a : RoutingAttempt) :
    (s.initializeSource a).2 = (s.asyncInitialize a).2 ∨
      (s.initializeSource a).2 = (s.asyncInitialize a).2.deactivate := by
  unfold initializeSource
  generalize s.asyncInitialize a = run
  rcases run with ⟨(_ | _) | _, s'⟩
  · exact Or.inl rfl
  · exact Or.inr rfl
  · exact Or.inl rfl

theorem negotiate_snd (s : RemoteSource) (now : Time) (a : RoutingAttempt) :
    (s.negotiate now a).2 = if s.isActive then s else (s.refresh false now a).2 := by
  unfold negotiate
  generalize s.refresh false now a = run
  rcases run with ⟨_ | _, s'⟩
  · split_ifs <;> rfl
  · by_cases hs : s.isActive = true
    · simp [hs]
    · by_cases hback : s'.isActive = true <;> simp [hs, hback]

theorem Addressed.after {s : RemoteSource} (h : s.Addressed) (c : Call) : (s.after c).Addressed := by
  cases c with
  | initialized a =>
      rcases initializeSource_snd s a with hrun | hrun
      · rw [RemoteSource.after, hrun]
        exact h.asyncInitialize a
      · rw [RemoteSource.after, hrun]
        exact fun hactive => nomatch hactive
  | refreshed force now a => exact h.refresh force now a
  | negotiated now a =>
      rw [RemoteSource.after, negotiate_snd]
      split_ifs
      · exact h
      · exact h.refresh false now a

/-- In every run of a new proxy it is in service only with an address. -/
theorem Addressed.run {s : RemoteSource} (h : s.Addressed) (calls : List Call) :
    (calls.foldl RemoteSource.after s).Addressed := by
  induction calls generalizing s with
  | nil => exact h
  | cons c calls ih => exact ih (h.after c)

/-- The reads of other devices' files refresh a proxy only while it is out of service: whatever the server
answers, they never take it out of service. -/
theorem reads_keep_active {s : RemoteSource} (h : s.isActive = true)
    (reads : List (Time × RoutingAttempt)) :
    (reads.foldl (fun s r => (s.negotiate r.1 r.2).2) s) = s := by
  induction reads with
  | nil => rfl
  | cons r reads ih =>
      rw [List.foldl_cons, negotiate_snd, if_pos h]
      exact ih

end RemoteSource

end StardustFS
