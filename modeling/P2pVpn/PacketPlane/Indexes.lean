/-
# The indexes of the sessions

A runtime keeps four tables beside each other: the current session of each peer, the lifetime of its
key, the session that retires, and for each endpoint the peers whose session is there.  They are changed
by five operations, each in an order of its own.  `Runtime.Consistent` says how the tables belong
together; every operation keeps it, so that looking up the lifetime of a session never fails
(`session_indexes_consistent`).
-/
import P2pVpn.Lib.Units
import P2pVpn.PacketPlane.Lifetime

namespace P2pVpn.PacketPlane

open Lib Net

variable {E : Type}

/-! ## Forgetting sessions, and renewals that are due -/

namespace Runtime

/-- `forget_all_sessions`, for an order of draining the sessions and a text of peers. -/
def forgetAllSessions (peerText : PeerId → String) (order : KeyOrder PeerId) (runtime : Runtime E) :
    List (SessionSnapshot E) × Runtime E :=
  (sortBy (fun snapshot => peerText snapshot.peer)
      ((order.entries runtime.sessions).map fun entry => entry.2.snapshot),
    { runtime with
      sessions := ∅
      sessionEndpoints := ∅
      sessionLifetimes := ∅
      retiringSessions := ∅ })

/-- `renewal_due_for_peer`; the session of the peer has to have a lifetime. -/
def renewalDueForPeer (runtime : Runtime E) (peer : PeerId) (now : ℕ) : Option Bool :=
  match runtime.sessions.get? peer with
  | none => some false
  | some session => do
      let lifetime ← runtime.sessionLifetimes.get? peer
      let ttl := min lifetime runtime.sessionTtl
      let lead := min (ttl / 4) (60 * nanosPerSecond)
      let age := now - session.establishedAt
      pure (session.role = .initiator ∧ ttl - lead ≤ age ∧ age < ttl)

/-- `renewal_due_peers`, for an order of walking the sessions and a text of peers. -/
def renewalDuePeers (peerText : PeerId → String) (order : KeyOrder PeerId) (runtime : Runtime E)
    (now : ℕ) : Option (List PeerId) := do
  let due ← (order.enumerate runtime.sessions.keys).mapM fun peer => do
    let isDue ← runtime.renewalDueForPeer peer now
    pure (if isDue then some peer else none)
  pure (sortBy peerText (due.filterMap id))

variable [DecidableEq E]

/-- `forget_peer`. -/
def forgetPeer (runtime : Runtime E) (peer : PeerId) : Bool × Runtime E :=
  let runtime :=
    { runtime with
      sessionLifetimes := runtime.sessionLifetimes.remove peer
      retiringSessions := runtime.retiringSessions.remove peer }
  match runtime.sessions.get? peer with
  | none => (false, runtime)
  | some session =>
      (true,
        { runtime with
          sessions := runtime.sessions.remove peer
          sessionEndpoints := removeEndpointMapping runtime.sessionEndpoints peer session.endpoint })

end Runtime

/-! ## Runs -/

inductive IndexCall (E : Type) where
  | install (role : SessionRole) (secret : Key) (own remote : VerifiedHandshake E) (now : ℕ)
      (overlapping : Bool)
  | forgetPeer (peer : PeerId)
  | forgetAll (order : KeyOrder PeerId)
  | setTtl (ttl : ℕ)
  | expire (order : KeyOrder PeerId) (now maxAge : ℕ)

variable [DecidableEq E]

section Runs

variable (env : KeyPlatform E) (peerText : PeerId → String)

/-- One call; an installation that fails changes nothing. -/
def IndexCall.perform (runtime : Runtime E) : IndexCall E → Option (Runtime E)
  | .install role secret own remote now overlapping =>
      match runtime.installSession env role secret own remote now overlapping with
      | .error _ => some runtime
      | .ok runtime => some runtime
  | .forgetPeer peer => some (runtime.forgetPeer peer).2
  | .forgetAll order => some (runtime.forgetAllSessions peerText order).2
  | .setTtl ttl => some (runtime.setSessionTtl ttl)
  | .expire order now maxAge => do
      let (_, runtime) ← runtime.expireSessionsAt peerText order now maxAge
      pure runtime

def indexRun (ttl maxReplayWindows : ℕ) (calls : List (IndexCall E)) : Option (Runtime E) :=
  calls.foldlM (fun runtime call => call.perform env peerText runtime)
    (freshRuntime ttl maxReplayWindows)

end Runs

/-! ## The tables belong together -/

namespace Runtime

/-- How often a peer is listed under an endpoint. -/
def listings (endpoints : HashMap E (List PeerId)) (endpoint : E) (peer : PeerId) : ℕ :=
  ((endpoints.get? endpoint).getD []).count peer

/-- The endpoint of the current session of a peer. -/
def endpointOf (sessions : HashMap PeerId (Session E)) (peer : PeerId) : Option E :=
  (sessions.get? peer).map Session.endpoint

structure Consistent (runtime : Runtime E) : Prop where
  lifetimes : runtime.sessionLifetimes.keys = runtime.sessions.keys
  retiring : ∀ peer retiring, runtime.retiringSessions.get? peer = some retiring →
    endpointOf runtime.sessions peer = some retiring.session.endpoint
  listed : ∀ endpoint peer, listings runtime.sessionEndpoints endpoint peer
    = if endpointOf runtime.sessions peer = some endpoint then 1 else 0
  nonempty : ∀ endpoint peers, runtime.sessionEndpoints.get? endpoint = some peers → peers ≠ []

/-! ### The lists of the endpoints -/

variable {peer : PeerId} {endpoints : HashMap E (List PeerId)} {role : SessionRole}

lemma listings_insertEndpointMapping {endpoint : E} (hnew : listings endpoints endpoint peer = 0)
    (other : E) (candidate : PeerId) :
    listings (insertEndpointMapping endpoints endpoint peer) other candidate
      = if other = endpoint ∧ candidate = peer then 1 else listings endpoints other candidate := by
  have hnot : peer ∉ (endpoints.get? endpoint).getD [] := List.count_eq_zero.mp hnew
  rw [listings, insertEndpointMapping, HashMap.get?_insert, if_neg hnot]
  by_cases hendpoint : other = endpoint
  · subst hendpoint
    by_cases hpeer : candidate = peer
    · subst hpeer
      rw [if_pos rfl, if_pos ⟨rfl, rfl⟩, Option.getD_some, List.count_append, List.count_singleton_self,
        List.count_eq_zero.mpr hnot]
    · have hne : ¬ (peer == candidate) = true := by simpa using Ne.symm hpeer
      rw [if_pos rfl, if_neg fun h => hpeer h.2, Option.getD_some, List.count_append,
        List.count_singleton, if_neg hne]
      rfl
  · rw [if_neg hendpoint, if_neg fun h => hendpoint h.1]
    rfl

lemma nonempty_insertEndpointMapping (endpoint : E) (peer : PeerId)
    (h : ∀ other peers, endpoints.get? other = some peers → peers ≠ []) (other : E)
    (peers : List PeerId)
    (hget : (insertEndpointMapping endpoints endpoint peer).get? other = some peers) :
    peers ≠ [] := by
  rw [insertEndpointMapping, HashMap.get?_insert] at hget
  split_ifs at hget with hendpoint hmem
  · obtain rfl := Option.some.inj hget
    exact List.ne_nil_of_mem hmem
  · obtain rfl := Option.some.inj hget
    simp
  · exact h other peers hget

/-- The list of an endpoint loses the peer, and an empty list is dropped. -/
lemma getD_removeEndpointMapping (endpoints : HashMap E (List PeerId)) (endpoint : E) (peer : PeerId)
    (other : E) :
    ((removeEndpointMapping endpoints peer endpoint).get? other).getD []
      = if other = endpoint then ((endpoints.get? endpoint).getD []).filter (· ≠ peer)
        else (endpoints.get? other).getD [] := by
  rw [removeEndpointMapping]
  cases hpeers : endpoints.get? endpoint with
  | none =>
    split_ifs with hendpoint
    · simp [hendpoint, hpeers]
    · rfl
  | some peers =>
    dsimp only
    split_ifs with hempty hendpoint hendpoint
    · simp [hendpoint, HashMap.get?_remove, ← hempty]
    · rw [HashMap.get?_remove, if_neg hendpoint]
    · simp [hendpoint]
    · rw [HashMap.get?_insert_of_ne _ hendpoint]

lemma listings_removeEndpointMapping (endpoints : HashMap E (List PeerId)) (endpoint : E) (peer : PeerId)
    (other : E) (candidate : PeerId) :
    listings (removeEndpointMapping endpoints peer endpoint) other candidate
      = if other = endpoint ∧ candidate = peer then 0 else listings endpoints other candidate := by
  rw [listings, getD_removeEndpointMapping]
  by_cases hendpoint : other = endpoint
  · subst hendpoint
    rw [if_pos rfl]
    split_ifs with hboth
    · exact List.count_eq_zero.mpr (by simp [hboth.2])
    · exact List.count_filter (by simpa using hboth)
  · rw [if_neg hendpoint, if_neg fun h => hendpoint h.1]
    rfl

lemma nonempty_removeEndpointMapping (endpoint : E) (peer : PeerId)
    (h : ∀ other peers, endpoints.get? other = some peers → peers ≠ []) (other : E)
    (peers : List PeerId)
    (hget : (removeEndpointMapping endpoints peer endpoint).get? other = some peers) :
    peers ≠ [] := by
  rw [removeEndpointMapping] at hget
  split at hget
  · exact h other peers hget
  · split_ifs at hget with hempty
    · rw [HashMap.get?_remove] at hget
      split_ifs at hget
      exact h other peers hget
    · rw [HashMap.get?_insert] at hget
      split_ifs at hget
      · obtain rfl := Option.some.inj hget
        exact hempty
      · exact h other peers hget

/-! ### Installing a session -/

/-- The lists of the endpoints without the listing of the session of a peer. -/
def unlisted (runtime : Runtime E) (peer : PeerId) : HashMap E (List PeerId) :=
  match runtime.sessions.get? peer with
  | none => runtime.sessionEndpoints
  | some session => removeEndpointMapping runtime.sessionEndpoints peer session.endpoint

lemma endpoints_installSession {env : KeyPlatform E} {runtime runtime' : Runtime E} {secret : Key}
    {own remote : VerifiedHandshake E} {now : ℕ} {overlapping : Bool}
    (h : runtime.installSession env role secret own remote now overlapping = .ok runtime') :
    ∃ session : Session E, session.endpoint = remote.endpoint ∧
      runtime'.sessions = runtime.sessions.insert remote.peer session ∧
      runtime'.sessionEndpoints
        = insertEndpointMapping (runtime.unlisted remote.peer) remote.endpoint remote.peer := by
  simp only [installSession, bind_eq_ok] at h
  obtain ⟨keys, -, hresult⟩ := h
  obtain rfl := Except.ok.inj hresult
  exact ⟨_, rfl, rfl, rfl⟩

/-- Only a session at the new endpoint retires. -/
lemma endpoint_nextRetiring {endpoint : E} {now ttl : ℕ} {retiring : Option (RetiringSession E)}
    {previous : Option (Session E)} {lifetime : Option ℕ} {next : RetiringSession E}
    (h : nextRetiring role endpoint now ttl retiring previous lifetime = some next) :
    next.session.endpoint = endpoint := by
  unfold nextRetiring at h
  split at h
  · rename_i kept hkept
    obtain rfl := Option.some.inj h
    have hcondition := (Option.filter_eq_some_iff.mp hkept).2
    simp only [RetiringSession.usable, decide_eq_true_eq] at hcondition
    exact hcondition.2.2.1
  · split at h
    · split_ifs at h with hsame
      obtain rfl := Option.some.inj h
      exact hsame.1
    · cases h

/-! ### One call -/

namespace Consistent

variable {runtime runtime' : Runtime E}

lemma fresh (ttl maxReplayWindows : ℕ) : Consistent (freshRuntime ttl maxReplayWindows : Runtime E) :=
  ⟨rfl, by simp [freshRuntime], by simp [freshRuntime, listings, endpointOf], by simp [freshRuntime]⟩

lemma forgetAll (runtime : Runtime E) (peerText : PeerId → String) (order : KeyOrder PeerId) :
    (runtime.forgetAllSessions peerText order).2.Consistent :=
  ⟨rfl, by simp [forgetAllSessions], by simp [forgetAllSessions, listings, endpointOf],
    by simp [forgetAllSessions]⟩

section Steps

variable (h : runtime.Consistent)
include h

/-- A peer without a session has nothing in the other tables. -/
lemma lifetime_none (hnone : runtime.sessions.get? peer = none) :
    runtime.sessionLifetimes.get? peer = none := by
  refine Option.eq_none_iff_forall_ne_some.mpr fun lifetime hlifetime => ?_
  have hmem : peer ∈ runtime.sessions.keys := h.lifetimes ▸ HashMap.mem_keys.mpr ⟨lifetime, hlifetime⟩
  obtain ⟨session, hsession⟩ := HashMap.mem_keys.mp hmem
  rw [hnone] at hsession
  cases hsession

lemma retiring_none (hnone : runtime.sessions.get? peer = none) :
    runtime.retiringSessions.get? peer = none := by
  refine Option.eq_none_iff_forall_ne_some.mpr fun retiring hretiring => ?_
  have hendpoint := h.retiring peer retiring hretiring
  rw [endpointOf, hnone] at hendpoint
  cases hendpoint

lemma lifetime_some {session : Session E} (hsession : runtime.sessions.get? peer = some session) :
    ∃ lifetime, runtime.sessionLifetimes.get? peer = some lifetime :=
  HashMap.mem_keys.mp (h.lifetimes ▸ HashMap.mem_keys.mpr ⟨session, hsession⟩)

/-- A peer is listed nowhere but under the endpoint of its session, so the listing that
`install_session` removes is the only one. -/
lemma listings_unlisted_self (peer : PeerId) (endpoint : E) :
    listings (runtime.unlisted peer) endpoint peer = 0 := by
  rw [unlisted]
  split
  · rename_i hnone
    simp [h.listed, endpointOf, hnone]
  · rename_i session hsession
    rw [listings_removeEndpointMapping, h.listed, endpointOf, hsession]
    by_cases hendpoint : endpoint = session.endpoint
    · simp [hendpoint]
    · simp [hendpoint, Ne.symm hendpoint]

lemma listings_unlisted {other : PeerId} (hne : other ≠ peer) (endpoint : E) :
    listings (runtime.unlisted peer) endpoint other =
      if endpointOf runtime.sessions other = some endpoint then 1 else 0 := by
  rw [unlisted]
  split
  · exact h.listed endpoint other
  · rw [listings_removeEndpointMapping, if_neg fun hboth => hne hboth.2, h.listed]

lemma nonempty_unlisted (peer : PeerId) (endpoint : E) (peers : List PeerId)
    (hget : (runtime.unlisted peer).get? endpoint = some peers) : peers ≠ [] := by
  rw [unlisted] at hget
  split at hget
  · exact h.nonempty endpoint peers hget
  · exact nonempty_removeEndpointMapping _ _ h.nonempty endpoint peers hget

lemma install {env : KeyPlatform E} {secret : Key}
    {own remote : VerifiedHandshake E} {now : ℕ} {overlapping : Bool}
    (hinstalled : runtime.installSession env role secret own remote now overlapping = .ok runtime') :
    runtime'.Consistent := by
  obtain ⟨-, hlifetimes, -⟩ := sessions_installSession hinstalled
  obtain ⟨session, hendpoint, hsessions, hendpoints⟩ := endpoints_installSession hinstalled
  have hinserted : ∀ peer, endpointOf runtime'.sessions peer =
      if peer = remote.peer then some remote.endpoint else endpointOf runtime.sessions peer := by
    intro peer
    rw [hsessions, endpointOf, endpointOf, HashMap.get?_insert]
    split_ifs <;> simp [hendpoint]
  refine ⟨?_, fun peer retiring hretiring => ?_, fun endpoint peer => ?_, ?_⟩
  · rw [hlifetimes, hsessions, HashMap.keys_insert, HashMap.keys_insert, h.lifetimes]
  · rw [hinserted]
    rcases retiring_installSession hinstalled hretiring with ⟨hne, hold⟩ | ⟨rfl, -, hnext⟩
    · rw [if_neg hne]
      exact h.retiring peer retiring hold
    · rw [if_pos rfl, endpoint_nextRetiring hnext]
  · rw [hendpoints, listings_insertEndpointMapping (h.listings_unlisted_self _ _), hinserted]
    by_cases hpeer : peer = remote.peer
    · subst hpeer
      by_cases hsame : endpoint = remote.endpoint
      · simp [hsame]
      · simp [hsame, Ne.symm hsame, h.listings_unlisted_self]
    · simp [hpeer, h.listings_unlisted hpeer]
  · rw [hendpoints]
    exact nonempty_insertEndpointMapping _ _ (h.nonempty_unlisted _)

lemma setTtl (ttl : ℕ) : (runtime.setSessionTtl ttl).Consistent where
  lifetimes := (HashMap.keys_mapValues _ _).trans h.lifetimes
  retiring peer retiring hget := by
    simp only [setSessionTtl, HashMap.get?_mapValues, Option.map_eq_some_iff] at hget
    obtain ⟨before, hbefore, rfl⟩ := hget
    exact h.retiring peer before hbefore
  listed := h.listed
  nonempty := h.nonempty

lemma expireRetiring (now maxAge : ℕ) : (runtime.expireRetiring now maxAge).Consistent where
  lifetimes := h.lifetimes
  retiring peer retiring hget := by
    simp only [Runtime.expireRetiring, HashMap.get?_retain, HashMap.get?_mapValues,
      Option.filter_eq_some_iff, Option.map_eq_some_iff] at hget
    obtain ⟨⟨before, hbefore, rfl⟩, -⟩ := hget
    exact h.retiring peer before hbefore
  listed := h.listed
  nonempty := h.nonempty

/-- The session of a peer is removed from all four tables. -/
lemma without {session : Session E} (hsession : runtime.sessions.get? peer = some session) :
    Consistent
      { runtime with
        sessions := runtime.sessions.remove peer
        sessionLifetimes := runtime.sessionLifetimes.remove peer
        retiringSessions := runtime.retiringSessions.remove peer
        sessionEndpoints := removeEndpointMapping runtime.sessionEndpoints peer session.endpoint } where
  lifetimes := by rw [HashMap.keys_remove, HashMap.keys_remove, h.lifetimes]
  retiring other retiring hget := by
    rw [HashMap.get?_remove] at hget
    split_ifs at hget with hother
    rw [endpointOf, HashMap.get?_remove, if_neg hother]
    exact h.retiring other retiring hget
  listed endpoint other := by
    rw [listings_removeEndpointMapping, h.listed, endpointOf, endpointOf, HashMap.get?_remove]
    by_cases hother : other = peer
    · subst hother
      simp [hsession, eq_comm]
    · simp [hother]
  nonempty := nonempty_removeEndpointMapping _ _ h.nonempty

lemma forgetPeer (peer : PeerId) : (runtime.forgetPeer peer).2.Consistent := by
  rw [Runtime.forgetPeer]
  dsimp only
  split
  · rename_i hnone
    rw [HashMap.remove_eq_self (h.lifetime_none hnone), HashMap.remove_eq_self (h.retiring_none hnone)]
    exact h
  · rename_i session hsession
    exact h.without hsession

lemma removeSession (peer : PeerId) : (runtime.removeSession peer).2.Consistent := by
  rw [Runtime.removeSession]
  split
  · exact h
  · rename_i session hsession
    exact h.without hsession

lemma removeSessions (peers : List PeerId) : (runtime.removeSessions peers).2.Consistent := by
  have hfold : ∀ (removed : List (SessionSnapshot E)) (runtime : Runtime E), runtime.Consistent →
      (peers.foldl (fun (removed, runtime) peer =>
        (removed ++ (runtime.removeSession peer).1.toList.map Session.snapshot,
          (runtime.removeSession peer).2)) (removed, runtime)).2.Consistent := by
    induction peers with
    | nil => exact fun _ _ h => h
    | cons peer rest ih => exact fun _ _ h => ih _ _ (h.removeSession peer)
  exact hfold [] runtime h

/-- Every session has a lifetime, so the expiration of sessions never fails. -/
lemma expire (peerText : PeerId → String) (order : KeyOrder PeerId)
    (now maxAge : ℕ) : ∃ expired runtime',
      runtime.expireSessionsAt peerText order now maxAge = some (expired, runtime') ∧
      runtime'.Consistent := by
  obtain ⟨peers, hpeers, -⟩ := expiredPeers_eq_some order now maxAge
    fun peer session => (h.expireRetiring now maxAge).lifetime_some
  exact ⟨_, _, by simp only [expireSessionsAt, hpeers]; rfl,
    (h.expireRetiring now maxAge).removeSessions peers⟩

/-- One call; it never fails. -/
lemma perform (env : KeyPlatform E) (peerText : PeerId → String)
    (call : IndexCall E) : ∃ runtime', call.perform env peerText runtime = some runtime' ∧
      runtime'.Consistent := by
  cases call with
  | install role secret own remote now overlapping =>
    simp only [IndexCall.perform]
    split
    · exact ⟨runtime, rfl, h⟩
    · rename_i runtime' hinstalled
      exact ⟨runtime', rfl, h.install hinstalled⟩
  | forgetPeer peer => exact ⟨_, rfl, h.forgetPeer peer⟩
  | forgetAll order => exact ⟨_, rfl, forgetAll runtime peerText order⟩
  | setTtl ttl => exact ⟨_, rfl, h.setTtl ttl⟩
  | expire order now maxAge =>
    obtain ⟨expired, runtime', hexpire, hconsistent⟩ := h.expire peerText order now maxAge
    exact ⟨runtime', by rw [IndexCall.perform, hexpire]; rfl, hconsistent⟩

/-- Every run, from tables that belong together. -/
lemma run (env : KeyPlatform E) (peerText : PeerId → String) (calls : List (IndexCall E)) :
    ∃ runtime', calls.foldlM (fun runtime call => call.perform env peerText runtime) runtime
      = some runtime' ∧ runtime'.Consistent := by
  induction calls generalizing runtime with
  | nil => exact ⟨runtime, rfl, h⟩
  | cons call calls ih =>
    obtain ⟨next, hnext, hconsistent⟩ := h.perform env peerText call
    rw [List.foldlM_cons, hnext]
    exact ih hconsistent

lemma renewalDueForPeer (peer : PeerId) (now : ℕ) :
    ∃ due, runtime.renewalDueForPeer peer now = some due := by
  rw [Runtime.renewalDueForPeer]
  split
  · exact ⟨_, rfl⟩
  · rename_i session hsession
    obtain ⟨lifetime, hlifetime⟩ := h.lifetime_some hsession
    exact ⟨_, by rw [hlifetime]; rfl⟩

lemma renewalDuePeers (peerText : PeerId → String) (order : KeyOrder PeerId)
    (now : ℕ) : ∃ peers, runtime.renewalDuePeers peerText order now = some peers := by
  have hmap : ∀ peers : List PeerId, ∃ due, (peers.mapM fun peer => do
      let isDue ← runtime.renewalDueForPeer peer now
      pure (if isDue then some peer else none)) = some due := by
    intro peers
    induction peers with
    | nil => exact ⟨[], rfl⟩
    | cons peer rest ih =>
      obtain ⟨isDue, hisDue⟩ := h.renewalDueForPeer peer now
      obtain ⟨due, hdue⟩ := ih
      exact ⟨_ :: due, by rw [List.mapM_cons, hdue, hisDue]; rfl⟩
  obtain ⟨due, hdue⟩ := hmap (order.enumerate runtime.sessions.keys)
  exact ⟨_, by rw [Runtime.renewalDuePeers, hdue]; rfl⟩

end Steps

end Consistent

end Runtime

/-- **The tables of the sessions stay consistent.**  After any run from a fresh runtime, the sessions and
the lifetimes have the same peers, a session that retires belongs to a peer with a current session at the
same endpoint, a peer is listed once under the endpoint of its current session and nowhere else, and no
endpoint has an empty list.  So neither a renewal nor an expiration fails to find a lifetime. -/
theorem session_indexes_consistent (env : KeyPlatform E) (peerText : PeerId → String)
    (ttl maxReplayWindows : ℕ) (calls : List (IndexCall E)) :
    ∃ runtime, indexRun env peerText ttl maxReplayWindows calls = some runtime ∧
      runtime.sessionLifetimes.keys = runtime.sessions.keys ∧
      (∀ peer retiring, runtime.retiringSessions.get? peer = some retiring →
        ∃ session, runtime.sessions.get? peer = some session ∧
          session.endpoint = retiring.session.endpoint) ∧
      (∀ endpoint peer, ((runtime.sessionEndpoints.get? endpoint).getD []).count peer =
        if (runtime.sessions.get? peer).map Session.endpoint = some endpoint then 1 else 0) ∧
      (∀ endpoint peers, runtime.sessionEndpoints.get? endpoint = some peers → peers ≠ []) ∧
      (∀ peer now, ∃ due, runtime.renewalDueForPeer peer now = some due) ∧
      (∀ order now, ∃ peers, runtime.renewalDuePeers peerText order now = some peers) ∧
      ∀ order now maxAge, ∃ expired,
        runtime.expireSessionsAt peerText order now maxAge = some expired := by
  obtain ⟨runtime, hrun, h⟩ := (Runtime.Consistent.fresh ttl maxReplayWindows).run env peerText calls
  refine ⟨runtime, hrun, h.lifetimes, fun peer retiring hretiring => ?_, h.listed, h.nonempty,
    h.renewalDueForPeer, h.renewalDuePeers peerText, fun order now maxAge => ?_⟩
  · exact Option.map_eq_some_iff.mp (h.retiring peer retiring hretiring)
  · obtain ⟨expired, left, hexpire, -⟩ := h.expire peerText order now maxAge
    exact ⟨(expired, left), hexpire⟩

end P2pVpn.PacketPlane
