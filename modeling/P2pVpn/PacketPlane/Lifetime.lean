/-
# How long the keys of a session live

The lifetime of the key of a session is the time to live in force when it was installed.  It is
kept apart from the session, is lowered with the time to live but never raised again, and goes
along when the session moves to the retiring slot.  A run is a sequence of installations, changes
of the time to live and expirations; beside the runtime it remembers the time to live that was set
last and, for the key in each slot, those in force since the key was established.  After every
expiration each key that is left is younger than all of them (`key_lifetime_never_extended`).
-/
import P2pVpn.Lib.StableSort
import P2pVpn.PacketPlane.Rekey
import Mathlib.Data.String.Basic

namespace P2pVpn.PacketPlane

open Lib Net

variable {E : Type}

/-! ## Changing the time to live, and expiring -/

structure SessionSnapshot (E : Type) where
  peer : PeerId
  endpoint : E
  mtu : ℕ
  role : SessionRole
  localSessionId : ℕ
  remoteSessionId : ℕ
deriving DecidableEq, Repr

def Session.snapshot (session : Session E) : SessionSnapshot E where
  peer := session.peer
  endpoint := session.endpoint
  mtu := session.mtu
  role := session.role
  localSessionId := session.localSessionId
  remoteSessionId := session.remoteSessionId

/-- The session with a lifetime that is not above a bound. -/
def RetiringSession.bounded (bound : ℕ) (retiring : RetiringSession E) : RetiringSession E :=
  { retiring with lifetime := min retiring.lifetime bound }

namespace Runtime

/-- `set_session_ttl`. -/
def setSessionTtl (runtime : Runtime E) (ttl : ℕ) : Runtime E :=
  { runtime with
    sessionTtl := ttl
    sessionLifetimes := runtime.sessionLifetimes.mapValues (min · ttl)
    retiringSessions := runtime.retiringSessions.mapValues (RetiringSession.bounded ttl) }

/-- Lower the lifetimes of the retiring sessions and drop those that have reached theirs. -/
def expireRetiring (runtime : Runtime E) (now maxAge : ℕ) : Runtime E :=
  { runtime with
    retiringSessions := (runtime.retiringSessions.mapValues (RetiringSession.bounded maxAge)).retain
      fun retiring => now - retiring.session.establishedAt < retiring.lifetime }

/-- The peers whose session has reached its lifetime; every session has to have one. -/
def expiredPeers (order : KeyOrder PeerId) (runtime : Runtime E) (now maxAge : ℕ) :
    Option (List PeerId) := do
  let peers ← (order.entries runtime.sessions).mapM fun entry => do
    let lifetime ← runtime.sessionLifetimes.get? entry.1
    pure (if min lifetime maxAge ≤ now - entry.2.establishedAt then some entry.1 else none)
  pure (peers.filterMap id)

variable [DecidableEq E]

/-- Remove the session of a peer with everything that belongs to it. -/
def removeSession (runtime : Runtime E) (peer : PeerId) : Option (Session E) × Runtime E :=
  match runtime.sessions.get? peer with
  | none => (none, runtime)
  | some session =>
      (some session,
        { runtime with
          sessions := runtime.sessions.remove peer
          sessionLifetimes := runtime.sessionLifetimes.remove peer
          retiringSessions := runtime.retiringSessions.remove peer
          sessionEndpoints := removeEndpointMapping runtime.sessionEndpoints peer session.endpoint })

def removeSessions (runtime : Runtime E) (peers : List PeerId) :
    List (SessionSnapshot E) × Runtime E :=
  peers.foldl (fun (removed, runtime) peer =>
    (removed ++ (runtime.removeSession peer).1.toList.map Session.snapshot,
      (runtime.removeSession peer).2)) ([], runtime)

/-- `expire_sessions_at`, for an order of walking the sessions and a text of peers. -/
def expireSessionsAt (peerText : PeerId → String) (order : KeyOrder PeerId) (runtime : Runtime E)
    (now maxAge : ℕ) : Option (List (SessionSnapshot E) × Runtime E) := do
  let runtime := runtime.expireRetiring now maxAge
  let peers ← runtime.expiredPeers order now maxAge
  let (expired, runtime) := runtime.removeSessions peers
  pure (sortBy (fun snapshot => peerText snapshot.peer) expired, runtime)

end Runtime

/-! ## Runs -/

/-- When a key was established, and the times to live in force since then. -/
structure KeyHistory where
  establishedAt : ℕ
  ttls : List ℕ
deriving DecidableEq

inductive LifetimeCall (E : Type) where
  | install (role : SessionRole) (secret : Key) (own remote : VerifiedHandshake E) (now : ℕ)
      (overlapping : Bool)
  | setTtl (ttl : ℕ)
  | expire (order : KeyOrder PeerId) (now maxAge : ℕ)

/-- A runtime, the time to live in force according to the calls, and the histories of the keys in
the slots. -/
structure KeyTrace (E : Type) where
  runtime : Runtime E
  ttl : ℕ
  current : HashMap PeerId KeyHistory
  retiring : HashMap PeerId KeyHistory

/-- Another time to live is in force. -/
def KeyHistory.extend (ttl : ℕ) (history : KeyHistory) : KeyHistory :=
  { history with ttls := ttl :: history.ttls }

variable [DecidableEq E]

namespace KeyTrace

/-- The retiring key of a peer stays when another session is installed. -/
def keepsRetiring (t : KeyTrace E) (role : SessionRole) (remote : VerifiedHandshake E) (now : ℕ) :
    Bool :=
  (t.runtime.retiringSessions.get? remote.peer).any fun retiring =>
    role = .responder ∧ retiring.useForTx ∧ retiring.usable remote.endpoint now

/-- A session is installed: its key gets a new history, and the key in the retiring slot, if there
is one, is the one that was there or the one that was current. -/
def install (t : KeyTrace E) (role : SessionRole) (remote : VerifiedHandshake E) (now : ℕ)
    (runtime : Runtime E) : KeyTrace E where
  runtime := runtime
  ttl := t.ttl
  current := t.current.insert remote.peer ⟨now, [t.ttl]⟩
  retiring :=
    match if t.keepsRetiring role remote now then t.retiring.get? remote.peer
      else t.current.get? remote.peer with
    | none => t.retiring
    | some history => t.retiring.insert remote.peer history

end KeyTrace

section Runs

variable (env : KeyPlatform E) (peerText : PeerId → String)

/-- One call; an installation that fails changes nothing. -/
def LifetimeCall.perform (t : KeyTrace E) : LifetimeCall E → Option (KeyTrace E)
  | .install role secret own remote now overlapping =>
      match t.runtime.installSession env role secret own remote now overlapping with
      | .error _ => some t
      | .ok runtime => some (t.install role remote now runtime)
  | .setTtl ttl =>
      some
        { runtime := t.runtime.setSessionTtl ttl
          ttl := ttl
          current := t.current.mapValues (·.extend ttl)
          retiring := t.retiring.mapValues (·.extend ttl) }
  | .expire order now maxAge => do
      let (_, runtime) ← t.runtime.expireSessionsAt peerText order now maxAge
      pure { t with runtime := runtime }

/-- A runtime without sessions. -/
def freshRuntime (ttl maxReplayWindows : ℕ) : Runtime E where
  sessions := ∅
  sessionEndpoints := ∅
  maxReplayWindowsPerSession := maxReplayWindows
  sessionTtl := ttl
  sessionLifetimes := ∅
  retiringSessions := ∅

def lifetimeRun (ttl maxReplayWindows : ℕ) (calls : List (LifetimeCall E)) : Option (KeyTrace E) :=
  calls.foldlM (fun t call => call.perform env peerText t)
    ⟨freshRuntime ttl maxReplayWindows, ttl, ∅, ∅⟩

end Runs

/-! ## Removing sessions -/

variable {runtime : Runtime E} {history : KeyHistory} {role : SessionRole}
  {remote : VerifiedHandshake E}

namespace Runtime

variable {runtime : Runtime E}

/-- What is left when the sessions of some peers are removed. -/
structure Without (runtime runtime' : Runtime E) (peers : List PeerId) : Prop where
  sessions : ∀ peer, runtime'.sessions.get? peer =
    if peer ∈ peers then none else runtime.sessions.get? peer
  lifetimes : ∀ peer ∉ peers, runtime'.sessionLifetimes.get? peer =
    runtime.sessionLifetimes.get? peer
  retiring : ∀ peer retiring, runtime'.retiringSessions.get? peer = some retiring →
    runtime.retiringSessions.get? peer = some retiring
  ttl : runtime'.sessionTtl = runtime.sessionTtl

lemma without_removeSession (runtime : Runtime E) (peer : PeerId) :
    Without runtime (runtime.removeSession peer).2 [peer] := by
  unfold removeSession
  cases hsession : runtime.sessions.get? peer with
  | none =>
    refine ⟨fun other => ?_, fun _ _ => rfl, fun _ _ h => h, rfl⟩
    by_cases heq : other = peer <;> simp [heq, hsession]
  | some session =>
    refine ⟨fun other => ?_, fun other hne => ?_, fun other retiring h => ?_, rfl⟩
    · simp [HashMap.get?_remove]
    · rw [List.mem_singleton] at hne
      simp [HashMap.get?_remove, hne]
    · simp only [HashMap.get?_remove] at h
      split_ifs at h
      exact h

omit [DecidableEq E] in
lemma Without.trans {first second third : Runtime E} {peers rest : List PeerId}
    (h : Without first second peers) (h' : Without second third rest) :
    Without first third (peers ++ rest) where
  sessions peer := by
    rw [h'.sessions, h.sessions]
    by_cases hrest : peer ∈ rest <;> by_cases hpeers : peer ∈ peers <;> simp [hrest, hpeers]
  lifetimes peer hnot := by
    rw [List.mem_append, not_or] at hnot
    rw [h'.lifetimes peer hnot.2, h.lifetimes peer hnot.1]
  retiring peer retiring hget := h.retiring _ _ (h'.retiring _ _ hget)
  ttl := h'.ttl.trans h.ttl

lemma without_removeSessions (runtime : Runtime E) (peers : List PeerId) :
    Without runtime (runtime.removeSessions peers).2 peers := by
  have hfold : ∀ (removed : List (SessionSnapshot E)) (runtime : Runtime E),
      Without runtime (peers.foldl (fun (removed, runtime) peer =>
        (removed ++ (runtime.removeSession peer).1.toList.map Session.snapshot,
          (runtime.removeSession peer).2)) (removed, runtime)).2 peers := by
    induction peers with
    | nil => exact fun _ _ => ⟨fun _ => by simp, fun _ _ => rfl, fun _ _ h => h, rfl⟩
    | cons peer rest ih =>
      intro removed runtime
      exact (without_removeSession runtime peer).trans (ih _ _)
  exact hfold [] runtime

omit [DecidableEq E] in
/-- The expired sessions are those that have reached their lifetime. -/
lemma expiredPeers_eq_some (order : KeyOrder PeerId) (now maxAge : ℕ)
    (hlifetimes : ∀ peer session, runtime.sessions.get? peer = some session →
      ∃ lifetime, runtime.sessionLifetimes.get? peer = some lifetime) :
    ∃ peers, runtime.expiredPeers order now maxAge = some peers ∧
      ∀ peer session lifetime, runtime.sessions.get? peer = some session →
        runtime.sessionLifetimes.get? peer = some lifetime → peer ∉ peers →
        now - session.establishedAt < min lifetime maxAge := by
  have hmap : ∀ entries : List (PeerId × Session E),
      (∀ entry ∈ entries, ∃ lifetime, runtime.sessionLifetimes.get? entry.1 = some lifetime) →
      ∃ peers, (entries.mapM fun entry => do
          let lifetime ← runtime.sessionLifetimes.get? entry.1
          pure (if min lifetime maxAge ≤ now - entry.2.establishedAt then some entry.1
            else none)) = some peers ∧
        ∀ entry ∈ entries, ∀ lifetime, runtime.sessionLifetimes.get? entry.1 = some lifetime →
          min lifetime maxAge ≤ now - entry.2.establishedAt → some entry.1 ∈ peers := by
    intro entries hentries
    induction entries with
    | nil => exact ⟨[], rfl, fun _ h => absurd h List.not_mem_nil⟩
    | cons entry rest ih =>
      obtain ⟨⟨lifetime, hlifetime⟩, hrest⟩ := List.forall_mem_cons.mp hentries
      obtain ⟨peers, hpeers, hmem⟩ := ih hrest
      refine ⟨_ :: peers, by rw [List.mapM_cons, hpeers, hlifetime]; rfl, ?_⟩
      refine List.forall_mem_cons.mpr ⟨fun other hother hle => ?_, fun e he other hother hle =>
        List.mem_cons_of_mem _ (hmem e he other hother hle)⟩
      obtain rfl := Option.some.inj (hlifetime.symm.trans hother)
      rw [if_pos hle]
      exact List.mem_cons_self
  obtain ⟨peers, hpeers, hmem⟩ := hmap (order.entries runtime.sessions)
    fun entry hentry => hlifetimes _ _ (KeyOrder.mem_entries.mp hentry)
  refine ⟨peers.filterMap id, by rw [expiredPeers, hpeers]; rfl, ?_⟩
  intro peer session lifetime hsession hlifetime hnot
  by_contra hle
  refine hnot (List.mem_filterMap.mpr ⟨some peer, ?_, rfl⟩)
  exact hmem (peer, session) (KeyOrder.mem_entries.mpr hsession) lifetime hlifetime (not_lt.mp hle)

end Runtime

/-! ## The invariant -/

/-- The history of a key says when it was established, and its lifetime is not above any of the
times to live since. -/
structure KeyHistory.Covers (history : KeyHistory) (session : Session E) (lifetime : ℕ) : Prop where
  establishedAt_eq : history.establishedAt = session.establishedAt
  lifetime_le : ∀ ttl ∈ history.ttls, lifetime ≤ ttl

omit [DecidableEq E] in
lemma KeyHistory.Covers.mono {session : Session E} {lifetime lifetime' : ℕ}
    (h : history.Covers session lifetime) (hle : lifetime' ≤ lifetime) :
    history.Covers session lifetime' :=
  ⟨h.establishedAt_eq, fun ttl httl => hle.trans (h.lifetime_le ttl httl)⟩

omit [DecidableEq E] in
lemma KeyHistory.Covers.extend {session : Session E} {lifetime : ℕ}
    (h : history.Covers session lifetime) (ttl : ℕ) :
    (history.extend ttl).Covers session (min lifetime ttl) :=
  ⟨h.establishedAt_eq, List.forall_mem_cons.mpr ⟨min_le_right _ _, fun ttl' httl =>
    (min_le_left _ _).trans (h.lifetime_le ttl' httl)⟩⟩

structure KeyTrace.Tracked (t : KeyTrace E) : Prop where
  ttl : t.runtime.sessionTtl = t.ttl
  current : ∀ peer session, t.runtime.sessions.get? peer = some session →
    ∃ history lifetime, t.current.get? peer = some history ∧
      t.runtime.sessionLifetimes.get? peer = some lifetime ∧ history.Covers session lifetime
  retiring : ∀ peer retiring, t.runtime.retiringSessions.get? peer = some retiring →
    ∃ history, t.retiring.get? peer = some history ∧
      history.Covers retiring.session retiring.lifetime

/-! ## Installing a session -/

/-- The key that retires is the one that was retiring already, or the current one. -/
lemma Runtime.nextRetiring_eq_some {endpoint : E} {now ttl : ℕ}
    {retiring : Option (RetiringSession E)} {previous : Option (Session E)} {lifetime : Option ℕ}
    {next : RetiringSession E}
    (h : Runtime.nextRetiring role endpoint now ttl retiring previous lifetime = some next) :
    ((retiring.any fun retiring => role = .responder ∧ retiring.useForTx ∧
        retiring.usable endpoint now) = true ∧ retiring = some next) ∨
      ((retiring.any fun retiring => role = .responder ∧ retiring.useForTx ∧
        retiring.usable endpoint now) = false ∧
        ∃ session bound, previous = some session ∧ lifetime = some bound ∧
          next.session = session ∧ next.lifetime = min bound ttl) := by
  unfold Runtime.nextRetiring at h
  split at h
  · rename_i kept hkept
    obtain rfl := Option.some.inj h
    obtain ⟨hsome, hcondition⟩ := Option.filter_eq_some_iff.mp hkept
    exact .inl ⟨by rw [hsome]; exact hcondition, hsome⟩
  · rename_i hnone
    refine .inr ⟨?_, ?_⟩
    · cases retiring with
      | none => rfl
      | some retiring => simpa using hnone
    · split at h
      · rename_i session bound
        split_ifs at h
        obtain rfl := Option.some.inj h
        exact ⟨session, bound, rfl, rfl, rfl, rfl⟩
      · cases h

section Install

variable {env : KeyPlatform E} {runtime runtime' : Runtime E} {role : SessionRole} {secret : Key}
  {own remote : VerifiedHandshake E} {now : ℕ} {overlapping : Bool}

lemma Runtime.sessions_installSession
    (h : runtime.installSession env role secret own remote now overlapping = .ok runtime') :
    runtime'.sessionTtl = runtime.sessionTtl ∧
      runtime'.sessionLifetimes = runtime.sessionLifetimes.insert remote.peer runtime.sessionTtl ∧
      ∃ session : Session E, session.establishedAt = now ∧
        runtime'.sessions = runtime.sessions.insert remote.peer session := by
  simp only [Runtime.installSession, bind_eq_ok] at h
  obtain ⟨keys, -, hresult⟩ := h
  obtain rfl := Except.ok.inj hresult
  exact ⟨rfl, rfl, _, rfl, rfl⟩

lemma Runtime.retiring_installSession
    (h : runtime.installSession env role secret own remote now overlapping = .ok runtime')
    {peer : PeerId} {retiring : RetiringSession E}
    (hretiring : runtime'.retiringSessions.get? peer = some retiring) :
    (peer ≠ remote.peer ∧ runtime.retiringSessions.get? peer = some retiring) ∨
      (peer = remote.peer ∧ overlapping = true ∧
        Runtime.nextRetiring role remote.endpoint now runtime.sessionTtl
          (runtime.retiringSessions.get? remote.peer) (runtime.sessions.get? remote.peer)
          (runtime.sessionLifetimes.get? remote.peer) = some retiring) := by
  simp only [Runtime.installSession, bind_eq_ok] at h
  obtain ⟨keys, -, hresult⟩ := h
  obtain rfl := Except.ok.inj hresult
  dsimp only at hretiring
  split at hretiring
  · rw [HashMap.get?_remove] at hretiring
    split_ifs at hretiring with heq
    exact .inl ⟨heq, hretiring⟩
  · rename_i next hnext
    rw [HashMap.get?_insert] at hretiring
    split_ifs at hnext hretiring with hoverlapping heq
    · obtain rfl := Option.some.inj hretiring
      exact .inr ⟨heq, hoverlapping, hnext⟩
    · exact .inl ⟨heq, hretiring⟩

end Install

lemma KeyTrace.retiring_install_of_ne {t : KeyTrace E} {now : ℕ} {peer : PeerId}
    (hne : peer ≠ remote.peer) :
    (t.install role remote now runtime).retiring.get? peer = t.retiring.get? peer := by
  unfold KeyTrace.install
  dsimp only
  split
  · rfl
  · rw [HashMap.get?_insert_of_ne _ hne]

lemma KeyTrace.retiring_install {t : KeyTrace E} {now : ℕ}
    (h : (if t.keepsRetiring role remote now then t.retiring.get? remote.peer
      else t.current.get? remote.peer) = some history) :
    (t.install role remote now runtime).retiring.get? remote.peer = some history := by
  simp only [KeyTrace.install, h, HashMap.get?_insert_self]

namespace KeyTrace.Tracked

variable {t : KeyTrace E}

lemma install (h : t.Tracked) {env : KeyPlatform E} {runtime' : Runtime E} {secret : Key}
    {own : VerifiedHandshake E} {now : ℕ} {overlapping : Bool}
    (hinstalled : t.runtime.installSession env role secret own remote now overlapping =
      .ok runtime') : (t.install role remote now runtime').Tracked := by
  obtain ⟨httl, hlifetimes, session, hestablished, hsessions⟩ :=
    Runtime.sessions_installSession hinstalled
  refine ⟨httl.trans h.ttl, ?_, ?_⟩
  · intro peer current hcurrent
    simp only [KeyTrace.install, hlifetimes, hsessions, HashMap.get?_insert] at hcurrent ⊢
    split_ifs at hcurrent ⊢ with heq
    · obtain rfl := Option.some.inj hcurrent
      refine ⟨_, _, rfl, rfl, hestablished.symm, fun ttl hmem => ?_⟩
      rw [List.mem_singleton.mp hmem, h.ttl]
    · exact h.current peer current hcurrent
  · intro peer retiring hretiring
    rcases Runtime.retiring_installSession hinstalled hretiring with ⟨hne, hold⟩ | ⟨rfl, -, hnext⟩
    · rw [KeyTrace.retiring_install_of_ne hne]
      exact h.retiring peer retiring hold
    · rcases Runtime.nextRetiring_eq_some hnext with
        ⟨hkeeps, hold⟩ | ⟨hmoves, previous, bound, hprevious, hbound, hsession, hlifetime⟩
      · obtain ⟨history, hhistory, hcovers⟩ := h.retiring _ _ hold
        exact ⟨history, KeyTrace.retiring_install ((if_pos hkeeps).trans hhistory), hcovers⟩
      · obtain ⟨history, lifetime, hhistory, hstored, hcovers⟩ := h.current _ _ hprevious
        obtain rfl := Option.some.inj (hstored.symm.trans hbound)
        refine ⟨history, KeyTrace.retiring_install ?_, ?_⟩
        · rw [if_neg (by rw [KeyTrace.keepsRetiring, hmoves]; exact Bool.false_ne_true), hhistory]
        · rw [hsession, hlifetime]
          exact hcovers.mono (min_le_left _ _)

omit [DecidableEq E] in
lemma setTtl (h : t.Tracked) (ttl : ℕ) :
    Tracked { runtime := t.runtime.setSessionTtl ttl
              ttl := ttl
              current := t.current.mapValues (·.extend ttl)
              retiring := t.retiring.mapValues (·.extend ttl) } := by
  refine ⟨rfl, ?_, ?_⟩
  · intro peer session hsession
    obtain ⟨history, lifetime, hhistory, hlifetime, hcovers⟩ := h.current peer session hsession
    refine ⟨history.extend ttl, min lifetime ttl, ?_, ?_, hcovers.extend ttl⟩
    · rw [HashMap.get?_mapValues, hhistory, Option.map_some]
    · simp only [Runtime.setSessionTtl, HashMap.get?_mapValues, hlifetime, Option.map_some]
  · intro peer retiring hretiring
    simp only [Runtime.setSessionTtl, HashMap.get?_mapValues, Option.map_eq_some_iff] at hretiring
    obtain ⟨before, hbefore, rfl⟩ := hretiring
    obtain ⟨history, hhistory, hcovers⟩ := h.retiring peer before hbefore
    refine ⟨history.extend ttl, ?_, hcovers.extend ttl⟩
    rw [HashMap.get?_mapValues, hhistory, Option.map_some]

omit [DecidableEq E] in
/-- The retiring keys that are left are young. -/
lemma expireRetiring (h : t.Tracked) (now maxAge : ℕ) :
    Tracked { t with runtime := t.runtime.expireRetiring now maxAge } ∧
      ∀ peer retiring,
        (t.runtime.expireRetiring now maxAge).retiringSessions.get? peer = some retiring →
        now - retiring.session.establishedAt < retiring.lifetime ∧ retiring.lifetime ≤ maxAge := by
  have hleft : ∀ peer retiring,
      (t.runtime.expireRetiring now maxAge).retiringSessions.get? peer = some retiring →
      ∃ before, t.runtime.retiringSessions.get? peer = some before ∧
        retiring = before.bounded maxAge ∧
        now - retiring.session.establishedAt < retiring.lifetime := by
    intro peer retiring hretiring
    simp only [Runtime.expireRetiring, HashMap.get?_retain, HashMap.get?_mapValues,
      Option.filter_eq_some_iff, Option.map_eq_some_iff, decide_eq_true_eq] at hretiring
    obtain ⟨⟨before, hbefore, rfl⟩, hage⟩ := hretiring
    exact ⟨before, hbefore, rfl, hage⟩
  refine ⟨⟨h.ttl, h.current, ?_⟩, ?_⟩
  · intro peer retiring hretiring
    obtain ⟨before, hbefore, rfl, -⟩ := hleft peer retiring hretiring
    obtain ⟨history, hhistory, hcovers⟩ := h.retiring peer before hbefore
    exact ⟨history, hhistory, hcovers.mono (min_le_left _ _)⟩
  · intro peer retiring hretiring
    obtain ⟨before, -, rfl, hage⟩ := hleft peer retiring hretiring
    exact ⟨hage, min_le_right _ _⟩

omit [DecidableEq E] in
lemma without (h : t.Tracked) {peers : List PeerId} (hwithout : t.runtime.Without runtime peers) :
    Tracked { t with runtime := runtime } := by
  refine ⟨hwithout.ttl.trans h.ttl, fun peer session hsession => ?_,
    fun peer retiring hretiring => h.retiring _ _ (hwithout.retiring _ _ hretiring)⟩
  rw [hwithout.sessions] at hsession
  split_ifs at hsession with hmem
  rw [hwithout.lifetimes peer hmem]
  exact h.current peer session hsession

end KeyTrace.Tracked

/-- All keys of the runtime are younger than a bound and than all times to live in force since
they were established. -/
structure KeyTrace.Young (t : KeyTrace E) (now maxAge : ℕ) : Prop where
  current : ∀ peer session, t.runtime.sessions.get? peer = some session →
    ∃ history, t.current.get? peer = some history ∧
      history.establishedAt = session.establishedAt ∧
      now - session.establishedAt < maxAge ∧
      ∀ ttl ∈ history.ttls, now - session.establishedAt < ttl
  retiring : ∀ peer retiring, t.runtime.retiringSessions.get? peer = some retiring →
    ∃ history, t.retiring.get? peer = some history ∧
      history.establishedAt = retiring.session.establishedAt ∧
      now - retiring.session.establishedAt < maxAge ∧
      ∀ ttl ∈ history.ttls, now - retiring.session.establishedAt < ttl

variable {t : KeyTrace E}

/-- An expiration never fails, and leaves young keys only. -/
lemma KeyTrace.Tracked.expire (h : t.Tracked) (env : KeyPlatform E) (peerText : PeerId → String)
    (order : KeyOrder PeerId) (now maxAge : ℕ) :
    ∃ t', (LifetimeCall.expire order now maxAge).perform env peerText t = some t' ∧ t'.Tracked ∧
      t'.Young now maxAge := by
  obtain ⟨htracked, hretiring⟩ := h.expireRetiring now maxAge
  obtain ⟨peers, hpeers, hyoung⟩ := Runtime.expiredPeers_eq_some order now maxAge
    fun peer session hsession => by
      obtain ⟨-, lifetime, -, hlifetime, -⟩ := htracked.current peer session hsession
      exact ⟨lifetime, hlifetime⟩
  have hwithout := Runtime.without_removeSessions (t.runtime.expireRetiring now maxAge) peers
  have hleft := htracked.without hwithout
  refine ⟨_, by simp only [LifetimeCall.perform, Runtime.expireSessionsAt, hpeers]; rfl, hleft, ?_⟩
  refine ⟨fun peer session hsession => ?_, fun peer retiring hget => ?_⟩
  · obtain ⟨history, lifetime, hhistory, hlifetime, hcovers⟩ := hleft.current peer session hsession
    rw [hwithout.sessions] at hsession
    split_ifs at hsession with hmem
    rw [hwithout.lifetimes peer hmem] at hlifetime
    have hage := lt_min_iff.mp (hyoung peer session lifetime hsession hlifetime hmem)
    exact ⟨history, hhistory, hcovers.establishedAt_eq, hage.2, fun ttl httl =>
      hage.1.trans_le (hcovers.lifetime_le ttl httl)⟩
  · obtain ⟨history, hhistory, hcovers⟩ := hleft.retiring peer retiring hget
    obtain ⟨hage, hle⟩ := hretiring peer retiring (hwithout.retiring peer retiring hget)
    exact ⟨history, hhistory, hcovers.establishedAt_eq, hage.trans_le hle, fun ttl httl =>
      hage.trans_le (hcovers.lifetime_le ttl httl)⟩

/-- One call. -/
lemma KeyTrace.Tracked.perform (h : t.Tracked) (env : KeyPlatform E) (peerText : PeerId → String)
    (call : LifetimeCall E) : ∃ t', call.perform env peerText t = some t' ∧ t'.Tracked := by
  cases call with
  | install role secret own remote now overlapping =>
    simp only [LifetimeCall.perform]
    split
    · exact ⟨t, rfl, h⟩
    · rename_i runtime hinstalled
      exact ⟨_, rfl, h.install hinstalled⟩
  | setTtl ttl => exact ⟨_, rfl, h.setTtl ttl⟩
  | expire order now maxAge =>
    obtain ⟨t', hperform, htracked, -⟩ := h.expire env peerText order now maxAge
    exact ⟨t', hperform, htracked⟩

/-- Every run, from a trace that keeps track of its keys. -/
lemma KeyTrace.Tracked.run (h : t.Tracked) (env : KeyPlatform E) (peerText : PeerId → String)
    (calls : List (LifetimeCall E)) :
    ∃ t', calls.foldlM (fun t call => call.perform env peerText t) t = some t' ∧ t'.Tracked := by
  induction calls generalizing t with
  | nil => exact ⟨t, rfl, h⟩
  | cons call calls ih =>
    obtain ⟨next, hnext, htracked⟩ := h.perform env peerText call
    rw [List.foldlM_cons, hnext]
    exact ih htracked

/-- **Renewal never extends the lifetime of a key.**  After every expiration of a run, each key
that is left, current or retiring, is younger than the bound and than every time to live that was
in force since the key was established.  A session that moves to the retiring slot moves as it is,
with its time of establishment and its replay windows. -/
theorem key_lifetime_never_extended (env : KeyPlatform E) (peerText : PeerId → String) :
    (∀ ttl maxReplayWindows calls order now maxAge,
      ∃ t, lifetimeRun env peerText ttl maxReplayWindows (calls ++ [.expire order now maxAge]) =
        some t ∧ t.Young now maxAge) ∧
    ∀ (runtime runtime' : Runtime E) role secret own remote now overlapping,
      runtime.installSession env role secret own remote now overlapping = .ok runtime' →
      ∀ peer retiring, runtime'.retiringSessions.get? peer = some retiring →
        runtime.retiringSessions.get? peer = some retiring ∨
          ∃ session, runtime.sessions.get? peer = some session ∧ retiring.session = session := by
  refine ⟨?_, ?_⟩
  · intro ttl maxReplayWindows calls order now maxAge
    have hfresh : KeyTrace.Tracked
        (⟨freshRuntime ttl maxReplayWindows, ttl, ∅, ∅⟩ : KeyTrace E) :=
      ⟨rfl, fun _ _ hget => by simp [freshRuntime] at hget,
        fun _ _ hget => by simp [freshRuntime] at hget⟩
    obtain ⟨t, hrun, htracked⟩ := hfresh.run env peerText calls
    obtain ⟨t', hexpire, -, hyoung⟩ := htracked.expire env peerText order now maxAge
    refine ⟨t', ?_, hyoung⟩
    rw [lifetimeRun, List.foldlM_append, hrun]
    simpa using hexpire
  · intro runtime runtime' role secret own remote now overlapping hinstalled peer retiring hget
    rcases Runtime.retiring_installSession hinstalled hget with ⟨-, hold⟩ | ⟨rfl, -, hnext⟩
    · exact .inl hold
    · rcases Runtime.nextRetiring_eq_some hnext with
        ⟨-, hold⟩ | ⟨-, session, -, hsession, -, hmoved, -⟩
      · exact .inl hold
      · exact .inr ⟨session, hsession, hmoved⟩

/-- The time to live is lowered to ten seconds, and a session is installed. -/
def sampleLifetimeCalls : List (LifetimeCall ℕ) :=
  [.setTtl 10, .install .initiator 3 (sampleHello 3) (sampleAccept 4) 0 true]

/-- The key of that session is gone at `50`, although both the initial time to live and the bound of
the expiration are higher; and a renewal moves the session of a runtime to the retiring slot. -/
theorem sample_session_retires :
    (∃ t, lifetimeRun sampleKeyPlatform (fun _ => "") 1000 4 sampleLifetimeCalls = some t ∧
      (t.runtime.sessions.get? 2).isSome) ∧
    (∃ t, lifetimeRun sampleKeyPlatform (fun _ => "") 1000 4
        (sampleLifetimeCalls ++ [.expire .sorted 50 1000]) = some t ∧
      t.runtime.sessions.get? 2 = none) ∧
    ∃ runtime' retiring session,
      (sampleRuntime 2 7002 .initiator ⟨11, 12⟩).installSession sampleKeyPlatform .initiator 3
        (sampleHello 3) (sampleAccept 4) 10 true = .ok runtime' ∧
      runtime'.retiringSessions.get? 2 = some retiring ∧
      (sampleRuntime 2 7002 .initiator ⟨11, 12⟩).sessions.get? 2 = some session ∧
      retiring.session = session := by
  obtain ⟨hrun, hmoves⟩ := key_lifetime_never_extended sampleKeyPlatform fun _ => ""
  refine ⟨?_, ?_, ?_⟩
  · have hinstalled : (lifetimeRun sampleKeyPlatform (fun _ => "") 1000 4 sampleLifetimeCalls).any
        (fun t => (t.runtime.sessions.get? 2).isSome) = true := by
      decide +kernel
    obtain ⟨t, ht, hsession⟩ := (Option.any_eq_true _ _).mp hinstalled
    exact ⟨t, ht, hsession⟩
  · obtain ⟨t, ht, hyoung⟩ := hrun 1000 4 sampleLifetimeCalls .sorted 50 1000
    refine ⟨t, ht, Option.eq_none_iff_forall_ne_some.mpr fun session hsession => ?_⟩
    obtain ⟨history, hhistory, hestablished, -, hage⟩ := hyoung.current 2 session hsession
    have hvalue : (lifetimeRun sampleKeyPlatform (fun _ => "") 1000 4
        (sampleLifetimeCalls ++ [.expire .sorted 50 1000])).map (fun t => t.current.get? 2)
          = some (some ⟨0, [10]⟩) := by
      decide +kernel
    rw [ht, Option.map_some, hhistory] at hvalue
    obtain rfl := Option.some.inj (Option.some.inj hvalue)
    rw [← hestablished] at hage
    exact absurd (hage 10 (by simp)) (by decide)
  · have hretires : ((sampleRuntime 2 7002 .initiator ⟨11, 12⟩).installSession sampleKeyPlatform
        .initiator 3 (sampleHello 3) (sampleAccept 4) 10 true).toOption.any
          (fun runtime' => (runtime'.retiringSessions.get? 2).isSome) = true := by
      decide +kernel
    cases hinstalled : (sampleRuntime 2 7002 .initiator ⟨11, 12⟩).installSession sampleKeyPlatform
        .initiator 3 (sampleHello 3) (sampleAccept 4) 10 true with
    | error error =>
      rw [hinstalled] at hretires
      cases hretires
    | ok runtime' =>
      rw [hinstalled] at hretires
      obtain ⟨retiring, hretiring⟩ := Option.isSome_iff_exists.mp hretires
      rcases hmoves _ _ _ _ _ _ _ _ hinstalled 2 retiring hretiring with
        hold | ⟨session, hsession, hmoved⟩
      · exact absurd hold (by simp [sampleRuntime])
      · exact ⟨runtime', retiring, session, rfl, hretiring, hsession, hmoved⟩

end P2pVpn.PacketPlane
