/-
# Does the path matter?

A forwarder keeps a sanitized configuration: entries of peers that are not active are dropped, and
the others get the routes of their grants.  What it authorizes afterwards should be what a forwarder
built afresh from the original configuration authorizes.

It is, but for entries that were dropped when their peer was not active and that would matter again
now that it is: entries that cannot be read, which keep a fresh forwarder from being built, and an
entry of the local peer itself, which puts it among its own authorized peers
(`checkpoint_path_independent_iff`).
-/
import P2pVpn.Checkpoint.Sample
import P2pVpn.Forward.Coherence
import P2pVpn.Forward.Sanitized

namespace P2pVpn.Forward

open Lib Net P2pVpn.Membership P2pVpn.Checkpoint

variable {T K : Type} {env : SigningPlatform T K}

/-! ## Runs -/

/-- A state that was installed in a forwarder, and a time at which it was evaluated. -/
structure Evaluated where
  state : CooperativeMembershipState
  time : ℕ

variable [DecidableEq T]

/-- Whether a peer is active in the projection of a state. -/
def activeIn (env : SigningPlatform T K) (localPeer : PeerId) (evaluated : Evaluated)
    (peer : PeerId) : Bool :=
  match CheckpointProjection.fromState env evaluated.state localPeer
      evaluated.state.current.payload.anchor with
  | .ok projection => projection.activeAt peer evaluated.time
  | .error _ => false

/-- Outside its window, a refresh evaluates the last state again. -/
def evaluatedAgain (forwarder : Forwarder T) (history : List Evaluated) (now : ℕ) :
    List Evaluated :=
  if forwarder.membershipRefreshWindow.contains now then []
  else (history.getLast?.map fun last => ⟨last.state, now⟩).toList

/-- The forwarders built from a configuration by checkpoint updates and refreshes, with the
evaluations that led to them.  A state may be one that waits for a resynchronization. -/
inductive ProjectionRun (env : SigningPlatform T K) (config : Config) :
    List Evaluated → Forwarder T → Prop
  | fromConfig {now : ℕ} {order : Iteration} {forwarder : Forwarder T}
      (h : Forwarder.fromConfig env config now order = .ok forwarder) :
      ProjectionRun env config [] forwarder
  | fromCheckpointConfig {state : CooperativeMembershipState} {anchor : NetworkAnchor} {now : ℕ}
      {order : Iteration} {forwarder : Forwarder T}
      (h : Forwarder.fromCheckpointConfig env config state anchor now order = .ok forwarder) :
      ProjectionRun env config [⟨state, now⟩] forwarder
  | update {history : List Evaluated} {forwarder next : Forwarder T}
      {state : CooperativeMembershipState} {anchor : NetworkAnchor} {now : ℕ} {order : Iteration}
      {update : ForwarderUpdate T} (hrun : ProjectionRun env config history forwarder)
      (hprepare : forwarder.prepareCheckpointUpdate env state anchor now order = .ok update)
      (hcommit : forwarder.commitCheckpointUpdate env update = .ok next) :
      ProjectionRun env config (history ++ [⟨state, now⟩]) next
  | refresh {history : List Evaluated} {forwarder next : Forwarder T} {now : ℕ} {order : Iteration}
      {stats : MembershipRecordMergeStats} {changed : Bool}
      (hrun : ProjectionRun env config history forwarder)
      (h : forwarder.refreshMembershipRecords env now order = .ok (next, stats, changed)) :
      ProjectionRun env config (history ++ evaluatedAgain forwarder history now) next

/-- A configuration that was sanitized at every evaluation of a history. -/
inductive SanitizedAlong (env : SigningPlatform T K) (localPeer : PeerId) (config : Config) :
    List Evaluated → Config → Prop
  | nil : SanitizedAlong env localPeer config [] config
  | snoc {history : List Evaluated} {before after : Config} {evaluated : Evaluated}
      {projection : CheckpointProjection T}
      (hbefore : SanitizedAlong env localPeer config history before)
      (hprojection : CheckpointProjection.fromState env evaluated.state localPeer
        evaluated.state.current.payload.anchor = .ok projection)
      (hafter : projection.sanitizeConfig env before evaluated.time = .ok after) :
      SanitizedAlong env localPeer config (history ++ [evaluated]) after

/-- What a run keeps track of. -/
structure Tracks (env : SigningPlatform T K) (config : Config) (history : List Evaluated)
    (forwarder : Forwarder T) : Prop where
  holds : Holds env forwarder
  localPeer : config.localPeerId env = .ok forwarder.localPeer
  sanitized : SanitizedAlong env forwarder.localPeer config history forwarder.config
  empty : history = [] → forwarder.checkpoint = none
  last : ∀ evaluated, history.getLast? = some evaluated → ∃ projection order,
    CheckpointProjection.fromState env evaluated.state forwarder.localPeer
      evaluated.state.current.payload.anchor = .ok projection ∧
    forwarder.checkpoint = some projection ∧
    forwarder.membershipRefreshWindow = projection.refreshWindow order evaluated.time ∧
    ForwardingAuthorization.fromCheckpoint env forwarder.config
      (projection.membershipAt forwarder.localPeer evaluated.time) order = .ok forwarder.authorization

variable {config : Config} {history : List Evaluated} {forwarder : Forwarder T}
  {evaluated : Evaluated} {projection : CheckpointProjection T} {localPeer : PeerId}

/-- Installing a projection is one more evaluation. -/
lemma Tracks.snoc {next : Forwarder T} {order : Iteration} {update : ForwarderUpdate T}
    (h : Tracks env config history forwarder)
    (hprojection : CheckpointProjection.fromState env evaluated.state forwarder.localPeer
      evaluated.state.current.payload.anchor = .ok projection)
    (hprepare : forwarder.prepareCheckpointProjection env forwarder.config projection evaluated.time
      order = .ok update) (hcommit : forwarder.commitCheckpointUpdate env update = .ok next) :
    Tracks env config (history ++ [evaluated]) next := by
  obtain ⟨hlocal, hstanding⟩ := commitCheckpointUpdate_eq_ok hcommit
  have hcoherent := prepareCheckpointProjection_coherent (addressed_of_fromState hprojection) hprepare
  obtain ⟨-, hsanitized, hderived, hprepared⟩ := prepareCheckpointProjection_eq_ok hprepare
  rw [← hstanding, ← hlocal] at hcoherent
  rw [hprepared] at hstanding
  obtain ⟨hconfig, -, hauthorization, -, hcheckpoint, hwindow⟩ := Standing.mk.inj hstanding
  refine ⟨hcoherent, hlocal ▸ h.localPeer, ?_, fun hnil => absurd hnil (by simp), ?_⟩
  · rw [hlocal, hconfig]
    exact .snoc h.sanitized hprojection hsanitized
  · intro last hlast
    obtain rfl : evaluated = last := by simpa using hlast
    rw [hlocal, hconfig, hauthorization]
    exact ⟨projection, order.members, hprojection, hcheckpoint, hwindow, hderived⟩

/-- The program expects the anchor that the state has. -/
lemma fromState_anchor {state : CooperativeMembershipState} {anchor : NetworkAnchor}
    (h : CheckpointProjection.fromState env state localPeer anchor = .ok projection) :
    CheckpointProjection.fromState env state localPeer state.current.payload.anchor
      = .ok projection := by
  obtain ⟨transportPeer, roster, boundary, rank, members, hparse, hlocal, hanchor, hrest⟩ :=
    fromState_eq_ok.mp h
  exact fromState_eq_ok.mpr ⟨transportPeer, roster, boundary, rank, members, hparse, hlocal, rfl,
    hrest⟩

lemma Tracks.pruneOutsideWindow {pruned : Forwarder T} {now : ℕ} {order : Iteration}
    {stats : MembershipRecordMergeStats} (h : Tracks env config history forwarder)
    (hpruned : forwarder.pruneOutsideWindow env now order = .ok (pruned, stats)) :
    Tracks env config (history ++ evaluatedAgain forwarder history now) pruned := by
  unfold Forwarder.pruneOutsideWindow at hpruned
  unfold evaluatedAgain
  split at hpruned
  · rename_i hwindow
    obtain ⟨rfl, -⟩ := Prod.mk.inj (Except.ok.inj hpruned)
    rwa [if_pos hwindow, List.append_nil]
  · rename_i hwindow
    rw [if_neg hwindow]
    unfold Forwarder.pruneMembershipRecords Forwarder.mergeMembershipRecords at hpruned
    cases hlast : history.getLast? with
    | none =>
      obtain rfl := List.getLast?_eq_none_iff.mp hlast
      simp only [h.empty rfl, hwindow] at hpruned
      obtain ⟨trusted, -, hmerge⟩ := bind_eq_ok.mp hpruned
      obtain ⟨merged, derived, -, -, -, hlocal, hstanding⟩ := merge_eq_ok hmerge
      have hconfig : pruned.config = forwarder.config := congrArg Standing.config hstanding
      refine ⟨merge_holds h.holds.localPeer hmerge, hlocal ▸ h.localPeer, ?_,
        fun _ => congrArg Standing.checkpoint hstanding, by simp⟩
      rw [hlocal, hconfig]
      exact h.sanitized
    | some last =>
      obtain ⟨projection, order₀, hprojection, hcheckpoint, -⟩ := h.last last hlast
      simp only [hcheckpoint] at hpruned
      obtain ⟨_, -, hpruned⟩ := bind_eq_ok.mp hpruned
      obtain ⟨refreshed, hrefreshed, hpure⟩ := bind_eq_ok.mp hpruned
      obtain ⟨rfl, -⟩ := Prod.mk.inj (Except.ok.inj hpure)
      rw [Forwarder.refreshCheckpointProjection, if_neg hwindow] at hrefreshed
      obtain ⟨update, hprepare, hcommit⟩ := bind_eq_ok.mp hrefreshed
      have hagain : Tracks env config (history ++ [⟨last.state, now⟩]) refreshed :=
        h.snoc hprojection hprepare hcommit
      exact hagain

lemma tracks_of_run (h : ProjectionRun env config history forwarder) :
    Tracks env config history forwarder := by
  induction h with
  | fromConfig h =>
    have hholds := coherent_of_reachable (.fromConfig h)
    simp only [Forwarder.fromConfig, bind_eq_ok, mapError_eq_ok_iff, pure_eq_ok] at h
    obtain ⟨localPeer, hlocal, ⟨authorization, membership⟩, hderived, rfl⟩ := h
    exact ⟨hholds, hlocal, .nil, fun _ => rfl, by simp⟩
  | @fromCheckpointConfig state anchor now order forwarder h =>
    have hholds := coherent_of_reachable (.fromCheckpointConfig h)
    simp only [Forwarder.fromCheckpointConfig, bind_eq_ok, mapError_eq_ok_iff, pure_eq_ok] at h
    obtain ⟨localPeer, hlocal, projection, hprojection, sanitized, hsanitized, authorization,
      hderived, rfl⟩ := h
    have hprojection := fromState_anchor hprojection
    have halong : SanitizedAlong env localPeer config ([] ++ [⟨state, now⟩]) sanitized :=
      .snoc .nil hprojection hsanitized
    refine ⟨hholds, hlocal, halong, fun hnil => absurd hnil (by simp), ?_⟩
    intro last hlast
    obtain rfl : ⟨state, now⟩ = last := by simpa using hlast
    exact ⟨projection, order.members, hprojection, rfl, rfl, hderived⟩
  | update _ hprepare hcommit ih =>
    rw [Forwarder.prepareCheckpointUpdate, Forwarder.prepareCheckpointReconfigure, bind_eq_ok]
      at hprepare
    obtain ⟨projection, hprojection, hprepare⟩ := hprepare
    obtain ⟨_, -, hprepare⟩ := bind_eq_ok.mp hprepare
    exact ih.snoc (fromState_anchor hprojection) hprepare hcommit
  | refresh _ h ih =>
    obtain ⟨⟨pruned, stats'⟩, hpruned, hnext⟩ := bind_eq_ok.mp h
    obtain ⟨rfl, -⟩ := Prod.mk.inj (Except.ok.inj hnext)
    obtain ⟨hholds, hlocal, hsanitized, hempty, hlast⟩ := ih.pruneOutsideWindow hpruned
    exact ⟨hholds, hlocal, hsanitized, hempty, hlast⟩

/-! ## Entries along a run -/

/-- What is left of the configured peers after a history. -/
structure Survival (env : SigningPlatform T K) (localPeer : PeerId) (config : Config)
    (history : List Evaluated) (left : Config) : Prop where
  start : history = [] → left = config
  localPeerId : left.localPeerId env = config.localPeerId env
  kept : ∀ peer' ∈ left.peers, ∃ peer ∈ config.peers, peer'.id = peer.id
  active : ∀ peer' ∈ left.peers, ∀ id, peer'.peerId env = .ok id →
    ∀ evaluated ∈ history, activeIn env localPeer evaluated id = true
  survives : ∀ peer ∈ config.peers, ∀ id, peer.peerId env = .ok id →
    (∀ evaluated ∈ history, activeIn env localPeer evaluated id = true) →
    ∃ peer' ∈ left.peers, peer'.id = peer.id
  readable : history ≠ [] → AliasReadable config.network.vpnIp ∧
    ∀ peer ∈ config.peers, ∃ id, peer.peerId env = .ok id ∧
      ((∀ evaluated ∈ history, activeIn env localPeer evaluated id = true) →
        AliasReadable peer.vpnIp)

omit [DecidableEq T] in
lemma peerId_congr {peer peer' : PeerConfig} (h : peer'.id = peer.id) :
    peer'.peerId env = peer.peerId env := by
  rw [PeerConfig.peerId, PeerConfig.peerId, h]

lemma activeIn_of_fromState (h : CheckpointProjection.fromState env evaluated.state localPeer
      evaluated.state.current.payload.anchor = .ok projection) (peer : PeerId) :
    activeIn env localPeer evaluated peer = projection.activeAt peer evaluated.time := by
  rw [activeIn, h]

lemma survival_of_sanitizedAlong {left : Config}
    (h : SanitizedAlong env localPeer config history left) :
    Survival env localPeer config history left := by
  induction h with
  | nil =>
    exact ⟨fun _ => rfl, rfl, fun peer hpeer => ⟨peer, hpeer, rfl⟩, by simp,
      fun peer hpeer _ _ _ => ⟨peer, hpeer, rfl⟩, by simp⟩
  | @snoc history before after evaluated projection hbefore hprojection hafter ih =>
    have hlocal := localPeerId_of_sanitizeConfig hafter
    obtain ⟨localPeer', vpnIp, peers, -, hvpnIp, hfold, rfl⟩ := sanitizeConfig_eq_ok.mp hafter
    obtain ⟨hkept, hsurvive⟩ := mem_of_fold hfold
    have hactiveIn := activeIn_of_fromState hprojection
    refine ⟨by simp, hlocal.trans ih.localPeerId, fun peer' hpeer' => ?_,
      fun peer' hpeer' id hid e he => ?_, fun peer hpeer id hid hactive => ?_, fun _ => ?_⟩
    · obtain ⟨peer, hpeer, -, -, -, hsame⟩ := hkept peer' hpeer'
      obtain ⟨source, hsource, hsource'⟩ := ih.kept peer hpeer
      exact ⟨source, hsource, hsame.trans hsource'⟩
    · obtain ⟨peer, hpeer, id', hid', hactive, hsame⟩ := hkept peer' hpeer'
      obtain rfl : id' = id := Except.ok.inj (hid'.symm.trans ((peerId_congr hsame).symm.trans hid))
      rcases List.mem_append.mp he with he | he
      · exact ih.active peer hpeer id' hid' e he
      · rw [List.mem_singleton.mp he, hactiveIn]
        exact hactive
    · obtain ⟨peer₁, hpeer₁, hsame₁⟩ := ih.survives peer hpeer id hid
        fun e he => hactive e (List.mem_append_left _ he)
      obtain ⟨id', hid', hfacts⟩ := hsurvive peer₁ hpeer₁
      obtain rfl : id' = id := Except.ok.inj (hid'.symm.trans ((peerId_congr hsame₁).trans hid))
      have hnow := hactive evaluated (List.mem_append_right _ (List.mem_singleton_self _))
      rw [hactiveIn] at hnow
      obtain ⟨-, peer₂, hpeer₂, hsame₂⟩ := hfacts hnow
      exact ⟨peer₂, hpeer₂, hsame₂.trans hsame₁⟩
    · by_cases hnil : history = []
      · -- the first evaluation reads the configuration itself
        obtain rfl := ih.start hnil
        refine ⟨retainAlias_succeeds_iff.mp ⟨_, hvpnIp⟩, fun peer hpeer => ?_⟩
        obtain ⟨id, hid, hfacts⟩ := hsurvive peer hpeer
        refine ⟨id, hid, fun hactive => (hfacts ?_).1⟩
        rw [← hactiveIn]
        exact hactive evaluated (List.mem_append_right _ (List.mem_singleton_self _))
      · obtain ⟨hnetwork, hpeers⟩ := ih.readable hnil
        refine ⟨hnetwork, fun peer hpeer => ?_⟩
        obtain ⟨id, hid, hreadable⟩ := hpeers peer hpeer
        exact ⟨id, hid, fun hactive => hreadable fun e he => hactive e (List.mem_append_left _ he)⟩

/-- The last evaluation of a history. -/
lemma sanitizedAlong_snoc {left : Config}
    (h : SanitizedAlong env localPeer config (history ++ [evaluated]) left) :
    ∃ before projection, SanitizedAlong env localPeer config history before ∧
      CheckpointProjection.fromState env evaluated.state localPeer
        evaluated.state.current.payload.anchor = .ok projection ∧
      projection.sanitizeConfig env before evaluated.time = .ok left := by
  generalize hhistory : history ++ [evaluated] = whole at h
  cases h with
  | nil => simp at hhistory
  | snoc hbefore hprojection hafter =>
    obtain ⟨rfl, hlast⟩ := List.append_inj' hhistory rfl
    obtain rfl := List.singleton_inj.mp hlast
    exact ⟨_, _, hbefore, hprojection, hafter⟩

/-! ## Starting afresh -/

section Fresh

variable {config left fresh : Config} {history : List Evaluated} {last : Evaluated}
  {localPeer : PeerId} {projection : CheckpointProjection T}

/-- A peer that is active now was active all along, or was dropped before. -/
lemma active_or_dropped {id : PeerId} (hactive : activeIn env localPeer last id = true) :
    (∀ evaluated ∈ history ++ [last], activeIn env localPeer evaluated id = true) ∨
      ∃ earlier ∈ history, activeIn env localPeer earlier id = false := by
  by_cases hall : ∀ earlier ∈ history, activeIn env localPeer earlier id = true
  · refine Or.inl fun evaluated hevaluated => ?_
    rcases List.mem_append.mp hevaluated with hevaluated | hevaluated
    · exact hall evaluated hevaluated
    · rwa [List.mem_singleton.mp hevaluated]
  · simp only [not_forall, Bool.not_eq_true] at hall
    obtain ⟨earlier, hearlier, hinactive⟩ := hall
    exact Or.inr ⟨earlier, hearlier, hinactive⟩

/-- What sanitizing the original configuration keeps. -/
lemma mem_of_sanitizeConfig
    (hprojection : CheckpointProjection.fromState env last.state localPeer
      last.state.current.payload.anchor = .ok projection)
    (hfresh : projection.sanitizeConfig env config last.time = .ok fresh) :
    (∀ entry' ∈ fresh.peers, ∃ entry ∈ config.peers, ∃ id, entry.peerId env = .ok id ∧
      activeIn env localPeer last id = true ∧ entry'.id = entry.id) ∧
    ∀ entry ∈ config.peers, ∀ id, entry.peerId env = .ok id →
      activeIn env localPeer last id = true →
      AliasReadable entry.vpnIp ∧ ∃ entry' ∈ fresh.peers, entry'.id = entry.id := by
  obtain ⟨_, vpnIp, peers, -, -, hfold, rfl⟩ := sanitizeConfig_eq_ok.mp hfresh
  obtain ⟨hkept, hsurvive⟩ := mem_of_fold hfold
  simp only [activeIn_of_fromState hprojection]
  refine ⟨hkept, fun entry hentry id hid hactive => ?_⟩
  obtain ⟨id', hid', hfacts⟩ := hsurvive entry hentry
  obtain rfl : id' = id := Except.ok.inj (hid'.symm.trans hid)
  exact hfacts hactive

omit [DecidableEq T] in
lemma DistinctConfigured.of_ids (h : DistinctConfigured env config)
    (hids : ∀ entry' ∈ left.peers, ∃ entry ∈ config.peers, entry'.id = entry.id) :
    DistinctConfigured env left := by
  intro a ha b hb x y hx hy hsame
  obtain ⟨a', ha', hida⟩ := hids a ha
  obtain ⟨b', hb', hidb⟩ := hids b hb
  exact h a' ha' b' hb' x y (hida ▸ hx) (hidb ▸ hy) hsame

omit [DecidableEq T] in
lemma peerId_of_parsePeerId {entry : PeerConfig} {transportPeer : T}
    (h : env.parsePeerId entry.id = some transportPeer) :
    entry.peerId env = .ok (fromLibp2p env.toPlatform transportPeer) := by
  rw [PeerConfig.peerId, peerIdFromStr, h]
  rfl

/-- The entries that were dropped while their peer was not active and that count again can be read,
and none of them is the local peer's own. -/
def DroppedHarmless (env : SigningPlatform T K) (localPeer : PeerId) (config : Config)
    (history : List Evaluated) (last : Evaluated) : Prop :=
  ∀ entry ∈ config.peers, ∀ id, entry.peerId env = .ok id →
    activeIn env localPeer last id = true →
    (∃ earlier ∈ history, activeIn env localPeer earlier id = false) →
    (∃ transportPeer, env.parsePeerId entry.id = some transportPeer) ∧ AliasReadable entry.vpnIp ∧
      (id = localPeer → last.state.syncState ≠ .participating)

/-- The same authorized peers and the same routes. -/
def SameAuthorized (authorization authorization' : ForwardingAuthorization T) : Prop :=
  authorization.authorizedPeers = authorization'.authorizedPeers ∧
    ∀ route, route ∈ authorization.routes.routes ↔ route ∈ authorization'.routes.routes

variable {authorization : ForwardingAuthorization T} {order order' : KeyOrder PeerId}

/-- A forwarder that starts with a configuration. -/
lemma fromCheckpointConfig_eq_ok {state : CooperativeMembershipState} {anchor : NetworkAnchor}
    {now : ℕ} {order : Iteration} (hlocal : config.localPeerId env = .ok localPeer)
    (hprojection : CheckpointProjection.fromState env state localPeer anchor = .ok projection) :
    (∃ forwarder, Forwarder.fromCheckpointConfig env config state anchor now order = .ok forwarder ∧
        forwarder.authorization = authorization) ↔
      ∃ sanitized, projection.sanitizeConfig env config now = .ok sanitized ∧
        ForwardingAuthorization.fromCheckpoint env sanitized (projection.membershipAt localPeer now)
          order.members = .ok authorization := by
  simp only [Forwarder.fromCheckpointConfig, bind_eq_ok, mapError_eq_ok_iff, pure_eq_ok, hlocal,
    hprojection, Except.ok.injEq, exists_eq_left']
  constructor
  · rintro ⟨forwarder, ⟨sanitized, hsanitized, _, hderived, rfl⟩, rfl⟩
    exact ⟨sanitized, hsanitized, hderived⟩
  · rintro ⟨sanitized, hsanitized, hderived⟩
    exact ⟨_, ⟨sanitized, hsanitized, authorization, hderived, rfl⟩, rfl⟩

variable (hsurvival : Survival env localPeer config (history ++ [last]) left)
  (hlocal : config.localPeerId env = .ok localPeer)
  (hprojection : CheckpointProjection.fromState env last.state localPeer
    last.state.current.payload.anchor = .ok projection)

include hsurvival hlocal hprojection

/-- If what was dropped is harmless, the original configuration can be sanitized. -/
lemma exists_sanitizeConfig (hharmless : DroppedHarmless env localPeer config history last) :
    ∃ fresh, projection.sanitizeConfig env config last.time = .ok fresh := by
  obtain ⟨hnetwork, hpeers⟩ := hsurvival.readable (by simp)
  obtain ⟨vpnIp, hvpnIp⟩ := retainAlias_succeeds_iff.mpr hnetwork
  have hreadable : ∀ entry ∈ config.peers, ∃ id, entry.peerId env = .ok id ∧
      (projection.activeAt id last.time = true → AliasReadable entry.vpnIp) := by
    intro entry hentry
    obtain ⟨id, hid, hreadable⟩ := hpeers entry hentry
    refine ⟨id, hid, fun hactive => ?_⟩
    rw [← activeIn_of_fromState hprojection] at hactive
    rcases active_or_dropped hactive with hall | hdropped
    · exact hreadable hall
    · exact (hharmless entry hentry id hid hactive hdropped).2.1
  obtain ⟨peers, hfold⟩ := fold_succeeds_iff.mpr hreadable
  exact ⟨_, sanitizeConfig_eq_ok.mpr ⟨localPeer, vpnIp, peers, hlocal, hvpnIp, hfold, rfl⟩⟩

variable (hroster : DistinctRoster env last.state) (hconfigured : DistinctConfigured env config)
  (hfresh : projection.sanitizeConfig env config last.time = .ok fresh)

include hroster hconfigured hfresh

/-- A forwarder that authorizes the same after starting afresh dropped nothing that counts. -/
lemma droppedHarmless_of_sameAuthorized {authorization' : ForwardingAuthorization T}
    (hderived : ForwardingAuthorization.fromCheckpoint env left
      (projection.membershipAt localPeer last.time) order = .ok authorization)
    (hderived' : ForwardingAuthorization.fromCheckpoint env fresh
      (projection.membershipAt localPeer last.time) order' = .ok authorization')
    (hsame : authorization'.authorizedPeers = authorization.authorizedPeers) :
    DroppedHarmless env localPeer config history last := by
  rintro entry hentry id hid hactive ⟨earlier, hearlier, hinactive⟩
  have hprojected := projected_of_fromState hroster hprojection
  have hm := checkpointMembership_of_projected hprojected hroster last.time
  obtain ⟨hkept, hsurvive⟩ := mem_of_sanitizeConfig hprojection hfresh
  obtain ⟨hreadable, entry', hentry', hidText⟩ := hsurvive entry hentry id hid hactive
  obtain ⟨_, _, peers, hlocalLeft, -, hpeers, rfl⟩ := fromCheckpoint_eq_ok.mp hderived
  obtain ⟨_, _, peers', hlocalFresh, -, hpeers', rfl⟩ := fromCheckpoint_eq_ok.mp hderived'
  have hlocalLeft : left.localPeerId env = .ok localPeer := hsurvival.localPeerId.trans hlocal
  have hlocalFresh : fresh.localPeerId env = .ok localPeer :=
    (localPeerId_of_sanitizeConfig hfresh).trans hlocal
  obtain ⟨transportPeer, hparse⟩ := (transportPeers_succeeds_iff.mp ⟨_, hpeers'⟩).2 entry' hentry'
  refine ⟨⟨transportPeer, hidText ▸ hparse⟩, hreadable, ?_⟩
  rintro rfl hparticipating
  have hself : fromLibp2p env.toPlatform transportPeer = id :=
    Except.ok.inj ((peerId_of_parsePeerId (hidText ▸ hparse)).symm.trans hid)
  have hmember := (isOverlayMember_local hprojected hroster last.time).mpr
    ⟨hparticipating, by rwa [← activeIn_of_fromState hprojection]⟩
  have hdistinct := hconfigured.of_ids fun a ha => by
    obtain ⟨b, hb, -, -, -, hsame⟩ := hkept a ha
    exact ⟨b, hb, hsame⟩
  have hfound := (get?_transportPeers_local hm hdistinct hlocalFresh hpeers').mpr
    ⟨hmember, entry', hentry', hparse, hself⟩
  -- so the local peer is also among its own peers at the end of the run, where it was dropped
  have hauthorized : transportPeer ∈ authorizedPeersFromTransportPeers peers := by
    have hmem := mem_authorizedPeersFromTransportPeers.mpr ⟨id, hfound⟩
    exact (Finset.ext_iff.mp hsame transportPeer).mp hmem
  obtain ⟨key, hkey⟩ := mem_authorizedPeersFromTransportPeers.mp hauthorized
  have hdistinctLeft := hconfigured.of_ids hsurvival.kept
  obtain rfl := (fromLibp2p_of_transportPeers hm.filed hpeers hkey).symm.trans hself
  obtain ⟨-, survivor, hsurvivor, hsurvivorParse, -⟩ :=
    (get?_transportPeers_local hm hdistinctLeft hlocalLeft hpeers).mp hkey
  have hkeptActive := hsurvival.active survivor hsurvivor key
    ((peerId_of_parsePeerId hsurvivorParse).trans (congrArg Except.ok hself))
    earlier (List.mem_append_left _ hearlier)
  exact absurd (hkeptActive.symm.trans hinactive) (by decide)

/-- If what was dropped is harmless, a fresh start has the same transport peers. -/
lemma transportPeers_fresh {peers : HashMap PeerId T}
    (hpeers : transportPeersFromMembership env left (projection.membershipAt localPeer last.time)
      order = .ok peers) (hharmless : DroppedHarmless env localPeer config history last) :
    transportPeersFromMembership env fresh (projection.membershipAt localPeer last.time) order'
      = .ok peers := by
  have hleft : left.localPeerId env = .ok localPeer := hsurvival.localPeerId.trans hlocal
  have hown : fresh.localPeerId env = .ok localPeer :=
    (localPeerId_of_sanitizeConfig hfresh).trans hlocal
  have hprojected := projected_of_fromState hroster hprojection
  have hm := checkpointMembership_of_projected hprojected hroster last.time
  obtain ⟨hkept, hsurvive⟩ := mem_of_sanitizeConfig hprojection hfresh
  obtain ⟨peers', hpeers'⟩ : ∃ peers', transportPeersFromMembership env fresh
      (projection.membershipAt localPeer last.time) order' = .ok peers' := by
    obtain ⟨-, hparses⟩ := transportPeers_succeeds_iff.mp ⟨_, hpeers⟩
    refine transportPeers_succeeds_iff.mpr ⟨⟨localPeer, hown⟩, fun entry' hentry' => ?_⟩
    obtain ⟨entry, hentry, id, hid, hactive, hsame⟩ := hkept entry' hentry'
    rw [hsame]
    rcases active_or_dropped hactive with hall | hdropped
    · obtain ⟨survivor, hsurvivor, hsurvivorId⟩ := hsurvival.survives entry hentry id hid hall
      exact hsurvivorId ▸ hparses survivor hsurvivor
    · exact (hharmless entry hentry id hid hactive hdropped).1
  have hdistinct := hconfigured.of_ids fun a ha => by
    obtain ⟨b, hb, -, -, -, hsame⟩ := hkept a ha
    exact ⟨b, hb, hsame⟩
  rw [hpeers']
  congr 1
  ext peer transportPeer : 2
  by_cases hpeer : peer = localPeer
  · subst hpeer
    rw [get?_transportPeers_local hm hdistinct hown hpeers',
      get?_transportPeers_local hm (hconfigured.of_ids hsurvival.kept) hleft hpeers]
    refine and_congr_right fun hoverlay => ?_
    obtain ⟨hparticipating, hactiveNow⟩ :=
      (isOverlayMember_local hprojected hroster last.time).mp hoverlay
    constructor
    · rintro ⟨entry', hentry', hparse, hself⟩
      obtain ⟨entry, hentry, id, hid, hactive, hsame⟩ := hkept entry' hentry'
      rw [hsame] at hparse
      obtain rfl : id = peer := Except.ok.inj
        (hid.symm.trans ((peerId_of_parsePeerId hparse).trans (congrArg Except.ok hself)))
      rcases active_or_dropped hactive with hall | hdropped
      · obtain ⟨survivor, hsurvivor, hsurvivorId⟩ := hsurvival.survives entry hentry id hid hall
        exact ⟨survivor, hsurvivor, hsurvivorId ▸ hparse, hself⟩
      · exact absurd hparticipating ((hharmless entry hentry id hid hactive hdropped).2.2 rfl)
    · rintro ⟨survivor, hsurvivor, hparse, hself⟩
      obtain ⟨entry, hentry, hsame⟩ := hsurvival.kept survivor hsurvivor
      rw [hsame] at hparse
      obtain ⟨-, entry', hentry', hsame'⟩ := hsurvive entry hentry peer
        ((peerId_of_parsePeerId hparse).trans (congrArg Except.ok hself))
        (by rwa [activeIn_of_fromState hprojection])
      exact ⟨entry', hentry', hsame' ▸ hparse, hself⟩
  · rw [get?_transportPeers_sanitized hm hown hpeers' hpeer,
      get?_transportPeers_sanitized hm hleft hpeers hpeer]

/-- If what was dropped is harmless, a fresh start authorizes the same. -/
lemma sameAuthorized_of_droppedHarmless {before : Config}
    (hbefore : before.localPeerId env = .ok localPeer)
    (hleft : projection.sanitizeConfig env before last.time = .ok left)
    (hderived : ForwardingAuthorization.fromCheckpoint env left
      (projection.membershipAt localPeer last.time) order = .ok authorization)
    (hharmless : DroppedHarmless env localPeer config history last) :
    ∃ authorization', ForwardingAuthorization.fromCheckpoint env fresh
        (projection.membershipAt localPeer last.time) order' = .ok authorization' ∧
      SameAuthorized authorization' authorization := by
  have hprojected := projected_of_fromState hroster hprojection
  have hm := checkpointMembership_of_projected hprojected hroster last.time
  have hs := sanitizedFor_of_sanitizeConfig hbefore hleft
  have hs' := sanitizedFor_of_sanitizeConfig hlocal hfresh
  obtain ⟨own, routes, peers, hown, hroutes, hpeers, rfl⟩ := fromCheckpoint_eq_ok.mp hderived
  obtain rfl : own = localPeer := Except.ok.inj (hown.symm.trans hs.own)
  have hpeers' : transportPeersFromMembership env fresh
      (projection.membershipAt own last.time) order' = .ok peers :=
    transportPeers_fresh hsurvival hlocal hprojection hroster hconfigured hfresh hpeers hharmless
  rw [hm.authorizes] at hroutes
  have hroutes' : ∃ routes', (if isOverlayMember (projection.membershipAt own last.time) own then
      fresh.compileRoutesWithMembership env (projection.membershipAt own last.time) order'
      else .ok ⟨[]⟩) = .ok routes' ∧ ∀ route, route ∈ routes'.routes ↔ route ∈ routes.routes := by
    split at hroutes
    · rename_i hoverlay
      rw [if_pos hoverlay]
      exact compileRoutes_sanitized hm hs hs' hoverlay hroutes
    · rename_i hoverlay
      rw [if_neg hoverlay]
      exact ⟨routes, hroutes, fun _ => Iff.rfl⟩
  obtain ⟨routes', hroutes', hsameRoutes⟩ := hroutes'
  refine ⟨.assemble routes' peers, fromCheckpoint_eq_ok.mpr ⟨own, routes', peers, hs'.own, ?_,
    hpeers', rfl⟩, rfl, hsameRoutes⟩
  rwa [hm.authorizes]

end Fresh

/-- **A projection has the members of its checkpoint, and a run authorizes what a fresh start would,
if and only if nothing that was dropped on the way counts again**: at any time the members of a
projection are those of the state, and at the end of any run of updates and refreshes the authorized
peers and the routes are those of a forwarder that is built from the original configuration and the
last state, exactly when every entry that was dropped while its peer was not active, and whose peer
is active now, can be read and is not the local peer's own. -/
theorem checkpoint_path_independent_iff (env : SigningPlatform T K) :
    (∀ state localPeer anchor projection now,
      CheckpointProjection.fromState env state localPeer anchor = .ok projection →
      DistinctRoster env state →
      state.effectiveMembershipAt env.toCheckpointPlatform now
        = .ok (projection.membershipAt localPeer now)) ∧
    ∀ config history last forwarder order, ProjectionRun env config (history ++ [last]) forwarder →
      DistinctRoster env last.state → DistinctConfigured env config →
      ((∃ fresh, Forwarder.fromCheckpointConfig env config last.state
          last.state.current.payload.anchor last.time order = .ok fresh ∧
          SameAuthorized fresh.authorization forwarder.authorization) ↔
        DroppedHarmless env forwarder.localPeer config history last) := by
  refine ⟨fun state localPeer anchor projection now hprojection hroster =>
    membershipAt_eq_effectiveMembershipAt (projected_of_fromState hroster hprojection) hroster now,
    fun config history last forwarder order hrun hroster hconfigured => ?_⟩
  have htracks := tracks_of_run hrun
  have hsurvival := survival_of_sanitizedAlong htracks.sanitized
  obtain ⟨before, projection, hbefore, hprojection, hleft⟩ := sanitizedAlong_snoc htracks.sanitized
  obtain ⟨projection', order', hprojection', -, -, hderived⟩ := htracks.last last (by simp)
  obtain rfl := Except.ok.inj (hprojection'.symm.trans hprojection)
  have hlocalBefore : before.localPeerId env = .ok forwarder.localPeer :=
    (survival_of_sanitizedAlong hbefore).localPeerId.trans htracks.localPeer
  constructor
  · rintro ⟨fresh, hfresh, hsame⟩
    obtain ⟨sanitized, hsanitized, hderived'⟩ :=
      (fromCheckpointConfig_eq_ok htracks.localPeer hprojection).mp ⟨fresh, hfresh, rfl⟩
    exact droppedHarmless_of_sameAuthorized hsurvival htracks.localPeer hprojection hroster
      hconfigured hsanitized hderived hderived' hsame.1
  · intro hharmless
    obtain ⟨sanitized, hsanitized⟩ :=
      exists_sanitizeConfig hsurvival htracks.localPeer hprojection hharmless
    obtain ⟨authorization', hderived', hsame⟩ := sameAuthorized_of_droppedHarmless hsurvival
      htracks.localPeer hprojection hroster hconfigured hsanitized hlocalBefore hleft hderived hharmless
    obtain ⟨fresh, hfresh, rfl⟩ := (fromCheckpointConfig_eq_ok htracks.localPeer hprojection).mpr
      ⟨sanitized, hsanitized, hderived'⟩
    exact ⟨fresh, hfresh, hsame⟩

/-! ## A readmission -/

/-- The node of `A`, with one configured peer. -/
def listingConfig (listed : SamplePeer) : Config where
  network := { sampleConfig.network with memberRecords := [] }
  peers := [⟨SamplePeer.text listed, none, []⟩]

/-- `A` as it stands in a network with the given peers. -/
def standingState (revision : ℕ) (peers : List SamplePeer) (syncState : MembershipSyncState) :
    CooperativeMembershipState :=
  { sampleState with
    current := sampleAuthenticated revision peers
    names := []
    syncState := syncState }

/-- `A` is excluded, together with `C`. -/
def removed : Evaluated := ⟨standingState 0 [.B] .excluded, 10⟩

/-- `A` and `C` are back. -/
def readmitted : Evaluated := ⟨standingState 1 [.B, .A, .C] .participating, 20⟩

/-- The forwarder of `A` after it was readmitted. -/
def readmission (config : Config) : Except ForwardError (Forwarder SamplePeer) := do
  let forwarder ← Forwarder.fromCheckpointConfig sampleSigning config removed.state sampleAnchor
    removed.time sampleOrder
  let update ← forwarder.prepareCheckpointUpdate sampleSigning readmitted.state sampleAnchor
    readmitted.time sampleOrder
  forwarder.commitCheckpointUpdate sampleSigning update

lemma readmission_run {forwarder : Forwarder SamplePeer} (h : readmission config = .ok forwarder) :
    ProjectionRun sampleSigning config ([removed] ++ [readmitted]) forwarder := by
  obtain ⟨start, hstart, h⟩ := bind_eq_ok.mp h
  obtain ⟨update, hprepare, hcommit⟩ := bind_eq_ok.mp h
  exact .update (.fromCheckpointConfig hstart) hprepare hcommit

/-- An entry for `C` is dropped with `C`, and nothing depends on it when `C` is back. -/
theorem readmission_of_listed_member :
    ∃ forwarder fresh,
      ProjectionRun sampleSigning (listingConfig .C) ([removed] ++ [readmitted]) forwarder ∧
      Forwarder.fromCheckpointConfig sampleSigning (listingConfig .C) readmitted.state sampleAnchor
        readmitted.time sampleOrder = .ok fresh ∧
      SameAuthorized fresh.authorization forwarder.authorization := by
  obtain ⟨forwarder, hforwarder, hlocal⟩ := exists_ok_of_any
    (p := fun forwarder => forwarder.localPeer = fromLibp2p sampleSigning.toPlatform .A)
    (x := readmission (listingConfig .C)) (by decide +kernel)
  have hrun := readmission_run hforwarder
  have hconfigured : DistinctConfigured sampleSigning (listingConfig .C) := by
    intro entry hentry entry' hentry' peer peer' hpeer hpeer' _
    obtain rfl := List.mem_singleton.mp hentry
    obtain rfl := List.mem_singleton.mp hentry'
    exact Option.some.inj (hpeer.symm.trans hpeer')
  have hharmless :
      DroppedHarmless sampleSigning forwarder.localPeer (listingConfig .C) [removed] readmitted := by
    rintro entry hentry id hid - -
    obtain rfl := List.mem_singleton.mp hentry
    have hreadable : AliasReadable none := fun ip hip => by cases hip
    refine ⟨⟨.C, by decide +kernel⟩, hreadable, fun hown => ?_⟩
    rw [hown, of_decide_eq_true hlocal] at hid
    exact absurd hid (by decide +kernel)
  obtain ⟨fresh, hfresh, hsame⟩ := ((checkpoint_path_independent_iff sampleSigning).2
    (listingConfig .C) [removed] readmitted forwarder sampleOrder hrun
    (by unfold DistinctRoster; decide +kernel) hconfigured).mpr hharmless
  exact ⟨forwarder, fresh, hrun, hfresh, hsame⟩

/-- An entry for `A` itself is dropped with `A`, and a fresh start would count it again. -/
theorem readmission_of_listed_self :
    ∃ forwarder fresh,
      ProjectionRun sampleSigning (listingConfig .A) ([removed] ++ [readmitted]) forwarder ∧
      Forwarder.fromCheckpointConfig sampleSigning (listingConfig .A) readmitted.state sampleAnchor
        readmitted.time sampleOrder = .ok fresh ∧
      forwarder.authorization.authorizedPeers = {.B, .C} ∧
      fresh.authorization.authorizedPeers = {.A, .B, .C} := by
  obtain ⟨forwarder, hforwarder, hpeers⟩ := exists_ok_of_any
    (p := fun forwarder => forwarder.authorization.authorizedPeers = {.B, .C})
    (x := readmission (listingConfig .A)) (by decide +kernel)
  obtain ⟨fresh, hfresh, hpeers'⟩ := exists_ok_of_any
    (p := fun fresh => fresh.authorization.authorizedPeers = {.A, .B, .C})
    (x := Forwarder.fromCheckpointConfig sampleSigning (listingConfig .A) readmitted.state
      sampleAnchor readmitted.time sampleOrder) (by decide +kernel)
  exact ⟨forwarder, fresh, readmission_run hforwarder, hfresh, of_decide_eq_true hpeers,
    of_decide_eq_true hpeers'⟩

end P2pVpn.Forward
