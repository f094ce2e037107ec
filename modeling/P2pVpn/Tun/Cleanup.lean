/-
# Cleaning up after pairing

Before an attempt to pair changes the interface, the addresses and blocks that it may add are written
down, and merged with those of earlier attempts.  If the pairing is aborted, the cleanup puts back
what the installed configuration has and deletes what was written down.

Every command of a cleanup brings its address or block back to what is installed, and everything that
an attempt touches is touched by the cleanup, so a cleanup that ends restores the interface whatever
was applied and however often it was interrupted.  What can go wrong is the record: `capture` writes a
block down once for each of its routes, and `validate` refuses a block that is written down twice, so
that the attempt cannot even begin (`pairing_cleanup_restores_iff`).
-/
import Mathlib.Data.List.Induction
import P2pVpn.Net.AddressText
import P2pVpn.Tun.Reconcile

namespace P2pVpn.Pairing

open Lib Net Tun

/-- What a pairing that did not end may have left on the tunnel device. -/
structure PairingTunCleanup where
  interface : String
  addresses : List RouteConfig
  routes : List RouteConfig
deriving DecidableEq, Repr

/-- What `PairingTunCleanup` may be refused for. -/
inductive CleanupError where
  | nonAdditiveUpdate (reason : String)
  | config (error : RoutePrefixError)
deriving DecidableEq, Repr

def CleanupError.ofTun : TunRuntimeError → CleanupError
  | .nonAdditiveUpdate reason => .nonAdditiveUpdate reason

namespace PairingTunCleanup

/-- `Display` of an address block. -/
def cidrText (cidr : IpCidr) : String := cidr.address.text ++ "/" ++ toString cidr.prefixLen

/-- The loop over the addresses, which are single hosts, or over the routes; `seen` are the texts of
the blocks before. -/
def validateEntries (addresses : Bool) : List String → List RouteConfig → Except CleanupError Unit
  | _, [] => .ok ()
  | seen, entry :: rest => do
      let cidr ← entry.cidr.mapError CleanupError.config
      refuseIf (entry.metric ≠ 0 ∨ cidrText cidr ∈ seen ∨
        (addresses ∧ cidr.prefixLen ≠ cidr.address.width))
        (.nonAdditiveUpdate "invalid pairing cleanup prefix")
      validateEntries addresses (cidrText cidr :: seen) rest

def validate (cleanup : PairingTunCleanup) : Except CleanupError Unit := do
  refuseIf (cleanup.interface = "" ∨ '\x00' ∈ cleanup.interface.toList)
    (.nonAdditiveUpdate "invalid pairing cleanup interface")
  validateEntries true [] cleanup.addresses
  validateEntries false [] cleanup.routes

/-- The entries of a list with those of another that it does not have. -/
def mergeEntries {α : Type} [DecidableEq α] (existing additions : List α) : List α :=
  additions.foldl (fun entries addition =>
    if addition ∈ entries then entries else entries ++ [addition]) existing

def merge (cleanup next : PairingTunCleanup) : Except CleanupError PairingTunCleanup := do
  cleanup.validate
  next.validate
  refuseIf (cleanup.interface ≠ next.interface)
    (.nonAdditiveUpdate "pairing cleanup interface changed")
  pure { cleanup with
    addresses := mergeEntries cleanup.addresses next.addresses
    routes := mergeEntries cleanup.routes next.routes }

def prefixConfig (cidr : IpCidr) : RouteConfig := ⟨cidrText cidr, 0⟩

/-- `PairingTunCleanup::capture`. -/
def capture (installed attempted : TunRuntimeConfig) : Except CleanupError PairingTunCleanup := do
  let _ ← (attempted.pairingReconciliationFrom installed).mapError CleanupError.ofTun
  pure
    { interface := installed.name
      addresses := (attempted.additionalAddresses.filter fun cidr =>
        ! installed.hasLocalAddress cidr).map prefixConfig
      routes := (attempted.routes.filter fun route =>
        ! installed.routes.any (·.cidr = route.cidr)).map fun route => prefixConfig route.cidr }

end PairingTunCleanup

end P2pVpn.Pairing

namespace P2pVpn.Tun

open Lib Net Pairing

/-- `pairing_abort_commands_from`. -/
def TunRuntimeConfig.pairingAbortCommandsFrom (config attempted : TunRuntimeConfig) :
    Except TunRuntimeError (List IpCommand) := do
  refuseIf (config.name ≠ attempted.name ∨ config.mtu ≠ attempted.mtu ∨
    config.addresses ≠ attempted.addresses)
    (.nonAdditiveUpdate "pairing abort cannot change the running TUN identity or MTU")
  pure (config.additionalAddresses.map (.addrReplace config.name) ++
    config.routes.map (fun route => config.routeReplace route.cidr) ++
    (attempted.routes.filter config.lacks).map (fun route => .routeDelete config.name route.cidr) ++
    (attempted.additionalAddresses.filter fun cidr => ! config.hasLocalAddress cidr).map
      (.addrDelete config.name))

end P2pVpn.Tun

namespace P2pVpn.Pairing.PairingTunCleanup

open Lib Net Tun

/-- The blocks of some entries. -/
def cidrs (entries : List RouteConfig) : Except CleanupError (List IpCidr) :=
  entries.mapM fun entry => entry.cidr.mapError CleanupError.config

/-- `PairingTunCleanup::update`. -/
def update (cleanup : PairingTunCleanup) (surviving : TunRuntimeConfig) :
    Except CleanupError TunRouteUpdate := do
  cleanup.validate
  refuseIf (cleanup.interface ≠ surviving.name)
    (.nonAdditiveUpdate "pairing cleanup interface changed")
  let commands ← (surviving.pairingAbortCommandsFrom surviving).mapError CleanupError.ofTun
  let routes ← cidrs cleanup.routes
  let addresses ← cidrs cleanup.addresses
  pure
    { apply := commands ++
        (routes.filter fun cidr => ! surviving.routes.any (·.cidr = cidr)).map
          (.routeDelete cleanup.interface) ++
        (addresses.filter fun cidr => ! surviving.hasLocalAddress cidr).map
          (.addrDelete cleanup.interface)
      rollback := []
      abortCleanup := true }

end P2pVpn.Pairing.PairingTunCleanup

namespace P2pVpn.Tun

open Lib Net Pairing

/-- What `LinuxTunRoutes::reconcile` does with a command of a cleanup: to delete what is not there
counts as success. -/
def Kernel.executeCleanup (command : IpCommand) (kernel : Kernel) :
    Except KernelError Unit × Kernel :=
  match kernel.execute command with
  | (.error .absent, kernel) => (.ok (), kernel)
  | result => result

/-! ## Attempts and cleanups -/

structure CleanupState where
  kernel : Kernel
  cleanup : Option PairingTunCleanup

inductive CleanupEvent where
  /-- An attempt with the configuration, of which some commands are applied. -/
  | attempt (config : TunRuntimeConfig) (applied : ℕ)
  /-- A cleanup that is interrupted after some commands. -/
  | interrupted (ran : ℕ)

/-- `record_tun_cleanup`: the record with what another attempt may add. -/
def recordTunCleanup (cleanup : Option PairingTunCleanup) (captured : PairingTunCleanup) :
    Except CleanupError PairingTunCleanup := do
  captured.validate
  match cleanup with
  | none => pure captured
  | some cleanup => cleanup.merge captured

def CleanupState.step (config : TunRuntimeConfig) (s : CleanupState) :
    CleanupEvent → Except CleanupError CleanupState
  | .attempt attempted applied => do
      let captured ← PairingTunCleanup.capture config attempted
      let cleanup ← recordTunCleanup s.cleanup captured
      let update ← (attempted.pairingReconciliationFrom config).mapError CleanupError.ofTun
      pure ⟨runAll Kernel.execute (update.apply.take applied) s.kernel, some cleanup⟩
  | .interrupted ran =>
      match s.cleanup with
      | none => pure s
      | some cleanup => do
          let update ← cleanup.update config
          pure ⟨runAll Kernel.executeCleanup (update.apply.take ran) s.kernel, some cleanup⟩

/-- The state after some events, from the installed configuration. -/
def cleanupRun (config : TunRuntimeConfig) (events : List CleanupEvent) :
    Except CleanupError CleanupState :=
  events.foldlM (CleanupState.step config) ⟨installed config, none⟩

def attemptsOf (events : List CleanupEvent) : List TunRuntimeConfig :=
  events.filterMap fun
    | .attempt config _ => some config
    | .interrupted _ => none

/-- The commands of the attempts that were applied. -/
def appliedCommands (config : TunRuntimeConfig) (events : List CleanupEvent) : List IpCommand :=
  events.flatMap fun
    | .attempt attempted applied => ((steps attempted config).map Prod.fst).take applied
    | .interrupted _ => []

/-- An attempt put this address or block on the interface. -/
def Added (config : TunRuntimeConfig) (events : List CleanupEvent) : Key → Prop
  | .address cidr => .addrReplace config.name cidr ∈ appliedCommands config events
  | .route cidr => ∃ source mtu, .routeReplace config.name cidr source mtu ∈ appliedCommands config events

/-- What a command deletes if it is there. -/
def IpCommand.deletes (kernel : Kernel) : IpCommand → Option Key
  | .addrDelete _ cidr => if cidr ∈ kernel.addresses then some (.address cidr) else none
  | .routeDelete _ cidr => if (kernel.routes.get? cidr).isSome then some (.route cidr) else none
  | .addrReplace _ _ | .routeReplace _ _ _ _ => none

/-- The cleanup succeeds and restores the interface, a second one changes nothing, and nothing is
deleted on the way that no attempt added. -/
structure RestoredBy (config : TunRuntimeConfig) (events : List CleanupEvent) (kernel : Kernel)
    (update : TunRouteUpdate) : Prop where
  restores : executeTunRouteUpdate Kernel.executeCleanup update kernel = (.ok (), installed config)
  idempotent : executeTunRouteUpdate Kernel.executeCleanup update (installed config)
    = (.ok (), installed config)
  deletes : ∀ (ran : ℕ) (command : IpCommand), update.apply[ran]? = some command →
    ∀ key ∈ IpCommand.deletes (runAll Kernel.executeCleanup (update.apply.take ran) kernel) command,
      Added config events key

/-- Everything is recorded, and the cleanup restores the interface. -/
def Restored (config : TunRuntimeConfig) (events : List CleanupEvent) : Prop :=
  ∃ s, cleanupRun config events = .ok s ∧ ∀ cleanup ∈ s.cleanup,
    ∃ update, cleanup.update config = .ok update ∧ RestoredBy config events s.kernel update

/-- The name can be that of an interface. -/
def ValidName (name : String) : Prop := name ≠ "" ∧ '\x00' ∉ name.toList

/-- The blocks of a configuration that another has no routes for, one for each route. -/
def newBlocks (next current : TunRuntimeConfig) : List IpCidr :=
  (next.routes.filter current.lacks).map (·.cidr)

/-- What an attempt adds can be written down: new addresses are distinct hosts, and new blocks are
distinct and have no host bits. -/
structure Capturable (attempted config : TunRuntimeConfig) : Prop where
  comparable : Comparable attempted config
  addresses : (newAddresses attempted config).Nodup
  hosts : ∀ cidr ∈ newAddresses attempted config, cidr.prefixLen = cidr.address.width
  blocks : (newBlocks attempted config).Nodup
  normalized : ∀ cidr ∈ newBlocks attempted config, cidr.normalized = cidr

/-! ## Records -/

variable {cidr : IpCidr} {attempted : TunRuntimeConfig} {command : IpCommand} {kernel : Kernel}
  {commands : List IpCommand} {attempts : List TunRuntimeConfig} {hosts : List IpCidr}

section Records

open PairingTunCleanup

lemma cidrText_inj {a b : IpCidr} (h : cidrText a = cidrText b) : a = b := by
  have hlist : ∀ cidr : IpCidr, (cidrText cidr).toList
      = cidr.address.text.toList ++ '/' :: (toString cidr.prefixLen).toList := by
    intro cidr
    simp [cidrText]
  have htext := congrArg String.toList h
  rw [hlist, hlist] at htext
  obtain ⟨haddress, hlen⟩ := append_cons_inj (slash_notMem_text _) (slash_notMem_text _) htext
  have hread := parseIpAddr_text a.address
  rw [haddress, parseIpAddr_text] at hread
  have hnumber : a.prefixLen = b.prefixLen := by
    have hvalue := parseU8_toString a.prefixLen_le_255
    rw [hlen, parseU8_toString b.prefixLen_le_255] at hvalue
    exact (Option.some.inj hvalue).symm
  exact cidr_eq_iff.mpr ⟨(Option.some.inj hread).symm, hnumber⟩

lemma prefixConfig_inj : Function.Injective prefixConfig := fun _ _ h =>
  cidrText_inj (RouteConfig.mk.inj h).1

lemma cidr_prefixConfig (cidr : IpCidr) : (prefixConfig cidr).cidr = .ok cidr.normalized :=
  parseCidr_text_normalized cidr

lemma width_normalized (cidr : IpCidr) : cidr.normalized.address.width = cidr.address.width := by
  obtain ⟨address, prefixLen, hle⟩ := cidr
  cases address <;> rfl

lemma normalized_of_host (h : cidr.prefixLen = cidr.address.width) : cidr.normalized = cidr := by
  obtain ⟨address, prefixLen, hle⟩ := cidr
  obtain rfl : prefixLen = address.width := h
  have hv4 : prefixMask 32 32 = BitVec.allOnes 32 := by decide
  have hv6 : prefixMask 128 128 = BitVec.allOnes 128 := by decide
  cases address with
  | v4 bits =>
    simp only [IpCidr.normalized, normalizeAddress, IpAddr.width, hv4, BitVec.and_allOnes]
  | v6 bits =>
    simp only [IpCidr.normalized, normalizeAddress, IpAddr.width, hv6, BitVec.and_allOnes]

lemma normalized_normalized (cidr : IpCidr) : cidr.normalized.normalized = cidr.normalized :=
  cidr_eq_iff.mpr ⟨normalizeAddress_normalizeAddress _ _, rfl⟩

lemma map_normalized_eq {l : List IpCidr} (h : ∀ cidr ∈ l, cidr.normalized = cidr) :
    l.map IpCidr.normalized = l :=
  (List.map_congr_left (g := id) h).trans (List.map_id l)

/-- What the loop over some entries checks. -/
lemma validateEntries_eq_ok {addresses : Bool} {seen : List String} {l : List IpCidr} {u : Unit} :
    validateEntries addresses seen (l.map prefixConfig) = .ok u ↔
      (l.map IpCidr.normalized).Nodup ∧ (∀ cidr ∈ l, cidrText cidr.normalized ∉ seen) ∧
        (addresses = true → ∀ cidr ∈ l, cidr.prefixLen = cidr.address.width) := by
  induction l generalizing seen with
  | nil => simp [validateEntries]
  | cons cidr l ih =>
    have hentry : (prefixConfig cidr).cidr.mapError CleanupError.config = .ok cidr.normalized := by
      rw [cidr_prefixConfig]
      rfl
    simp only [List.map_cons, validateEntries, hentry, bind_eq_ok, refuseIf_eq_ok, Except.ok.injEq,
      exists_eq_left', not_or, width_normalized, ih]
    constructor
    · rintro ⟨_, ⟨-, hseen, hhost⟩, hnodup, hrest, hhosts⟩
      refine ⟨List.nodup_cons.mpr ⟨?_, hnodup⟩, ?_, fun haddresses => ?_⟩
      · intro hmem
        obtain ⟨other, hother, hsame⟩ := List.mem_map.mp hmem
        exact hrest other hother (by rw [hsame]; exact List.mem_cons_self)
      · refine List.forall_mem_cons.mpr ⟨hseen, fun other hother hmem => ?_⟩
        exact hrest other hother (List.mem_cons_of_mem _ hmem)
      · refine List.forall_mem_cons.mpr ⟨?_, hhosts haddresses⟩
        simpa [haddresses, IpCidr.normalized] using hhost
    · rintro ⟨hnodup, hseen, hhosts⟩
      obtain ⟨hfresh, hnodup⟩ := List.nodup_cons.mp hnodup
      obtain ⟨hfirst, hrest⟩ := List.forall_mem_cons.mp hseen
      refine ⟨(), ⟨by simp [prefixConfig], hfirst, ?_⟩, hnodup, ?_, fun haddresses other hother =>
        hhosts haddresses other (List.mem_cons_of_mem _ hother)⟩
      · rintro ⟨haddresses, hne⟩
        exact hne (hhosts haddresses cidr List.mem_cons_self)
      · intro other hother hmem
        rcases List.mem_cons.mp hmem with htext | hmem
        · exact hfresh (List.mem_map.mpr ⟨other, hother, cidrText_inj htext⟩)
        · exact hrest other hother hmem

/-- The record of some addresses and blocks. -/
def recordOf (name : String) (addresses routes : List IpCidr) : PairingTunCleanup :=
  ⟨name, addresses.map prefixConfig, routes.map prefixConfig⟩

/-- The conditions under which a record is accepted. -/
structure ValidRecord (interface : String) (hosts blocks : List IpCidr) : Prop where
  name : ValidName interface
  addresses : (hosts.map IpCidr.normalized).Nodup
  lengths : ∀ cidr ∈ hosts, cidr.prefixLen = cidr.address.width
  routes : (blocks.map IpCidr.normalized).Nodup

variable {addresses routes : List IpCidr}

lemma validate_recordOf {name : String} {u : Unit} :
    (recordOf name addresses routes).validate = .ok u ↔ ValidRecord name addresses routes := by
  simp only [PairingTunCleanup.validate, bind_eq_ok, exists_unit_iff, refuseIf_eq_ok, not_or]
  simp only [recordOf, validateEntries_eq_ok]
  constructor
  · rintro ⟨hname, ⟨hnodup, -, hhosts⟩, hnodup', -⟩
    exact ⟨hname, hnodup, hhosts trivial, hnodup'⟩
  · rintro ⟨hname, haddresses, hhosts, hroutes⟩
    exact ⟨hname, ⟨haddresses, by simp, fun _ => hhosts⟩, hroutes, by simp, by simp⟩

lemma mergeEntries_map (existing additions : List IpCidr) :
    mergeEntries (existing.map prefixConfig) (additions.map prefixConfig)
      = (mergeEntries existing additions).map prefixConfig := by
  induction additions generalizing existing with
  | nil => rfl
  | cons cidr additions ih =>
    have hmem : prefixConfig cidr ∈ existing.map prefixConfig ↔ cidr ∈ existing :=
      List.mem_map_of_injective prefixConfig_inj
    simp only [mergeEntries, List.map_cons, List.foldl_cons, hmem] at ih ⊢
    split_ifs with h
    · exact ih existing
    · have hrest := ih (existing ++ [cidr])
      rwa [List.map_append, List.map_singleton] at hrest

lemma mem_mergeEntries {existing additions : List IpCidr} :
    cidr ∈ mergeEntries existing additions ↔ cidr ∈ existing ∨ cidr ∈ additions := by
  induction additions generalizing existing with
  | nil => simp [mergeEntries]
  | cons first additions ih =>
    rw [mergeEntries, List.foldl_cons, ← mergeEntries, ih, List.mem_cons]
    split_ifs with h
    · grind
    · simp [or_assoc]

lemma nodup_mergeEntries {existing additions : List IpCidr} (h : existing.Nodup) :
    (mergeEntries existing additions).Nodup := by
  induction additions generalizing existing with
  | nil => exact h
  | cons first additions ih =>
    rw [mergeEntries, List.foldl_cons, ← mergeEntries]
    split_ifs with hmem
    · exact ih h
    · exact ih (List.nodup_append.mpr ⟨h, List.nodup_singleton _, by
        rintro a ha b hb rfl
        exact hmem (List.mem_singleton.mp hb ▸ ha)⟩)

lemma merge_recordOf {name : String} {addresses' routes' : List IpCidr}
    {cleanup : PairingTunCleanup} :
    (recordOf name addresses routes).merge (recordOf name addresses' routes') = .ok cleanup ↔
      ValidRecord name addresses routes ∧ ValidRecord name addresses' routes' ∧
        cleanup = recordOf name (mergeEntries addresses addresses') (mergeEntries routes routes') := by
  simp only [PairingTunCleanup.merge, bind_eq_ok, validate_recordOf, refuseIf_eq_ok, pure_eq_ok,
    exists_const]
  simp [recordOf, mergeEntries_map]

lemma pairingReconciliationFrom_eq_ok {next current : TunRuntimeConfig} {update : TunRouteUpdate} :
    next.pairingReconciliationFrom current = .ok update ↔ Comparable next current ∧
      update = TunRuntimeConfig.updateOf (steps next current) := by
  refine ⟨fun h => update_eq (.inr h), ?_⟩
  rintro ⟨hcomparable, rfl⟩
  rw [TunRuntimeConfig.pairingReconciliationFrom, bind_eq_ok]
  refine ⟨(), refuseIf_eq_ok.mpr ?_, rfl⟩
  simp only [not_or, not_not]
  refine ⟨hcomparable.name, hcomparable.mtu, hcomparable.addresses, ?_⟩
  simpa using hcomparable.additional

lemma capture_eq_ok {config : TunRuntimeConfig} {cleanup : PairingTunCleanup} :
    capture config attempted = .ok cleanup ↔ Comparable attempted config ∧
      cleanup = recordOf config.name (newAddresses attempted config) (newBlocks attempted config) := by
  have hrecord : recordOf config.name (newAddresses attempted config) (newBlocks attempted config)
      = { interface := config.name
          addresses := (attempted.additionalAddresses.filter fun cidr =>
            ! config.hasLocalAddress cidr).map prefixConfig
          routes := (attempted.routes.filter fun route =>
            ! config.routes.any (·.cidr = route.cidr)).map fun route => prefixConfig route.cidr } := by
    simp only [recordOf, newAddresses, newBlocks, List.map_map]
    rfl
  simp only [capture, bind_eq_ok, mapError_eq_ok_iff, pairingReconciliationFrom_eq_ok, hrecord,
    pure_eq_ok, and_assoc, exists_and_left, exists_eq_left]

lemma cidrs_map (l : List IpCidr) : cidrs (l.map prefixConfig) = .ok (l.map IpCidr.normalized) := by
  induction l with
  | nil => rfl
  | cons cidr l ih =>
    rw [cidrs] at ih ⊢
    rw [List.map_cons, List.mapM_cons, cidr_prefixConfig, ih]
    rfl

/-- The commands of a cleanup. -/
def cleanupCommands (config : TunRuntimeConfig) (addresses routes : List IpCidr) : List IpCommand :=
  config.additionalAddresses.map (.addrReplace config.name) ++
    ((blocks config).map config.routeReplace ++
      (((routes.map IpCidr.normalized).filter (· ∉ blocks config)).map (.routeDelete config.name) ++
        ((addresses.map IpCidr.normalized).filter (· ∉ localAddresses config)).map
          (.addrDelete config.name)))

lemma update_recordOf {config : TunRuntimeConfig} {update : TunRouteUpdate} :
    (recordOf config.name addresses routes).update config = .ok update ↔
      ValidRecord config.name addresses routes ∧
        update = ⟨cleanupCommands config addresses routes, [], true⟩ := by
  have hroutes : config.routes.filter config.lacks = [] := by
    rw [List.filter_eq_nil_iff]
    intro route hroute
    have hany : config.routes.any (·.cidr = route.cidr) = true :=
      List.any_eq_true.mpr ⟨route, hroute, by simp⟩
    simp [TunRuntimeConfig.lacks, hany]
  have haddresses : (config.additionalAddresses.filter fun cidr => ! config.hasLocalAddress cidr)
      = [] := by
    rw [List.filter_eq_nil_iff]
    intro cidr hcidr
    have hlocal : config.hasLocalAddress cidr = true := by
      rw [hasLocalAddress_iff, localAddresses]
      simp [hcidr]
    simp [hlocal]
  have habort : config.pairingAbortCommandsFrom config
      = .ok (config.additionalAddresses.map (.addrReplace config.name) ++
          (blocks config).map config.routeReplace) := by
    simp only [TunRuntimeConfig.pairingAbortCommandsFrom, hroutes, haddresses, List.map_nil,
      List.append_nil, blocks, List.map_map, refuseIf, ne_eq, not_true_eq_false, or_self, if_false]
    rfl
  have hblocks : (fun cidr => ! config.routes.any (·.cidr = cidr))
      = fun cidr => decide (cidr ∉ blocks config) := by
    funext cidr
    rw [Bool.eq_iff_iff]
    simp [blocks]
  have hlocal : (fun cidr => ! config.hasLocalAddress cidr)
      = fun cidr => decide (cidr ∉ localAddresses config) := by
    funext cidr
    rw [Bool.eq_iff_iff, Bool.not_eq_true', ← Bool.not_eq_true, hasLocalAddress_iff,
      decide_eq_true_eq]
  simp only [PairingTunCleanup.update, bind_eq_ok, validate_recordOf, refuseIf_eq_ok, habort,
    mapError_eq_ok_iff, pure_eq_ok, exists_const]
  simp [recordOf, cidrs_map, hblocks, hlocal, cleanupCommands]

end Records

/-! ## What a cleanup does -/

lemma executeCleanup_snd (command : IpCommand) (kernel : Kernel) :
    (kernel.executeCleanup command).2 = (kernel.execute command).2 := by
  unfold Kernel.executeCleanup
  split
  · rename_i heq
    rw [heq]
  · rfl

lemma runAll_executeCleanup (commands : List IpCommand) (kernel : Kernel) :
    runAll Kernel.executeCleanup commands kernel = runAll Kernel.execute commands kernel := by
  simp only [runAll, executeCleanup_snd]

lemma interface_runAll (commands : List IpCommand) (kernel : Kernel) :
    (runAll Kernel.execute commands kernel).interface = kernel.interface := by
  induction commands generalizing kernel with
  | nil => rfl
  | cons command commands ih => exact (ih _).trans (interface_execute command kernel)

/-- On its interface, a command of a cleanup never fails. -/
lemma executeCleanup_fst (h : command.interface = kernel.interface) :
    (kernel.executeCleanup command).1 = .ok () := by
  simp only [Kernel.executeCleanup, Kernel.execute, Kernel.perform, h, ne_eq, not_true_eq_false,
    if_false]
  by_cases haccepts : kernel.accepts command = true
  · simp [haccepts]
  · simp [haccepts]

lemma executeFrom_executeCleanup {update : TunRouteUpdate}
    (h : ∀ command ∈ commands, command.interface = kernel.interface) (applied : ℕ) :
    executeFrom Kernel.executeCleanup update applied commands kernel
      = (.ok (), runAll Kernel.execute commands kernel) := by
  induction commands generalizing kernel applied with
  | nil => rfl
  | cons command commands ih =>
    have hresult : kernel.executeCleanup command = (.ok (), (kernel.execute command).2) :=
      Prod.ext (executeCleanup_fst (h command List.mem_cons_self)) (executeCleanup_snd _ _)
    simp only [executeFrom, hresult]
    refine ih (fun other hother => ?_) (applied + 1)
    rw [interface_execute]
    exact h other (List.mem_cons_of_mem _ hother)

section Cleanup

variable {config : TunRuntimeConfig} {addresses routes : List IpCidr}

lemma interface_of_mem_cleanupCommands (h : command ∈ cleanupCommands config addresses routes) :
    command.interface = config.name := by
  simp only [cleanupCommands, List.mem_append, List.mem_map] at h
  rcases h with ⟨_, -, rfl⟩ | ⟨_, -, rfl⟩ | ⟨_, -, rfl⟩ | ⟨_, -, rfl⟩ <;> rfl

/-- Each command of a cleanup brings its address or block back to what is installed. -/
lemma resets_of_mem_cleanupCommands (h : command ∈ cleanupCommands config addresses routes) :
    Resets Kernel.view (fun kernel => kernel.interface = config.name) Kernel.execute
      (installed config) command.key command := by
  obtain ⟨-, haddresses, hroutes⟩ := installed_eq config
  refine ⟨fun kernel hname => (interface_execute command kernel).trans hname,
    fun kernel hname => ?_, fun kernel key hne => view_execute_of_ne hne⟩
  simp only [cleanupCommands, List.mem_append, List.mem_map, List.mem_filter,
    decide_eq_true_eq] at h
  rcases h with ⟨cidr, hcidr, rfl⟩ | ⟨cidr, hcidr, rfl⟩ | ⟨cidr, ⟨-, hcidr⟩, rfl⟩ |
    ⟨cidr, ⟨-, hcidr⟩, rfl⟩
  · have hlocal : cidr ∈ localAddresses config := by simp [localAddresses, hcidr]
    simp [Kernel.execute, Kernel.perform, Kernel.accepts, Kernel.effect, IpCommand.interface,
      IpCommand.key, Kernel.view, hname, haddresses, hlocal]
  · change (kernel.execute (config.routeReplace cidr)).2.view (.route cidr) = _
    rw [TunRuntimeConfig.routeReplace, ← hname, view_execute_routeReplace]
    simp only [IpCommand.key, Kernel.view, hroutes, if_pos hcidr]
  · rw [← hname]
    refine (view_execute_routeDelete kernel cidr).trans ?_
    simp only [IpCommand.key, Kernel.view, hroutes, if_neg hcidr]
  · rw [← hname]
    refine (view_execute_addrDelete kernel cidr).trans ?_
    simp [IpCommand.key, Kernel.view, haddresses, hcidr]

/-- Where a kernel differs from what is installed, one of the commands has been. -/
def TouchedBy (config : TunRuntimeConfig) (commands : List IpCommand) (kernel : Kernel) : Prop :=
  ∀ key, kernel.view key = (installed config).view key ∨ ∃ command ∈ commands, command.key = key

lemma TouchedBy.runAll_cleanup (h : TouchedBy config commands kernel)
    (hname : kernel.interface = config.name) (ran : ℕ) :
    TouchedBy config commands
      (runAll Kernel.execute ((cleanupCommands config addresses routes).take ran) kernel) := by
  refine fun key => (h key).imp_left fun hview => ?_
  exact view_runAll_resets (fun command hcommand => ⟨command.key,
    resets_of_mem_cleanupCommands (List.mem_of_mem_take hcommand)⟩) hname (.inl hview)

/-- A cleanup that touches all that was touched restores what is installed. -/
lemma TouchedBy.restored (h : TouchedBy config commands kernel)
    (hname : kernel.interface = config.name)
    (hcovers : ∀ command ∈ commands, ∃ command' ∈ cleanupCommands config addresses routes,
      command'.key = command.key) :
    runAll Kernel.execute (cleanupCommands config addresses routes) kernel = installed config := by
  obtain ⟨hinstalled, -, -⟩ := installed_eq config
  refine Kernel.ext_view ((interface_runAll _ _).trans (hname.trans hinstalled.symm)) fun key => ?_
  refine view_runAll_resets (fun command hcommand =>
    ⟨command.key, resets_of_mem_cleanupCommands hcommand⟩) hname ?_
  refine (h key).imp_right fun ⟨command, hcommand, hkey⟩ => ?_
  obtain ⟨command', hcommand', hkey'⟩ := hcovers command hcommand
  exact ⟨command', hcommand', hkey ▸ hkey' ▸ resets_of_mem_cleanupCommands hcommand'⟩

end Cleanup

/-! ## What attempts do -/

section Attempts

variable {config attempted : TunRuntimeConfig}

lemma mem_newBlocks :
    cidr ∈ newBlocks attempted config ↔ cidr ∈ blocks attempted ∧ cidr ∉ blocks config :=
  mem_deletedBlocks

lemma mem_steps :
    command ∈ (steps attempted config).map Prod.fst ↔
      (∃ cidr ∈ newAddresses attempted config, .addrReplace attempted.name cidr = command) ∨
      (∃ cidr ∈ replacedBlocks attempted config, attempted.routeReplace cidr = command) ∨
      ∃ cidr ∈ deletedBlocks attempted config, .routeDelete config.name cidr = command := by
  rw [steps, List.map_append, map_fst_addressSteps, map_fst_routeSteps]
  simp only [List.mem_append, List.mem_map]

lemma TouchedBy.runAll {touched : List IpCommand} (h : TouchedBy config touched kernel) :
    TouchedBy config (touched ++ commands) (runAll Kernel.execute commands kernel) := by
  induction commands generalizing touched kernel with
  | nil => rwa [List.append_nil]
  | cons command commands ih =>
    have hstep : TouchedBy config (touched ++ [command]) (kernel.execute command).2 := by
      intro key
      by_cases hkey : key = command.key
      · exact .inr ⟨command, by simp, hkey.symm⟩
      · rw [view_execute_of_ne hkey]
        refine (h key).imp_right fun ⟨other, hother, hsame⟩ => ?_
        exact ⟨other, List.mem_append_left _ hother, hsame⟩
    have hrest := ih hstep
    rwa [List.append_assoc, List.singleton_append] at hrest

/-- What a record of some attempts holds. -/
structure Recorded (config : TunRuntimeConfig) (attempts : List TunRuntimeConfig)
    (hosts cidrs : List IpCidr) : Prop where
  mem_addresses : ∀ cidr, cidr ∈ hosts ↔ ∃ a ∈ attempts, cidr ∈ newAddresses a config
  mem_routes : ∀ cidr, cidr ∈ cidrs ↔ ∃ a ∈ attempts, cidr ∈ newBlocks a config
  nodup_addresses : hosts.Nodup
  nodup_routes : cidrs.Nodup
  /-- What an attempt adds was accepted. -/
  accepted : ∀ a ∈ attempts, ValidRecord config.name (newAddresses a config) (newBlocks a config)

lemma recorded_singleton
    (h : ValidRecord config.name (newAddresses attempted config) (newBlocks attempted config)) :
    Recorded config [attempted] (newAddresses attempted config) (newBlocks attempted config) where
  mem_addresses := by simp
  mem_routes := by simp
  nodup_addresses := h.addresses.of_map _
  nodup_routes := h.routes.of_map _
  accepted := by simpa using h

lemma Recorded.merge {cidrs : List IpCidr} (h : Recorded config attempts hosts cidrs)
    (hvalid : ValidRecord config.name (newAddresses attempted config) (newBlocks attempted config)) :
    Recorded config (attempts ++ [attempted])
      (PairingTunCleanup.mergeEntries hosts (newAddresses attempted config))
      (PairingTunCleanup.mergeEntries cidrs (newBlocks attempted config)) where
  mem_addresses cidr := by
    simp [mem_mergeEntries, h.mem_addresses, or_and_right, exists_or]
  mem_routes cidr := by
    simp [mem_mergeEntries, h.mem_routes, or_and_right, exists_or]
  nodup_addresses := nodup_mergeEntries h.nodup_addresses
  nodup_routes := nodup_mergeEntries h.nodup_routes
  accepted := List.forall_mem_append.mpr ⟨h.accepted, by simpa using hvalid⟩

/-- What an attempt that can be written down adds is accepted. -/
lemma Capturable.valid (h : Capturable attempted config) (hname : ValidName config.name) :
    ValidRecord config.name (newAddresses attempted config) (newBlocks attempted config) := by
  refine ⟨hname, ?_, h.hosts, ?_⟩
  · rw [map_normalized_eq fun cidr hcidr => normalized_of_host (h.hosts cidr hcidr)]
    exact h.addresses
  · rw [map_normalized_eq h.normalized]
    exact h.blocks

lemma Recorded.valid {cidrs : List IpCidr} (h : Recorded config attempts hosts cidrs)
    (hname : ValidName config.name) (hcapturable : ∀ a ∈ attempts, Capturable a config) :
    ValidRecord config.name hosts cidrs := by
  have hlengths : ∀ cidr ∈ hosts, cidr.prefixLen = cidr.address.width := by
    intro cidr hcidr
    obtain ⟨a, ha, hnew⟩ := (h.mem_addresses cidr).mp hcidr
    exact (hcapturable a ha).hosts cidr hnew
  have hnormalized : ∀ cidr ∈ cidrs, cidr.normalized = cidr := by
    intro cidr hcidr
    obtain ⟨a, ha, hnew⟩ := (h.mem_routes cidr).mp hcidr
    exact (hcapturable a ha).normalized cidr hnew
  refine ⟨hname, ?_, hlengths, ?_⟩
  · rw [map_normalized_eq fun cidr hcidr => normalized_of_host (hlengths cidr hcidr)]
    exact h.nodup_addresses
  · rw [map_normalized_eq hnormalized]
    exact h.nodup_routes

end Attempts

/-! ## Runs -/

section Runs

variable {config : TunRuntimeConfig} {events : List CleanupEvent} {s s' : CleanupState}

/-- What holds after every run in which everything could be recorded. -/
structure Owned (config : TunRuntimeConfig) (events : List CleanupEvent) (s : CleanupState) : Prop where
  interface : s.kernel.interface = config.name
  touched : TouchedBy config (appliedCommands config events) s.kernel
  comparable : ∀ a ∈ attemptsOf events, Comparable a config
  none : s.cleanup = none → attemptsOf events = []
  some : ∀ cleanup ∈ s.cleanup, ∃ hosts cidrs, cleanup = recordOf config.name hosts cidrs ∧
    attemptsOf events ≠ [] ∧ Recorded config (attemptsOf events) hosts cidrs

lemma cleanupRun_concat (config : TunRuntimeConfig) (events : List CleanupEvent)
    (event : CleanupEvent) : cleanupRun config (events ++ [event])
      = cleanupRun config events >>= fun s => s.step config event := by
  rw [cleanupRun, List.foldlM_append, ← cleanupRun]
  simp only [List.foldlM_cons, List.foldlM_nil, bind_pure]

lemma attemptsOf_attempt (events : List CleanupEvent) (attempted : TunRuntimeConfig) (applied : ℕ) :
    attemptsOf (events ++ [.attempt attempted applied]) = attemptsOf events ++ [attempted] := by
  simp [attemptsOf]

lemma attemptsOf_interrupted (events : List CleanupEvent) (ran : ℕ) :
    attemptsOf (events ++ [.interrupted ran]) = attemptsOf events := by
  simp [attemptsOf]

lemma appliedCommands_attempt (config : TunRuntimeConfig) (events : List CleanupEvent)
    (attempted : TunRuntimeConfig) (applied : ℕ) :
    appliedCommands config (events ++ [.attempt attempted applied])
      = appliedCommands config events ++ ((steps attempted config).map Prod.fst).take applied := by
  simp [appliedCommands]

lemma appliedCommands_interrupted (config : TunRuntimeConfig) (events : List CleanupEvent) (ran : ℕ) :
    appliedCommands config (events ++ [.interrupted ran]) = appliedCommands config events := by
  simp [appliedCommands]

/-- An attempt is recorded, and some of its commands are applied. -/
lemma step_attempt_eq_ok {applied : ℕ} :
    s.step config (.attempt attempted applied) = .ok s' ↔ Comparable attempted config ∧
      ∃ cleanup, recordTunCleanup s.cleanup (recordOf config.name (newAddresses attempted config)
          (newBlocks attempted config)) = .ok cleanup ∧
        s' = ⟨runAll Kernel.execute (((steps attempted config).map Prod.fst).take applied) s.kernel,
          some cleanup⟩ := by
  simp only [CleanupState.step, bind_eq_ok, capture_eq_ok, mapError_eq_ok_iff,
    pairingReconciliationFrom_eq_ok]
  constructor
  · rintro ⟨_, ⟨hcomparable, rfl⟩, cleanup, hcleanup, _, ⟨-, rfl⟩, hs'⟩
    exact ⟨hcomparable, cleanup, hcleanup, (Except.ok.inj hs').symm⟩
  · rintro ⟨hcomparable, cleanup, hcleanup, rfl⟩
    exact ⟨_, ⟨hcomparable, rfl⟩, cleanup, hcleanup, _, ⟨hcomparable, rfl⟩, rfl⟩

lemma owned_start (config : TunRuntimeConfig) : Owned config [] ⟨installed config, none⟩ where
  interface := (installed_eq config).1
  touched _ := .inl rfl
  comparable := nofun
  none _ := rfl
  some := nofun

lemma Owned.attempt {applied : ℕ} (h : Owned config events s)
    (hstep : s.step config (.attempt attempted applied) = .ok s') :
    Owned config (events ++ [.attempt attempted applied]) s' := by
  obtain ⟨hcomparable, cleanup, hcleanup, rfl⟩ := step_attempt_eq_ok.mp hstep
  refine ⟨(interface_runAll _ _).trans h.interface, ?_, ?_, nofun, ?_⟩
  · rw [appliedCommands_attempt]
    exact h.touched.runAll
  · rw [attemptsOf_attempt]
    intro a ha
    rcases List.mem_append.mp ha with ha | ha
    · exact h.comparable a ha
    · rw [List.mem_singleton.mp ha]
      exact hcomparable
  · rintro _ ⟨⟩
    rw [attemptsOf_attempt]
    obtain ⟨_, hvalid, hcleanup⟩ := bind_eq_ok.mp hcleanup
    rw [validate_recordOf] at hvalid
    cases hprevious : s.cleanup with
    | none =>
      rw [hprevious] at hcleanup
      obtain rfl := Except.ok.inj hcleanup
      rw [h.none hprevious]
      exact ⟨_, _, rfl, by simp, recorded_singleton hvalid⟩
    | some previous =>
      rw [hprevious] at hcleanup
      obtain ⟨hosts, cidrs, rfl, -, hrecorded⟩ := h.some previous hprevious
      obtain ⟨-, -, rfl⟩ := merge_recordOf.mp hcleanup
      exact ⟨_, _, rfl, by simp, hrecorded.merge hvalid⟩

lemma Owned.interrupted {ran : ℕ} (h : Owned config events s)
    (hstep : s.step config (.interrupted ran) = .ok s') :
    Owned config (events ++ [.interrupted ran]) s' := by
  rw [CleanupState.step] at hstep
  cases hcleanup : s.cleanup with
  | none =>
    rw [hcleanup] at hstep
    obtain rfl := Except.ok.inj hstep
    exact ⟨h.interface, by rw [appliedCommands_interrupted]; exact h.touched,
      by rw [attemptsOf_interrupted]; exact h.comparable,
      by rw [attemptsOf_interrupted]; exact h.none, by rw [attemptsOf_interrupted]; exact h.some⟩
  | some cleanup =>
    rw [hcleanup] at hstep
    obtain ⟨update, hupdate, hs'⟩ := bind_eq_ok.mp hstep
    obtain rfl := Except.ok.inj hs'
    obtain ⟨hosts, cidrs, rfl, hsome⟩ := h.some cleanup hcleanup
    obtain ⟨-, rfl⟩ := update_recordOf.mp hupdate
    simp only [runAll_executeCleanup]
    refine ⟨(interface_runAll _ _).trans h.interface, ?_, ?_, nofun, ?_⟩
    · rw [appliedCommands_interrupted]
      exact h.touched.runAll_cleanup h.interface ran
    · rw [attemptsOf_interrupted]
      exact h.comparable
    · rintro _ ⟨⟩
      rw [attemptsOf_interrupted]
      exact ⟨hosts, cidrs, rfl, hsome⟩

lemma owned_run (hrun : cleanupRun config events = .ok s) : Owned config events s := by
  induction events using List.reverseRecOn generalizing s with
  | nil =>
    obtain rfl := Except.ok.inj hrun
    exact owned_start config
  | append_singleton events event ih =>
    rw [cleanupRun_concat, bind_eq_ok] at hrun
    obtain ⟨before, hbefore, hstep⟩ := hrun
    cases event with
    | attempt attempted applied => exact (ih hbefore).attempt hstep
    | interrupted ran => exact (ih hbefore).interrupted hstep

/-- Attempts that can be written down are. -/
lemma exists_run (hname : attemptsOf events ≠ [] → ValidName config.name)
    (hcapturable : ∀ a ∈ attemptsOf events, Capturable a config) :
    ∃ s, cleanupRun config events = .ok s := by
  induction events using List.reverseRecOn with
  | nil => exact ⟨_, rfl⟩
  | append_singleton events event ih =>
    have hsub : ∀ a ∈ attemptsOf events, a ∈ attemptsOf (events ++ [event]) := by
      intro a ha
      simp only [attemptsOf, List.filterMap_append, List.mem_append]
      exact .inl ha
    have hname' : attemptsOf events ≠ [] → ValidName config.name := by
      intro hne
      obtain ⟨a, ha⟩ := List.exists_mem_of_ne_nil _ hne
      exact hname (List.ne_nil_of_mem (hsub a ha))
    obtain ⟨before, hbefore⟩ := ih hname' fun a ha => hcapturable a (hsub a ha)
    have howned := owned_run hbefore
    have hvalid : ∀ cleanup ∈ before.cleanup, ∃ hosts cidrs,
        cleanup = recordOf config.name hosts cidrs ∧ ValidRecord config.name hosts cidrs := by
      intro cleanup hcleanup
      obtain ⟨hosts, cidrs, rfl, hne, hrecorded⟩ := howned.some cleanup hcleanup
      exact ⟨hosts, cidrs, rfl, hrecorded.valid (hname' hne) fun a ha => hcapturable a (hsub a ha)⟩
    simp only [cleanupRun_concat, bind_eq_ok]
    cases event with
    | attempt attempted applied =>
      have hmem : attempted ∈ attemptsOf (events ++ [.attempt attempted applied]) := by
        simp [attemptsOf_attempt]
      have hattempt := hcapturable attempted hmem
      have hnew := hattempt.valid (hname (List.ne_nil_of_mem hmem))
      have hrecorded : ∃ cleanup, recordTunCleanup before.cleanup (recordOf config.name
          (newAddresses attempted config) (newBlocks attempted config)) = .ok cleanup := by
        cases hcleanup : before.cleanup with
        | none => exact ⟨_, bind_eq_ok.mpr ⟨(), validate_recordOf.mpr hnew, rfl⟩⟩
        | some cleanup =>
          obtain ⟨hosts, cidrs, rfl, hprevious⟩ := hvalid cleanup hcleanup
          exact ⟨_, bind_eq_ok.mpr ⟨(), validate_recordOf.mpr hnew,
            merge_recordOf.mpr ⟨hprevious, hnew, rfl⟩⟩⟩
      obtain ⟨cleanup, hcleanup⟩ := hrecorded
      exact ⟨_, before, hbefore,
        step_attempt_eq_ok.mpr ⟨hattempt.comparable, cleanup, hcleanup, rfl⟩⟩
    | interrupted ran =>
      cases hcleanup : before.cleanup with
      | none => exact ⟨before, before, hbefore, by rw [CleanupState.step, hcleanup]; rfl⟩
      | some cleanup =>
        obtain ⟨hosts, cidrs, rfl, hprevious⟩ := hvalid cleanup hcleanup
        have hstep : ∃ s, before.step config (.interrupted ran) = .ok s := by
          rw [CleanupState.step, hcleanup]
          exact ⟨_, bind_eq_ok.mpr ⟨_, update_recordOf.mpr ⟨hprevious, rfl⟩, rfl⟩⟩
        exact hstep.imp fun s hs => ⟨before, hbefore, hs⟩

/-! ## What a cleanup covers -/

/-- The commands that are applied are those of the attempts. -/
lemma exists_attempt_of_mem_applied (h : command ∈ appliedCommands config events) :
    ∃ a ∈ attemptsOf events, command ∈ (steps a config).map Prod.fst := by
  obtain ⟨event, hevent, hmem⟩ := List.mem_flatMap.mp h
  cases event with
  | attempt a applied =>
    exact ⟨a, List.mem_filterMap.mpr ⟨_, hevent, rfl⟩, List.mem_of_mem_take hmem⟩
  | interrupted ran => exact absurd hmem List.not_mem_nil

/-- An attempt only adds what the configuration does not have. -/
lemma added_of_mem_applied (hcomparable : ∀ a ∈ attemptsOf events, Comparable a config)
    (h : command ∈ appliedCommands config events)
    (hnew : ∀ cidr, command.key = .route cidr → cidr ∉ blocks config) :
    Added config events command.key := by
  obtain ⟨a, ha, hstep⟩ := exists_attempt_of_mem_applied h
  rcases mem_steps.mp hstep with ⟨cidr, -, rfl⟩ | ⟨cidr, -, rfl⟩ | ⟨cidr, hcidr, rfl⟩
  · rw [(hcomparable a ha).name] at h
    exact h
  · rw [TunRuntimeConfig.routeReplace, (hcomparable a ha).name] at h
    exact ⟨_, _, h⟩
  · exact absurd (mem_deletedBlocks.mp hcidr).1 (hnew cidr rfl)

/-- What was touched is touched by the cleanup. -/
lemma Recorded.covers {cidrs : List IpCidr} (h : Recorded config attempts hosts cidrs)
    (hcapturable : ∀ a ∈ attempts, Capturable a config) {a : TunRuntimeConfig} (ha : a ∈ attempts)
    (hcommand : command ∈ (steps a config).map Prod.fst) :
    ∃ command' ∈ cleanupCommands config hosts cidrs, command'.key = command.key := by
  have hreplaced : ∀ cidr ∈ blocks config,
      config.routeReplace cidr ∈ cleanupCommands config hosts cidrs := fun cidr hcidr =>
    List.mem_append_right _ (List.mem_append_left _ (List.mem_map_of_mem hcidr))
  rcases mem_steps.mp hcommand with ⟨cidr, hcidr, rfl⟩ | ⟨cidr, hcidr, rfl⟩ | ⟨cidr, hcidr, rfl⟩
  · -- a new address is a host, which is deleted under its own name
    have hself := normalized_of_host ((hcapturable a ha).hosts cidr hcidr)
    have hmem : cidr ∈ hosts.map IpCidr.normalized :=
      List.mem_map.mpr ⟨cidr, (h.mem_addresses cidr).mpr ⟨a, ha, hcidr⟩, hself⟩
    have hnot : cidr ∉ localAddresses config := by
      rw [← hasLocalAddress_iff]
      simpa using (List.mem_filter.mp hcidr).2
    refine ⟨.addrDelete config.name cidr, ?_, rfl⟩
    refine List.mem_append_right _ (List.mem_append_right _ (List.mem_append_right _ ?_))
    exact List.mem_map_of_mem (List.mem_filter.mpr ⟨hmem, by simpa using hnot⟩)
  · by_cases hold : cidr ∈ blocks config
    · exact ⟨_, hreplaced cidr hold, rfl⟩
    · have hnew := mem_newBlocks.mpr ⟨replacedBlocks_subset cidr hcidr, hold⟩
      have hmem : cidr ∈ cidrs.map IpCidr.normalized :=
        List.mem_map.mpr ⟨cidr, (h.mem_routes cidr).mpr ⟨a, ha, hnew⟩,
          (hcapturable a ha).normalized cidr hnew⟩
      refine ⟨.routeDelete config.name cidr, ?_, rfl⟩
      refine List.mem_append_right _ (List.mem_append_right _ (List.mem_append_left _ ?_))
      exact List.mem_map_of_mem (List.mem_filter.mpr ⟨hmem, by simpa using hold⟩)
  · exact ⟨_, hreplaced cidr (mem_deletedBlocks.mp hcidr).1, rfl⟩

/-- A command of a cleanup that deletes something deletes what an attempt added. -/
lemma added_of_deletes {cidrs : List IpCidr}
    (htouched : TouchedBy config (appliedCommands config events) kernel)
    (hcomparable : ∀ a ∈ attemptsOf events, Comparable a config)
    (hcommand : command ∈ cleanupCommands config hosts cidrs) {key : Key}
    (hkey : key ∈ command.deletes kernel) : Added config events key := by
  obtain ⟨-, haddresses, hroutes⟩ := installed_eq config
  simp only [cleanupCommands, List.mem_append, List.mem_map, List.mem_filter,
    decide_eq_true_eq] at hcommand
  rcases hcommand with ⟨cidr, -, rfl⟩ | ⟨cidr, -, rfl⟩ | ⟨cidr, ⟨-, hcidr⟩, rfl⟩ |
    ⟨cidr, ⟨-, hcidr⟩, rfl⟩
  · cases hkey
  · cases hkey
  · obtain ⟨hthere, rfl⟩ : (kernel.routes.get? cidr).isSome ∧ Key.route cidr = key := by
      simpa [IpCommand.deletes] using hkey
    rcases htouched (.route cidr) with hview | ⟨command, hcommand, hkey⟩
    · have hget : kernel.routes.get? cidr = none := by
        refine (congrArg Prod.snd hview).trans ?_
        rw [Kernel.view, hroutes, if_neg hcidr]
      simp [hget] at hthere
    · rw [← hkey]
      refine added_of_mem_applied hcomparable hcommand fun other hother => ?_
      rw [hkey] at hother
      exact Key.route.inj hother ▸ hcidr
  · obtain ⟨hthere, rfl⟩ : cidr ∈ kernel.addresses ∧ Key.address cidr = key := by
      simpa [IpCommand.deletes] using hkey
    rcases htouched (.address cidr) with hview | ⟨command, hcommand, hkey⟩
    · have hlocal := congrArg Prod.fst hview
      simp [Kernel.view, haddresses, hthere, hcidr] at hlocal
    · rw [← hkey]
      refine added_of_mem_applied hcomparable hcommand fun other hother => ?_
      rw [hkey] at hother
      cases hother

/-- Attempts that can be written down are undone. -/
lemma restored_of_capturable (hname : attemptsOf events ≠ [] → ValidName config.name)
    (hcapturable : ∀ a ∈ attemptsOf events, Capturable a config) : Restored config events := by
  obtain ⟨s, hs⟩ := exists_run hname hcapturable
  have howned := owned_run hs
  refine ⟨s, hs, fun cleanup hcleanup => ?_⟩
  obtain ⟨hosts, cidrs, rfl, hne, hrecorded⟩ := howned.some cleanup hcleanup
  refine ⟨_, update_recordOf.mpr ⟨hrecorded.valid (hname hne) hcapturable, rfl⟩, ?_, ?_, ?_⟩
  · have hrestored := howned.touched.restored howned.interface fun command hcommand => by
      obtain ⟨a, ha, hstep⟩ := exists_attempt_of_mem_applied hcommand
      exact hrecorded.covers hcapturable ha hstep
    rw [executeTunRouteUpdate, executeFrom_executeCleanup, hrestored]
    intro command hcommand
    rw [interface_of_mem_cleanupCommands hcommand, howned.interface]
  · have hinstalled := (installed_eq config).1
    have htouched : TouchedBy config [] (installed config) := fun _ => .inl rfl
    rw [executeTunRouteUpdate, executeFrom_executeCleanup, htouched.restored hinstalled (by simp)]
    intro command hcommand
    rw [interface_of_mem_cleanupCommands hcommand, hinstalled]
  · intro ran command hcommand key hkey
    rw [runAll_executeCleanup] at hkey
    exact added_of_deletes (howned.touched.runAll_cleanup howned.interface ran) howned.comparable
      (List.mem_of_getElem? hcommand) hkey

/-! ## Attempts that cannot be written down -/

/-- The attempts, with all of their commands. -/
def wholeAttempts (config : TunRuntimeConfig) (attempts : List TunRuntimeConfig) :
    List CleanupEvent :=
  attempts.map fun a => .attempt a (steps a config).length

lemma attemptsOf_wholeAttempts (config : TunRuntimeConfig) (attempts : List TunRuntimeConfig) :
    attemptsOf (wholeAttempts config attempts) = attempts := by
  induction attempts with
  | nil => rfl
  | cons a attempts ih => exact congrArg (a :: ·) ih

lemma kernel_wholeAttempts (h : cleanupRun config (wholeAttempts config attempts) = .ok s) :
    s.kernel = runAll Kernel.execute (attempts.flatMap fun a => (steps a config).map Prod.fst)
      (installed config) := by
  induction attempts using List.reverseRecOn generalizing s with
  | nil =>
    obtain rfl := Except.ok.inj h
    rfl
  | append_singleton attempts a ih =>
    rw [wholeAttempts, List.map_append, List.map_singleton, cleanupRun_concat, bind_eq_ok] at h
    obtain ⟨before, hbefore, hstep⟩ := h
    obtain ⟨-, cleanup, -, rfl⟩ := step_attempt_eq_ok.mp hstep
    simp only [ih hbefore, List.take_of_length_le (List.length_map _).le, List.flatMap_append,
      List.flatMap_singleton, runAll, List.foldl_append]

/-- A route stays until it is deleted. -/
lemma route_stays (hdeletes : ∀ name, .routeDelete name cidr ∉ commands)
    (h : (kernel.routes.get? cidr).isSome ∨
      ∃ source mtu, .routeReplace kernel.interface cidr source mtu ∈ commands) :
    ((runAll Kernel.execute commands kernel).routes.get? cidr).isSome := by
  induction commands generalizing kernel with
  | nil => exact h.resolve_right (by simp)
  | cons command commands ih =>
    refine ih (fun name hmem => hdeletes name (List.mem_cons_of_mem _ hmem)) ?_
    change ((kernel.execute command).2.routes.get? cidr).isSome ∨ _
    rw [interface_execute]
    by_cases hkey : Key.route cidr = command.key
    · -- the command is for the block, so it replaces its route
      cases command with
      | addrReplace => cases hkey
      | addrDelete => cases hkey
      | routeDelete name other =>
        obtain rfl := Key.route.inj hkey
        exact absurd List.mem_cons_self (hdeletes name)
      | routeReplace name other source mtu =>
        obtain rfl := Key.route.inj hkey
        by_cases hname : name = kernel.interface
        · subst hname
          have hview : (kernel.execute (.routeReplace kernel.interface cidr source mtu)).2.routes.get?
              cidr = some (source, mtu) :=
            congrArg Prod.snd (view_execute_routeReplace kernel cidr source mtu)
          exact .inl (by rw [hview]; rfl)
        · have hsame : (kernel.execute (.routeReplace name cidr source mtu)).2 = kernel := by
            simp [Kernel.execute, Kernel.perform, IpCommand.interface, hname]
          rw [hsame]
          refine h.imp_right ?_
          rintro ⟨source', mtu', hmem⟩
          refine ⟨source', mtu', ?_⟩
          rcases List.mem_cons.mp hmem with heq | hmem
          · cases heq
            exact absurd rfl hname
          · exact hmem
    · have hview : (kernel.execute command).2.routes.get? cidr = kernel.routes.get? cidr :=
        congrArg Prod.snd (view_execute_of_ne hkey)
      rw [hview]
      refine h.imp_right ?_
      rintro ⟨source, mtu, hmem⟩
      refine ⟨source, mtu, ?_⟩
      refine (List.mem_cons.mp hmem).resolve_left fun heq => hkey ?_
      rw [← heq]
      rfl

/-- A cleanup deletes blocks without host bits only. -/
lemma normalized_of_restored {cidrs : List IpCidr}
    (hcomparable : ∀ a ∈ attempts, Comparable a config)
    (hrestored : runAll Kernel.execute (cleanupCommands config hosts cidrs)
      (runAll Kernel.execute (attempts.flatMap fun a => (steps a config).map Prod.fst)
        (installed config)) = installed config) {a : TunRuntimeConfig} (ha : a ∈ attempts)
    (hcidr : cidr ∈ newBlocks a config) :
    cidr.normalized = cidr := by
  by_contra hhost
  obtain ⟨hname, -, hroutes⟩ := installed_eq config
  obtain ⟨hmem, hnew⟩ := mem_newBlocks.mp hcidr
  have hreplaced : a.routeReplace cidr ∈ (steps a config).map Prod.fst := by
    refine mem_steps.mpr (.inr (.inl ⟨cidr, ?_, rfl⟩))
    by_contra hnot
    exact hnew (source_of_not_replaced hmem hnot).1
  have hthere : ((installed config).routes.get? cidr).isSome := by
    rw [← hrestored, runAll, runAll, ← List.foldl_append, ← runAll]
    refine route_stays (fun name hdelete => ?_) (.inr ⟨a.routeSource cidr, a.mtu, ?_⟩)
    · rcases List.mem_append.mp hdelete with hdelete | hdelete
      · obtain ⟨b, -, hstep⟩ := List.mem_flatMap.mp hdelete
        rcases mem_steps.mp hstep with ⟨_, -, heq⟩ | ⟨_, -, heq⟩ | ⟨other, hother, heq⟩
        · cases heq
        · cases heq
        · cases heq
          exact hnew (mem_deletedBlocks.mp hother).1
      · simp only [cleanupCommands, List.mem_append, List.mem_map, List.mem_filter] at hdelete
        rcases hdelete with ⟨_, -, heq⟩ | ⟨_, -, heq⟩ | ⟨_, ⟨⟨other, -, rfl⟩, -⟩, heq⟩ | ⟨_, -, heq⟩
        · cases heq
        · cases heq
        · cases heq
          exact hhost (normalized_normalized other)
        · cases heq
    · rw [hname, ← (hcomparable a ha).name]
      exact List.mem_append_left _ (List.mem_flatMap.mpr ⟨a, ha, hreplaced⟩)
  rw [hroutes, if_neg hnew] at hthere
  cases hthere

/-- **The cleanup after pairing restores the interface**, whatever was applied and however often it
was interrupted, if and only if what the attempts add can be written down. -/
theorem pairing_cleanup_restores_iff (config : TunRuntimeConfig) (attempts : List TunRuntimeConfig) :
    (∀ events, attemptsOf events = attempts → Restored config events) ↔
      (attempts ≠ [] → ValidName config.name) ∧ ∀ a ∈ attempts, Capturable a config := by
  constructor
  · intro h
    obtain ⟨s, hs, hrestored⟩ := h _ (attemptsOf_wholeAttempts config attempts)
    have howned := owned_run hs
    have hcomparable := howned.comparable
    have hkernel := kernel_wholeAttempts hs
    rw [attemptsOf_wholeAttempts] at hcomparable
    cases hcleanup : s.cleanup with
    | none =>
      have hnil := howned.none hcleanup
      rw [attemptsOf_wholeAttempts] at hnil
      subst hnil
      exact ⟨absurd rfl, nofun⟩
    | some cleanup =>
      obtain ⟨hosts, cidrs, rfl, -, hrecorded⟩ := howned.some cleanup hcleanup
      obtain ⟨update, hupdate, hrestores, -, -⟩ := hrestored _ hcleanup
      obtain ⟨hvalid, rfl⟩ := update_recordOf.mp hupdate
      rw [attemptsOf_wholeAttempts] at hrecorded
      have hend : runAll Kernel.execute (cleanupCommands config hosts cidrs) s.kernel
          = installed config := by
        rw [executeTunRouteUpdate, executeFrom_executeCleanup fun command hcommand => by
          rw [interface_of_mem_cleanupCommands hcommand, howned.interface]] at hrestores
        exact congrArg Prod.snd hrestores
      rw [hkernel] at hend
      refine ⟨fun _ => hvalid.name, fun a ha => ?_⟩
      obtain ⟨-, haddresses, hlengths, hroutes⟩ := hrecorded.accepted a ha
      exact ⟨hcomparable a ha, haddresses.of_map _, hlengths, hroutes.of_map _,
        fun cidr hcidr => normalized_of_restored hcomparable hend ha hcidr⟩
  · rintro ⟨hname, hcapturable⟩ events rfl
    exact restored_of_capturable hname hcapturable

end Runs

/-- Two attempts, each half applied, with a cleanup that is interrupted in between. -/
theorem sample_pairing_restored :
    Restored (sampleTun []) [.attempt (sampleTun [sampleRoute 0x0a01 1]) 1, .interrupted 0,
      .attempt (sampleTun [sampleRoute 0x0a01 1, sampleRoute 0x0a02 1]) 2] := by
  refine (pairing_cleanup_restores_iff (sampleTun [])
    [sampleTun [sampleRoute 0x0a01 1], sampleTun [sampleRoute 0x0a01 1, sampleRoute 0x0a02 1]]).mpr
    ⟨fun _ => ⟨by decide, by decide⟩, ?_⟩ _ rfl
  refine List.forall_mem_cons.mpr ⟨?_, List.forall_mem_singleton.mpr ?_⟩
  all_goals exact ⟨⟨rfl, rfl, rfl, by decide⟩, by decide, by decide, by decide, by decide⟩

/-- A block with two metrics is written down twice, and the record is refused. -/
theorem block_with_two_metrics_not_cleaned_up :
    ∃ table cleanup,
      RouteTable.insertAll ⟨[]⟩ [sampleRoute 0x0a01 1, sampleRoute 0x0a01 2] = .ok table ∧
      PairingTunCleanup.capture (sampleTun []) (sampleTun table.routes) = .ok cleanup ∧
      cleanup.validate = .error (.nonAdditiveUpdate "invalid pairing cleanup prefix") ∧
      cleanup.merge cleanup = .error (.nonAdditiveUpdate "invalid pairing cleanup prefix") ∧
      cleanup.update (sampleTun []) = .error (.nonAdditiveUpdate "invalid pairing cleanup prefix") ∧
      recordTunCleanup none cleanup
        = .error (.nonAdditiveUpdate "invalid pairing cleanup prefix") ∧
      ¬ Restored (sampleTun []) [.attempt (sampleTun table.routes) 1] := by
  let twice := PairingTunCleanup.prefixConfig (sampleRoute 0x0a01 1).cidr
  have hrecord : recordTunCleanup none ⟨"pv0", [], [twice, twice]⟩
      = .error (.nonAdditiveUpdate "invalid pairing cleanup prefix") := by decide +kernel
  refine ⟨⟨[sampleRoute 0x0a01 1, sampleRoute 0x0a01 2]⟩, ⟨"pv0", [], [twice, twice]⟩,
    by decide +kernel, rfl, by decide +kernel, by decide +kernel, by decide +kernel, hrecord, ?_⟩
  rintro ⟨s, hs, -⟩
  rw [← List.nil_append [_], cleanupRun_concat, bind_eq_ok] at hs
  obtain ⟨start, hstart, hs⟩ := hs
  obtain rfl := Except.ok.inj hstart
  obtain ⟨-, cleanup, hcleanup, rfl⟩ := step_attempt_eq_ok.mp hs
  cases hcleanup.symm.trans hrecord

end P2pVpn.Tun
