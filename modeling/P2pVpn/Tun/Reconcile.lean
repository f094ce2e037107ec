/-
# Reconciling the interface

What the commands of an update do to an interface.  The interface has a set of addresses and, for
each block, a route with a source and a packet size; replacing always works, and deleting what is not
there fails.

The rollbacks are an undo log: each of them brings its address or block back to what it was in the
old configuration.  So an update that fails is always taken back.  An update succeeds, and brings the
interface to the new configuration, except when the old configuration has two routes for a block that
is gone: then the block is deleted twice (`reconciliation_transactional_iff`).
-/
import P2pVpn.Lib.HashMap
import P2pVpn.Tun.Config

namespace P2pVpn.Tun

open Lib Net

/-! ## The interface -/

inductive KernelError where
  | noDevice
  | absent
  /-- The command fails for another reason. -/
  | fault
deriving DecidableEq, Repr

structure Kernel where
  interface : String
  addresses : Finset IpCidr
  routes : HashMap IpCidr (IpAddr × ℕ)
deriving DecidableEq

def IpCommand.interface : IpCommand → String
  | .addrReplace interface _ | .addrDelete interface _ | .routeReplace interface _ _ _
  | .routeDelete interface _ => interface

namespace Kernel

/-- What is deleted must be there. -/
def accepts (kernel : Kernel) : IpCommand → Bool
  | .addrDelete _ cidr => cidr ∈ kernel.addresses
  | .routeDelete _ cidr => (kernel.routes.get? cidr).isSome
  | .addrReplace _ _ | .routeReplace _ _ _ _ => true

/-- What a command does if it is accepted. -/
def effect (kernel : Kernel) : IpCommand → Kernel
  | .addrReplace _ cidr => { kernel with addresses := insert cidr kernel.addresses }
  | .addrDelete _ cidr => { kernel with addresses := kernel.addresses.erase cidr }
  | .routeReplace _ cidr source mtu => { kernel with routes := kernel.routes.insert cidr (source, mtu) }
  | .routeDelete _ cidr => { kernel with routes := kernel.routes.remove cidr }

def perform (kernel : Kernel) (command : IpCommand) : Except KernelError Kernel :=
  if command.interface ≠ kernel.interface then .error .noDevice
  else if ¬ kernel.accepts command then .error .absent
  else .ok (kernel.effect command)

/-- A command that fails changes nothing. -/
def execute (command : IpCommand) (kernel : Kernel) : Except KernelError Unit × Kernel :=
  match kernel.perform command with
  | .ok kernel => (.ok (), kernel)
  | .error error => (.error error, kernel)

/-- The same, but the command after the given number of commands fails. -/
def executeFaulty (command : IpCommand) :
    Kernel × Option ℕ → Except KernelError Unit × (Kernel × Option ℕ)
  | (kernel, some 0) => (.error .fault, (kernel, none))
  | (kernel, some (n + 1)) =>
      ((kernel.execute command).1, ((kernel.execute command).2, some n))
  | (kernel, none) => ((kernel.execute command).1, ((kernel.execute command).2, none))

end Kernel

variable {kernel kernel' : Kernel} {command : IpCommand} {update : TunRouteUpdate}

lemma Kernel.ext_get? (hname : kernel.interface = kernel'.interface)
    (haddresses : kernel.addresses = kernel'.addresses)
    (hroutes : ∀ cidr, kernel.routes.get? cidr = kernel'.routes.get? cidr) : kernel = kernel' := by
  obtain ⟨name, addresses, routes⟩ := kernel
  obtain ⟨name', addresses', routes'⟩ := kernel'
  obtain rfl : name = name' := hname
  obtain rfl : addresses = addresses' := haddresses
  obtain rfl : routes = routes' := HashMap.ext_get? hroutes
  rfl

variable (config : TunRuntimeConfig) (cidrs : List IpCidr)

/-- A new interface has the address of the peer. -/
def device : Kernel := ⟨config.name, {config.ipv4Cidr}, ∅⟩

/-- The interface as it is installed for a configuration. -/
def installed : Kernel :=
  runAll Kernel.execute config.routeCommands (device config)

/-! ## Runs without a fault -/

variable {commands : List IpCommand}

lemma execute_of_perform (h : kernel.perform command = .ok kernel') :
    kernel.execute command = (.ok (), kernel') := by
  simp only [Kernel.execute, h]

lemma runAll_of_foldlM (h : commands.foldlM Kernel.perform kernel = .ok kernel') :
    runAll Kernel.execute commands kernel = kernel' := by
  induction commands generalizing kernel with
  | nil => exact Except.ok.inj h
  | cons command commands ih =>
    rw [List.foldlM_cons, bind_eq_ok] at h
    obtain ⟨next, hnext, h⟩ := h
    have hfirst : (kernel.execute command).2 = next := by rw [execute_of_perform hnext]
    rw [runAll, List.foldl_cons, hfirst]
    exact ih h

lemma executeFrom_eq_ok {applied : ℕ} :
    executeFrom Kernel.execute update applied commands kernel = (.ok (), kernel') ↔
      commands.foldlM Kernel.perform kernel = .ok kernel' := by
  induction commands generalizing kernel applied with
  | nil => simp [executeFrom, pure, Except.pure]
  | cons command commands ih =>
    rw [List.foldlM_cons]
    cases hfirst : kernel.perform command with
    | ok next =>
      rw [executeFrom, execute_of_perform hfirst]
      exact ih
    | error error =>
      simp only [executeFrom, Kernel.execute, hfirst, bind, Except.bind]
      split
      · simp
      · simp

/-! ### Addresses and routes -/

lemma foldlM_addrReplace (kernel : Kernel) :
    (cidrs.map (.addrReplace kernel.interface)).foldlM Kernel.perform kernel
      = .ok { kernel with addresses := kernel.addresses ∪ cidrs.toFinset } := by
  induction cidrs generalizing kernel with
  | nil => simp [pure, Except.pure]
  | cons cidr cidrs ih =>
    rw [List.map_cons, List.foldlM_cons, bind_eq_ok]
    refine ⟨{ kernel with addresses := insert cidr kernel.addresses }, by
      simp [Kernel.perform, Kernel.accepts, Kernel.effect, IpCommand.interface], ?_⟩
    rw [ih { kernel with addresses := insert cidr kernel.addresses }]
    simp

/-- The routes after some blocks were replaced. -/
def replaceRoutes (value : IpCidr → IpAddr × ℕ) (cidrs : List IpCidr)
    (routes : HashMap IpCidr (IpAddr × ℕ)) : HashMap IpCidr (IpAddr × ℕ) :=
  cidrs.foldl (fun routes cidr => routes.insert cidr (value cidr)) routes

lemma get?_replaceRoutes (value : IpCidr → IpAddr × ℕ) (cidrs : List IpCidr)
    (routes : HashMap IpCidr (IpAddr × ℕ)) (cidr : IpCidr) :
    (replaceRoutes value cidrs routes).get? cidr
      = if cidr ∈ cidrs then some (value cidr) else routes.get? cidr := by
  induction cidrs generalizing routes with
  | nil => simp [replaceRoutes]
  | cons first cidrs ih =>
    rw [replaceRoutes, List.foldl_cons, ← replaceRoutes, ih, HashMap.get?_insert]
    by_cases hrest : cidr ∈ cidrs
    · simp [hrest]
    · by_cases hfirst : cidr = first
      · subst hfirst
        simp
      · simp [hrest, hfirst]

lemma foldlM_routeReplace (kernel : Kernel) (hname : kernel.interface = config.name) :
    (cidrs.map config.routeReplace).foldlM Kernel.perform kernel
      = .ok { kernel with
          routes := replaceRoutes (fun cidr => (config.routeSource cidr, config.mtu)) cidrs
            kernel.routes } := by
  induction cidrs generalizing kernel with
  | nil => simp [replaceRoutes, pure, Except.pure]
  | cons cidr cidrs ih =>
    rw [List.map_cons, List.foldlM_cons, bind_eq_ok]
    refine ⟨{ kernel with
      routes := kernel.routes.insert cidr (config.routeSource cidr, config.mtu) }, ?_, ?_⟩
    · simp [Kernel.perform, Kernel.accepts, Kernel.effect, IpCommand.interface,
        TunRuntimeConfig.routeReplace, hname]
    · have hrest := ih { kernel with
        routes := kernel.routes.insert cidr (config.routeSource cidr, config.mtu) } hname
      rw [hrest]
      rfl

/-- Deleting blocks works if they are there, each of them once. -/
lemma foldlM_routeDelete {cidrs : List IpCidr} :
    (cidrs.map (.routeDelete kernel.interface)).foldlM Kernel.perform kernel = .ok kernel' ↔
      cidrs.Nodup ∧ (∀ cidr ∈ cidrs, (kernel.routes.get? cidr).isSome) ∧
        kernel' = { kernel with routes := kernel.routes.retainKeys (· ∉ cidrs) } := by
  induction cidrs generalizing kernel with
  | nil =>
    have hroutes : kernel.routes.retainKeys (· ∉ ([] : List IpCidr)) = kernel.routes := by
      ext1 cidr
      simp
    rw [List.map_nil, List.foldlM_nil, pure_eq_ok, hroutes]
    simp
  | cons cidr cidrs ih =>
    have hperform : ∀ next, kernel.perform (.routeDelete kernel.interface cidr) = .ok next ↔
        next = { kernel with routes := kernel.routes.remove cidr } ∧ (kernel.routes.get? cidr).isSome := by
      intro next
      cases hget : kernel.routes.get? cidr with
      | none => simp [Kernel.perform, Kernel.accepts, IpCommand.interface, hget]
      | some value =>
        simp [Kernel.perform, Kernel.accepts, Kernel.effect, IpCommand.interface, hget, eq_comm]
    have hpresent : (∀ other ∈ cidrs, ((kernel.routes.remove cidr).get? other).isSome) ↔
        cidr ∉ cidrs ∧ ∀ other ∈ cidrs, (kernel.routes.get? other).isSome := by
      simp only [HashMap.get?_remove]
      grind
    have hroutes : (kernel.routes.remove cidr).retainKeys (· ∉ cidrs)
        = kernel.routes.retainKeys (· ∉ cidr :: cidrs) := by
      ext1 other
      by_cases hother : other = cidr <;> simp [HashMap.get?_remove, hother]
    have hrest := @ih { kernel with routes := kernel.routes.remove cidr }
    rw [hpresent, hroutes] at hrest
    simp only [List.map_cons, List.foldlM_cons, bind_eq_ok, hperform, and_assoc, exists_eq_left,
      hrest, List.nodup_cons, List.forall_mem_cons]
    tauto

/-! ### What is installed -/

/-- The addresses of the node. -/
def localAddresses : Finset IpCidr :=
  insert config.ipv4Cidr (insert config.ipv6Cidr config.additionalAddresses.toFinset)

/-- The blocks that a configuration has routes for. -/
def blocks : List IpCidr := config.routes.map (·.cidr)

lemma cidr_eq_iff {a b : IpCidr} : a = b ↔ a.address = b.address ∧ a.prefixLen = b.prefixLen := by
  constructor
  · rintro rfl
    exact ⟨rfl, rfl⟩
  · obtain ⟨address, prefixLen, hle⟩ := a
    obtain ⟨address', prefixLen', hle'⟩ := b
    rintro ⟨haddress, hprefixLen⟩
    obtain rfl : address = address' := haddress
    obtain rfl : prefixLen = prefixLen' := hprefixLen
    rfl

lemma hasLocalAddress_iff {config : TunRuntimeConfig} {cidr : IpCidr} :
    config.hasLocalAddress cidr = true ↔ cidr ∈ localAddresses config := by
  simp only [TunRuntimeConfig.hasLocalAddress, localAddresses, Bool.or_eq_true,
    List.contains_iff_mem, Finset.mem_insert, List.mem_toFinset, cidr_eq_iff,
    TunRuntimeConfig.ipv4Cidr, TunRuntimeConfig.ipv6Cidr]
  split
  · rename_i haddress hprefixLen
    simp [haddress, hprefixLen, or_comm]
  · rename_i haddress hprefixLen
    simp [haddress, hprefixLen, or_comm]
  · rename_i hother4 hother6
    constructor
    · rintro (hmem | hfalse)
      · exact Or.inr (Or.inr hmem)
      · cases hfalse
    · rintro (⟨haddress, hprefixLen⟩ | ⟨haddress, hprefixLen⟩ | hmem)
      · exact (hother4 _ haddress hprefixLen).elim
      · exact (hother6 _ haddress hprefixLen).elim
      · exact Or.inl hmem

/-- The interface of a configuration. -/
lemma installed_eq :
    (installed config).interface = config.name ∧
      (installed config).addresses = localAddresses config ∧
      ∀ cidr, (installed config).routes.get? cidr
        = if cidr ∈ blocks config then some (config.routeSource cidr, config.mtu) else none := by
  have haddresses := foldlM_addrReplace (config.ipv6Cidr :: config.additionalAddresses) (device config)
  have hrun : config.routeCommands.foldlM Kernel.perform (device config)
      = ((blocks config).map config.routeReplace).foldlM Kernel.perform
        { device config with addresses := (device config).addresses ∪
            (config.ipv6Cidr :: config.additionalAddresses).toFinset } := by
    have hcommands : config.routeCommands
        = (config.ipv6Cidr :: config.additionalAddresses).map (.addrReplace (device config).interface)
          ++ (blocks config).map config.routeReplace := by
      simp [TunRuntimeConfig.routeCommands, blocks, device]
    rw [hcommands, List.foldlM_append, haddresses]
    rfl
  rw [foldlM_routeReplace config _ _ rfl] at hrun
  rw [installed, runAll_of_foldlM hrun]
  refine ⟨rfl, ?_, fun cidr => ?_⟩
  · ext cidr
    simp only [device, localAddresses, List.toFinset_cons, Finset.mem_union, Finset.mem_insert,
      Finset.mem_singleton]
  · rw [get?_replaceRoutes]
    simp [device]

/-! ## An update without a fault -/

section Update

variable {next current : TunRuntimeConfig}

/-- The configurations differ in their additional addresses and routes only, and none of the
addresses is gone. -/
structure Comparable (next current : TunRuntimeConfig) : Prop where
  name : next.name = current.name
  mtu : next.mtu = current.mtu
  addresses : next.addresses = current.addresses
  additional : ∀ cidr ∈ current.additionalAddresses, next.hasLocalAddress cidr = true

/-- The blocks whose routes are replaced, and those whose routes are deleted. -/
def replacedBlocks (next current : TunRuntimeConfig) : List IpCidr :=
  (next.routes.filter fun route => ! next.unchanged current route).map (·.cidr)

def deletedBlocks (next current : TunRuntimeConfig) : List IpCidr :=
  (current.routes.filter next.lacks).map (·.cidr)

def newAddresses (next current : TunRuntimeConfig) : List IpCidr :=
  next.additionalAddresses.filter fun cidr => ! current.hasLocalAddress cidr

lemma map_fst_routeSteps :
    (next.routeSteps current).map Prod.fst
      = (replacedBlocks next current).map next.routeReplace
        ++ (deletedBlocks next current).map (.routeDelete current.name) := by
  simp [TunRuntimeConfig.routeSteps, replacedBlocks, deletedBlocks, TunRuntimeConfig.replacement,
    TunRuntimeConfig.removal, Function.comp_def]

lemma map_fst_addressSteps :
    (next.addressSteps current).map Prod.fst
      = (newAddresses next current).map (.addrReplace next.name) := by
  simp [TunRuntimeConfig.addressSteps, newAddresses, Function.comp_def]

lemma mem_deletedBlocks {cidr : IpCidr} :
    cidr ∈ deletedBlocks next current ↔ cidr ∈ blocks current ∧ cidr ∉ blocks next := by
  simp only [deletedBlocks, blocks, List.mem_map, List.mem_filter, TunRuntimeConfig.lacks]
  constructor
  · rintro ⟨route, ⟨hroute, hlacks⟩, rfl⟩
    refine ⟨⟨route, hroute, rfl⟩, ?_⟩
    simpa using hlacks
  · rintro ⟨⟨route, hroute, rfl⟩, hnot⟩
    refine ⟨route, ⟨hroute, ?_⟩, rfl⟩
    simpa using hnot

/-- A block that is not replaced has the route that it should have. -/
lemma source_of_not_replaced {cidr : IpCidr} (hmem : cidr ∈ blocks next)
    (hnot : cidr ∉ replacedBlocks next current) :
    cidr ∈ blocks current ∧ next.routeSource cidr = current.routeSource cidr := by
  obtain ⟨route, hroute, rfl⟩ := List.mem_map.mp hmem
  have hunchanged : next.unchanged current route = true := by
    by_contra hchanged
    exact hnot (List.mem_map.mpr ⟨route, List.mem_filter.mpr ⟨hroute, by simpa using hchanged⟩, rfl⟩)
  simp only [TunRuntimeConfig.unchanged, decide_eq_true_eq] at hunchanged
  exact ⟨List.mem_map.mpr ⟨route, List.mem_of_find?_eq_some hunchanged.1, rfl⟩, hunchanged.2⟩

lemma replacedBlocks_subset : ∀ cidr ∈ replacedBlocks next current, cidr ∈ blocks next := by
  intro cidr hcidr
  obtain ⟨route, hroute, rfl⟩ := List.mem_map.mp hcidr
  exact List.mem_map.mpr ⟨route, List.mem_of_mem_filter hroute, rfl⟩

/-- Replacing and deleting the blocks leads to the new configuration, if no block is deleted twice. -/
lemma foldlM_routeSteps (hcomparable : Comparable next current)
    (hname : kernel.interface = current.name) (haddresses : kernel.addresses = localAddresses next)
    (hroutes : kernel.routes = (installed current).routes) :
    ((next.routeSteps current).map Prod.fst).foldlM Kernel.perform kernel = .ok kernel' ↔
      (deletedBlocks next current).Nodup ∧ kernel' = installed next := by
  obtain ⟨-, -, hcurrent⟩ := installed_eq current
  obtain ⟨hnextName, hnextAddresses, hnext⟩ := installed_eq next
  rw [map_fst_routeSteps, List.foldlM_append,
    foldlM_routeReplace next _ kernel (hname.trans hcomparable.name.symm), bind_eq_ok]
  simp only [Except.ok.injEq, exists_eq_left']
  let replaced := replaceRoutes (fun cidr => (next.routeSource cidr, next.mtu))
    (replacedBlocks next current) kernel.routes
  rw [← hname, @foldlM_routeDelete { kernel with routes := replaced }]
  have hpresent : ∀ cidr ∈ deletedBlocks next current, (replaced.get? cidr).isSome := by
    intro cidr hcidr
    obtain ⟨hold, hnew⟩ := mem_deletedBlocks.mp hcidr
    rw [get?_replaceRoutes, if_neg fun hreplaced => hnew (replacedBlocks_subset cidr hreplaced),
      hroutes, hcurrent, if_pos hold]
    rfl
  have hget : ∀ cidr, (replaced.retainKeys (· ∉ deletedBlocks next current)).get? cidr
      = (installed next).routes.get? cidr := by
    intro cidr
    simp only [HashMap.get?_retainKeys, decide_not, Bool.not_eq_true', decide_eq_false_iff_not, ite_not]
    rw [get?_replaceRoutes, hroutes, hcurrent, hnext]
    by_cases hnew : cidr ∈ blocks next
    · rw [if_neg fun hdeleted => (mem_deletedBlocks.mp hdeleted).2 hnew, if_pos hnew]
      split
      · rfl
      · rename_i hnot
        obtain ⟨hold, hsource⟩ := source_of_not_replaced hnew hnot
        rw [if_pos hold, hsource, hcomparable.mtu]
    · rw [if_neg hnew, if_neg fun hreplaced => hnew (replacedBlocks_subset cidr hreplaced)]
      split
      · rfl
      · rename_i hnot
        rw [if_neg fun hold => hnot (mem_deletedBlocks.mpr ⟨hold, hnew⟩)]
  have hinstalled : { kernel with routes := replaced.retainKeys (· ∉ deletedBlocks next current) }
      = installed next :=
    Kernel.ext_get? (hname.trans (hcomparable.name.symm.trans hnextName.symm))
      (haddresses.trans hnextAddresses.symm) hget
  rw [hinstalled, and_iff_right hpresent]

/-- The addresses of the new configuration are the old ones and the new ones. -/
lemma localAddresses_union (hcomparable : Comparable next current) :
    localAddresses current ∪ (newAddresses next current).toFinset = localAddresses next := by
  have hpeer : ∀ cidr, (cidr = current.ipv4Cidr ∨ cidr = current.ipv6Cidr) ↔
      (cidr = next.ipv4Cidr ∨ cidr = next.ipv6Cidr) := by
    intro cidr
    simp only [TunRuntimeConfig.ipv4Cidr, TunRuntimeConfig.ipv6Cidr, hcomparable.addresses]
  ext cidr
  simp only [Finset.mem_union, List.mem_toFinset, newAddresses, List.mem_filter]
  constructor
  · rintro (hold | ⟨hnew, -⟩)
    · simp only [localAddresses, Finset.mem_insert, ← or_assoc, hpeer, List.mem_toFinset] at hold
      rcases hold with hpeer | hold
      · simp only [localAddresses, Finset.mem_insert, ← or_assoc]
        exact Or.inl hpeer
      · exact hasLocalAddress_iff.mp (hcomparable.additional cidr hold)
    · simp [localAddresses, hnew]
  · intro hnew
    by_cases hold : cidr ∈ localAddresses current
    · exact Or.inl hold
    · refine Or.inr ⟨?_, ?_⟩
      · simp only [localAddresses, Finset.mem_insert, ← or_assoc, ← hpeer, List.mem_toFinset] at hnew
        refine hnew.resolve_left fun hpeer => hold ?_
        simp only [localAddresses, Finset.mem_insert, ← or_assoc]
        exact Or.inl hpeer
      · rw [Bool.not_eq_true', ← Bool.not_eq_true, hasLocalAddress_iff]
        exact hold

/-- The commands of both kinds of updates. -/
def steps (next current : TunRuntimeConfig) : List (IpCommand × IpCommand) :=
  next.addressSteps current ++ next.routeSteps current

lemma foldlM_steps (hcomparable : Comparable next current) :
    ((steps next current).map Prod.fst).foldlM Kernel.perform (installed current) = .ok kernel ↔
      (deletedBlocks next current).Nodup ∧ kernel = installed next := by
  obtain ⟨hname, haddresses, -⟩ := installed_eq current
  have hadd := foldlM_addrReplace (newAddresses next current) (installed current)
  rw [hname, ← hcomparable.name, haddresses, localAddresses_union hcomparable] at hadd
  rw [steps, List.map_append, List.foldlM_append, map_fst_addressSteps, hadd, bind_eq_ok]
  simp only [Except.ok.injEq, exists_eq_left']
  exact @foldlM_routeSteps ⟨next.name, localAddresses next, (installed current).routes⟩ kernel _ _
    hcomparable hcomparable.name rfl rfl

lemma update_eq (h : next.routeReconciliationFrom current = .ok update ∨
      next.pairingReconciliationFrom current = .ok update) :
    Comparable next current ∧ update = TunRuntimeConfig.updateOf (steps next current) := by
  simp only [TunRuntimeConfig.routeReconciliationFrom, TunRuntimeConfig.pairingReconciliationFrom,
    bind_eq_ok, exists_unit_iff, refuseIf_eq_ok, pure_eq_ok, not_or, not_not] at h
  rcases h with ⟨⟨hname, hmtu, haddresses, hadditional⟩, rfl⟩ |
    ⟨⟨hname, hmtu, haddresses, hadditional⟩, rfl⟩
  · have hlocal : ∀ cidr ∈ current.additionalAddresses, next.hasLocalAddress cidr = true := by
      intro cidr hcidr
      rw [hasLocalAddress_iff, localAddresses, hadditional]
      simp [hcidr]
    refine ⟨⟨hname, hmtu, haddresses, hlocal⟩, ?_⟩
    have hnone : next.addressSteps current = [] := by
      rw [TunRuntimeConfig.addressSteps, List.map_eq_nil_iff, List.filter_eq_nil_iff]
      intro cidr hcidr
      have hcurrent : current.hasLocalAddress cidr = true := by
        rw [hasLocalAddress_iff, localAddresses, ← hadditional]
        simp [hcidr]
      simp [hcurrent]
    rw [steps, hnone, List.nil_append]
  · refine ⟨⟨hname, hmtu, haddresses, fun cidr hcidr => ?_⟩, rfl⟩
    simpa using fun hnot => hadditional (List.any_eq_true.mpr ⟨cidr, hcidr, hnot⟩)

end Update

/-! ## Taking an update back -/

/-- What a command is about. -/
inductive Key where
  | address (cidr : IpCidr)
  | route (cidr : IpCidr)
deriving DecidableEq

def IpCommand.key : IpCommand → Key
  | .addrReplace _ cidr | .addrDelete _ cidr => .address cidr
  | .routeReplace _ cidr _ _ | .routeDelete _ cidr => .route cidr

/-- Whether an address is there, or what the route of a block is. -/
def Kernel.view (kernel : Kernel) : Key → Bool × Option (IpAddr × ℕ)
  | .address cidr => (cidr ∈ kernel.addresses, none)
  | .route cidr => (false, kernel.routes.get? cidr)

lemma Kernel.ext_view (hname : kernel.interface = kernel'.interface)
    (hview : ∀ key, kernel.view key = kernel'.view key) : kernel = kernel' := by
  refine Kernel.ext_get? hname ?_ fun cidr => congrArg Prod.snd (hview (.route cidr))
  ext cidr
  have haddress := congrArg Prod.fst (hview (.address cidr))
  simpa [Kernel.view] using haddress

/-- A command does what it says, or nothing. -/
lemma execute_snd (command : IpCommand) (kernel : Kernel) :
    (kernel.execute command).2 = kernel.effect command ∨ (kernel.execute command).2 = kernel := by
  unfold Kernel.execute Kernel.perform
  split
  · rename_i next hperform
    split at hperform
    · cases hperform
    · split at hperform
      · cases hperform
      · exact Or.inl (Except.ok.inj hperform).symm
  · exact Or.inr rfl

lemma interface_execute (command : IpCommand) (kernel : Kernel) :
    (kernel.execute command).2.interface = kernel.interface := by
  rcases execute_snd command kernel with heffect | hsame
  · rw [heffect]
    cases command <;> rfl
  · rw [hsame]

/-- A command touches its own address or block only. -/
lemma view_execute_of_ne {key : Key} (h : key ≠ command.key) :
    (kernel.execute command).2.view key = kernel.view key := by
  rcases execute_snd command kernel with heffect | hsame
  · rw [heffect]
    cases key with
    | address cidr =>
      cases command with
      | addrReplace _ other =>
        have hne : cidr ≠ other := fun heq => h (by rw [heq]; rfl)
        simp [Kernel.view, Kernel.effect, hne]
      | addrDelete _ other =>
        have hne : cidr ≠ other := fun heq => h (by rw [heq]; rfl)
        simp [Kernel.view, Kernel.effect, hne]
      | routeReplace => rfl
      | routeDelete => rfl
    | route cidr =>
      cases command with
      | addrReplace => rfl
      | addrDelete => rfl
      | routeReplace _ other =>
        have hne : cidr ≠ other := fun heq => h (by rw [heq]; rfl)
        simp only [Kernel.view, Kernel.effect, HashMap.get?_insert_of_ne _ hne]
      | routeDelete _ other =>
        have hne : cidr ≠ other := fun heq => h (by rw [heq]; rfl)
        simp only [Kernel.view, Kernel.effect, HashMap.get?_remove, if_neg hne]
  · rw [hsame]

/-- Deleting and replacing leave nothing behind of what was there before. -/
lemma view_execute_addrDelete (kernel : Kernel) (cidr : IpCidr) :
    (kernel.execute (.addrDelete kernel.interface cidr)).2.view (.address cidr) = (false, none) := by
  by_cases hmem : cidr ∈ kernel.addresses
  · simp [Kernel.execute, Kernel.perform, Kernel.accepts, IpCommand.interface, hmem, Kernel.view,
      Kernel.effect]
  · simp [Kernel.execute, Kernel.perform, Kernel.accepts, IpCommand.interface, hmem, Kernel.view]

lemma view_execute_routeDelete (kernel : Kernel) (cidr : IpCidr) :
    (kernel.execute (.routeDelete kernel.interface cidr)).2.view (.route cidr) = (false, none) := by
  cases hget : kernel.routes.get? cidr with
  | none =>
    simp [Kernel.execute, Kernel.perform, Kernel.accepts, IpCommand.interface, hget, Kernel.view]
  | some value =>
    simp [Kernel.execute, Kernel.perform, Kernel.accepts, IpCommand.interface, hget, Kernel.view,
      Kernel.effect, HashMap.get?_remove]

lemma view_execute_routeReplace (kernel : Kernel) (cidr : IpCidr) (source : IpAddr) (mtu : ℕ) :
    (kernel.execute (.routeReplace kernel.interface cidr source mtu)).2.view (.route cidr)
      = (false, some (source, mtu)) := by
  simp [Kernel.execute, Kernel.perform, Kernel.accepts, IpCommand.interface, Kernel.view,
    Kernel.effect]

section Rollback

variable {next current : TunRuntimeConfig}

/-- A command with a rollback for the same key that brings it back. -/
lemma undoes_of_restores {undo : IpCommand} (hkey : command.key = undo.key)
    (hrestores : ∀ kernel : Kernel, kernel.interface = current.name →
      (kernel.execute undo).2.view undo.key = (installed current).view undo.key) :
    ∃ key, Undoes Kernel.view (fun kernel => kernel.interface = current.name) Kernel.execute
      (installed current) key command undo := by
  refine ⟨undo.key, fun kernel h => ⟨?_, ?_⟩, fun kernel key hne => ?_, hrestores, fun kernel key hne => ?_⟩
  · exact (interface_execute command kernel).trans h
  · exact (interface_execute undo kernel).trans h
  · exact view_execute_of_ne (hkey ▸ hne)
  · exact view_execute_of_ne hne

/-- The rollbacks of an update are an undo log. -/
lemma undoes_of_mem_steps (hcomparable : Comparable next current) {step : IpCommand × IpCommand}
    (h : step ∈ steps next current) :
    ∃ key, Undoes Kernel.view (fun kernel => kernel.interface = current.name) Kernel.execute
      (installed current) key step.1 step.2 := by
  obtain ⟨-, haddresses, hroutes⟩ := installed_eq current
  have hreplaced : ∀ (cidr : IpCidr) (kernel : Kernel), cidr ∈ blocks current →
      kernel.interface = current.name →
      (kernel.execute (current.routeReplace cidr)).2.view (.route cidr)
        = (installed current).view (.route cidr) := by
    intro cidr kernel hmem hname
    rw [TunRuntimeConfig.routeReplace, ← hname, view_execute_routeReplace, Kernel.view, hroutes,
      if_pos hmem]
  rcases List.mem_append.mp h with h | h
  · obtain ⟨cidr, hcidr, rfl⟩ := List.mem_map.mp h
    refine undoes_of_restores rfl fun kernel hname => ?_
    have hnot : cidr ∉ localAddresses current := by
      rw [← hasLocalAddress_iff]
      simpa using (List.mem_filter.mp hcidr).2
    change (kernel.execute (.addrDelete next.name cidr)).2.view (.address cidr)
      = (installed current).view (.address cidr)
    rw [hcomparable.name, ← hname, view_execute_addrDelete, Kernel.view, haddresses]
    simp [hnot]
  rcases List.mem_append.mp h with h | h
  · obtain ⟨route, -, rfl⟩ := List.mem_map.mp h
    unfold TunRuntimeConfig.replacement
    split
    · rename_i hnone
      refine undoes_of_restores rfl fun kernel hname => ?_
      have hnot : route.cidr ∉ blocks current := by
        intro hmem
        obtain ⟨other, hother, hsame⟩ := List.mem_map.mp hmem
        have hne := List.find?_eq_none.mp hnone other hother
        simp [hsame] at hne
      change (kernel.execute (.routeDelete next.name route.cidr)).2.view (.route route.cidr)
        = (installed current).view (.route route.cidr)
      rw [hcomparable.name, ← hname, view_execute_routeDelete, Kernel.view, hroutes, if_neg hnot]
    · rename_i previous hprevious
      have hsame : previous.cidr = route.cidr := by simpa using List.find?_some hprevious
      have hmem : previous.cidr ∈ blocks current :=
        List.mem_map.mpr ⟨previous, List.mem_of_find?_eq_some hprevious, rfl⟩
      refine undoes_of_restores ?_ fun kernel hname => hreplaced previous.cidr kernel hmem hname
      rw [hsame]
      rfl
  · obtain ⟨route, hroute, rfl⟩ := List.mem_map.mp h
    have hmem : route.cidr ∈ blocks current :=
      List.mem_map.mpr ⟨route, List.mem_of_mem_filter hroute, rfl⟩
    exact undoes_of_restores rfl fun kernel hname => hreplaced route.cidr kernel hmem hname

/-- The first commands of an update, taken back. -/
lemma runAll_rollback (hcomparable : Comparable next current) (n : ℕ) :
    runAll Kernel.execute (((steps next current).map Prod.snd).take n).reverse
      (runAll Kernel.execute (((steps next current).map Prod.fst).take n) (installed current))
      = installed current := by
  rw [← List.map_take, ← List.map_take]
  obtain ⟨hname, -, -⟩ := installed_eq current
  have hundoes := fun step (hstep : step ∈ (steps next current).take n) =>
    undoes_of_mem_steps hcomparable (List.mem_of_mem_take hstep)
  obtain ⟨hinv, hview⟩ := @view_undo _ _ _ _ _ _ _ _ (installed current) _ hname hundoes
  exact Kernel.ext_view (hinv.trans hname.symm) hview

lemma runAll_executeFaulty (commands : List IpCommand) (kernel : Kernel) :
    runAll Kernel.executeFaulty commands (kernel, none)
      = (runAll Kernel.execute commands kernel, none) := by
  induction commands generalizing kernel with
  | nil => rfl
  | cons command commands ih => exact ih _

/-- A fault after some commands of an update that would work. -/
lemma executeFrom_fault (hcleanup : update.abortCleanup = false) {applied n : ℕ}
    {commands : List IpCommand} (hn : n < commands.length)
    (h : commands.foldlM Kernel.perform kernel = .ok kernel') :
    executeFrom Kernel.executeFaulty update applied commands (kernel, some n)
      = (.error .fault, runAll Kernel.execute (update.rollback.take (applied + n)).reverse
          (runAll Kernel.execute (commands.take n) kernel), none) := by
  induction commands generalizing kernel applied n with
  | nil => cases hn
  | cons command commands ih =>
    cases n with
    | zero =>
      simp only [executeFrom, Kernel.executeFaulty, hcleanup, Bool.false_eq_true, if_false,
        runAll_executeFaulty]
      rfl
    | succ n =>
      rw [List.foldlM_cons, bind_eq_ok] at h
      obtain ⟨next, hnext, h⟩ := h
      simp only [executeFrom, Kernel.executeFaulty, execute_of_perform hnext]
      rw [ih (Nat.lt_of_succ_lt_succ hn) h, List.take_succ_cons, runAll, runAll, runAll, runAll,
        List.foldl_cons, execute_of_perform hnext, Nat.add_assoc, Nat.add_comm 1]

/-- An update works, and a single command of it that fails is as if nothing had been done. -/
structure Transactional (next current : TunRuntimeConfig) (update : TunRouteUpdate) : Prop where
  succeeds : executeTunRouteUpdate Kernel.execute update (installed current)
    = (.ok (), installed next)
  atomic : ∀ n < update.apply.length,
    executeTunRouteUpdate Kernel.executeFaulty update (installed current, some n)
      = (.error .fault, installed current, none)

/-- **Reconciliation is transactional**, if and only if no two routes of the old configuration are
for one block that the new one has no route for. -/
theorem reconciliation_transactional_iff {update : TunRouteUpdate}
    (h : next.routeReconciliationFrom current = .ok update ∨
      next.pairingReconciliationFrom current = .ok update) :
    Transactional next current update ↔ ((current.routes.filter next.lacks).map (·.cidr)).Nodup := by
  obtain ⟨hcomparable, rfl⟩ := update_eq h
  constructor
  · intro htransactional
    exact ((foldlM_steps hcomparable).mp (executeFrom_eq_ok.mp htransactional.succeeds)).1
  · intro hnodup
    have hrun := (foldlM_steps hcomparable).mpr ⟨hnodup, rfl⟩
    refine ⟨executeFrom_eq_ok.mpr hrun, fun n hn => ?_⟩
    rw [executeTunRouteUpdate, executeFrom_fault rfl hn hrun, Nat.zero_add]
    exact congrArg (fun kernel => (Except.error KernelError.fault, kernel, none))
      (runAll_rollback hcomparable n)

end Rollback

/-- The interface of a peer, with routes for `10.1.0.0/16` and `10.2.0.0/16`. -/
def sampleTun (routes : List Route) : TunRuntimeConfig where
  name := "pv0"
  mtu := 1280
  addresses := ⟨0x64400001, 0xfd00⟩
  additionalAddresses := []
  routes := routes

lemma blockLength_le : (16 : ℕ) ≤ 32 := by decide

def sampleRoute (block metric : ℕ) : Route :=
  ⟨1, ⟨.v4 (BitVec.ofNat 32 (block <<< 16)), 16, blockLength_le⟩, metric⟩

/-- A route is exchanged for another. -/
theorem sample_reconciliation :
    ∃ update, (sampleTun [sampleRoute 0x0a02 1]).routeReconciliationFrom
        (sampleTun [sampleRoute 0x0a01 1]) = .ok update ∧ update.apply.length = 2 ∧
      Transactional (sampleTun [sampleRoute 0x0a02 1]) (sampleTun [sampleRoute 0x0a01 1]) update := by
  refine ⟨_, rfl, by decide +kernel, ?_⟩
  exact (reconciliation_transactional_iff (Or.inl rfl)).mpr (by decide +kernel)

/-- A block with two metrics is deleted twice, and the update fails. -/
theorem block_with_two_metrics_not_removed :
    ∃ table update,
      RouteTable.insertAll ⟨[]⟩ [sampleRoute 0x0a01 1, sampleRoute 0x0a01 2] = .ok table ∧
      (sampleTun []).routeReconciliationFrom (sampleTun table.routes) = .ok update ∧
      executeTunRouteUpdate Kernel.execute update (installed (sampleTun table.routes))
        = (.error .absent, installed (sampleTun table.routes)) ∧
      ¬ Transactional (sampleTun []) (sampleTun table.routes) update := by
  refine ⟨⟨[sampleRoute 0x0a01 1, sampleRoute 0x0a01 2]⟩, _, by decide +kernel, rfl,
    by decide +kernel, fun htransactional => ?_⟩
  have hfailed : executeTunRouteUpdate Kernel.execute (TunRuntimeConfig.updateOf
      ((sampleTun []).routeSteps (sampleTun [sampleRoute 0x0a01 1, sampleRoute 0x0a01 2])))
      (installed (sampleTun [sampleRoute 0x0a01 1, sampleRoute 0x0a01 2])) ≠
      (.ok (), installed (sampleTun [])) := by decide +kernel
  exact hfailed htransactional.succeeds

end P2pVpn.Tun
