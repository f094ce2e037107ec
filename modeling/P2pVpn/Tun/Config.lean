/-
# The network interface

The addresses and routes that a node configures on its network interface, the commands that bring an
interface from one configuration to another, and the loop that executes them and takes them back when
one of them fails.

Commands are kept as data; how they are spelled for the `ip` program is left out.
-/
import P2pVpn.Lib.UndoLog
import P2pVpn.Net.Route

namespace P2pVpn.Tun

open Lib Net

structure TunAddresses where
  ipv4 : BitVec 32
  ipv6 : BitVec 128
deriving DecidableEq, Repr

structure TunRuntimeConfig where
  name : String
  mtu : ℕ
  addresses : TunAddresses
  additionalAddresses : List IpCidr
  routes : List Route
deriving DecidableEq, Repr

inductive IpCommand where
  | addrReplace (interface : String) (cidr : IpCidr)
  | addrDelete (interface : String) (cidr : IpCidr)
  | routeReplace (interface : String) (cidr : IpCidr) (source : IpAddr) (mtu : ℕ)
  | routeDelete (interface : String) (cidr : IpCidr)
deriving DecidableEq, Repr

/-- Commands, and for each of them the one that takes it back. -/
structure TunRouteUpdate where
  apply : List IpCommand
  rollback : List IpCommand
  abortCleanup : Bool
deriving DecidableEq, Repr

inductive TunRuntimeError where
  | nonAdditiveUpdate (reason : String)
deriving DecidableEq, Repr

namespace TunRuntimeConfig

variable (next config current : TunRuntimeConfig)

def ipv4Cidr : IpCidr :=
  ⟨.v4 config.addresses.ipv4, 32, ipv4Width_le⟩

def ipv6Cidr : IpCidr :=
  ⟨.v6 config.addresses.ipv6, 128, ipv6Width_le⟩

/-- An additional address, or the address of the peer with its full length. -/
def hasLocalAddress (cidr : IpCidr) : Bool :=
  config.additionalAddresses.contains cidr ||
    match cidr.address, cidr.prefixLen with
    | .v4 address, 32 => address = config.addresses.ipv4
    | .v6 address, 128 => address = config.addresses.ipv6
    | _, _ => false

def isIpv4 : IpAddr → Bool
  | .v4 _ => true
  | .v6 _ => false

def routeSource (cidr : IpCidr) : IpAddr :=
  ((config.additionalAddresses.map (·.address)).find? fun address =>
    isIpv4 address = isIpv4 cidr.address).getD
    (match cidr.address with
      | .v4 _ => .v4 config.addresses.ipv4
      | .v6 _ => .v6 config.addresses.ipv6)

def routeReplace (config : TunRuntimeConfig) (cidr : IpCidr) : IpCommand :=
  .routeReplace config.name cidr (config.routeSource cidr) config.mtu

/-- What is configured on a new interface. -/
def routeCommands : List IpCommand :=
  .addrReplace config.name config.ipv6Cidr ::
    config.additionalAddresses.map (.addrReplace config.name) ++
    config.routes.map fun route => config.routeReplace route.cidr

/-- The route of a block in a configuration is the same as in another. -/
def unchanged (route : Route) : Bool :=
  current.routes.find? (·.cidr = route.cidr) = some route ∧
    next.routeSource route.cidr = current.routeSource route.cidr

/-- The first loop of `route_update_from`: a route that is new, or not what it was. -/
def replacement (route : Route) : IpCommand × IpCommand :=
  (next.routeReplace route.cidr,
    match current.routes.find? (·.cidr = route.cidr) with
    | none => .routeDelete next.name route.cidr
    | some previous => current.routeReplace previous.cidr)

/-- A block that a configuration has no route for. -/
def lacks (route : Route) : Bool := ! next.routes.any (·.cidr = route.cidr)

/-- The second loop: a route that is gone. -/
def removal (route : Route) : IpCommand × IpCommand :=
  (.routeDelete current.name route.cidr, current.routeReplace route.cidr)

/-- The commands of `route_update_from` with their rollbacks. -/
def routeSteps : List (IpCommand × IpCommand) :=
  (next.routes.filter fun route => ! next.unchanged current route).map (replacement next current) ++
    (current.routes.filter next.lacks).map current.removal

/-- The commands for new addresses with their rollbacks. -/
def addressSteps : List (IpCommand × IpCommand) :=
  (next.additionalAddresses.filter fun cidr => ! current.hasLocalAddress cidr).map fun cidr =>
    (.addrReplace next.name cidr, .addrDelete next.name cidr)

def updateOf (steps : List (IpCommand × IpCommand)) : TunRouteUpdate :=
  ⟨steps.map Prod.fst, steps.map Prod.snd, false⟩

def routeReconciliationFrom : Except TunRuntimeError TunRouteUpdate := do
  refuseIf (next.name ≠ current.name ∨ next.mtu ≠ current.mtu ∨ next.addresses ≠ current.addresses ∨
    next.additionalAddresses ≠ current.additionalAddresses)
    (.nonAdditiveUpdate "live membership reconciliation cannot change the running TUN identity, MTU, or local addresses")
  pure (updateOf (next.routeSteps current))

def pairingReconciliationFrom : Except TunRuntimeError TunRouteUpdate := do
  refuseIf (next.name ≠ current.name ∨ next.mtu ≠ current.mtu ∨ next.addresses ≠ current.addresses ∨
    current.additionalAddresses.any fun cidr => ! next.hasLocalAddress cidr)
    (.nonAdditiveUpdate "pairing cannot change the running TUN identity, MTU, or remove local addresses")
  pure (updateOf (next.addressSteps current ++ next.routeSteps current))

end TunRuntimeConfig

/-! ## Execution -/

variable {σ ε : Type} (execute : IpCommand → σ → Except ε Unit × σ)

/-- The loop of `execute_tun_route_update`, after a number of commands. -/
def executeFrom (update : TunRouteUpdate) (applied : ℕ) : List IpCommand → σ → Except ε Unit × σ
  | [], s => (.ok (), s)
  | command :: rest, s =>
      match execute command s with
      | (.ok (), s) => executeFrom update (applied + 1) rest s
      | (.error error, s) =>
          if update.abortCleanup then (.error error, s)
          else (.error error, runAll execute (update.rollback.take applied).reverse s)

/-- `execute_tun_route_update`. -/
def executeTunRouteUpdate (update : TunRouteUpdate) (s : σ) : Except ε Unit × σ :=
  executeFrom execute update 0 update.apply s

end P2pVpn.Tun
