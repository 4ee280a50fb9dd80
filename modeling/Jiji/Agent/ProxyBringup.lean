import Jiji.Control.Machine
import Jiji.Network.Cidr

/-!
# Bringing up the proxy

Every project on a host has an agent of its own, and all of them share one proxy.  A tick of
an agent makes sure that the proxy runs and is attached to the project's bridge, and then
renders two tables from the project's own configuration: the ingress rules of the host, and
the relay rules in the network namespace of the proxy.  A table is replaced as a whole.
-/

namespace Jiji
namespace Agent

open Network Control

section Model

inductive BridgeEngineKind
  | docker
  | podman
  deriving DecidableEq, Repr

def BridgeEngineKind.display : BridgeEngineKind → String
  | .docker => "docker"
  | .podman => "podman"

/-- What tells whether a running proxy has to be replaced. -/
def configFingerprint (engine : BridgeEngineKind) : String :=
  "v1-" ++ engine.display

def internalHttpPort : BitVec 16 := 8080

def internalHttpsPort : BitVec 16 := 8443

def internalTcpRelayPort : BitVec 16 := 39100

/-- Traffic to a port of the host is sent to a port of the proxy. -/
structure IngressRule where
  daddr : Ipv4Addr
  dport : BitVec 16
  address : Ipv4Addr
  port : BitVec 16
  deriving DecidableEq, Repr

/-- Traffic to a port is sent to another port of the same address. -/
structure RelayRule where
  dport : BitVec 16
  port : BitVec 16
  deriving DecidableEq, Repr

/-- The rules of the ingress table. -/
def renderNftables
    (address publicHost : Ipv4Addr)
    (includeHttp : Bool)
    (tcpPorts : List (BitVec 16)) : List IngressRule :=
  (if includeHttp then
      [⟨publicHost, 80, address, internalHttpPort⟩, ⟨publicHost, 443, address, internalHttpsPort⟩]
    else []) ++
    tcpPorts.map fun port => ⟨publicHost, port, address, port⟩

/-- The rules of the relay table. -/
def renderRelayNetnsNftables (tcpPorts : List (BitVec 16)) : List RelayRule :=
  tcpPorts.map fun port => ⟨port, internalTcpRelayPort⟩

/-- What an agent knows of its project on this host. -/
structure LocalRuntime where
  bridgeNetwork : String
  proxyAddress : Ipv4Addr
  publicHost : String
  listenPorts : List (BitVec 16)
  deriving DecidableEq, Repr

/-- The container of the proxy, with the relay table of its network namespace. -/
structure ProxyContainer where
  running : Bool
  fingerprint : String
  image : String
  networks : String → Option Ipv4Addr
  relay : List RelayRule

/-- The part of a host that agents share. -/
structure ProxyHost where
  container : Option ProxyContainer
  ingress : List IngressRule

/-- How a tick ends without an error: it leaves the proxy to another agent, or it does all of
its work. -/
inductive TickOutcome
  | deferred
  | complete (host : ProxyHost)

variable (engine : BridgeEngineKind) (image : String)

def isCurrentAndRunning (host : ProxyHost) : Bool :=
  host.container.any fun container =>
    container.running && container.fingerprint = configFingerprint engine &&
      container.image = image

/-- A new proxy, attached to one bridge, in a network namespace without rules. -/
def recreate (runtime : LocalRuntime) : ProxyContainer where
  running := true
  fingerprint := configFingerprint engine
  image := image
  networks := Function.update (fun _ => none) runtime.bridgeNetwork (some runtime.proxyAddress)
  relay := []

/-- Attach the proxy to the bridge of a project. -/
def ensureAttached (runtime : LocalRuntime) (container : ProxyContainer) :
    Except String ProxyContainer :=
  match container.networks runtime.bridgeNetwork with
  | some existing =>
      if existing = runtime.proxyAddress then .ok container
      else
        let bridge := runtime.bridgeNetwork
        let actual := existing.display
        let expected := runtime.proxyAddress.display
        .error (s!"jiji-proxy is already attached to '{bridge}' with address {actual}, " ++
          s!"expected {expected}")
  | none => .ok { container with
      networks := Function.update container.networks runtime.bridgeNetwork
        (some runtime.proxyAddress) }

/-- Replace the ingress table, where the engine or the project needs one. -/
def applyIngress (runtime : LocalRuntime) (ingress : List IngressRule) :
    Except String (List IngressRule) :=
  if engine = .docker ∨ runtime.listenPorts ≠ [] then
    match Ipv4Addr.parse runtime.publicHost.toList with
    | none => .error "public_host is not a valid IPv4 address: invalid IPv4 address syntax"
    | some publicHost =>
        .ok (renderNftables runtime.proxyAddress publicHost (engine = .docker)
          runtime.listenPorts)
  else .ok ingress

/-- The tables after a proxy has been found or made. -/
def exposePorts (runtime : LocalRuntime) (host : ProxyHost) (container : ProxyContainer) :
    Except String TickOutcome := do
  let attached ← ensureAttached runtime container
  let ingress ← applyIngress engine runtime host.ingress
  .ok (.complete
    { container := some
        { attached with relay := renderRelayNetnsNftables runtime.listenPorts }
      ingress := ingress })

/-- A tick of the agent of a project, which gets hold of the host lease or not. -/
def reconcile (runtime : LocalRuntime) (leased : Bool) (host : ProxyHost) :
    Except String TickOutcome :=
  if isCurrentAndRunning engine image host then
    match host.container with
    | some container => exposePorts engine runtime host container
    | none => .error "jiji-proxy is unavailable"
  else if leased then exposePorts engine runtime host (recreate engine image runtime)
  else .ok .deferred

/-- The complete ticks of the agents on a host. -/
def bringupMachine {Project : Type} (runtimeOf : Project → LocalRuntime) :
    Machine ProxyHost (Project × Bool) where
  advance host tick :=
    match reconcile engine image (runtimeOf tick.1) tick.2 host with
    | .ok (.complete next) => some next
    | _ => none

end Model

section Ports

variable {engine : BridgeEngineKind} {image : String} {runtime : LocalRuntime}
variable {host next : ProxyHost}

/-- The ingress table has a rule for a listen port. -/
def ProxyHost.Admits (host : ProxyHost) (port : BitVec 16) : Prop :=
  ∃ rule ∈ host.ingress, rule.dport = port ∧ rule.port = port

/-- The relay table redirects a listen port. -/
def ProxyHost.Relays (host : ProxyHost) (port : BitVec 16) : Prop :=
  ∃ container, host.container = some container ∧
    ∃ rule ∈ container.relay, rule.dport = port ∧ rule.port = internalTcpRelayPort

theorem exposePorts_eq_ok
    (exposed : exposePorts engine runtime host container = .ok (.complete next)) :
    applyIngress engine runtime host.ingress = .ok next.ingress ∧
      ∃ container, next.container = some container ∧
        container.relay = renderRelayNetnsNftables runtime.listenPorts := by
  unfold exposePorts at exposed
  cases attaches : ensureAttached runtime container with
  | error error =>
      rw [attaches] at exposed
      cases exposed
  | ok attached =>
      cases applied : applyIngress engine runtime host.ingress with
      | error error =>
          rw [attaches, applied] at exposed
          cases exposed
      | ok ingress =>
          rw [attaches, applied] at exposed
          cases exposed
          exact ⟨rfl, _, rfl, rfl⟩

/-- A complete tick leaves the tables of the project that it belongs to. -/
theorem reconcile_eq_complete
    (ticks : reconcile engine image runtime leased host = .ok (.complete next)) :
    applyIngress engine runtime host.ingress = .ok next.ingress ∧
      ∃ container, next.container = some container ∧
        container.relay = renderRelayNetnsNftables runtime.listenPorts := by
  unfold reconcile at ticks
  split at ticks
  · split at ticks
    · exact exposePorts_eq_ok ticks
    · cases ticks
  · split at ticks
    · exact exposePorts_eq_ok ticks
    · cases ticks

/-- The relay table redirects exactly the listen ports of the project that ticked last. -/
theorem relays_iff
    (ticks : reconcile engine image runtime leased host = .ok (.complete next))
    (port : BitVec 16) :
    next.Relays port ↔ port ∈ runtime.listenPorts := by
  obtain ⟨_, container, present, relay⟩ := reconcile_eq_complete ticks
  simp [ProxyHost.Relays, present, relay, renderRelayNetnsNftables]

/-- The ingress table has a rule for every listen port of the project that ticked last. -/
theorem admits_of_mem
    (ticks : reconcile engine image runtime leased host = .ok (.complete next))
    (listens : port ∈ runtime.listenPorts) :
    next.Admits port := by
  have applied := (reconcile_eq_complete ticks).1
  have needed : engine = .docker ∨ runtime.listenPorts ≠ [] :=
    Or.inr (List.ne_nil_of_mem listens)
  rw [applyIngress, if_pos needed] at applied
  split at applied
  · cases applied
  · rename_i publicHost _
    refine ⟨⟨publicHost, port, runtime.proxyAddress, port⟩, ?_, rfl, rfl⟩
    rw [← Except.ok.inj applied]
    exact List.mem_append_right _ (List.mem_map_of_mem listens)

/-- After any sequence of complete ticks, every listen port of every project is admitted and
relayed exactly if no project but the one that ticked last has a listen port. -/
theorem public_ports_kept_iff
    {Project : Type}
    (engine : BridgeEngineKind)
    (image : String)
    (runtimeOf : Project → LocalRuntime)
    (disjoint : ∀ project other, project ≠ other →
      ∀ port ∈ (runtimeOf project).listenPorts, port ∉ (runtimeOf other).listenPorts)
    (start final : ProxyHost)
    (earlier : List (Project × Bool))
    (last : Project)
    (leased : Bool)
    (ran : (bringupMachine engine image runtimeOf).run start (earlier ++ [(last, leased)]) =
      some final) :
    (∀ project, ∀ port ∈ (runtimeOf project).listenPorts,
      final.Admits port ∧ final.Relays port) ↔
      ∀ project, project ≠ last → (runtimeOf project).listenPorts = [] := by
  obtain ⟨before, ticks⟩ : ∃ before,
      reconcile engine image (runtimeOf last) leased before = .ok (.complete final) := by
    simp only [Machine.run, List.foldlM_append, List.foldlM_cons, List.foldlM_nil,
      bind_pure] at ran
    obtain ⟨before, _, advanced⟩ := Option.bind_eq_some_iff.mp ran
    refine ⟨before, ?_⟩
    simp only [bringupMachine] at advanced
    split at advanced
    · rename_i completed
      rw [completed, Option.some.inj advanced]
    · cases advanced
  constructor
  · intro kept project different
    apply List.eq_nil_iff_forall_not_mem.mpr
    intro port listens
    have relayed := (kept project port listens).2
    exact disjoint project last different port listens ((relays_iff ticks port).mp relayed)
  · intro without project port listens
    have same : project = last := by
      by_contra different
      rw [without project different] at listens
      cases listens
    subst same
    exact ⟨admits_of_mem ticks listens, (relays_iff ticks port).mpr listens⟩

/-- Two projects on one host. -/
inductive SampleProject
  | shop
  | blog
  deriving DecidableEq, Repr

/-- The shop has a database that listens on a public port; the blog has one as well, or not. -/
def sampleRuntime (blogPorts : List (BitVec 16)) : SampleProject → LocalRuntime
  | .shop => ⟨"jiji-shop", 0x0a000102, "203.0.113.7", [5432]⟩
  | .blog => ⟨"jiji-blog", 0x0a000202, "203.0.113.7", blogPorts⟩

/-- The ports that the tables of a host are about. -/
def ProxyHost.exposed (host : ProxyHost) : List (BitVec 16) × List (BitVec 16) :=
  (host.ingress.map IngressRule.dport,
    (host.container.map fun container => container.relay.map RelayRule.dport).getD [])

theorem public_ports_kept_iff_one_database :
    ∃ final, ((bringupMachine .podman "v1" (sampleRuntime [])).run ⟨none, []⟩
      [(.blog, true), (.shop, true)]) = some final ∧
      final.exposed = ([5432], [5432]) ∧
      ∀ project, ∀ port ∈ (sampleRuntime [] project).listenPorts,
        final.Admits port ∧ final.Relays port := by
  have ran : ((bringupMachine .podman "v1" (sampleRuntime [])).run ⟨none, []⟩
      [(.blog, true), (.shop, true)]).map ProxyHost.exposed = some ([5432], [5432]) := by
    decide +kernel
  obtain ⟨final, reached, exposed⟩ := Option.map_eq_some_iff.mp ran
  refine ⟨final, reached, exposed, ?_⟩
  refine (public_ports_kept_iff .podman "v1" (sampleRuntime []) ?_ ⟨none, []⟩ final
    [(.blog, true)] .shop true reached).mpr ?_
  · intro project other different port listens
    cases project <;> cases other <;> simp_all [sampleRuntime]
  · intro project different
    cases project with
    | shop => exact absurd rfl different
    | blog => rfl

/-- A tick of the blog's agent removes the port of the shop from both tables. -/
theorem tick_of_other_project_drops_port :
    ((bringupMachine .docker "v1" (sampleRuntime [6379])).run ⟨none, []⟩
      [(.shop, true), (.blog, true)]).map ProxyHost.exposed =
      some ([80, 443, 6379], [6379]) := by
  decide +kernel

end Ports

end Agent
end Jiji
