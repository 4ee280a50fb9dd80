import Jiji.Agent.ProxyBringup
import Jiji.Network.Planner

/-!
# The restore script

The script that brings up the bridge of a project and lets its traffic through to the mesh.
Its text depends on the plan of the server and on the container engine.
-/

namespace Jiji
namespace Network

open Agent (BridgeEngineKind)

structure BridgeScriptParams where
  bridgeName : String
  bridgeInterface : String
  wireguardInterface : String
  containerSubnet : Ipv4Cidr
  bridgeGateway : Ipv4Addr
  dnsAddress : Ipv4Addr
  containerCidr : Ipv4Cidr
  wireguardPort : ℕ
  peerPublicIps : List Ipv4Addr
  publicHost : String

section Rendering

variable (params : BridgeScriptParams)

def renderDockerNetwork : String :=
  "\n".intercalate [
    "if ! docker network inspect " ++ params.bridgeName ++ " >/dev/null 2>&1; then",
    "  docker network create --driver bridge --subnet " ++ params.containerSubnet.display ++
      " --gateway " ++ params.bridgeGateway.display ++
      " --opt com.docker.network.bridge.name=" ++ params.bridgeInterface ++
      " --opt com.docker.network.bridge.enable_ip_masquerade=false --opt " ++
      "com.docker.network.bridge.gateway_mode_ipv4=routed --opt " ++
      "com.docker.network.bridge.trusted_host_interfaces=" ++ params.wireguardInterface ++
      " " ++ params.bridgeName ++ " >/dev/null",
    "fi",
    "actual_subnet=$(docker network inspect " ++ params.bridgeName ++
      " --format '\x7b\x7b(index .IPAM.Config 0).Subnet\x7d\x7d')",
    "actual_gateway=$(docker network inspect " ++ params.bridgeName ++
      " --format '\x7b\x7b(index .IPAM.Config 0).Gateway\x7d\x7d')",
    "actual_gateway_mode=$(docker network inspect " ++ params.bridgeName ++
      " --format '\x7b\x7bindex .Options " ++
      "\"com.docker.network.bridge.gateway_mode_ipv4\"\x7d\x7d')",
    "actual_trusted_interfaces=$(docker network inspect " ++ params.bridgeName ++
      " --format '\x7b\x7bindex .Options " ++
      "\"com.docker.network.bridge.trusted_host_interfaces\"\x7d\x7d')"]

def renderPodmanNetwork : String :=
  "\n".intercalate [
    "if ! podman network inspect " ++ params.bridgeName ++ " >/dev/null 2>&1; then",
    "  podman network create --subnet " ++ params.containerSubnet.display ++ " --gateway " ++
      params.bridgeGateway.display ++ " --interface-name " ++ params.bridgeInterface ++ " " ++
      params.bridgeName ++ " >/dev/null",
    "fi",
    "if ! ip link show " ++ params.bridgeInterface ++ " >/dev/null 2>&1; then",
    "ip link add name " ++ params.bridgeInterface ++ " type bridge",
    "fi",
    "ip link set " ++ params.bridgeInterface ++ " up",
    "ip address replace " ++ params.bridgeGateway.display ++ "/" ++
      toString params.containerSubnet.prefixLength ++ " dev " ++ params.bridgeInterface,
    "actual_subnet=$(podman network inspect " ++ params.bridgeName ++
      " --format '\x7b\x7b(index .Subnets 0).Subnet\x7d\x7d')",
    "actual_gateway=$(podman network inspect " ++ params.bridgeName ++
      " --format '\x7b\x7b(index .Subnets 0).Gateway\x7d\x7d')"]

/-- Create the bridge if it is missing, and read how it is configured. -/
def createNetwork (engine : BridgeEngineKind) : String :=
  match engine with
  | .docker => renderDockerNetwork params
  | .podman => renderPodmanNetwork params

def engineOptionValidation (engine : BridgeEngineKind) : String :=
  match engine with
  | .docker => "\n".intercalate [
    "test \"$actual_gateway_mode\" = \"routed\" || \x7b echo \"" ++ params.bridgeName ++
      " Docker network is not in routed gateway mode. Stop attached containers with: " ++
      "docker ps --filter network=" ++ params.bridgeName ++
      ". Remove the incompatible bridge with: docker network rm " ++ params.bridgeName ++
      ". Then rerun jiji network setup from the deployment machine.\" >&2; exit 1; \x7d",
    "test \"$actual_trusted_interfaces\" = \"" ++ params.wireguardInterface ++
      "\" || \x7b echo \"" ++ params.bridgeName ++ " Docker network does not trust " ++
      params.wireguardInterface ++
      ". Stop attached containers with: docker ps --filter network=" ++ params.bridgeName ++
      ". Remove the incompatible bridge with: docker network rm " ++ params.bridgeName ++
      ". Then rerun jiji network setup from the deployment machine.\" >&2; exit 1; \x7d"]
  | .podman => ""

/-- The rules that let the peers in. -/
def peerInputRules : String :=
  "\n".intercalate (params.peerPublicIps.map fun address =>
    "ensure_rule INPUT -p udp -s " ++ address.display ++ "/32 --dport " ++
      toString params.wireguardPort ++ " -j ACCEPT")

/-- What follows the creation of the bridge. -/
def restoreSteps (engine : BridgeEngineKind) : List String :=
  [ "test \"$actual_subnet\" = \"" ++ params.containerSubnet.display ++ "\" || \x7b echo \"" ++
      params.bridgeName ++ " network subnet is $actual_subnet, expected " ++
      params.containerSubnet.display ++ ". Stop attached containers with: " ++ engine.display ++
      " ps --filter network=" ++ params.bridgeName ++
      ". Remove the incompatible bridge with: " ++ engine.display ++ " network rm " ++
      params.bridgeName ++ ". Then rerun jiji network setup --hosts " ++ params.publicHost ++
      " from the deployment machine.\" >&2; exit 1; \x7d",
    "test \"$actual_gateway\" = \"" ++ params.bridgeGateway.display ++ "\" || \x7b echo \"" ++
      params.bridgeName ++ " network gateway is $actual_gateway, expected " ++
      params.bridgeGateway.display ++ ". Stop attached containers with: " ++ engine.display ++
      " ps --filter network=" ++ params.bridgeName ++
      ". Remove the incompatible bridge with: " ++ engine.display ++ " network rm " ++
      params.bridgeName ++ ". Then rerun jiji network setup --hosts " ++ params.publicHost ++
      " from the deployment machine.\" >&2; exit 1; \x7d",
    engineOptionValidation params engine,
    "",
    "ip address replace " ++ params.dnsAddress.display ++ "/32 dev " ++ params.bridgeInterface,
    "sysctl -w net.ipv4.ip_forward=1 >/dev/null",
    "",
    "ensure_rule() \x7b",
    "  if ! iptables -C \"$@\" 2>/dev/null; then",
    "    iptables -I \"$@\"",
    "  fi",
    "\x7d",
    "",
    "ensure_rule FORWARD -i " ++ params.bridgeInterface ++ " -o " ++
      params.wireguardInterface ++ " -s " ++ params.containerSubnet.display ++ " -d " ++
      params.containerCidr.display ++ " -j ACCEPT",
    "ensure_rule FORWARD -i " ++ params.wireguardInterface ++ " -o " ++
      params.bridgeInterface ++ " -s " ++ params.containerCidr.display ++ " -d " ++
      params.containerSubnet.display ++ " -j ACCEPT",
    "if iptables -n -L DOCKER-USER >/dev/null 2>&1; then",
    "  ensure_rule DOCKER-USER -i " ++ params.bridgeInterface ++ " -o " ++
      params.wireguardInterface ++ " -s " ++ params.containerSubnet.display ++ " -d " ++
      params.containerCidr.display ++ " -j ACCEPT",
    "  ensure_rule DOCKER-USER -i " ++ params.wireguardInterface ++ " -o " ++
      params.bridgeInterface ++ " -s " ++ params.containerCidr.display ++ " -d " ++
      params.containerSubnet.display ++ " -j ACCEPT",
    "fi",
    "",
    "# Exempts mesh-bound traffic from this bridge's own postrouting " ++
      "masquerade/SNAT. Load-bearing on",
    "# Podman specifically: unlike Docker's bridge (created with " ++
      "enable_ip_masquerade=false above),",
    "# Podman's netavark backend always masquerades traffic leaving the bridge " ++
      "subnet toward any",
    "# destination outside it, including a remote host's own container subnet " ++
      "reached over WireGuard --",
    "# confirmed live: a container's real mesh address was silently rewritten to " ++
      "this host's own",
    "# WireGuard endpoint address before leaving, so the receiving host's own " ++
      "FORWARD rule (which",
    "# matches on the real container mesh CIDR, see the two ensure_rule lines " ++
      "above) never matched the",
    "# masqueraded source and the connection hung. Harmless on Docker, where this " ++
      "traffic was never",
    "# masqueraded to begin with -- applied on both engines rather than adding " ++
      "another engine branch.",
    "if ! iptables -t nat -C POSTROUTING -d " ++ params.containerCidr.display ++
      " -j ACCEPT 2>/dev/null; then",
    "  iptables -t nat -I POSTROUTING -d " ++ params.containerCidr.display ++ " -j ACCEPT",
    "fi",
    peerInputRules params]

def renderRestoreScript (engine : BridgeEngineKind) : String :=
  "#!/bin/sh\nset -eu\n\n" ++ createNetwork params engine ++ "\n" ++
    String.join ((restoreSteps params engine).map (· ++ "\n"))

/-- Pieces that are put together begin with the first of them. -/
theorem toList_intercalate_cons (separator first : String) (rest : List String) :
    ∃ text, (separator.intercalate (first :: rest)).toList = first.toList ++ text := by
  rw [String.toList_intercalate]
  cases rest with
  | nil => exact ⟨[], by simp⟩
  | cons second rest =>
      rw [List.map_cons, List.intercalate_cons_of_ne_nil (by simp)]
      exact ⟨_, List.append_assoc _ _ _⟩

theorem toList_renderDockerNetwork :
    ∃ text, (renderDockerNetwork params).toList = "if ! ".toList ++ 'd' :: text := by
  have first : "if ! docker network inspect ".toList =
      "if ! ".toList ++ 'd' :: "ocker network inspect ".toList := by decide +kernel
  obtain ⟨text, begins⟩ : ∃ text, (renderDockerNetwork params).toList =
      ("if ! docker network inspect " ++ params.bridgeName ++
        " >/dev/null 2>&1; then").toList ++ text := toList_intercalate_cons _ _ _
  refine ⟨"ocker network inspect ".toList ++ params.bridgeName.toList ++
    " >/dev/null 2>&1; then".toList ++ text, ?_⟩
  rw [begins, String.toList_append, String.toList_append, first]
  simp only [List.append_assoc, List.cons_append]

theorem toList_renderPodmanNetwork :
    ∃ text, (renderPodmanNetwork params).toList = "if ! ".toList ++ 'p' :: text := by
  have first : "if ! podman network inspect ".toList =
      "if ! ".toList ++ 'p' :: "odman network inspect ".toList := by decide +kernel
  obtain ⟨text, begins⟩ : ∃ text, (renderPodmanNetwork params).toList =
      ("if ! podman network inspect " ++ params.bridgeName ++
        " >/dev/null 2>&1; then").toList ++ text := toList_intercalate_cons _ _ _
  refine ⟨"odman network inspect ".toList ++ params.bridgeName.toList ++
    " >/dev/null 2>&1; then".toList ++ text, ?_⟩
  rw [begins, String.toList_append, String.toList_append, first]
  simp only [List.append_assoc, List.cons_append]

theorem toList_renderRestoreScript (engine : BridgeEngineKind) :
    ∃ text, (renderRestoreScript params engine).toList =
      "#!/bin/sh\nset -eu\n\n".toList ++ ((createNetwork params engine).toList ++ text) := by
  unfold renderRestoreScript
  generalize String.join ((restoreSteps params engine).map (· ++ "\n")) = steps
  refine ⟨"\n".toList ++ steps.toList, ?_⟩
  rw [String.toList_append, String.toList_append, String.toList_append, List.append_assoc,
    List.append_assoc]

/-- The scripts of the two engines differ, whatever the bridge. -/
theorem renderRestoreScript_injective :
    Function.Injective (renderRestoreScript params) := by
  obtain ⟨dockerText, docker⟩ := toList_renderDockerNetwork params
  obtain ⟨podmanText, podman⟩ := toList_renderPodmanNetwork params
  have different : renderRestoreScript params .docker ≠ renderRestoreScript params .podman := by
    intro same
    obtain ⟨dockerRest, dockerScript⟩ := toList_renderRestoreScript params .docker
    obtain ⟨podmanRest, podmanScript⟩ := toList_renderRestoreScript params .podman
    rw [same, podmanScript, List.append_right_inj, createNetwork, createNetwork, docker, podman,
      List.append_assoc, List.append_assoc, List.append_right_inj] at dockerScript
    exact absurd (List.cons.inj dockerScript).1 (by decide)
  intro left right same
  cases left with
  | docker =>
      cases right with
      | docker => rfl
      | podman => exact absurd same different
  | podman =>
      cases right with
      | docker => exact absurd same.symm different
      | podman => rfl

end Rendering

end Network
end Jiji
