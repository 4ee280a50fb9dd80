import Jiji.Control.Fallible
import Jiji.Network.Cidr
import Jiji.Replication.View

/-!
# Planning the private network

The names that a project installs on a host and the addresses of its servers are
computed from digests of names alone.  A server takes the place of its name among the
names that share its hash bucket, so its address depends on the other servers of the
project.  The digests are SHA-256 digests; they are a parameter.
-/

namespace Jiji
namespace Network

open Std Replication

/-- The digests of a text, and of fields that are each written after their length and
together after some leading bytes. -/
structure Sha256 where
  text : String → BitVec 256
  fields : List UInt8 → List String → BitVec 256

/-- The last hexadecimal digits of a number, with leading zeros. -/
def hexText (count value : ℕ) : String :=
  String.ofList ((List.range count).map fun index =>
    Nat.digitChar (value / 16 ^ (count - 1 - index) % 16))

/-- Hexadecimal text is made of digits and lower-case letters. -/
theorem isAlphanum_of_mem_hexText
    (member : character ∈ (hexText count value).toList) :
    character.isAlphanum := by
  simp only [hexText, String.toList_ofList, List.mem_map] at member
  obtain ⟨index, _, rfl⟩ := member
  have digits : ∀ digit < 16, (Nat.digitChar digit).isAlphanum = true := by decide
  exact digits _ (Nat.mod_lt _ (by decide))

theorem length_hexText (count value : ℕ) : (hexText count value).toList.length = count := by
  simp [hexText]

section Naming

variable (sha : Sha256)

/-- The leading 64 bits of a digest. -/
def stableHash (value : String) : ℕ := (sha.text value).toNat / 2 ^ 192

def saltedHash (salt project : String) : ℕ := stableHash sha s!"{salt}:{project}"

/-- The address ranges of a project that configures none. -/
def projectCidrs (project : String) : String × String :=
  let slot := saltedHash sha "cidr" project % 64
  let containerSecond := 64 + slot
  (s!"198.18.{slot}.0/24", s!"100.{containerSecond}.0.0/16")

def wireguardInterfaceName (project : String) : String :=
  "jiji" ++ hexText 8 (saltedHash sha "wg" project)

def bridgeInterfaceName (project : String) : String :=
  "jijib" ++ hexText 7 (saltedHash sha "br" project)

/-- The readable part of a slug: runs of other characters become one dash. -/
def slugText (project : String) : List Char :=
  let slug := project.toList.foldl
    (fun slug character =>
      let lower := character.toLower
      if lower.isAlphanum then slug ++ [lower]
      else if slug.getLast? ≠ some '-' ∧ slug ≠ [] then slug ++ ['-']
      else slug) []
  ((slug.rdropWhile (· = '-')).take 20).rdropWhile (· = '-')

def projectSlug (project : String) : String :=
  let slug := slugText project
  let hash := hexText 8 (stableHash sha project)
  if slug = [] then hash else String.ofList slug ++ "-" ++ hash

def bridgeNetworkName (project : String) : String := "jiji-" ++ projectSlug sha project

def systemdUnitSlug (project : String) : String := projectSlug sha project

def wireguardPort (project : String) : ℕ := 51820 + saltedHash sha "port" project % 4000

end Naming

section Plan

structure WireGuardPeerPlan where
  server : String
  endpoint : String
  managementAddress : Ipv4Addr
  allowedIps : List Ipv4Cidr
  deriving DecidableEq

structure ServerPlan where
  name : String
  publicHost : String
  managementAddress : Ipv4Addr
  containerSubnet : Ipv4Cidr
  bridgeGateway : Ipv4Addr
  dnsAddress : Ipv4Addr
  proxyAddress : Ipv4Addr
  wireguardPort : ℕ
  wireguardInterface : String
  bridgeInterface : String
  bridgeName : String
  peers : List WireGuardPeerPlan
  deriving DecidableEq

/-- A network plan, with its servers in the order of their names. -/
structure NetworkPlan where
  enabled : Bool
  project : String
  managementCidr : Ipv4Cidr
  containerCidr : Ipv4Cidr
  servers : List ServerPlan
  deriving DecidableEq

/-- The route to a single address. -/
def hostRoute (address : Ipv4Addr) : Ipv4Cidr where
  network := address
  prefixLength := 32
  prefixLength_le := Nat.le_refl 32
  canonical := by
    have full : prefixMask 32 = BitVec.allOnes 32 := by decide
    rw [full, BitVec.and_allOnes]

/-- The fields over which the mesh generation is computed. -/
def NetworkPlan.meshFields (plan : NetworkPlan) : List String :=
  [if plan.enabled then "enabled" else "disabled", plan.project,
    plan.managementCidr.display, plan.containerCidr.display] ++
  plan.servers.flatMap fun server =>
    [server.name, server.publicHost, server.managementAddress.display,
      server.containerSubnet.display, server.wireguardInterface, server.bridgeInterface,
      server.bridgeName, toString server.wireguardPort] ++
    server.peers.flatMap fun peer =>
      [peer.server, peer.endpoint] ++ peer.allowedIps.map Ipv4Cidr.display

/-- The digest of everything that a generation installs, as hexadecimal text. -/
def NetworkPlan.meshGeneration (sha : Sha256) (plan : NetworkPlan) : String :=
  hexText 64 (sha.fields [] plan.meshFields).toNat

end Plan

section Planning

/-- The part of the configuration that the planner reads. -/
structure NetworkSettings where
  enabled : Bool
  managementCidr : Option String
  containerCidr : Option String

/-- Servers with their public hosts, and services with their servers. -/
structure Config where
  project : String
  network : Option NetworkSettings
  servers : ExtTreeMap String String
  services : ExtTreeMap String (List String)

def containerServerPrefix : ℕ := 21

def serverBucketCapacity : ℕ := 8

variable (sha : Sha256)

/-- The identities that share a hash bucket, in order. -/
def bucketMembers (identities : List String) (bucketCount bucket : ℕ) : List String :=
  (identities.filter fun identity => stableHash sha identity % bucketCount = bucket).insertionSort
    (· ≤ ·)

/-- Give every identity a slot: the start of its bucket and its place there. -/
def allocateBucketed
    (identities : List String)
    (totalSlots desiredCapacity : ℕ)
    (kind : String) : Except NetworkPlanError (List (String × ℕ)) :=
  let capacity := min desiredCapacity totalSlots
  let bucketCount := totalSlots / capacity
  let buckets := identities.map fun identity => stableHash sha identity % bucketCount
  match (buckets.insertionSort (· ≤ ·)).find? fun bucket =>
      capacity < (bucketMembers sha identities bucketCount bucket).length with
  | some bucket => .error (.bucketExhausted kind bucket capacity)
  | none => .ok (identities.map fun identity =>
      let bucket := stableHash sha identity % bucketCount
      (identity, bucket * capacity +
        (bucketMembers sha identities bucketCount bucket).idxOf identity))

/-- The checks on the servers that services are placed on. -/
def planEndpoints (config : Config) : Except NetworkPlanError Unit :=
  config.services.toList.forM fun (service, servers) =>
    servers.zipIdx.forM fun (server, index) =>
      if server ∈ servers.take index then .error (.duplicateServiceServer service server)
      else if server ∉ config.servers then .error (.unknownServiceServer service server)
      else .ok ()

/-- What one server tells every other server about itself. -/
def ServerPlan.peerPlan (server : ServerPlan) : WireGuardPeerPlan where
  server := server.name
  endpoint := server.publicHost ++ ":" ++ toString server.wireguardPort
  managementAddress := server.managementAddress
  allowedIps := [hostRoute server.managementAddress, server.containerSubnet]

/-- Make every server a peer of all others. -/
def populateServerNetworks (servers : List ServerPlan) : List ServerPlan :=
  servers.map fun server =>
    { server with
      peers := (servers.filter fun other => other.name ≠ server.name).map ServerPlan.peerPlan }

/-- The plan of one server without its peers. -/
def baseServer
    (config : Config)
    (managementCidr containerCidr : Ipv4Cidr)
    (name publicHost : String)
    (slot : ℕ) : Option ServerPlan := do
  let containerSubnet ← containerCidr.subnet containerServerPrefix slot
  let managementAddress ← managementCidr.address (slot + 1)
  let bridgeGateway ← containerSubnet.address 1
  let dnsAddress ← containerSubnet.address 2
  let proxyAddress ← containerSubnet.address 3
  return {
    name := name
    publicHost := publicHost
    managementAddress := managementAddress
    containerSubnet := containerSubnet
    bridgeGateway := bridgeGateway
    dnsAddress := dnsAddress
    proxyAddress := proxyAddress
    wireguardPort := wireguardPort sha config.project
    wireguardInterface := wireguardInterfaceName sha config.project
    bridgeInterface := bridgeInterfaceName sha config.project
    bridgeName := bridgeNetworkName sha config.project
    peers := [] }

/-- The ranges of a project, as configured or by default. -/
def configuredCidrs (config : Config) : Except NetworkPlanError (Ipv4Cidr × Ipv4Cidr) := do
  let (defaultManagement, defaultContainer) := projectCidrs sha config.project
  let management ← Ipv4Cidr.fromStr
    ((config.network.bind (·.managementCidr)).getD defaultManagement)
  let container ← Ipv4Cidr.fromStr
    ((config.network.bind (·.containerCidr)).getD defaultContainer)
  if management.overlaps container then
    throw (.overlappingAddressSpaces management.display container.display)
  return (management, container)

/-- The number of server slots of the ranges of a project. -/
def serverSlots (management container : Ipv4Cidr) : Except NetworkPlanError ℕ :=
  match container.subnetCount containerServerPrefix with
  | none => .error (.containerRangeTooSmall container.display containerServerPrefix)
  | some slots =>
      if management.addressCount - 2 < slots then
        .error (.managementRangeTooSmall management.display (management.addressCount - 2) slots)
      else .ok slots

def serverIdentity (config : Config) (name : String) : String :=
  config.project ++ ":" ++ name

/-- Plan the network of a configuration. -/
def NetworkPlanner.plan (config : Config) : Except NetworkPlanError NetworkPlan := do
  let (management, container) ← configuredCidrs sha config
  let slots ← serverSlots management container
  let assignments ← allocateBucketed sha (config.servers.keys.map (serverIdentity config))
    slots serverBucketCapacity "servers"
  let servers := config.servers.toList.filterMap fun (name, publicHost) => do
    let slot ← assignments.lookup (serverIdentity config name)
    baseServer sha config management container name publicHost slot
  planEndpoints config
  return {
    enabled := (config.network.map (·.enabled)).getD true
    project := config.project
    managementCidr := management
    containerCidr := container
    servers := populateServerNetworks servers }

end Planning

/-- Digests that keep short texts apart. -/
def sampleSha : Sha256 where
  text value := BitVec.ofNat 256
    (value.toList.foldl (fun digest character => digest * 256 + character.toNat) 0)
  fields _ _ := 0

/-- A project with two servers. -/
def sampleConfig : Config where
  project := "p"
  network := some ⟨true, some "10.0.0.0/24", some "10.1.0.0/16"⟩
  servers := {("a", "192.0.2.1"), ("b", "192.0.2.2")}
  services := ∅

example : ((NetworkPlanner.plan sampleSha sampleConfig).map fun plan =>
    plan.servers.map fun server => (server.name, server.managementAddress.display)).toOption =
    some [("a", "10.0.0.1"), ("b", "10.0.0.2")] := by decide +kernel

end Network
end Jiji
