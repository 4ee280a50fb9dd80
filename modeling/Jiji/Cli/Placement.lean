import Jiji.Agent.Catalog
import Jiji.Control.Fallible

/-!
# Selecting replicas

A configuration lists the services of a project with the servers that each of them runs
on.  A command selects some of their replicas by patterns on servers and services.  A
service that shares the network of another one is redeployed with it.
-/

namespace Jiji
namespace Cli

open Std Replication Agent

section Patterns

/-- Match the rest of a pattern at some suffix of the value. -/
def matchesLater (rest : List Char → Bool) : List Char → Bool
  | [] => rest []
  | character :: value => rest (character :: value) || matchesLater rest value

def matchesCharacters : List Char → List Char → Bool
  | [], value => value.isEmpty
  | '*' :: pattern, value => matchesLater (matchesCharacters pattern) value
  | _ :: _, [] => false
  | expected :: pattern, character :: value =>
      character == expected && matchesCharacters pattern value

/-- Match a value against a pattern in which `*` stands for any text. -/
def matchesPattern (value pattern : String) : Bool :=
  matchesCharacters pattern.toList value.toList

/-- A star is skipped over some beginning of the value. -/
theorem matchesLater_eq_true_iff
    {rest : List Char → Bool}
    {value : List Char} :
    matchesLater rest value = true ↔
      ∃ skipped left, skipped ++ left = value ∧ rest left = true := by
  induction value with
  | nil => simp [matchesLater]
  | cons character value inductionHypothesis =>
      rw [matchesLater, Bool.or_eq_true, inductionHypothesis]
      constructor
      · rintro (here | ⟨skipped, left, rfl, later⟩)
        · exact ⟨[], character :: value, rfl, here⟩
        · exact ⟨character :: skipped, left, rfl, later⟩
      · rintro ⟨_ | ⟨first, skipped⟩, left, split, found⟩
        · exact Or.inl (split ▸ found)
        · obtain ⟨rfl, rfl⟩ := List.cons.inj split
          exact Or.inr ⟨skipped, left, rfl, found⟩

/-- The texts that a pattern stands for: any text for a star, and itself for every
other character. -/
def patternLanguage (pattern : List Char) : Language Char :=
  (pattern.map fun character => if character = '*' then ⊤ else {[character]}).prod

/-- The matcher accepts exactly the texts that the pattern stands for. -/
theorem matchesPattern_iff_mem_language (value pattern : String) :
    matchesPattern value pattern = true ↔ value.toList ∈ patternLanguage pattern.toList := by
  rw [matchesPattern]
  generalize pattern.toList = pattern, value.toList = value
  induction pattern generalizing value with
  | nil => simp [matchesCharacters, patternLanguage]
  | cons expected pattern inductionHypothesis =>
      rw [patternLanguage, List.map_cons, List.prod_cons, ← patternLanguage, Language.mem_mul]
      by_cases star : expected = '*'
      · subst star
        simp only [matchesCharacters, matchesLater_eq_true_iff, inductionHypothesis, if_true]
        constructor
        · rintro ⟨skipped, left, split, member⟩
          exact ⟨skipped, trivial, left, member, split⟩
        · rintro ⟨skipped, _, left, member, split⟩
          exact ⟨skipped, left, split, member⟩
      · have single : ∀ text, text ∈ ({[expected]} : Language Char) ↔ text = [expected] :=
          fun _ => Set.mem_singleton_iff
        simp only [star, if_false, single, exists_eq_left, List.singleton_append]
        cases value with
        | nil => simp [matchesCharacters]
        | cons character value =>
            simp only [matchesCharacters, Bool.and_eq_true, beq_iff_eq, inductionHypothesis,
              List.cons.injEq]
            exact ⟨fun ⟨same, member⟩ => ⟨value, member, same.symm, rfl⟩,
              fun ⟨_, member, same, rest⟩ => ⟨same.symm, rest ▸ member⟩⟩

example : matchesPattern "web-frontend-1" "web-*-1" = true := by decide

example : matchesPattern "web-frontend-2" "web-*-1" = false := by decide

end Patterns

section Config

/-- The part of a service's configuration that decides where it runs. -/
structure ServiceSpec where
  servers : List String
  scale : ℕ
  proxied : Bool
  networkMode : String
  stopFirst : Bool
  localState : Bool
  exclusive : Bool
  publishesPorts : Bool
  deriving DecidableEq

/-- The service whose network a service shares. -/
def ServiceSpec.networkModeDependency (service : ServiceSpec) : Option String :=
  if "service:".toList.isPrefixOf service.networkMode.toList then
    some (String.ofList (service.networkMode.toList.drop "service:".length))
  else none

/-- The configuration of a project: the public host of every server, and the services. -/
structure ProjectConfig where
  project : String
  servers : ExtTreeMap String String
  services : ExtTreeMap String ServiceSpec

/-- The checks on the upstream of a service that shares a network. -/
def ProjectConfig.validUpstream
    (config : ProjectConfig)
    (name : String)
    (service : ServiceSpec)
    (upstreamName : String) : Bool :=
  upstreamName ≠ name &&
    (config.services[upstreamName]?).any fun upstream =>
      upstream.networkModeDependency.isNone && upstream.networkMode ≠ "host" &&
        service.servers.all fun server => upstream.servers.contains server

/-- The checks on one service. -/
def ProjectConfig.validService
    (config : ProjectConfig)
    (name : String)
    (service : ServiceSpec) : Bool :=
  !service.servers.isEmpty && (service.servers.all fun server => config.servers.contains server) &&
    (service.scale ≤ 1 ||
      !service.stopFirst && service.networkMode = "bridge" && !service.localState &&
        !service.exclusive) &&
    (service.networkMode = "bridge" || !service.proxied) &&
    service.networkModeDependency.all (config.validUpstream name service)

/-- The checks on the services of a configuration. -/
def validateConfig (config : ProjectConfig) : Bool :=
  config.services.toList.all fun (name, service) => config.validService name service

end Config

section Plan

/-- A service on a server. -/
structure Endpoint where
  service : String
  server : String
  deriving DecidableEq

def endpointIdentity (project : String) (endpoint : Endpoint) : String :=
  s!"{project}:{endpoint.service}:{endpoint.server}"

/-- What is wrong with the first server of a service that is listed twice or unknown. -/
def endpointProblem (config : ProjectConfig) (name : String) :
    List String → List String → Option String
  | _, [] => none
  | seen, server :: servers =>
      if seen.contains server then
        some s!"Service '{name}' lists server '{server}' more than once. Remove the duplicate entry."
      else if !config.servers.contains server then
        some s!"Service '{name}' references unknown server '{server}'. Add that server or correct the service servers list."
      else endpointProblem config name (server :: seen) servers

/-- The endpoints of the plan by their identities.  Of two endpoints with one identity the one
on the later server stays. -/
def planEndpoints (config : ProjectConfig) : Except String (ExtTreeMap String Endpoint) :=
  match config.services.toList.findSome? fun (name, service) =>
      endpointProblem config name [] service.servers with
  | some problem => .error problem
  | none => .ok <|
      (config.servers.keys.flatMap fun server =>
        (config.services.toList.filter fun (_, service) => service.servers.contains server).map
          fun (name, _) => Endpoint.mk name server).foldl
        (fun endpoints endpoint =>
          endpoints.insert (endpointIdentity config.project endpoint) endpoint) ∅

/-- Keep the items that match some filter; every filter has to match an item. -/
def selectMatching {α : Type}
    (accepts : String → α → Bool)
    (problem : String → String)
    (items : List α)
    (filters : List String) : Except String (List α) :=
  if filters = [] then .ok items
  else match filters.find? fun filter => !items.any (accepts filter) with
    | some filter => .error (problem filter)
    | none => .ok (items.filter fun item => filters.any fun filter => accepts filter item)

/-- The names of the selected servers. -/
def selectHosts (config : ProjectConfig) (filters : List String) :
    Except String (List String) :=
  (selectMatching
    (fun filter (server : String × String) =>
      matchesPattern server.1 filter || matchesPattern server.2 filter)
    (fun filter =>
      s!"No configured server matches host filter '{filter}'. Check --hosts and try again.")
    config.servers.toList filters).map (List.map Prod.fst)

def selectEndpoints (endpoints : ExtTreeMap String Endpoint) (filters : List String) :
    Except String (List Endpoint) :=
  selectMatching (fun filter endpoint => matchesPattern endpoint.service filter)
    (fun filter =>
      s!"No configured service matches service filter '{filter}'. Check --services and try again.")
    (valuesOf endpoints) filters

def selectTargetEndpoints
    (config : ProjectConfig)
    (endpoints : ExtTreeMap String Endpoint)
    (hosts services : List String) : Except String (List Endpoint) := do
  let targetHosts ← selectHosts config hosts
  let candidates ← selectEndpoints endpoints services
  let selected := candidates.filter fun endpoint => targetHosts.contains endpoint.server
  if selected ≠ [] then .ok selected
  else .error "No service endpoint matches both --hosts and --services filters"

end Plan

section Replicas

/-- The digest of a text, as far as it becomes part of a replica's identifier. -/
abbrev ReplicaDigest := String → Fin 6 → UInt8

/-- A byte as two hexadecimal digits. -/
def hexByte (byte : UInt8) : List Char :=
  [Nat.digitChar (byte.toNat / 16), Nat.digitChar (byte.toNat % 16)]

/-- A replica of a service on a server. -/
structure Replica where
  service : String
  server : String
  replicaId : String
  deriving DecidableEq

variable (digest : ReplicaDigest) (config : ProjectConfig)

def replicaIdFor (project service server : String) (localIndex : ℕ) : String :=
  service ++ "-" ++ String.ofList
    ((List.ofFn (digest s!"{project}\x00{service}\x00{server}\x00{localIndex}")).flatMap hexByte)

def sortedNames (names : List String) : List String := (names.insertionSort (· ≤ ·)).dedup

/-- The replicas of a service on one server. -/
def replicasOn (service server : String) (scale : ℕ) : List Replica :=
  (List.range scale).map fun localIndex =>
    ⟨service, server, replicaIdFor digest config.project service server localIndex⟩

/-- Every listed server gets as many replicas as the scale says. -/
def assignmentsFor (service : String) (servers : List String) (scale : ℕ) : List Replica :=
  (sortedNames servers).flatMap fun server => replicasOn digest config service server scale

def replicaIdentity (project : String) (replica : Replica) : String :=
  s!"{project}:{replica.service}:{replica.replicaId}"

def sortReplicas (replicas : List Replica) : List Replica :=
  replicas.insertionSort fun left right =>
    replicaIdentity config.project left ≤ replicaIdentity config.project right

/-- Every replica is at an endpoint of the plan; otherwise the process panics. -/
def requireEndpoints
    (endpoints : ExtTreeMap String Endpoint)
    (message : String)
    (replicas : List Replica) : Except String (List Replica) :=
  if replicas.all fun replica =>
      (valuesOf endpoints).contains ⟨replica.service, replica.server⟩
  then .ok replicas
  else .error message

/-- The replicas of the configured scale at the selected endpoints. -/
def expandReplicas (selected : List Endpoint) : List Replica :=
  selected.flatMap fun endpoint =>
    replicasOn digest config endpoint.service endpoint.server
      ((config.services[endpoint.service]?).elim 0 ServiceSpec.scale)

def selectReplicaEndpoints
    (endpoints : ExtTreeMap String Endpoint)
    (hosts services : List String) : Except String (List Replica) := do
  let eligible ← selectTargetEndpoints config endpoints hosts services
  let allowedHosts := eligible.map Endpoint.server
  let serviceNames := sortedNames (eligible.map Endpoint.service)
  let selected ← requireEndpoints endpoints "placement uses a configured service endpoint" <|
    serviceNames.flatMap fun name => (config.services[name]?).elim [] fun service =>
      (assignmentsFor digest config name service.servers service.scale).filter
        fun replica => allowedHosts.contains replica.server
  if selected ≠ [] then .ok (sortReplicas config selected)
  else .error "No desired service replica matches both --hosts and --services filters; use `jiji service scale` to change placement"

/-- The replicas of the desired scale and the hosts of proxied services. -/
def selectEffectiveReplicaEndpoints
    (endpoints : ExtTreeMap String Endpoint)
    (hosts serviceNames : List String)
    (scaleOverride : String → Option ℕ) : Except String (List Replica × List String) := do
  let allowedHosts ← selectHosts config hosts
  let ingressHosts := sortedNames <| serviceNames.flatMap fun name =>
    (config.services[name]?).elim [] fun service =>
      if service.proxied then service.servers else []
  let selected ← requireEndpoints endpoints "desired placement uses a configured endpoint" <|
    serviceNames.flatMap fun name => (config.services[name]?).elim [] fun service =>
      (assignmentsFor digest config name service.servers
        ((scaleOverride name).getD service.scale)).filter
          fun replica => allowedHosts.contains replica.server
  if selected ≠ [] then .ok (sortReplicas config selected, ingressHosts)
  else .error "No effective desired replicas match the requested filters"

/-- Add the services that share the network of a selected service, on the servers where that
one is selected.  They have one replica on a server. -/
def addCascadedDependents
    (endpoints : ExtTreeMap String Endpoint)
    (selected : List Replica) : Except String (List Replica) := do
  let cascaded ← requireEndpoints endpoints "cascaded dependent uses a configured endpoint" <|
    config.services.toList.flatMap fun (name, service) =>
      service.networkModeDependency.elim [] fun upstream =>
        if (selected.map Replica.service).contains name then []
        else ((sortedNames ((selected.filter fun replica => replica.service = upstream).map
            Replica.server)).filter fun server => service.servers.contains server).flatMap
          fun server => replicasOn digest config name server 1
  .ok (sortReplicas config (selected ++ cascaded))

end Replicas

section Specifications

variable {digest : ReplicaDigest} {config : ProjectConfig}
variable {endpoints : ExtTreeMap String Endpoint} {hosts services : List String}

theorem mem_sortedNames {name : String} {names : List String} :
    name ∈ sortedNames names ↔ name ∈ names := by
  rw [sortedNames, List.mem_dedup, (List.perm_insertionSort _ _).mem_iff]

theorem sortedNames_nodup (names : List String) : (sortedNames names).Nodup :=
  List.nodup_dedup _

/-- A service of a valid configuration passes the checks. -/
theorem validService_of_validateConfig
    (valid : validateConfig config = true)
    (found : config.services[name]? = some service) :
    config.validService name service = true := by
  rw [validateConfig, List.all_eq_true] at valid
  exact valid (name, service) (ExtTreeMap.mem_toList_iff_getElem?_eq_some.mpr found)

theorem servers_ne_nil
    (valid : config.validService name service = true) :
    service.servers ≠ [] := by
  simp only [ProjectConfig.validService, Bool.and_eq_true] at valid
  simpa using valid.1.1.1.1

theorem mem_sortReplicas {replica : Replica} {replicas : List Replica} :
    replica ∈ sortReplicas config replicas ↔ replica ∈ replicas :=
  (List.perm_insertionSort _ _).mem_iff

theorem requireEndpoints_eq_ok_iff {message : String} {replicas result : List Replica} :
    requireEndpoints endpoints message replicas = .ok result ↔
      (∀ replica ∈ replicas, ⟨replica.service, replica.server⟩ ∈ valuesOf endpoints) ∧
        replicas = result := by
  simp [requireEndpoints, Fallible.guarded_eq_ok_iff]

/-- The items that match the filters. -/
theorem selectMatching_eq_ok
    {α : Type}
    {accepts : String → α → Bool}
    {items result : List α}
    {filters : List String}
    (selected : selectMatching accepts problem items filters = .ok result) :
    result = items.filter fun item =>
      filters.isEmpty || filters.any fun filter => accepts filter item := by
  unfold selectMatching at selected
  split at selected
  · rename_i unfiltered
    obtain rfl := Except.ok.inj selected
    simp [unfiltered]
  · rename_i filtered
    split at selected
    · cases selected
    · obtain rfl := Except.ok.inj selected
      have nonempty : filters.isEmpty = false := by simpa using filtered
      simp only [nonempty, Bool.false_or]

/-- The endpoints on the selected hosts whose services match. -/
theorem selectTargetEndpoints_eq_ok
    {targets : List Endpoint}
    (selected : selectTargetEndpoints config endpoints hosts services = .ok targets) :
    ∃ targetHosts, selectHosts config hosts = .ok targetHosts ∧
      targets = ((valuesOf endpoints).filter fun endpoint =>
        services.isEmpty || services.any fun filter =>
          matchesPattern endpoint.service filter).filter fun endpoint =>
            targetHosts.contains endpoint.server := by
  simp only [selectTargetEndpoints, Fallible.bind_eq_ok_iff, Fallible.guarded_eq_ok_iff]
    at selected
  obtain ⟨targetHosts, found, candidates, matched, _, same⟩ := selected
  exact ⟨targetHosts, found, by rw [← Except.ok.inj same, selectMatching_eq_ok matched]⟩

/-- The replicas of the desired scale on the selected hosts. -/
theorem selectEffectiveReplicaEndpoints_eq_ok
    (selected : selectEffectiveReplicaEndpoints digest config endpoints hosts serviceNames
      scaleOverride = .ok (effective, ingressHosts)) :
    ∃ allowedHosts, selectHosts config hosts = .ok allowedHosts ∧
      (∀ replica ∈ effective, ⟨replica.service, replica.server⟩ ∈ valuesOf endpoints) ∧
      effective = sortReplicas config (serviceNames.flatMap fun name =>
        (config.services[name]?).elim [] fun service =>
          (assignmentsFor digest config name service.servers
            ((scaleOverride name).getD service.scale)).filter
              fun replica => allowedHosts.contains replica.server) ∧
      ingressHosts = sortedNames (serviceNames.flatMap fun name =>
        (config.services[name]?).elim [] fun service =>
          if service.proxied then service.servers else []) := by
  simp only [selectEffectiveReplicaEndpoints, Fallible.bind_eq_ok_iff,
    Fallible.guarded_eq_ok_iff, requireEndpoints_eq_ok_iff] at selected
  obtain ⟨allowedHosts, found, chosen, ⟨planned, rfl⟩, _, same⟩ := selected
  obtain ⟨rfl, rfl⟩ := Prod.mk.inj (Except.ok.inj same)
  exact ⟨allowedHosts, found, fun replica member => planned replica (mem_sortReplicas.mp member),
    rfl, rfl⟩

end Specifications

end Cli
end Jiji
