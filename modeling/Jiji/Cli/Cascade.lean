import Jiji.Cli.LockRequests

/-!
# Dependents follow their upstream

A service that shares the network of another one is replaced whenever that one is.  A command
selects replicas by its filters, adds the dependents of the selected services and then works in
two waves: the dependents of selected services come after everything else.
-/

namespace Jiji
namespace Cli

open Std Replication Agent

section Waves

variable (config : ProjectConfig)

/-- The selected replicas by their services, as the commands collect them. -/
def endpointsByService (selected : List Replica) : ExtTreeMap String (List Replica) :=
  selected.foldl (fun grouped replica =>
    grouped.insert replica.service (grouped.getD replica.service [] ++ [replica])) ∅

/-- The service whose network a configured service shares. -/
def ProjectConfig.dependency (name : String) : Option String :=
  (config.services[name]?).bind ServiceSpec.networkModeDependency

structure ServiceWaves where
  dependentsOf : ExtTreeMap String (List String)
  waveOne : ExtTreeMap String (List Replica)
  waveTwo : ExtTreeMap String (List Replica)

/-- Enter a selected service under its upstream if that one is selected too. -/
def noteDependent
    (selected : ExtTreeMap String (List Replica))
    (dependents : ExtTreeMap String (List String))
    (name : String) : ExtTreeMap String (List String) :=
  match config.dependency name with
  | none => dependents
  | some upstream =>
      if selected.contains upstream then
        dependents.insert upstream (dependents.getD upstream [] ++ [name])
      else dependents

/-- The selected services in two waves.  The second one holds the dependents of selected
services. -/
def computeServiceWaves (selected : ExtTreeMap String (List Replica)) : ServiceWaves :=
  let dependentsOf := selected.keys.foldl (noteDependent config selected) ∅
  let dependent (name : String) := (config.dependency name).any dependentsOf.contains
  { dependentsOf := dependentsOf
    waveOne := selected.filter fun name _ => !dependent name
    waveTwo := selected.filter fun name _ => dependent name }

end Waves

section Specification

variable (digest : ReplicaDigest) (config : ProjectConfig)
variable (endpoints : ExtTreeMap String Endpoint) (hosts services : List String)

/-- The selections that commands make with their filters: restarting and rolling back take the
configured scale, deploying takes the stored one. -/
inductive FilterSelection : List Replica → Prop
  | replacement {targets : List Endpoint}
      (targeted : selectTargetEndpoints config endpoints hosts services = .ok targets) :
      FilterSelection (expandReplicas digest config targets)
  | deployment {configured effective : List Replica} {ingressHosts : List String}
      {scaleOverride : String → Option ℕ}
      (found : selectReplicaEndpoints digest config endpoints hosts services = .ok configured)
      (placed : selectEffectiveReplicaEndpoints digest config endpoints hosts
        (sortedNames (configured.map Replica.service)) scaleOverride =
          .ok (effective, ingressHosts)) :
      FilterSelection effective

/-- A replica on a server that matches the host filters, of a service that matches the service
filters.  Without filters every replica matches. -/
def MatchesFilters (replica : Replica) : Prop :=
  (hosts = [] ∨ ∃ filter ∈ hosts, ∃ host, config.servers[replica.server]? = some host ∧
    (matchesPattern replica.server filter = true ∨ matchesPattern host filter = true)) ∧
  (services = [] ∨ ∃ filter ∈ services, matchesPattern replica.service filter = true)

/-- A selection in which dependents go with their upstream, with the waves that it is worked
off in. -/
structure DependentsFollow (selected : List Replica) : Prop where
  complete : ∀ upstream ∈ selected, ∀ name service, config.services[name]? = some service →
    service.networkModeDependency = some upstream.service →
    upstream.server ∈ service.servers →
      ∃ dependent ∈ selected, dependent.service = name ∧ dependent.server = upstream.server
  oneWave : ∀ replica ∈ selected,
    let waves := computeServiceWaves config (endpointsByService selected)
    Xor (replica.service ∈ waves.waveOne) (replica.service ∈ waves.waveTwo)
  ordered : ∀ dependent ∈ selected, ∀ upstream ∈ selected,
    config.dependency dependent.service = some upstream.service →
    let waves := computeServiceWaves config (endpointsByService selected)
    dependent.service ∈ waves.waveTwo ∧ upstream.service ∈ waves.waveOne
  filtered : ∀ replica ∈ selected, MatchesFilters config hosts services replica ∨
    ∃ upstream ∈ selected, MatchesFilters config hosts services upstream ∧
      config.dependency replica.service = some upstream.service ∧
      upstream.server = replica.server

/-- The configuration lists the server for the service. -/
def Configured (endpoint : Endpoint) : Prop :=
  ∃ service, config.services[endpoint.service]? = some service ∧
    endpoint.server ∈ service.servers

/-- No configured endpoint on a later server has the same identity. -/
def Undisplaced (endpoint : Endpoint) : Prop :=
  ∀ other, Configured config other →
    endpointIdentity config.project other = endpointIdentity config.project endpoint →
    other.server ≤ endpoint.server

/-- Where an upstream and one of its dependents are selected, the plan keeps the dependent's
endpoints on the servers of the upstream. -/
def DependentsKept (selected : List Replica) : Prop :=
  ∀ upstream ∈ selected, ∀ dependent ∈ selected,
    config.dependency dependent.service = some upstream.service →
    Configured config ⟨dependent.service, upstream.server⟩ →
      Undisplaced config ⟨dependent.service, upstream.server⟩

end Specification

section Plan

variable {config : ProjectConfig} {endpoints : ExtTreeMap String Endpoint}

/-- A service without problems lists configured servers only. -/
theorem contains_of_endpointProblem
    (sound : endpointProblem config name seen servers = none)
    (listed : server ∈ servers) :
    config.servers.contains server = true := by
  induction servers generalizing seen with
  | nil => cases listed
  | cons first servers inductionHypothesis =>
      simp only [endpointProblem] at sound
      split at sound
      · cases sound
      · split at sound
        · cases sound
        · rename_i known
          rcases List.mem_cons.mp listed with same | later
          · rw [same]
            simpa using known
          · exact inductionHypothesis sound later

/-- The servers of a planned configuration are known. -/
theorem contains_of_planEndpoints
    (planned : planEndpoints config = .ok endpoints)
    (configured : Configured config endpoint) :
    config.servers.contains endpoint.server = true := by
  obtain ⟨service, found, listed⟩ := configured
  unfold planEndpoints at planned
  split at planned
  · cases planned
  · rename_i sound
    rw [List.findSome?_eq_none_iff] at sound
    exact contains_of_endpointProblem
      (sound (endpoint.service, service)
        (ExtTreeMap.mem_toList_iff_getElem?_eq_some.mpr found)) listed

/-- The endpoints in the order in which the plan is filled with them. -/
def serverEndpoints (config : ProjectConfig) : List Endpoint :=
  config.servers.keys.flatMap fun server =>
    (config.services.toList.filter fun (_, service) => service.servers.contains server).map
      fun (name, _) => Endpoint.mk name server

theorem mem_serverEndpoints {endpoint : Endpoint} :
    endpoint ∈ serverEndpoints config ↔
      config.servers.contains endpoint.server = true ∧ Configured config endpoint := by
  simp only [serverEndpoints, List.mem_flatMap, List.mem_map, List.mem_filter, Prod.exists,
    ExtTreeMap.mem_toList_iff_getElem?_eq_some, ExtTreeMap.mem_keys, Configured,
    List.contains_iff_mem, ExtTreeMap.contains_iff_mem]
  constructor
  · rintro ⟨server, known, name, service, ⟨found, listed⟩, rfl⟩
    exact ⟨known, service, found, listed⟩
  · rintro ⟨known, service, found, listed⟩
    exact ⟨endpoint.server, known, endpoint.service, service, ⟨found, listed⟩, rfl⟩

theorem pairwise_serverEndpoints (config : ProjectConfig) :
    (serverEndpoints config).Pairwise fun left right => left.server ≤ right.server := by
  rw [serverEndpoints, List.pairwise_flatMap]
  constructor
  · intro server _
    rw [List.pairwise_map]
    exact List.pairwise_of_forall fun _ _ => le_rfl
  · refine ExtTreeMap.ordered_keys.imp fun {left right} earlier => ?_
    simp only [List.mem_map]
    rintro _ ⟨_, _, rfl⟩ _ ⟨_, _, rfl⟩
    exact (compare_lt_iff_lt.mp earlier).le

/-- An identity and a server determine the service. -/
theorem eq_of_endpointIdentity
    (identities : endpointIdentity config.project left = endpointIdentity config.project right)
    (servers : left.server = right.server) :
    left = right := by
  obtain ⟨leftService, server⟩ := left
  obtain ⟨rightService, _⟩ := right
  subst servers
  have texts := congrArg String.toList identities
  simp only [endpointIdentity, String.toList_append, toString, List.append_cancel_left_eq,
    List.append_cancel_right_eq, String.toList_inj] at texts
  rw [texts]

/-- The plan holds the configured endpoints that are not displaced. -/
theorem mem_planEndpoints
    (planned : planEndpoints config = .ok endpoints) :
    endpoint ∈ valuesOf endpoints ↔
      Configured config endpoint ∧ Undisplaced config endpoint := by
  have known (endpoint : Endpoint) :
      endpoint ∈ serverEndpoints config ↔ Configured config endpoint := by
    rw [mem_serverEndpoints]
    exact and_iff_right_of_imp (contains_of_planEndpoints planned)
  unfold planEndpoints at planned
  split at planned
  · cases planned
  · rw [← Except.ok.inj planned]
    refine (mem_valuesOf_foldl_insert (pairwise_serverEndpoints config)
      fun _ _ _ _ => eq_of_endpointIdentity).trans ?_
    simp only [known, Undisplaced]

end Plan

section Selection

variable {digest : ReplicaDigest} {config : ProjectConfig}
variable {endpoints : ExtTreeMap String Endpoint} {hosts services targetHosts : List String}
variable {selected result : List Replica}

theorem mem_selectHosts
    {server : String}
    (found : selectHosts config hosts = .ok targetHosts) :
    server ∈ targetHosts ↔ ∃ host, config.servers[server]? = some host ∧
      (hosts = [] ∨ ∃ filter ∈ hosts,
        (matchesPattern server filter = true ∨ matchesPattern host filter = true)) := by
  rw [selectHosts, Fallible.map_eq_ok_iff] at found
  obtain ⟨matched, selected, rfl⟩ := found
  rw [selectMatching_eq_ok selected]
  simp [ExtTreeMap.mem_toList_iff_getElem?_eq_some]

theorem mem_replicasOn {service server : String} {scale : ℕ} {replica : Replica} :
    replica ∈ replicasOn digest config service server scale ↔
      ∃ localIndex < scale, replica =
        ⟨service, server, replicaIdFor digest config.project service server localIndex⟩ := by
  simp only [replicasOn, List.mem_map, List.mem_range, eq_comm]

/-- The endpoints of the replicas of the configured scale. -/
theorem exists_mem_expandReplicas {targets : List Endpoint} {service server : String} :
    (∃ replica ∈ expandReplicas digest config targets,
        replica.service = service ∧ replica.server = server) ↔
      ⟨service, server⟩ ∈ targets ∧ ∃ spec, config.services[service]? = some spec ∧
        0 < spec.scale := by
  simp only [expandReplicas, List.mem_flatMap, mem_replicasOn]
  constructor
  · rintro ⟨_, ⟨endpoint, member, localIndex, below, rfl⟩, rfl, rfl⟩
    cases found : config.services[endpoint.service]? with
    | none => simp [found] at below
    | some spec => exact ⟨member, spec, rfl, Nat.zero_lt_of_lt (by simpa [found] using below)⟩
  · rintro ⟨member, spec, found, positive⟩
    exact ⟨_, ⟨_, member, 0, by simpa [found] using positive, rfl⟩, rfl, rfl⟩

/-- The endpoints of the replicas of some scale. -/
theorem exists_mem_assigned
    {names allowed : List String}
    {scale : String → ServiceSpec → ℕ}
    {service server : String} :
    (∃ replica ∈ names.flatMap fun name => (config.services[name]?).elim [] fun spec =>
        (assignmentsFor digest config name spec.servers (scale name spec)).filter
          fun replica => allowed.contains replica.server,
        replica.service = service ∧ replica.server = server) ↔
      service ∈ names ∧ server ∈ allowed ∧ ∃ spec, config.services[service]? = some spec ∧
        server ∈ spec.servers ∧ 0 < scale service spec := by
  simp only [List.mem_flatMap]
  constructor
  · rintro ⟨_, ⟨name, named, member⟩, rfl, rfl⟩
    cases found : config.services[name]? with
    | none => simp [found] at member
    | some spec =>
        simp only [found, Option.elim_some, List.mem_filter, assignmentsFor, List.mem_flatMap,
          mem_sortedNames, mem_replicasOn, List.contains_iff_mem] at member
        obtain ⟨⟨server, listed, localIndex, below, rfl⟩, permitted⟩ := member
        exact ⟨named, permitted, spec, found, listed, Nat.zero_lt_of_lt below⟩
  · rintro ⟨named, permitted, spec, found, listed, positive⟩
    refine ⟨⟨service, server, replicaIdFor digest config.project service server 0⟩,
      ⟨service, named, ?_⟩, rfl, rfl⟩
    simp only [found, Option.elim_some, List.mem_filter, assignmentsFor, List.mem_flatMap,
      mem_sortedNames, mem_replicasOn, List.contains_iff_mem]
    exact ⟨⟨server, listed, 0, positive, rfl⟩, permitted⟩

/-- The services of a deployment match the service filters. -/
theorem matches_of_selectReplicaEndpoints
    {configured : List Replica}
    (found : selectReplicaEndpoints digest config endpoints hosts services = .ok configured)
    (member : replica ∈ configured) :
    services = [] ∨ ∃ filter ∈ services, matchesPattern replica.service filter = true := by
  simp only [selectReplicaEndpoints, Fallible.bind_eq_ok_iff, Fallible.guarded_eq_ok_iff,
    requireEndpoints_eq_ok_iff] at found
  obtain ⟨eligible, targeted, chosen, ⟨_, rfl⟩, _, same⟩ := found
  rw [← Except.ok.inj same, mem_sortReplicas] at member
  have named := (exists_mem_assigned.mp ⟨replica, member, rfl, rfl⟩).1
  obtain ⟨endpoint, target, service⟩ := List.mem_map.mp (mem_sortedNames.mp named)
  obtain ⟨_, _, rfl⟩ := selectTargetEndpoints_eq_ok targeted
  rw [← service]
  simpa using (List.mem_filter.mp (List.mem_of_mem_filter target)).2

/-- What the filters select is planned and matches them. -/
theorem FilterSelection.matches
    (obtained : FilterSelection digest config endpoints hosts services selected)
    {replica : Replica}
    (member : replica ∈ selected) :
    ⟨replica.service, replica.server⟩ ∈ valuesOf endpoints ∧
      MatchesFilters config hosts services replica := by
  cases obtained with
  | replacement targeted =>
      obtain ⟨targetHosts, found, rfl⟩ := selectTargetEndpoints_eq_ok targeted
      have target := (exists_mem_expandReplicas.mp ⟨replica, member, rfl, rfl⟩).1
      simp only [List.mem_filter, List.contains_iff_mem, mem_selectHosts found] at target
      obtain ⟨⟨planned, matched⟩, host, known, permitted⟩ := target
      refine ⟨planned, ?_, by simpa using matched⟩
      refine permitted.imp_right ?_
      rintro ⟨filter, given, accepted⟩
      exact ⟨filter, given, host, known, accepted⟩
  | deployment found placed =>
      obtain ⟨allowedHosts, permitting, planned, rfl, _⟩ :=
        selectEffectiveReplicaEndpoints_eq_ok placed
      refine ⟨planned replica member, ?_⟩
      rw [mem_sortReplicas] at member
      obtain ⟨named, permitted, _⟩ := exists_mem_assigned.mp ⟨replica, member, rfl, rfl⟩
      obtain ⟨other, configured, service⟩ := List.mem_map.mp (mem_sortedNames.mp named)
      obtain ⟨host, known, permitted⟩ := (mem_selectHosts permitting).mp permitted
      refine ⟨?_, service ▸ matches_of_selectReplicaEndpoints found configured⟩
      refine permitted.imp_right ?_
      rintro ⟨filter, given, accepted⟩
      exact ⟨filter, given, host, known, accepted⟩

/-- A selected service is selected on every selected server where it is planned. -/
theorem FilterSelection.closed
    (obtained : FilterSelection digest config endpoints hosts services selected)
    {upstream dependent : Replica}
    (first : upstream ∈ selected)
    (second : dependent ∈ selected)
    (configured : Configured config ⟨dependent.service, upstream.server⟩)
    (planned : ⟨dependent.service, upstream.server⟩ ∈ valuesOf endpoints) :
    ∃ replica ∈ selected, replica.service = dependent.service ∧
      replica.server = upstream.server := by
  cases obtained with
  | replacement targeted =>
      obtain ⟨targetHosts, _, rfl⟩ := selectTargetEndpoints_eq_ok targeted
      have onServer := (exists_mem_expandReplicas.mp ⟨upstream, first, rfl, rfl⟩).1
      have ofService := exists_mem_expandReplicas.mp ⟨dependent, second, rfl, rfl⟩
      rw [exists_mem_expandReplicas]
      simp only [List.mem_filter] at onServer ofService ⊢
      exact ⟨⟨⟨planned, ofService.1.1.2⟩, onServer.2⟩, ofService.2⟩
  | deployment _ placed =>
      obtain ⟨allowedHosts, _, _, rfl, _⟩ := selectEffectiveReplicaEndpoints_eq_ok placed
      obtain ⟨spec, known, listed⟩ := configured
      simp only [mem_sortReplicas] at first second ⊢
      obtain ⟨_, permitted, _⟩ := exists_mem_assigned.mp ⟨upstream, first, rfl, rfl⟩
      obtain ⟨named, _, other, alsoKnown, _, positive⟩ :=
        exists_mem_assigned.mp ⟨dependent, second, rfl, rfl⟩
      obtain rfl := Option.some.inj (known.symm.trans alsoKnown)
      exact exists_mem_assigned.mpr ⟨named, permitted, spec, known, listed, positive⟩

/-- A dependent that is added on a server where its upstream is selected. -/
structure Added
    (digest : ReplicaDigest)
    (config : ProjectConfig)
    (selected : List Replica)
    (replica : Replica) : Prop where
  unselected : ∀ other ∈ selected, other.service ≠ replica.service
  configured : Configured config ⟨replica.service, replica.server⟩
  upstream : ∃ upstream ∈ selected, config.dependency replica.service = some upstream.service ∧
    upstream.server = replica.server
  first : replica.replicaId =
    replicaIdFor digest config.project replica.service replica.server 0

/-- Adding dependents keeps the selection. -/
theorem mem_addCascadedDependents
    (cascaded : addCascadedDependents digest config endpoints selected = .ok result) :
    replica ∈ result ↔ replica ∈ selected ∨ Added digest config selected replica := by
  simp only [addCascadedDependents, Fallible.bind_eq_ok_iff, requireEndpoints_eq_ok_iff]
    at cascaded
  obtain ⟨added, ⟨_, rfl⟩, same⟩ := cascaded
  rw [← Except.ok.inj same, mem_sortReplicas, List.mem_append]
  refine or_congr_right ?_
  simp only [List.mem_flatMap, Prod.exists, ExtTreeMap.mem_toList_iff_getElem?_eq_some]
  constructor
  · rintro ⟨name, spec, known, member⟩
    cases depends : spec.networkModeDependency with
    | none => simp [depends] at member
    | some upstream =>
        simp only [depends, Option.elim_some] at member
        split at member
        · cases member
        · rename_i unselected
          simp only [List.mem_flatMap, List.mem_filter, mem_sortedNames, List.mem_map,
            mem_replicasOn, List.contains_iff_mem, decide_eq_true_eq, Nat.lt_one_iff,
            exists_eq_left] at member unselected
          obtain ⟨server, ⟨⟨other, ⟨chosen, rfl⟩, rfl⟩, listed⟩, rfl⟩ := member
          exact {
            unselected := fun other chosen service => unselected ⟨other, chosen, service⟩
            configured := ⟨spec, known, listed⟩
            upstream := ⟨other, chosen, by simp [ProjectConfig.dependency, known, depends], rfl⟩
            first := rfl }
  · rintro ⟨unselected, ⟨spec, known, listed⟩, ⟨upstream, chosen, depends, server⟩, first⟩
    refine ⟨replica.service, spec, known, ?_⟩
    simp only [ProjectConfig.dependency, known, Option.bind_some] at depends
    have absent : (selected.map Replica.service).contains replica.service = false := by
      simpa using unselected
    rw [depends, Option.elim_some, if_neg (by rw [absent]; exact Bool.false_ne_true)]
    simp only [List.mem_flatMap, List.mem_filter, mem_sortedNames, List.mem_map,
      mem_replicasOn, List.contains_iff_mem, decide_eq_true_eq, Nat.lt_one_iff, exists_eq_left]
    exact ⟨replica.server, ⟨⟨upstream, ⟨chosen, rfl⟩, server⟩, listed⟩, by rw [← first]⟩

end Selection

section Waves

variable {config : ProjectConfig} {selected : List Replica}

theorem mem_endpointsByService {name : String} :
    name ∈ endpointsByService selected ↔ ∃ replica ∈ selected, replica.service = name := by
  induction selected using List.reverseRecOn with
  | nil => simp [endpointsByService]
  | append_singleton earlier last inductionHypothesis =>
      rw [endpointsByService, List.foldl_append, List.foldl_cons, List.foldl_nil,
        ExtTreeMap.mem_insert, ← endpointsByService, inductionHypothesis]
      simp [or_and_right, exists_or, or_comm]

/-- The services that have selected dependents. -/
theorem mem_dependents
    {names : List String}
    {upstream : String} :
    upstream ∈ names.foldl (noteDependent config grouped) ∅ ↔
      upstream ∈ grouped ∧ ∃ name ∈ names, config.dependency name = some upstream := by
  induction names using List.reverseRecOn with
  | nil => simp
  | append_singleton names name inductionHypothesis =>
      rw [List.foldl_append, List.foldl_cons, List.foldl_nil, noteDependent]
      cases depends : config.dependency name with
      | none => simp [inductionHypothesis, depends]
      | some other =>
          dsimp only
          by_cases chosen : other ∈ grouped
          · rw [if_pos (ExtTreeMap.contains_iff_mem.mpr chosen), ExtTreeMap.mem_insert,
              inductionHypothesis]
            simp only [Std.compare_eq_iff_eq, List.mem_append, List.mem_singleton, or_and_right,
              exists_or, exists_eq_left, depends, Option.some.injEq]
            constructor
            · rintro (rfl | ⟨known, earlier⟩)
              · exact ⟨chosen, Or.inr rfl⟩
              · exact ⟨known, Or.inl earlier⟩
            · rintro ⟨known, earlier | same⟩
              · exact Or.inr ⟨known, earlier⟩
              · exact Or.inl same
          · rw [if_neg (mt ExtTreeMap.contains_iff_mem.mp chosen), inductionHypothesis]
            simp only [List.mem_append, List.mem_singleton, or_and_right, exists_or,
              exists_eq_left, depends, Option.some.injEq]
            refine and_congr_right fun known => (or_iff_left ?_).symm
            rintro rfl
            exact chosen known

/-- The second wave consists of the dependents of selected services. -/
theorem mem_waveTwo
    {grouped : ExtTreeMap String (List Replica)}
    {name : String} :
    name ∈ (computeServiceWaves config grouped).waveTwo ↔
      name ∈ grouped ∧ ∃ upstream ∈ grouped, config.dependency name = some upstream := by
  simp only [computeServiceWaves, ExtTreeMap.mem_filter, ExtTreeMap.getKey_eq, exists_prop,
    Option.any_eq_true, ExtTreeMap.contains_iff_mem, mem_dependents, ExtTreeMap.mem_keys]
  constructor
  · rintro ⟨chosen, upstream, depends, known, _⟩
    exact ⟨chosen, upstream, known, depends⟩
  · rintro ⟨chosen, upstream, known, depends⟩
    exact ⟨chosen, upstream, depends, known, name, chosen, depends⟩

theorem mem_waveOne
    {name : String} :
    name ∈ (computeServiceWaves config grouped).waveOne ↔
      name ∈ grouped ∧ name ∉ (computeServiceWaves config grouped).waveTwo := by
  simp only [computeServiceWaves, ExtTreeMap.mem_filter, ExtTreeMap.getKey_eq, exists_prop,
    Bool.not_eq_true']
  refine and_congr_right fun chosen => ?_
  rw [not_and, Bool.not_eq_true, imp_iff_right chosen]

end Waves

section Dependents

variable {digest : ReplicaDigest} {config : ProjectConfig}
variable {endpoints : ExtTreeMap String Endpoint} {hosts services : List String}
variable {selected result : List Replica}

/-- The upstream of a dependent depends on no service. -/
theorem dependency_eq_none
    (valid : validateConfig config = true)
    (depends : config.dependency name = some upstream) :
    config.dependency upstream = none := by
  obtain ⟨spec, known, depends⟩ := Option.bind_eq_some_iff.mp depends
  have checked := validService_of_validateConfig valid known
  simp only [ProjectConfig.validService, Bool.and_eq_true, depends, Option.all_some,
    ProjectConfig.validUpstream, Option.any_eq_true] at checked
  obtain ⟨_, _, other, alsoKnown, ⟨independent, _⟩, _⟩ := checked
  simpa [ProjectConfig.dependency, alsoKnown] using independent

/-- Only the selection itself holds upstreams. -/
theorem mem_selected_of_upstream
    (valid : validateConfig config = true)
    (cascaded : addCascadedDependents digest config endpoints selected = .ok result)
    (member : upstream ∈ result)
    (depends : config.dependency name = some upstream.service) :
    upstream ∈ selected := by
  rcases (mem_addCascadedDependents cascaded).mp member with chosen | added
  · exact chosen
  · obtain ⟨other, _, alsoDepends, _⟩ := added.upstream
    rw [dependency_eq_none valid depends] at alsoDepends
    cases alsoDepends

/-- Every dependent is selected where its upstream is, as far as the plan keeps it. -/
theorem complete_of_dependentsKept
    (valid : validateConfig config = true)
    (planned : planEndpoints config = .ok endpoints)
    (obtained : FilterSelection digest config endpoints hosts services selected)
    (cascaded : addCascadedDependents digest config endpoints selected = .ok result)
    (kept : DependentsKept config selected)
    (member : upstream ∈ result)
    (depends : config.dependency name = some upstream.service)
    (configured : Configured config ⟨name, upstream.server⟩) :
    ∃ dependent ∈ result, dependent.service = name ∧ dependent.server = upstream.server := by
  have chosen := mem_selected_of_upstream valid cascaded member depends
  by_cases selects : ∃ dependent ∈ selected, dependent.service = name
  · obtain ⟨dependent, second, rfl⟩ := selects
    have undisplaced := kept upstream chosen dependent second depends configured
    obtain ⟨replica, found, same⟩ := obtained.closed chosen second configured
      ((mem_planEndpoints planned).mpr ⟨configured, undisplaced⟩)
    exact ⟨replica, (mem_addCascadedDependents cascaded).mpr (Or.inl found), same⟩
  · refine ⟨⟨name, upstream.server, replicaIdFor digest config.project name upstream.server 0⟩,
      (mem_addCascadedDependents cascaded).mpr (Or.inr ?_), rfl, rfl⟩
    exact {
      unselected := fun other member same => selects ⟨other, member, same⟩
      configured := configured
      upstream := ⟨upstream, chosen, depends, rfl⟩
      first := rfl }

/-- After a selection by filters and the cascade, dependents go with their upstream exactly if
no dependent's endpoint on a server of its selected upstream is displaced from the plan by one
with the same identity. -/
theorem dependents_follow_iff
    (valid : validateConfig config = true)
    (planned : planEndpoints config = .ok endpoints)
    (obtained : FilterSelection digest config endpoints hosts services selected)
    (cascaded : addCascadedDependents digest config endpoints selected = .ok result) :
    DependentsFollow config hosts services result ↔ DependentsKept config selected := by
  have members (replica : Replica) :
      replica ∈ result ↔ replica ∈ selected ∨ Added digest config selected replica :=
    mem_addCascadedDependents cascaded
  constructor
  · intro follow upstream first dependent second depends configured
    obtain ⟨spec, known, listed⟩ := configured
    obtain ⟨other, member, service, server⟩ := follow.complete upstream
      ((members upstream).mpr (Or.inl first)) dependent.service spec known
      (by simpa [ProjectConfig.dependency, known] using depends) listed
    rcases (members other).mp member with chosen | added
    · have kept := (mem_planEndpoints planned).mp (obtained.matches chosen).1
      rw [service, server] at kept
      exact kept.2
    · exact absurd service.symm (added.unselected dependent second)
  · intro kept
    exact {
      complete := fun upstream member name spec known depends listed =>
        complete_of_dependentsKept valid planned obtained cascaded kept member
          (by simp [ProjectConfig.dependency, known, depends]) ⟨spec, known, listed⟩
      oneWave := by
        intro replica member
        have grouped : replica.service ∈ endpointsByService result :=
          mem_endpointsByService.mpr ⟨replica, member, rfl⟩
        dsimp only
        rw [mem_waveOne, and_iff_right grouped]
        exact xor_not_left.mpr Iff.rfl
      ordered := by
        intro dependent second upstream first depends
        have later : dependent.service ∈ endpointsByService result :=
          mem_endpointsByService.mpr ⟨dependent, second, rfl⟩
        have earlier : upstream.service ∈ endpointsByService result :=
          mem_endpointsByService.mpr ⟨upstream, first, rfl⟩
        dsimp only
        rw [mem_waveOne, mem_waveTwo, mem_waveTwo, dependency_eq_none valid depends]
        exact ⟨⟨later, _, earlier, depends⟩, earlier, by simp⟩
      filtered := by
        intro replica member
        rcases (members replica).mp member with chosen | added
        · exact Or.inl (obtained.matches chosen).2
        · obtain ⟨upstream, chosen, depends, server⟩ := added.upstream
          exact Or.inr ⟨upstream, (members upstream).mpr (Or.inl chosen),
            (obtained.matches chosen).2, depends, server⟩ }

/-- A service in the network of another one. -/
def sampleDependent (servers : List String) (upstream : String) : ServiceSpec :=
  ⟨servers, 1, false, "service:" ++ upstream, false, false, false, false⟩

/-- A service and its dependent on one server. -/
def sampleShared : ProjectConfig :=
  ⟨"p", .ofList [("a", "1")],
    .ofList [("d", sampleDependent ["a"] "u"), ("u", sampleService ["a"] 1 false)]⟩

def sampleSharedPlan : ExtTreeMap String Endpoint :=
  .ofList [("p:d:a", Endpoint.mk "d" "a"), ("p:u:a", Endpoint.mk "u" "a")]

/-- Restarting an upstream restarts its dependent. -/
theorem dependents_follow_sampleShared :
    planEndpoints sampleShared = .ok sampleSharedPlan ∧
      selectTargetEndpoints sampleShared sampleSharedPlan [] ["u"] = .ok [⟨"u", "a"⟩] ∧
      DependentsFollow sampleShared [] ["u"]
        [⟨"d", "a", "d-656565656565"⟩, ⟨"u", "a", "u-767676767676"⟩] := by
  have planned : planEndpoints sampleShared = .ok sampleSharedPlan := rfl
  have targeted : selectTargetEndpoints sampleShared sampleSharedPlan [] ["u"] =
      .ok [⟨"u", "a"⟩] := by decide
  have cascaded : addCascadedDependents sampleReplicaDigest sampleShared sampleSharedPlan
      (expandReplicas sampleReplicaDigest sampleShared [⟨"u", "a"⟩]) =
        .ok [⟨"d", "a", "d-656565656565"⟩, ⟨"u", "a", "u-767676767676"⟩] := by decide
  have independent : ∀ replica ∈ expandReplicas sampleReplicaDigest sampleShared [⟨"u", "a"⟩],
      sampleShared.dependency replica.service = none := by decide
  refine ⟨planned, targeted, (dependents_follow_iff (by decide) planned
    (.replacement targeted) cascaded).mpr ?_⟩
  intro upstream _ dependent member depends
  rw [independent dependent member] at depends
  cases depends

/-- Two services whose names and servers make up the same identity. -/
def sampleDisplaced : ProjectConfig :=
  ⟨"p", .ofList [("a", "1"), ("b:c", "2"), ("c", "3")],
    .ofList [("d", sampleDependent ["a", "b:c"] "u"), ("d:b", sampleService ["c"] 1 false),
      ("u", sampleService ["a", "b:c"] 1 false)]⟩

/-- The endpoint of the dependent on the second server is displaced. -/
def sampleDisplacedPlan : ExtTreeMap String Endpoint :=
  .ofList [("p:d:a", Endpoint.mk "d" "a"), ("p:d:b:c", Endpoint.mk "d:b" "c"),
    ("p:u:a", Endpoint.mk "u" "a"), ("p:u:b:c", Endpoint.mk "u" "b:c")]

/-- Restarting everything leaves out a dependent on one of the servers of its upstream. -/
theorem restart_forgets_dependent :
    validateConfig sampleDisplaced = true ∧
      planEndpoints sampleDisplaced = .ok sampleDisplacedPlan ∧
      ∃ targets result, selectTargetEndpoints sampleDisplaced sampleDisplacedPlan [] [] =
          .ok targets ∧
        addCascadedDependents sampleReplicaDigest sampleDisplaced sampleDisplacedPlan
          (expandReplicas sampleReplicaDigest sampleDisplaced targets) = .ok result ∧
        ¬DependentsFollow sampleDisplaced [] [] result := by
  refine ⟨by decide, rfl, [⟨"d", "a"⟩, ⟨"d:b", "c"⟩, ⟨"u", "a"⟩, ⟨"u", "b:c"⟩],
    [⟨"d:b", "c", "d:b-030303030303"⟩, ⟨"d", "a", "d-656565656565"⟩,
      ⟨"u", "b:c", "u-141414141414"⟩, ⟨"u", "a", "u-767676767676"⟩],
    by decide, by decide, fun follow => ?_⟩
  have found := follow.complete ⟨"u", "b:c", "u-141414141414"⟩ (by decide) "d"
    (sampleDependent ["a", "b:c"] "u") rfl (by decide) (by decide)
  revert found
  decide

end Dependents

end Cli
end Jiji
