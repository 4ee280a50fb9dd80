import Jiji.Network.MeshEncoding

/-!
# Which fleets can be planned

Validation bounds the number of servers of a project by the number of container subnets
that the default range has.  The planner sorts the servers into four buckets by their
digests and has eight slots for each of them, so it depends on the names of the servers
whether all of them get a slot.
-/

namespace Jiji
namespace Network

open Std (ExtTreeMap)

section Validation

structure ValidationError where
  path : String
  message : String
  code : String
  deriving DecidableEq, Repr

def maxServices : ℕ := 500

def maxNodes : ℕ := 32

/-- What is wrong with the servers of a service. -/
def validateServiceServers (config : Config) (name : String) (servers : List String) :
    List ValidationError :=
  let path := s!"services.{name}.servers"
  let available := ", ".intercalate config.servers.keys
  (if servers = [] then
    [⟨path, s!"Service '{name}' must specify at least one server in 'servers' array",
      "NO_SERVERS"⟩]
  else []) ++
  (servers.filter (· ∉ config.servers)).map fun host =>
    ⟨path, s!"Server '{host}' not found in servers section. Available servers: {available}",
      "UNDEFINED_SERVER"⟩

/-- What is wrong with a configuration, as far as the planner reads it. -/
def validateConfig (config : Config) : List ValidationError :=
  let servers := config.servers.size
  let services := config.services.size
  (if maxNodes < servers then
    [⟨"servers", s!"A project supports at most {maxNodes} servers; {servers} are configured",
      "TOO_MANY_SERVERS"⟩]
  else []) ++
  (if maxServices < services then
    [⟨"services", s!"A project supports at most {maxServices} services; {services} are configured",
      "TOO_MANY_SERVICES"⟩]
  else []) ++
  config.services.toList.flatMap fun (name, servers) => validateServiceServers config name servers

/-- In a valid configuration every service is on servers of the project. -/
theorem mem_servers_of_validateConfig
    (valid : validateConfig config = [])
    (listed : (service, servers) ∈ config.services.toList)
    (member : server ∈ servers) :
    server ∈ config.servers := by
  by_contra unknown
  simp only [validateConfig, List.append_eq_nil_iff, List.flatMap_eq_nil_iff] at valid
  have checked := valid.2 _ listed
  simp only [validateServiceServers, List.append_eq_nil_iff, List.map_eq_nil_iff,
    List.filter_eq_nil_iff] at checked
  exact checked.2 server member (decide_eq_true unknown)

end Validation

section Planning

variable {sha : Sha256} {config : Config}

/-- The services of a valid configuration that name no server twice have endpoints. -/
theorem planEndpoints_eq_ok
    (valid : validateConfig config = [])
    (single : ∀ (service : String) (servers : List String),
      config.services[service]? = some servers → servers.Nodup) :
    planEndpoints config = .ok () := by
  refine Fallible.forM_eq_ok_iff.mpr ?_
  rintro ⟨service, servers⟩ listed
  refine Fallible.forM_eq_ok_iff.mpr ?_
  rintro ⟨server, index⟩ placed
  have distinct := single service servers (ExtTreeMap.mem_toList_iff_getElem?_eq_some.mp listed)
  obtain ⟨inside, found⟩ := List.mem_zipIdx' placed
  have first : server ∉ servers.take index := by
    rw [found, List.mem_take_iff_getElem]
    rintro ⟨earlier, small, same⟩
    have indices := (List.Nodup.getElem_inj_iff distinct).mp same
    omega
  have member : server ∈ servers := by
    rw [found]
    exact List.getElem_mem _
  dsimp only
  rw [if_neg first, if_neg (not_not.mpr (mem_servers_of_validateConfig valid listed member))]

/-- An allocation succeeds exactly if no bucket is overfull. -/
theorem allocateBucketed_eq_ok_iff
    {kind : String} :
    (∃ assignments, allocateBucketed sha identities totalSlots desiredCapacity kind =
        .ok assignments) ↔
      ∀ bucket, (identities.filter fun identity =>
        stableHash sha identity % (totalSlots / min desiredCapacity totalSlots) = bucket).length ≤
          min desiredCapacity totalSlots := by
  set capacity := min desiredCapacity totalSlots
  set bucketCount := totalSlots / capacity
  have counted : ∀ bucket, (bucketMembers sha identities bucketCount bucket).length =
      (identities.filter fun identity =>
        stableHash sha identity % bucketCount = bucket).length :=
    fun bucket => List.length_insertionSort _ _
  have decided : (∃ assignments, allocateBucketed sha identities totalSlots desiredCapacity kind =
      .ok assignments) ↔ ((identities.map fun identity =>
        stableHash sha identity % bucketCount).insertionSort (· ≤ ·)).find? (fun bucket =>
          capacity < (bucketMembers sha identities bucketCount bucket).length) = none := by
    simp only [allocateBucketed]
    split
    · rename_i full found
      rw [found]
      simp
    · rename_i found
      rw [found]
      simp
  rw [decided, List.find?_eq_none]
  simp only [decide_eq_true_eq, Nat.not_lt, counted, (List.perm_insertionSort _ _).mem_iff,
    List.mem_map, forall_exists_index, and_imp, forall_apply_eq_imp_iff₂]
  constructor
  · intro small bucket
    by_cases inhabited : ∃ identity ∈ identities, stableHash sha identity % bucketCount = bucket
    · obtain ⟨identity, member, rfl⟩ := inhabited
      exact small identity member
    · have empty : identities.filter (fun identity =>
          stableHash sha identity % bucketCount = bucket) = [] := by
        refine List.filter_eq_nil_iff.mpr fun identity member found => inhabited ?_
        exact ⟨identity, member, of_decide_eq_true found⟩
      rw [empty]
      exact Nat.zero_le _
  · exact fun small identity _ => small _

/-- A bucket is determined by the identities in it. -/
theorem bucketMembers_congr
    {others : List String}
    (distinct : identities.Nodup)
    (othersDistinct : others.Nodup)
    (same : ∀ identity, stableHash sha identity % bucketCount = bucket →
      (identity ∈ others ↔ identity ∈ identities)) :
    bucketMembers sha others bucketCount bucket = bucketMembers sha identities bucketCount bucket := by
  refine List.Perm.eq_of_pairwise' (List.pairwise_insertionSort _ _)
    (List.pairwise_insertionSort _ _) ?_
  refine (List.perm_insertionSort _ _).trans (List.Perm.trans ?_ (List.perm_insertionSort _ _).symm)
  refine (List.perm_ext_iff_of_nodup (othersDistinct.filter _) (distinct.filter _)).mpr ?_
  intro identity
  simp only [List.mem_filter, decide_eq_true_eq]
  exact and_congr_left fun inBucket => same identity inBucket

/-- The slots of a bucket are determined by the identities in it. -/
theorem lookup_allocateBucketed_congr
    {others : List String}
    (distinct : identities.Nodup)
    (othersDistinct : others.Nodup)
    (same : ∀ identity, bucketOf sha totalSlots desiredCapacity identity = bucket →
      (identity ∈ others ↔ identity ∈ identities))
    (allocated : allocateBucketed sha identities totalSlots desiredCapacity kind =
      .ok assignments)
    (reallocated : allocateBucketed sha others totalSlots desiredCapacity kind = .ok after)
    (inBucket : bucketOf sha totalSlots desiredCapacity identity = bucket) :
    after.lookup identity = assignments.lookup identity := by
  have members := bucketMembers_congr distinct othersDistinct same
  rw [lookup_allocateBucketed allocated, lookup_allocateBucketed reallocated]
  simp only [same identity inBucket, bucketPlace, inBucket, members]

/-- Slots are distinct and in range, and depend neither on the order of the identities nor on
those of other buckets. -/
theorem allocateBucketed_stable
    (sha : Sha256)
    (identities : List String)
    (totalSlots desiredCapacity : ℕ)
    (kind : String)
    (assignments : List (String × ℕ))
    (distinct : identities.Nodup)
    (someSlots : 0 < totalSlots)
    (someCapacity : 0 < desiredCapacity)
    (allocated : allocateBucketed sha identities totalSlots desiredCapacity kind =
      .ok assignments) :
    (∀ identity, (∃ slot, assignments.lookup identity = some slot) ↔ identity ∈ identities) ∧
      (∀ first second slot, assignments.lookup first = some slot →
        assignments.lookup second = some slot → first = second) ∧
      (∀ identity slot, assignments.lookup identity = some slot → slot < totalSlots) ∧
      (∀ reordered : List String, reordered.Perm identities →
        ∃ after, allocateBucketed sha reordered totalSlots desiredCapacity kind = .ok after ∧
          ∀ identity, after.lookup identity = assignments.lookup identity) ∧
      ∀ bucket, ∀ changed : List String, changed.Nodup →
        (∀ identity, bucketOf sha totalSlots desiredCapacity identity = bucket →
          (identity ∈ changed ↔ identity ∈ identities)) →
        ∀ after, allocateBucketed sha changed totalSlots desiredCapacity kind = .ok after →
          ∀ identity, bucketOf sha totalSlots desiredCapacity identity = bucket →
            after.lookup identity = assignments.lookup identity := by
  refine ⟨fun identity => ?_, fun first second slot atFirst atSecond => ?_,
    fun identity slot assigned => ?_, fun reordered permuted => ?_,
    fun bucket changed changedDistinct same after reallocated identity inBucket => ?_⟩
  · rw [lookup_allocateBucketed allocated]
    by_cases member : identity ∈ identities <;> simp [member]
  · exact allocateBucketed_injective allocated (mem_of_lookup atFirst) (mem_of_lookup atSecond)
  · exact allocateBucketed_lt allocated someSlots someCapacity (mem_of_lookup assigned)
  · have room := allocateBucketed_eq_ok_iff.mp ⟨assignments, allocated⟩
    obtain ⟨after, reallocated⟩ : ∃ after,
        allocateBucketed sha reordered totalSlots desiredCapacity kind = .ok after := by
      refine allocateBucketed_eq_ok_iff.mpr fun bucket => ?_
      rw [(permuted.filter _).length_eq]
      exact room bucket
    exact ⟨after, reallocated, fun identity => lookup_allocateBucketed_congr distinct
      (permuted.nodup_iff.mpr distinct) (fun _ _ => permuted.mem_iff) allocated reallocated rfl⟩
  · exact lookup_allocateBucketed_congr distinct changedDistinct same allocated reallocated inBucket

/-- A digest that is the length of the text. -/
def lengthSha : Sha256 where
  text := fun text => BitVec.ofNat 256 (text.length * 2 ^ 192)
  fields := fun _ _ => 0

/-- Two identities of one bucket keep their slots when one of another bucket joins. -/
theorem allocateBucketed_stable_lengthSha :
    ∃ assignments after, allocateBucketed lengthSha ["bb", "dd"] 7 2 "servers" = .ok assignments ∧
      allocateBucketed lengthSha ["c", "dd", "bb"] 7 2 "servers" = .ok after ∧
      after.lookup "dd" = some 5 ∧ after.lookup "dd" = assignments.lookup "dd" := by
  refine ⟨[("bb", 4), ("dd", 5)], [("c", 2), ("dd", 5), ("bb", 4)], by decide, by decide, rfl, ?_⟩
  have stable := allocateBucketed_stable lengthSha ["bb", "dd"] 7 2 "servers"
    [("bb", 4), ("dd", 5)] (by decide) (by decide) (by decide) (by decide)
  refine stable.2.2.2.2 2 ["c", "dd", "bb"] (by decide) ?_ _ (by decide) _ (by decide)
  intro identity inBucket
  have other : identity ≠ "c" := by
    rintro rfl
    exact absurd inBucket (by decide)
  simp [other, or_comm]

/-- The ranges and the number of slots of a project with the default ranges. -/
def defaultSlots (slot : ℕ) : Except NetworkPlanError ℕ := do
  let containerSecond := 64 + slot
  let management ← Ipv4Cidr.fromStr s!"198.18.{slot}.0/24"
  let container ← Ipv4Cidr.fromStr s!"100.{containerSecond}.0.0/16"
  if management.overlaps container then
    throw (.overlappingAddressSpaces management.display container.display)
  serverSlots management container

theorem defaultSlots_eq : ∀ slot < 64, defaultSlots slot = .ok 32 := by
  decide +kernel

/-- A project whose ranges are the default ones. -/
def Config.HasDefaultRanges (sha : Sha256) (config : Config) : Prop :=
  (config.network.bind (·.managementCidr)).getD (projectCidrs sha config.project).1 =
      (projectCidrs sha config.project).1 ∧
    (config.network.bind (·.containerCidr)).getD (projectCidrs sha config.project).2 =
      (projectCidrs sha config.project).2

/-- The default ranges have 32 slots for servers. -/
theorem configuredCidrs_of_default (ranges : config.HasDefaultRanges sha) :
    ∃ management container, configuredCidrs sha config = .ok (management, container) ∧
      serverSlots management container = .ok 32 := by
  have counted := defaultSlots_eq (saltedHash sha "cidr" config.project % 64)
    (Nat.mod_lt _ (by decide))
  obtain ⟨management, readManagement, counted⟩ := Fallible.bind_eq_ok_iff.mp counted
  obtain ⟨container, readContainer, counted⟩ := Fallible.bind_eq_ok_iff.mp counted
  dsimp only at counted
  split at counted
  · cases counted
  · rename_i apart
    refine ⟨management, container, ?_, counted⟩
    have managementText : Ipv4Cidr.fromStr ((config.network.bind (·.managementCidr)).getD
        (projectCidrs sha config.project).1) = .ok management := by
      rw [ranges.1]
      exact readManagement
    have containerText : Ipv4Cidr.fromStr ((config.network.bind (·.containerCidr)).getD
        (projectCidrs sha config.project).2) = .ok container := by
      rw [ranges.2]
      exact readContainer
    unfold configuredCidrs
    dsimp only
    rw [managementText, containerText]
    simp [bind, Except.bind, pure, Except.pure, apart]

/-- The number of servers whose names fall into a bucket. -/
def bucketSize (sha : Sha256) (config : Config) (bucketCount bucket : ℕ) : ℕ :=
  (config.servers.keys.filter fun name =>
    stableHash sha (serverIdentity config name) % bucketCount = bucket).length

/-- A valid configuration with the default ranges is planned if each of the four buckets has
at most eight of its servers. -/
theorem plan_isOk_iff
    (valid : validateConfig config = [])
    (ranges : config.HasDefaultRanges sha)
    (single : ∀ (service : String) (servers : List String),
      config.services[service]? = some servers → servers.Nodup) :
    (∃ plan, NetworkPlanner.plan sha config = .ok plan) ↔
      ∀ bucket, bucketSize sha config 4 bucket ≤ 8 := by
  obtain ⟨management, container, cidrs, slots⟩ := configuredCidrs_of_default ranges
  have endpoints := planEndpoints_eq_ok valid single
  have sizes : ∀ bucket, ((config.servers.keys.map (serverIdentity config)).filter fun identity =>
      stableHash sha identity % (32 / min serverBucketCapacity 32) = bucket).length =
        bucketSize sha config 4 bucket := by
    intro bucket
    rw [List.filter_map, List.length_map]
    rfl
  have allocates := @allocateBucketed_eq_ok_iff sha (config.servers.keys.map (serverIdentity config))
    32 serverBucketCapacity "servers"
  simp only [sizes] at allocates
  refine Iff.trans ?_ allocates
  constructor
  · rintro ⟨plan, planned⟩
    obtain ⟨found, assignments, foundCidrs, foundSlots, allocated, _⟩ :=
      NetworkPlanner.plan_eq_ok planned
    obtain ⟨rfl, rfl⟩ := Prod.mk.inj (Except.ok.inj (cidrs.symm.trans foundCidrs))
    obtain rfl : 32 = found := Except.ok.inj (slots.symm.trans foundSlots)
    exact ⟨assignments, allocated⟩
  · rintro ⟨assignments, allocated⟩
    have planned : NetworkPlanner.plan sha config = .ok {
        enabled := (config.network.map (·.enabled)).getD true
        project := config.project
        managementCidr := management
        containerCidr := container
        servers := populateServerNetworks
          (plannedServers sha config management container assignments) } := by
      unfold NetworkPlanner.plan
      rw [cidrs]
      simp only [bind, Except.bind, slots, allocated, endpoints]
      rfl
    exact ⟨_, planned⟩

/-- A valid configuration with the default ranges, in which no service lists a server twice,
is planned exactly if each of the four buckets has at most eight of its servers. -/
theorem NetworkPlanner.plan_complete_iff
    (sha : Sha256)
    (config : Config)
    (valid : validateConfig config = [])
    (ranges : config.HasDefaultRanges sha)
    (single : ∀ (service : String) (servers : List String),
      config.services[service]? = some servers → servers.Nodup) :
    (∃ plan, NetworkPlanner.plan sha config = .ok plan) ↔
      ∀ bucket < 4, bucketSize sha config 4 bucket ≤ 8 := by
  rw [plan_isOk_iff valid ranges single]
  constructor
  · exact fun small bucket _ => small bucket
  · intro small bucket
    by_cases inside : bucket < 4
    · exact small bucket inside
    · have empty : bucketSize sha config 4 bucket = 0 := by
        refine List.length_eq_zero_iff.mpr (List.filter_eq_nil_iff.mpr fun name _ found => ?_)
        have below := Nat.mod_lt (stableHash sha (serverIdentity config name)) (Nat.succ_pos 3)
        rw [of_decide_eq_true found] at below
        exact inside below
      rw [empty]
      exact Nat.zero_le _

/-- A project with the servers `node-1`, `node-2` and so on. -/
def sampleFleet (count : ℕ) : Config where
  project := "p"
  network := none
  servers := .ofList ((List.range count).map fun index =>
    let number := toString (index + 1)
    (s!"node-{number}", s!"192.0.2.{number}"))
  services := ∅

theorem sampleFleet_single (count : ℕ) (service : String) (servers : List String)
    (listed : (sampleFleet count).services[service]? = some servers) : servers.Nodup := by
  simp [sampleFleet] at listed

/-- Eight servers always fit. -/
theorem NetworkPlanner.plan_complete_iff_eight :
    ∃ plan, NetworkPlanner.plan .standard (sampleFleet 8) = .ok plan := by
  refine (plan_complete_iff .standard (sampleFleet 8) (by decide +kernel) ⟨rfl, rfl⟩
    (sampleFleet_single 8)).mpr fun bucket _ => ?_
  have all : (sampleFleet 8).servers.keys.length = 8 := by decide +kernel
  rw [← all]
  exact List.length_filter_le _ _

/-- Of twenty servers nine are in one bucket. -/
theorem NetworkPlanner.twenty_servers_are_refused :
    validateConfig (sampleFleet 20) = [] ∧ (sampleFleet 20).HasDefaultRanges .standard ∧
      ¬∃ plan, NetworkPlanner.plan .standard (sampleFleet 20) = .ok plan := by
  have valid : validateConfig (sampleFleet 20) = [] := by decide +kernel
  refine ⟨valid, ⟨rfl, rfl⟩, fun planned => ?_⟩
  have small := (plan_isOk_iff valid ⟨rfl, rfl⟩ (sampleFleet_single 20)).mp planned 3
  have overfull : bucketSize .standard (sampleFleet 20) 4 3 = 9 := by decide +kernel
  rw [overfull] at small
  exact absurd small (by decide)

end Planning

end Network
end Jiji
