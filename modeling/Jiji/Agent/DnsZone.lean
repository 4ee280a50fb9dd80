import Jiji.Agent.Dns
import Jiji.Agent.StoreInvariant
import Jiji.Network.MeshEncoding

/-!
# The names of the zone

The zone lists the addresses of the active and healthy records of reachable nodes.  Every
record is listed under the name of its service and under the name of its service on its node.
The parts of a name are joined by hyphens, which they may contain themselves.
-/

namespace Jiji
namespace Agent

open Std Replication Network Wire
open Digest (bytesOf)

section Zone

def aggregateName (projectId service : String) : String :=
  projectId ++ "-" ++ service ++ ".jiji"

def serverName (projectId service node : String) : String :=
  projectId ++ "-" ++ service ++ "-" ++ node ++ ".jiji"

/-- List one more address under a name. -/
def listAddress (zone : Zone) (name : String) (address : Ipv4Addr) : Zone :=
  zone.insert name (zone.getD name [] ++ [address])

def zoneFromRecords
    (projectId : String)
    (records : List CatalogRecord)
    (reachable : String → Bool) : Zone :=
  records.foldl (fun zone record =>
    if reachable record.ownerNodeId then
      listAddress
        (listAddress zone (aggregateName projectId record.service) record.address)
        (serverName projectId record.service record.ownerNodeId) record.address
    else zone) ∅

structure DnsConfig where
  projectId : String
  recoveryEpoch : ℕ
  localNodeId : String
  reachabilityTimeout : ℕ

/-- A node counts as reachable while its last exchange is not too long ago. -/
def DnsConfig.reachable
    (config : DnsConfig)
    (liveness : ExtTreeMap String ℕ)
    (now : ℕ)
    (node : String) : Bool :=
  node = config.localNodeId ||
    (liveness[node]?).any fun seenAt => now - seenAt ≤ config.reachabilityTimeout

end Zone

section Names

variable {projectId service node : String} {records : List CatalogRecord}
variable {reachable : String → Bool} {record : CatalogRecord}

/-- A record that is listed under a name. -/
def CatalogRecord.Bears (record : CatalogRecord) (projectId name : String) : Prop :=
  aggregateName projectId record.service = name ∨
    serverName projectId record.service record.ownerNodeId = name

instance (projectId name : String) : Decidable (record.Bears projectId name) :=
  inferInstanceAs (Decidable (_ ∨ _))

theorem aggregateName_inj {other : String} :
    aggregateName projectId service = aggregateName projectId other ↔ service = other := by
  simp [aggregateName, ← String.toList_inj]

/-- A service on a node has the name of a service. -/
theorem serverName_eq (projectId service node : String) :
    serverName projectId service node = aggregateName projectId (service ++ "-" ++ node) := by
  simp only [serverName, aggregateName, String.append_assoc]

theorem joined_ne (service node : String) : service ++ "-" ++ node ≠ service := by
  intro same
  have lengths := congrArg (List.length ∘ String.toList) same
  simp at lengths

theorem aggregateName_ne_serverName (projectId service node : String) :
    aggregateName projectId service ≠ serverName projectId service node := by
  rw [serverName_eq, ne_eq, aggregateName_inj]
  exact (joined_ne service node).symm

theorem bears_aggregateName :
    record.Bears projectId (aggregateName projectId service) ↔
      record.service = service ∨ record.service ++ "-" ++ record.ownerNodeId = service := by
  rw [CatalogRecord.Bears, serverName_eq, aggregateName_inj, aggregateName_inj]

theorem getD_listAddress (zone : Zone) (name other : String) (address : Ipv4Addr) :
    (listAddress zone name address).getD other [] =
      zone.getD other [] ++ if name = other then [address] else [] := by
  rw [listAddress, ExtTreeMap.getD_insert]
  by_cases same : name = other
  · simp [same]
  · simp [same]

/-- A name lists the addresses of the reachable records that bear it, once for each. -/
theorem getD_zoneFromRecords (name : String) :
    (zoneFromRecords projectId records reachable).getD name [] =
      ((records.filter fun record => reachable record.ownerNodeId = true ∧
        record.Bears projectId name).map CatalogRecord.address) := by
  induction records using List.reverseRecOn with
  | nil => simp [zoneFromRecords]
  | append_singleton records record inductionHypothesis =>
      rw [zoneFromRecords, List.foldl_append, List.foldl_cons, List.foldl_nil,
        ← zoneFromRecords, List.filter_append, List.map_append, ← inductionHypothesis]
      by_cases reached : reachable record.ownerNodeId = true
      · rw [if_pos reached, getD_listAddress, getD_listAddress, List.append_assoc]
        have unlike := aggregateName_ne_serverName projectId record.service record.ownerNodeId
        by_cases aggregate : aggregateName projectId record.service = name
        · have other : serverName projectId record.service record.ownerNodeId ≠ name :=
            fun same => unlike (aggregate.trans same.symm)
          simp [CatalogRecord.Bears, aggregate, other, reached]
        · by_cases server : serverName projectId record.service record.ownerNodeId = name
          · simp [CatalogRecord.Bears, aggregate, server, reached]
          · simp [CatalogRecord.Bears, aggregate, server]
      · rw [if_neg reached]
        simp [reached]

/-- Of two selections of which one contains the other, both list the same addresses exactly if
the larger one selects nothing more. -/
theorem perm_map_filter_iff
    (contained : ∀ record, smaller record = true → larger record = true) :
    ((records.filter larger).map CatalogRecord.address).Perm
        ((records.filter smaller).map CatalogRecord.address) ↔
      ∀ record ∈ records, larger record = true → smaller record = true := by
  have inner : records.filter smaller = (records.filter larger).filter smaller := by
    rw [List.filter_filter]
    refine List.filter_congr fun record _ => ?_
    cases chosen : smaller record with
    | false => rfl
    | true => rw [contained record chosen]; rfl
  rw [inner]
  constructor
  · intro same
    have lengths := same.length_eq
    rw [List.length_map, List.length_map, eq_comm, List.length_filter_eq_length_iff] at lengths
    exact fun record member chosen => lengths record (List.mem_filter.mpr ⟨member, chosen⟩)
  · intro covered
    rw [List.filter_eq_self.mpr fun record member => covered record (List.mem_filter.mp member).1
      (List.mem_filter.mp member).2]

/-- The names of a service and of a service on a node list what they should exactly if no
reachable record of another service, or of the service on another node, bears them. -/
theorem zone_names_apart_iff
    (projectId service node : String)
    (records : List CatalogRecord)
    (reachable : String → Bool) :
    (((zoneFromRecords projectId records reachable).getD (aggregateName projectId service)
        []).Perm ((records.filter fun record => reachable record.ownerNodeId ∧
          record.service = service).map CatalogRecord.address) ∧
      ((zoneFromRecords projectId records reachable).getD (serverName projectId service node)
        []).Perm ((records.filter fun record => reachable record.ownerNodeId ∧
          record.service = service ∧ record.ownerNodeId = node).map CatalogRecord.address)) ↔
      ∀ record ∈ records, reachable record.ownerNodeId = true →
        record.service ++ "-" ++ record.ownerNodeId ≠ service ∧
        record.service ≠ service ++ "-" ++ node ∧
        (record.service ++ "-" ++ record.ownerNodeId = service ++ "-" ++ node →
          record.service = service ∧ record.ownerNodeId = node) := by
  rw [serverName_eq, getD_zoneFromRecords, getD_zoneFromRecords, perm_map_filter_iff,
    perm_map_filter_iff]
  · simp only [bears_aggregateName, decide_eq_true_eq]
    constructor
    · rintro ⟨alone, aloneOnNode⟩ record member reached
      refine ⟨fun same => ?_, fun same => ?_, fun same => ?_⟩
      · have service := (alone record member ⟨reached, Or.inr same⟩).2
        rw [service] at same
        exact joined_ne _ _ same
      · have service := (aloneOnNode record member ⟨reached, Or.inl same⟩).2.1
        rw [service] at same
        exact joined_ne _ _ same.symm
      · exact (aloneOnNode record member ⟨reached, Or.inr same⟩).2
    · intro apart
      refine ⟨?_, ?_⟩
      · rintro record member ⟨reached, same | same⟩
        · exact ⟨reached, same⟩
        · exact absurd same (apart record member reached).1
      · rintro record member ⟨reached, same | same⟩
        · exact absurd same (apart record member reached).2.1
        · exact ⟨reached, (apart record member reached).2.2 same⟩
  · intro record
    simp only [bears_aggregateName, decide_eq_true_eq]
    rintro ⟨reached, rfl, rfl⟩
    exact ⟨reached, Or.inr rfl⟩
  · intro record
    simp only [bears_aggregateName, decide_eq_true_eq]
    rintro ⟨reached, same⟩
    exact ⟨reached, Or.inl same⟩

/-- A record of a service on a node. -/
def sampleServing (service node : String) (address : Ipv4Addr) : CatalogRecord :=
  ⟨"p", 1, 1, 2, service, service ++ node, node, 1, 1, "d", address, [], "", .active, .healthy⟩

def sampleMixing : List CatalogRecord :=
  [sampleServing "web" "db" 1#32, sampleServing "web-db" "a" 2#32]

/-- The name of a service lists the replica of another one. -/
theorem zone_names_mix :
    (zoneFromRecords "p" sampleMixing fun _ => true).getD (aggregateName "p" "web-db") [] =
        [1#32, 2#32] ∧
      (sampleMixing.filter fun record => record.service = "web-db").map CatalogRecord.address =
        [2#32] := by
  decide +kernel

end Names

section Resolution

variable {lossy : LossyText} {zone : Zone} {labels : List String} {name : String}

end Resolution

end Agent
end Jiji
