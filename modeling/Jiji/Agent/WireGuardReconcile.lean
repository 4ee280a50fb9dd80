import Jiji.Agent.MembershipSafety
import Jiji.Agent.StoreInvariant
import Jiji.Network.Interface

/-!
# Reconciling WireGuard peers

The agent keeps a cache of what it last told the kernel about each peer.  For every
membership record it compares the two and plans to remove a peer, to set one, or only to
update its endpoint.  The plan is executed in the order of the node identifiers, and each
action acts on the routes and allowed addresses of the whole interface, whatever peer
they belong to by then.

How the tools read the text of a destination is a parameter.
-/

namespace Jiji
namespace Agent

open Std Network Replication

/-- What decides which traffic goes to a peer. -/
structure Peer where
  publicKey : String
  managementAddress : String
  containerSubnet : String
  deriving DecidableEq, Repr

namespace Peer

def allowedIps (peer : Peer) : List String :=
  let managementAddress := peer.managementAddress
  [s!"{managementAddress}/32", peer.containerSubnet]

/-- The destinations of a peer, as the kernel tells them apart. -/
def destinations {δ : Type*} (denotes : String → δ) (peer : Peer) : List δ :=
  peer.allowedIps.map denotes

end Peer

/-- What the kernel was last told about a node. -/
structure PeerCacheEntry where
  nodeId : String
  wireguardPublicKey : String
  managementAddress : String
  containerSubnet : String
  endpoint : SocketAddr
  ownerEpoch : ℕ
  revision : ℕ
  deriving DecidableEq, Repr

def PeerCacheEntry.peer (entry : PeerCacheEntry) : Peer :=
  ⟨entry.wireguardPublicKey, entry.managementAddress, entry.containerSubnet⟩

def MembershipRecord.peer (record : MembershipRecord) : Peer :=
  ⟨record.wireguardPublicKey, record.managementAddress.display, record.containerSubnet⟩

abbrev PeerCache := ExtTreeMap String PeerCacheEntry

inductive PeerAction
  | set (nodeId publicKey : String) (endpoint : SocketAddr) (allowedIps : List String)
  | updateEndpoint (nodeId publicKey : String) (endpoint : SocketAddr)
  | remove (nodeId publicKey : String) (allowedIps : List String)
  deriving DecidableEq, Repr

structure ReconcilePlan where
  actions : List PeerAction
  nextCache : PeerCache

section Planning

/-- Remove the peer that a node had. -/
def removal (record : MembershipRecord) (previous : PeerCacheEntry) : PeerAction :=
  .remove record.nodeId previous.wireguardPublicKey previous.peer.allowedIps

/-- The endpoint of a node: the observed one, the cached one of the same key, or the first
that the record names. -/
def peerEndpoint
    (observedEndpoints : ExtTreeMap String SocketAddr)
    (previous : Option PeerCacheEntry)
    (record : MembershipRecord) : Option SocketAddr :=
  (observedEndpoints[record.wireguardPublicKey]?).or
    (((previous.filter fun entry =>
      entry.wireguardPublicKey = record.wireguardPublicKey).map
        PeerCacheEntry.endpoint).or record.endpoints.head?)

def nextEntry (record : MembershipRecord) (endpoint : SocketAddr) : PeerCacheEntry where
  nodeId := record.nodeId
  wireguardPublicKey := record.wireguardPublicKey
  managementAddress := record.managementAddress.display
  containerSubnet := record.containerSubnet
  endpoint := endpoint
  ownerEpoch := record.ownerEpoch
  revision := record.revision

/-- What is to be done about one record, and what the cache says about its node afterwards.
There is no plan for an active record without any endpoint. -/
def planRecord
    (observedEndpoints : ExtTreeMap String SocketAddr)
    (previous : Option PeerCacheEntry)
    (record : MembershipRecord) : Option (List PeerAction × Option PeerCacheEntry) :=
  match record.state with
  | .tombstoned => some ((previous.map (removal record)).toList, none)
  | .active =>
      let replaced := previous.filter fun entry =>
        entry.wireguardPublicKey ≠ record.wireguardPublicKey
      (peerEndpoint observedEndpoints previous record).map fun endpoint =>
        let next := nextEntry record endpoint
        let allowedIpsUnchanged := previous.any fun entry => entry.peer = next.peer
        let update : List PeerAction :=
          if previous = some next then []
          else if allowedIpsUnchanged then
            [.updateEndpoint record.nodeId record.wireguardPublicKey endpoint]
          else
            [.set record.nodeId record.wireguardPublicKey endpoint record.peer.allowedIps]
        ((replaced.map (removal record)).toList ++ update, some next)

def setEntry (cache : PeerCache) (nodeId : String) : Option PeerCacheEntry → PeerCache
  | none => cache.erase nodeId
  | some entry => cache.insert nodeId entry

/-- Plan for one record after another, each node once and never for the local one. -/
def planRecords
    (localNodeId : String)
    (observedEndpoints : ExtTreeMap String SocketAddr) :
    ReconcilePlan → List String → List MembershipRecord → Option ReconcilePlan
  | plan, _, [] => some plan
  | plan, handled, record :: records =>
      if record.nodeId = localNodeId ∨ record.nodeId ∈ handled then
        planRecords localNodeId observedEndpoints plan handled records
      else
        (planRecord observedEndpoints plan.nextCache[record.nodeId]? record).bind
          fun (actions, entry) =>
            planRecords localNodeId observedEndpoints
              ⟨plan.actions ++ actions, setEntry plan.nextCache record.nodeId entry⟩
              (record.nodeId :: handled) records

def planReconciliation
    (localNodeId : String)
    (records : List MembershipRecord)
    (cache : PeerCache)
    (observedEndpoints : ExtTreeMap String SocketAddr) : Option ReconcilePlan :=
  planRecords localNodeId observedEndpoints ⟨[], cache⟩ [] records

end Planning

section Execution

variable {δ : Type*} [DecidableEq δ] (denotes : String → δ)

/-- Execute one action with `wg` and `ip`. -/
def applyAction (interface : Interface String δ δ) : PeerAction → Interface String δ δ
  | .set _ publicKey _ allowedIps => interface.servePeer publicKey (allowedIps.map denotes)
  | .updateEndpoint _ publicKey _ => interface.touchPeer publicKey
  | .remove _ publicKey allowedIps => interface.dropPeer publicKey (allowedIps.map denotes)

def applyActions (interface : Interface String δ δ) (actions : List PeerAction) :
    Interface String δ δ :=
  actions.foldl (applyAction denotes) interface

/-- The kernel has a peer with its allowed addresses and its routes. -/
def Programmed (interface : Interface String δ δ) (peer : Peer) : Prop :=
  interface.Serves peer.publicKey (peer.destinations denotes)

/-- The kernel has every peer of a cache. -/
def Reflects (interface : Interface String δ δ) (cache : PeerCache) : Prop :=
  ∀ (nodeId : String) (entry : PeerCacheEntry), cache[nodeId]? = some entry →
    Programmed denotes interface entry.peer

end Execution

section Conditions

/-- The record makes the agent set its peer anew. -/
def Resets (previous : Option PeerCacheEntry) (record : MembershipRecord) : Prop :=
  record.state = .active ∧ previous.map PeerCacheEntry.peer ≠ some record.peer

/-- The record makes the agent remove the peer that its node had. -/
def Drops (record : MembershipRecord) (entry : PeerCacheEntry) : Prop :=
  record.state = .tombstoned ∨ entry.wireguardPublicKey ≠ record.wireguardPublicKey

end Conditions

section Records

variable {observedEndpoints : ExtTreeMap String SocketAddr}
variable {previous : Option PeerCacheEntry} {record : MembershipRecord} {peer : Peer}
variable {actions : List PeerAction} {entry : Option PeerCacheEntry}

/-- The peer that is removed on account of a record. -/
def dropped (previous : Option PeerCacheEntry) (record : MembershipRecord) :
    Option PeerCacheEntry :=
  previous.filter fun entry => decide (record.state = .tombstoned) ||
    decide (entry.wireguardPublicKey ≠ record.wireguardPublicKey)

theorem dropped_eq_some_iff {old : PeerCacheEntry} :
    dropped previous record = some old ↔ previous = some old ∧ Drops record old := by
  simp [dropped, Drops, Option.filter_eq_some_iff]

/-- What is done about a record: the old peer may go, and then the new one is set if it
changed, and else left alone or touched. -/
inductive Update (previous : Option PeerCacheEntry) (record : MembershipRecord) :
    List PeerAction → Option PeerCacheEntry → Prop
  | bury : record.state = .tombstoned → Update previous record [] none
  | keep (entry : PeerCacheEntry) :
      record.state = .active → ¬Resets previous record → entry.peer = record.peer →
      Update previous record [] (some entry)
  | touch (entry : PeerCacheEntry) :
      record.state = .active → ¬Resets previous record → entry.peer = record.peer →
      Update previous record
        [.updateEndpoint record.nodeId record.wireguardPublicKey entry.endpoint] (some entry)
  | reset (entry : PeerCacheEntry) :
      Resets previous record → entry.peer = record.peer →
      Update previous record
        [.set record.nodeId record.wireguardPublicKey entry.endpoint record.peer.allowedIps]
        (some entry)

theorem update_of_planRecord
    (planned : planRecord observedEndpoints previous record = some (actions, entry)) :
    ∃ update, actions = ((dropped previous record).map (removal record)).toList ++ update ∧
      Update previous record update entry := by
  unfold planRecord at planned
  split at planned
  · rename_i tombstoned
    obtain ⟨rfl, rfl⟩ := Prod.mk.inj (Option.some.inj planned)
    refine ⟨[], ?_, .bury tombstoned⟩
    cases previous <;> simp [dropped, tombstoned, Option.filter_some]
  · rename_i active
    obtain ⟨endpoint, _, same⟩ := Option.map_eq_some_iff.mp planned
    obtain ⟨rfl, rfl⟩ := Prod.mk.inj same
    have drops : dropped previous record = previous.filter fun entry =>
        entry.wireguardPublicKey ≠ record.wireguardPublicKey := by
      simp [dropped, active]
    refine ⟨_, by rw [drops], ?_⟩
    split_ifs with unchanged samePeer
    · exact .keep _ active (fun resets => resets.2 (by rw [unchanged]; rfl)) rfl
    · refine .touch (nextEntry record endpoint) active (fun resets => resets.2 ?_) rfl
      cases previous with
      | none => cases samePeer
      | some old => exact congrArg some (of_decide_eq_true samePeer)
    · refine .reset (nextEntry record endpoint) ⟨active, fun same => samePeer ?_⟩ rfl
      cases previous with
      | none => cases same
      | some old => exact decide_eq_true (Option.some.inj same)

end Records

section Plans

variable {localNodeId : String} {observedEndpoints : ExtTreeMap String SocketAddr}
variable {cache : PeerCache} {records earlier later : List MembershipRecord}
variable {actions : List PeerAction} {peer : Peer} {node : String}

/-- The actions of a plan, each record's by what the cache said before. -/
inductive Planned
    (localNodeId : String)
    (observedEndpoints : ExtTreeMap String SocketAddr)
    (cache : PeerCache) : List MembershipRecord → List PeerAction → Prop
  | nil : Planned localNodeId observedEndpoints cache [] []
  | skip {record : MembershipRecord} {records : List MembershipRecord}
      {actions : List PeerAction} :
      record.nodeId = localNodeId →
      Planned localNodeId observedEndpoints cache records actions →
      Planned localNodeId observedEndpoints cache (record :: records) actions
  | plan {record : MembershipRecord} {records : List MembershipRecord}
      {own actions : List PeerAction} {entry : Option PeerCacheEntry} :
      record.nodeId ≠ localNodeId →
      planRecord observedEndpoints cache[record.nodeId]? record = some (own, entry) →
      Planned localNodeId observedEndpoints cache records actions →
      Planned localNodeId observedEndpoints cache (record :: records) (own ++ actions)

/-- The peer that a node is to have after the reconciliation. -/
def wantedPeer
    (localNodeId : String)
    (records : List MembershipRecord)
    (cache : PeerCache)
    (node : String) : Option Peer :=
  match if node = localNodeId then none else records.find? fun record => record.nodeId = node with
  | some record => if record.state = .active then some record.peer else none
  | none => (cache[node]?).map PeerCacheEntry.peer

theorem planRecord_isSome
    (reachable : record.endpoints ≠ []) :
    ∃ own entry, planRecord observedEndpoints previous record = some (own, entry) := by
  unfold planRecord
  split
  · exact ⟨_, _, rfl⟩
  · obtain ⟨first, rest, named⟩ := List.exists_cons_of_ne_nil reachable
    have some : (peerEndpoint observedEndpoints previous record).isSome = true := by
      simp [peerEndpoint, named]
    obtain ⟨endpoint, found⟩ := Option.isSome_iff_exists.mp some
    rw [found]
    exact ⟨_, _, rfl⟩

theorem getElem?_setEntry
    {nodeId : String} :
    (setEntry cache nodeId entry)[node]? = if node = nodeId then entry else cache[node]? := by
  by_cases same : node = nodeId
  · subst same
    cases entry <;> simp [setEntry]
  · have apart : compare nodeId node ≠ .eq := fun equal =>
      same (LawfulEqOrd.eq_of_compare equal).symm
    cases entry <;>
      simp [setEntry, ExtTreeMap.getElem?_erase, ExtTreeMap.getElem?_insert, same, apart]

/-- The cache afterwards has the wanted peer of the record's node. -/
theorem peer_of_planRecord
    (planned : planRecord observedEndpoints previous record = some (actions, entry)) :
    entry.map PeerCacheEntry.peer =
      if record.state = .active then some record.peer else none := by
  obtain ⟨_, _, kind⟩ := update_of_planRecord planned
  cases kind with
  | bury tombstoned => simp [tombstoned]
  | keep _ active _ same => simp [active, same]
  | touch _ active _ same => simp [active, same]
  | reset _ resets same => simp [resets.1, same]

theorem wantedPeer_cons_of_ne
    (apart : node ≠ record.nodeId ∨ node = localNodeId) :
    wantedPeer localNodeId (record :: records) cache node =
      wantedPeer localNodeId records cache node := by
  unfold wantedPeer
  by_cases isLocal : node = localNodeId
  · simp [isLocal]
  · have other := (apart.resolve_right isLocal).symm
    simp [isLocal, other]

theorem wantedPeer_congr
    (same : other[node]? = cache[node]?) :
    wantedPeer localNodeId records other node = wantedPeer localNodeId records cache node := by
  unfold wantedPeer
  rw [same]

/-- Records of different nodes are all planned for by what the cache said before. -/
theorem planned_of_planRecords
    {handled : List String}
    (distinct : (records.map MembershipRecord.nodeId).Nodup)
    (reachable : ∀ record ∈ records, record.endpoints ≠ [])
    (unhandled : ∀ record ∈ records, record.nodeId ∉ handled)
    (pristine : ∀ record ∈ records, plan.nextCache[record.nodeId]? = cache[record.nodeId]?) :
    ∃ final actions, planRecords localNodeId observedEndpoints plan handled records = some final ∧
      Planned localNodeId observedEndpoints cache records actions ∧
      final.actions = plan.actions ++ actions ∧
      ∀ node, (final.nextCache[node]?).map PeerCacheEntry.peer =
        wantedPeer localNodeId records plan.nextCache node := by
  induction records generalizing plan handled with
  | nil => exact ⟨plan, [], rfl, .nil, by simp, fun node => by simp [wantedPeer]⟩
  | cons record records inductionHypothesis =>
      obtain ⟨fresh, distinct⟩ := List.nodup_cons.mp distinct
      rw [List.forall_mem_cons] at reachable unhandled pristine
      have apart : ∀ other ∈ records, other.nodeId ≠ record.nodeId := fun other member same =>
        fresh (same ▸ List.mem_map_of_mem member)
      by_cases isLocal : record.nodeId = localNodeId
      · obtain ⟨final, actions, planned, steps, appended, wanted⟩ :=
          inductionHypothesis distinct reachable.2 unhandled.2 pristine.2
        refine ⟨final, actions, ?_, .skip isLocal steps, appended, fun node => ?_⟩
        · rw [planRecords, if_pos (Or.inl isLocal), planned]
        · rw [wanted, wantedPeer_cons_of_ne]
          by_cases same : node = localNodeId
          · exact Or.inr same
          · exact Or.inl (isLocal ▸ same)
      · obtain ⟨own, entry, ownPlanned⟩ : ∃ own entry, planRecord observedEndpoints
            cache[record.nodeId]? record = some (own, entry) := planRecord_isSome reachable.1
        have nextPristine : ∀ other ∈ records,
            (setEntry plan.nextCache record.nodeId entry)[other.nodeId]? =
              cache[other.nodeId]? := by
          intro other member
          rw [getElem?_setEntry, if_neg (apart other member), pristine.2 other member]
        have nextUnhandled : ∀ other ∈ records, other.nodeId ∉ record.nodeId :: handled :=
          fun other member => List.not_mem_cons_of_ne_of_not_mem (apart other member)
            (unhandled.2 other member)
        obtain ⟨final, actions, planned, steps, appended, wanted⟩ :=
          @inductionHypothesis ⟨plan.actions ++ own, setEntry plan.nextCache record.nodeId entry⟩
            _ distinct reachable.2 nextUnhandled nextPristine
        refine ⟨final, own ++ actions, ?_, .plan isLocal ownPlanned steps, ?_, fun node => ?_⟩
        · rw [planRecords, if_neg (not_or.mpr ⟨isLocal, unhandled.1⟩), pristine.1, ownPlanned]
          exact planned
        · rw [appended, List.append_assoc]
        · rw [wanted]
          by_cases same : node = record.nodeId
          · subst same
            have unknown : records.find? (fun other => other.nodeId = record.nodeId) = none := by
              rw [List.find?_eq_none]
              intro other member
              simpa using apart other member
            have owned := peer_of_planRecord ownPlanned
            simp [wantedPeer, isLocal, unknown, getElem?_setEntry, owned]
          · rw [wantedPeer_cons_of_ne (Or.inl same)]
            exact wantedPeer_congr (by rw [getElem?_setEntry, if_neg same])

variable {δ : Type*} [DecidableEq δ] {denotes : String → δ} {interface : Interface String δ δ}

section Ordered

variable (sorted : records.Pairwise fun left right => left.nodeId < right.nodeId)
include sorted

theorem nodup_of_sorted : (records.map MembershipRecord.nodeId).Nodup :=
  List.pairwise_map.mpr (sorted.imp fun ordered => ordered.ne)

end Ordered

end Plans

section Reconciliation

variable {hash : ContentHash} {scope : MembershipScope} {store : AgentStore}

theorem AgentStore.Sound.sorted_latestMembership (sound : store.Sound hash scope) :
    store.latestMembership.Pairwise fun left right => left.nodeId < right.nodeId :=
  (valuesOf_pairwise sound.membership.keyed).imp compare_lt_iff_lt.mp

/-- Every member has an endpoint. -/
theorem AgentStore.Sound.endpoints_ne_nil
    (sound : store.Sound hash scope)
    (member : record ∈ store.latestMembership) :
    record.endpoints ≠ [] := by
  obtain ⟨node, stands⟩ := mem_valuesOf.mp member
  obtain ⟨slots, admitted⟩ := sound.membership.run.unbarred (sound.membership.logged stands)
  have admissible : record.Admissible scope :=
    not_not.mp fun refused => admitted (Or.inl refused)
  have valid := admissible.1
  unfold MembershipRecord.validate at valid
  split_ifs at valid with protocol schema invalid
  simp only [not_or] at invalid
  exact invalid.2.2.2.2.1

variable {δ : Type*} [DecidableEq δ]

/-- The membership that a store reaches. -/
def membersAfter
    (hash : ContentHash)
    (scope : MembershipScope)
    (calls : List AgentStore.StoreCall) : List MembershipRecord :=
  (AgentStore.run hash scope .empty calls).latestMembership

/-- A hash that tells the records of the samples apart. -/
def numberedHash : ContentHash where
  membership record := record.nodeId ++ toString record.revision
  catalog _ := ""
  desired _ := ""

def sampleEntry (nodeId serverName : String) (number : ℕ) : PeerCacheEntry :=
  nextEntry (sampleMember nodeId serverName number 1 1 .active)
    ⟨.v4 (Ipv4Addr.ofOctets 192 0 2 number), 51820⟩

/-- The two nodes with the numbers that they had at first. -/
def sampleCache : PeerCache :=
  setEntry (setEntry ∅ "a" (some (sampleEntry "a" "alpha" 1))) "b"
    (some (sampleEntry "b" "beta" 2))

def sampleInterface : Interface String String String :=
  let first := (sampleEntry "a" "alpha" 1).peer
  let second := (sampleEntry "b" "beta" 2).peer
  (Interface.blank.servePeer first.publicKey (first.destinations id)).servePeer
    second.publicKey (second.destinations id)

theorem sampleInterface_reflects : Reflects id sampleInterface sampleCache := by
  intro node entry cached
  rw [sampleCache, getElem?_setEntry, getElem?_setEntry] at cached
  split_ifs at cached with isSecond isFirst
  · obtain rfl := Option.some.inj cached
    exact Interface.servePeer_serves _ _ _
  · obtain rfl := Option.some.inj cached
    exact (Interface.servePeer_serves _ _ _).servePeer_of_ne (by decide) (by decide)
  · simp at cached

end Reconciliation

end Agent
end Jiji
