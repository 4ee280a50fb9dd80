import Jiji.Agent.WireGuardReconcile
import Jiji.Control.Retry

/-!
# What reconciliation leaves behind

Peers that are no longer wanted are removed, with the routes that they had.  A peer that
keeps its key is only set anew: its allowed addresses are replaced, but the routes to its
former address and subnet stay, unless they are those of another node by then or were also
those of a peer that is removed.
-/

namespace Jiji
namespace Agent

open Std Network Control

section Definitions

variable {δ : Type*} (denotes : String → δ)

/-- The interface has no peer, allowed address or route but those of a cache. -/
structure Confined (interface : Interface String δ δ) (cache : PeerCache) : Prop where
  peers : ∀ key ∈ interface.peers, ∃ (node : String) (entry : PeerCacheEntry),
    cache[node]? = some entry ∧ entry.peer.publicKey = key
  allowed : ∀ destination key, interface.owner destination = some key →
    ∃ (node : String) (entry : PeerCacheEntry), cache[node]? = some entry ∧
      entry.peer.publicKey = key ∧ destination ∈ entry.peer.destinations denotes
  routes : ∀ destination ∈ interface.routes, ∃ (node : String) (entry : PeerCacheEntry),
    cache[node]? = some entry ∧ destination ∈ entry.peer.destinations denotes

/-- The peers and routes of the interface are exactly those of a cache. -/
structure Matches (interface : Interface String δ δ) (cache : PeerCache) : Prop extends
    Confined denotes interface cache where
  present : ∀ (node : String) (entry : PeerCacheEntry), cache[node]? = some entry →
    entry.peer.publicKey ∈ interface.peers
  routed : ∀ (node : String) (entry : PeerCacheEntry), cache[node]? = some entry →
    ∀ destination ∈ entry.peer.destinations denotes, destination ∈ interface.routes

/-- Some node is to have a peer with this destination. -/
def Wanted
    (localNodeId : String)
    (records : List MembershipRecord)
    (cache : PeerCache)
    (destination : δ) : Prop :=
  ∃ node peer, wantedPeer localNodeId records cache node = some peer ∧
    destination ∈ peer.destinations denotes

/-- A peer with this destination is removed on account of a record. -/
def Removed
    (localNodeId : String)
    (records : List MembershipRecord)
    (cache : PeerCache)
    (destination : δ) : Prop :=
  ∃ record ∈ records, record.nodeId ≠ localNodeId ∧ ∃ entry, cache[record.nodeId]? = some entry ∧
    Drops record entry ∧ destination ∈ entry.peer.destinations denotes

/-- Every destination that a node gives up while it keeps its key is wanted by another node,
or was also that of a peer that is removed. -/
def Released
    (localNodeId : String)
    (records : List MembershipRecord)
    (cache : PeerCache) : Prop :=
  ∀ record ∈ records, record.nodeId ≠ localNodeId → record.state = .active →
    ∀ entry, cache[record.nodeId]? = some entry →
      entry.wireguardPublicKey = record.wireguardPublicKey →
      ∀ destination ∈ entry.peer.destinations denotes,
        destination ∉ record.peer.destinations denotes →
          Wanted denotes localNodeId records cache destination ∨
            Removed denotes localNodeId records cache destination

end Definitions

section Actions

variable {δ : Type*} [DecidableEq δ] {denotes : String → δ}
variable {interface : Interface String δ δ} {actions : List PeerAction}

/-- The peer that an action leaves on the interface. -/
def PeerAction.names : PeerAction → Option String
  | .set _ publicKey _ _ => some publicKey
  | .updateEndpoint _ publicKey _ => some publicKey
  | .remove _ _ _ => none

/-- The action gives a destination to a peer, with a route. -/
def PeerAction.Gives (denotes : String → δ) (destination : δ) (key : String) :
    PeerAction → Prop
  | .set _ publicKey _ allowedIps => publicKey = key ∧ destination ∈ allowedIps.map denotes
  | _ => False

/-- The action removes a peer. -/
def PeerAction.Removes (key : String) : PeerAction → Prop
  | .remove _ publicKey _ => publicKey = key
  | _ => False

/-- The action takes all former destinations from a peer. -/
def PeerAction.Clears (key : String) : PeerAction → Prop
  | .set _ publicKey _ _ => publicKey = key
  | .remove _ publicKey _ => publicKey = key
  | _ => False

/-- The action deletes a route. -/
def PeerAction.Deletes (denotes : String → δ) (destination : δ) : PeerAction → Prop
  | .remove _ _ allowedIps => destination ∈ allowedIps.map denotes
  | _ => False

/-- A peer at the end is named by an action, or was there and is removed by none. -/
theorem mem_peers_of_applyActions
    (present : key ∈ (applyActions denotes interface actions).peers) :
    (∃ action ∈ actions, action.names = some key) ∨
      key ∈ interface.peers ∧ ∀ action ∈ actions, ¬action.Removes key := by
  have origin : ∀ (state : Interface String δ δ) (action : PeerAction),
      key ∈ (applyAction denotes state action).peers →
        action.names = some key ∨ key ∈ state.peers ∧ ¬action.Removes key := by
    intro state action member
    cases action with
    | set nodeId publicKey endpoint allowedIps =>
        simp only [applyAction, Interface.servePeer, (Interface.foldl_replaceRoute _ _).1,
          Interface.setPeer, List.mem_insert_iff] at member
        exact member.imp (fun same => congrArg some same.symm) fun before => ⟨before, id⟩
    | updateEndpoint nodeId publicKey endpoint =>
        simp only [applyAction, Interface.touchPeer, List.mem_insert_iff] at member
        exact member.imp (fun same => congrArg some same.symm) fun before => ⟨before, id⟩
    | remove nodeId publicKey allowedIps =>
        simp only [applyAction, Interface.dropPeer, (Interface.foldl_deleteRoute _ _).1,
          Interface.removePeer, List.mem_filter, decide_eq_true_eq] at member
        exact Or.inr ⟨member.1, fun same => member.2 same.symm⟩
  exact holds_foldl_origin (fun state : Interface String δ δ => key ∈ state.peers) origin present

/-- An allowed address at the end is given by an action, or was there and is cleared by none. -/
theorem owner_of_applyActions
    (owned : (applyActions denotes interface actions).owner destination = some key) :
    (∃ action ∈ actions, action.Gives denotes destination key) ∨
      interface.owner destination = some key ∧ ∀ action ∈ actions, ¬action.Clears key := by
  have origin : ∀ (state : Interface String δ δ) (action : PeerAction),
      (applyAction denotes state action).owner destination = some key →
        action.Gives denotes destination key ∨
          state.owner destination = some key ∧ ¬action.Clears key := by
    intro state action owns
    cases action with
    | set nodeId publicKey endpoint allowedIps =>
        rw [applyAction, Interface.servePeer_owner, Interface.setPeer] at owns
        dsimp only at owns
        split_ifs at owns with given cleared
        · exact Or.inl ⟨Option.some.inj owns, given⟩
        · refine Or.inr ⟨owns, fun same => cleared ?_⟩
          rw [owns, same]
    | updateEndpoint => exact Or.inr ⟨owns, id⟩
    | remove nodeId publicKey allowedIps =>
        rw [applyAction, Interface.dropPeer_owner, Interface.removePeer] at owns
        dsimp only at owns
        split_ifs at owns with cleared
        refine Or.inr ⟨owns, fun same => cleared ?_⟩
        rw [owns, same]
  exact holds_foldl_origin (fun state : Interface String δ δ => state.owner destination = some key)
    origin owned

/-- A route at the end is set by an action, or was there and is deleted by none. -/
theorem mem_routes_of_applyActions
    (present : destination ∈ (applyActions denotes interface actions).routes) :
    (∃ action ∈ actions, ∃ key, action.Gives denotes destination key) ∨
      destination ∈ interface.routes ∧ ∀ action ∈ actions, ¬action.Deletes denotes destination := by
  have origin : ∀ (state : Interface String δ δ) (action : PeerAction),
      destination ∈ (applyAction denotes state action).routes →
        (∃ key, action.Gives denotes destination key) ∨
          destination ∈ state.routes ∧ ¬action.Deletes denotes destination := by
    intro state action member
    cases action with
    | set nodeId publicKey endpoint allowedIps =>
        exact (Interface.mem_servePeer_routes.mp member).imp
          (fun given => ⟨publicKey, rfl, given⟩) fun before => ⟨before, id⟩
    | updateEndpoint => exact Or.inr ⟨member, id⟩
    | remove nodeId publicKey allowedIps =>
        exact Or.inr (Interface.mem_dropPeer_routes.mp member).symm
  exact holds_foldl_origin (fun state : Interface String δ δ => destination ∈ state.routes) origin
    present

/-- A route that no action deletes stays. -/
theorem mem_routes_applyActions
    (present : destination ∈ interface.routes)
    (kept : ∀ action ∈ actions, ¬action.Deletes denotes destination) :
    destination ∈ (applyActions denotes interface actions).routes := by
  refine holds_foldl (fun state : Interface String δ δ => destination ∈ state.routes) ?_ present kept
  intro state action before undeleted
  cases action with
  | set => exact Interface.mem_servePeer_routes.mpr (Or.inr before)
  | updateEndpoint => exact before
  | remove => exact Interface.mem_dropPeer_routes.mpr ⟨undeleted, before⟩

end Actions

section Plans

variable {localNodeId : String} {observedEndpoints : ExtTreeMap String SocketAddr}
variable {cache : PeerCache} {records : List MembershipRecord} {record : MembershipRecord}
variable {actions : List PeerAction} {action : PeerAction} {entry : PeerCacheEntry}

/-- Every action of a plan is on account of a record. -/
theorem Planned.origin
    (planned : Planned localNodeId observedEndpoints cache records actions)
    (member : action ∈ actions) :
    ∃ record ∈ records, record.nodeId ≠ localNodeId ∧ ∃ own next,
      planRecord observedEndpoints cache[record.nodeId]? record = some (own, next) ∧
        action ∈ own := by
  induction planned with
  | nil => cases member
  | skip _ _ inductionHypothesis =>
      obtain ⟨record, listed, rest⟩ := inductionHypothesis member
      exact ⟨record, List.mem_cons_of_mem _ listed, rest⟩
  | plan notLocal ownPlanned _ inductionHypothesis =>
      obtain inOwn | later := List.mem_append.mp member
      · exact ⟨_, List.mem_cons_self, notLocal, _, _, ownPlanned, inOwn⟩
      · obtain ⟨record, listed, rest⟩ := inductionHypothesis later
        exact ⟨record, List.mem_cons_of_mem _ listed, rest⟩

/-- Every record is planned for. -/
theorem Planned.covers
    (planned : Planned localNodeId observedEndpoints cache records actions)
    (listed : record ∈ records)
    (notLocal : record.nodeId ≠ localNodeId) :
    ∃ own next, planRecord observedEndpoints cache[record.nodeId]? record = some (own, next) ∧
      ∀ action ∈ own, action ∈ actions := by
  induction planned with
  | nil => cases listed
  | skip isLocal _ inductionHypothesis =>
      obtain rfl | later := List.mem_cons.mp listed
      · exact absurd isLocal notLocal
      · exact inductionHypothesis later
  | plan _ ownPlanned _ inductionHypothesis =>
      obtain rfl | later := List.mem_cons.mp listed
      · exact ⟨_, _, ownPlanned, fun action member => List.mem_append_left _ member⟩
      · obtain ⟨own, next, found, included⟩ := inductionHypothesis later
        exact ⟨own, next, found, fun action member =>
          List.mem_append_right _ (included action member)⟩

/-- A plan removes every peer that a record drops. -/
theorem Planned.removal_mem
    (planned : Planned localNodeId observedEndpoints cache records actions)
    (listed : record ∈ records)
    (notLocal : record.nodeId ≠ localNodeId)
    (cached : cache[record.nodeId]? = some entry)
    (drops : Drops record entry) :
    removal record entry ∈ actions := by
  obtain ⟨own, next, ownPlanned, included⟩ := planned.covers listed notLocal
  obtain ⟨update, rfl, _⟩ := update_of_planRecord ownPlanned
  refine included _ (List.mem_append_left _ ?_)
  rw [dropped_eq_some_iff.mpr ⟨cached, drops⟩]
  exact List.mem_singleton_self _

/-- A plan sets every peer that a record resets. -/
theorem Planned.set_mem
    (planned : Planned localNodeId observedEndpoints cache records actions)
    (listed : record ∈ records)
    (notLocal : record.nodeId ≠ localNodeId)
    (resets : Resets cache[record.nodeId]? record) :
    ∃ endpoint, PeerAction.set record.nodeId record.wireguardPublicKey endpoint
      record.peer.allowedIps ∈ actions := by
  obtain ⟨own, next, ownPlanned, included⟩ := planned.covers listed notLocal
  obtain ⟨update, rfl, kind⟩ := update_of_planRecord ownPlanned
  cases kind with
  | bury tombstoned => simp [resets.1] at tombstoned
  | keep _ _ unchanged => exact absurd resets unchanged
  | touch _ _ unchanged => exact absurd resets unchanged
  | reset entry =>
      exact ⟨entry.endpoint, included _ (List.mem_append_right _ (List.mem_singleton_self _))⟩

/-- An action of a plan removes a cached peer, or names the peer of an active record, or gives
it what it is to have. -/
theorem Planned.kinds
    (planned : Planned localNodeId observedEndpoints cache records actions)
    (member : action ∈ actions) :
    ∃ record ∈ records, record.nodeId ≠ localNodeId ∧
      ((∃ entry, cache[record.nodeId]? = some entry ∧ Drops record entry ∧
          action = removal record entry) ∨
        record.state = .active ∧ ∃ endpoint,
          action = .updateEndpoint record.nodeId record.peer.publicKey endpoint ∨
          action = .set record.nodeId record.peer.publicKey endpoint record.peer.allowedIps) := by
  obtain ⟨record, listed, notLocal, own, next, ownPlanned, inOwn⟩ := planned.origin member
  refine ⟨record, listed, notLocal, ?_⟩
  obtain ⟨update, rfl, kind⟩ := update_of_planRecord ownPlanned
  obtain removed | updated := List.mem_append.mp inOwn
  · simp only [Option.mem_toList, Option.map_eq_some_iff] at removed
    obtain ⟨entry, found, rfl⟩ := removed
    obtain ⟨cached, drops⟩ := dropped_eq_some_iff.mp found
    exact Or.inl ⟨entry, cached, drops, rfl⟩
  · cases kind with
    | bury => cases updated
    | keep => cases updated
    | touch entry active =>
        exact Or.inr ⟨active, entry.endpoint, Or.inl (List.mem_singleton.mp updated)⟩
    | reset entry resets =>
        exact Or.inr ⟨resets.1, entry.endpoint, Or.inr (List.mem_singleton.mp updated)⟩

end Plans

section Fates

variable {localNodeId node : String} {observedEndpoints : ExtTreeMap String SocketAddr}
variable {cache next : PeerCache} {records : List MembershipRecord} {record : MembershipRecord}
variable {actions : List PeerAction} {entry : PeerCacheEntry}

theorem wantedPeer_of_active
    (distinct : (records.map MembershipRecord.nodeId).Nodup)
    (listed : record ∈ records)
    (notLocal : record.nodeId ≠ localNodeId)
    (active : record.state = .active) :
    wantedPeer localNodeId records cache record.nodeId = some record.peer := by
  have found : records.find? (fun other => other.nodeId = record.nodeId) = some record := by
    have some : (records.find? fun other => other.nodeId = record.nodeId).isSome = true :=
      List.find?_isSome.mpr ⟨record, listed, by simp⟩
    obtain ⟨first, isFirst⟩ := Option.isSome_iff_exists.mp some
    have named : first.nodeId = record.nodeId := by simpa using List.find?_some isFirst
    rw [isFirst, List.inj_on_of_nodup_map distinct (List.mem_of_find?_eq_some isFirst) listed named]
  simp [wantedPeer, notLocal, found, active]

/-- A cached node keeps its peer for want of a record, or its record drops the peer, or the
record keeps the key. -/
theorem fate_of_cached
    (localNodeId : String)
    (records : List MembershipRecord)
    (cached : cache[node]? = some entry) :
    wantedPeer localNodeId records cache node = some entry.peer ∨
      ∃ record ∈ records, record.nodeId = node ∧ record.nodeId ≠ localNodeId ∧
        (Drops record entry ∨
          record.state = .active ∧ entry.wireguardPublicKey = record.wireguardPublicKey) := by
  by_cases recorded : ∃ record ∈ records, record.nodeId = node ∧ record.nodeId ≠ localNodeId
  · obtain ⟨record, listed, named, notLocal⟩ := recorded
    refine Or.inr ⟨record, listed, named, notLocal, ?_⟩
    by_cases sameKey : entry.wireguardPublicKey = record.wireguardPublicKey
    · cases state : record.state with
      | active => exact Or.inr ⟨rfl, sameKey⟩
      | tombstoned => exact Or.inl (Or.inl state)
    · exact Or.inl (Or.inr sameKey)
  · left
    have undecided : (if node = localNodeId then none
        else records.find? fun record => record.nodeId = node) = none := by
      split
      · rfl
      · rename_i notLocal
        refine List.find?_eq_none.mpr fun record listed named => recorded ?_
        have isNode : record.nodeId = node := of_decide_eq_true named
        exact ⟨record, listed, isNode, isNode ▸ notLocal⟩
    simp [wantedPeer, undecided, cached]

variable (wants : ∀ node : String, (next[node]?).map PeerCacheEntry.peer =
  wantedPeer localNodeId records cache node)

include wants in
/-- The peers of the next cache are the wanted ones. -/
theorem exists_next_iff {holds : Peer → Prop} :
    (∃ (node : String) (entry : PeerCacheEntry), next[node]? = some entry ∧ holds entry.peer) ↔
      ∃ node peer, wantedPeer localNodeId records cache node = some peer ∧ holds peer := by
  constructor
  · rintro ⟨node, entry, found, holding⟩
    exact ⟨node, entry.peer, by rw [← wants, found, Option.map_some], holding⟩
  · rintro ⟨node, peer, wanted, holding⟩
    obtain ⟨entry, found, rfl⟩ := Option.map_eq_some_iff.mp ((wants node).trans wanted)
    exact ⟨node, entry, found, holding⟩

variable {δ : Type*} {denotes : String → δ} {interface : Interface String δ δ}
variable (distinct : (records.map MembershipRecord.nodeId).Nodup)
variable (planned : Planned localNodeId observedEndpoints cache records actions)

include distinct planned

/-- What an action names is wanted. -/
theorem wanted_of_names
    (member : action ∈ actions)
    (named : action.names = some key) :
    ∃ node peer, wantedPeer localNodeId records cache node = some peer ∧
      peer.publicKey = key := by
  obtain ⟨record, listed, notLocal, ⟨entry, _, _, rfl⟩ | ⟨active, _, rfl | rfl⟩⟩ :=
    planned.kinds member
  · cases named
  · exact ⟨record.nodeId, record.peer, wantedPeer_of_active distinct listed notLocal active,
      Option.some.inj named⟩
  · exact ⟨record.nodeId, record.peer, wantedPeer_of_active distinct listed notLocal active,
      Option.some.inj named⟩

/-- What an action gives to a peer is wanted. -/
theorem wanted_of_gives
    (member : action ∈ actions)
    (gives : action.Gives denotes destination key) :
    ∃ node peer, wantedPeer localNodeId records cache node = some peer ∧
      peer.publicKey = key ∧ destination ∈ peer.destinations denotes := by
  obtain ⟨record, listed, notLocal, ⟨entry, _, _, rfl⟩ | ⟨active, _, rfl | rfl⟩⟩ :=
    planned.kinds member
  · cases gives
  · cases gives
  · exact ⟨record.nodeId, record.peer, wantedPeer_of_active distinct listed notLocal active,
      gives⟩

variable [DecidableEq δ]

/-- Every peer at the end is wanted. -/
theorem peers_wanted
    (confined : Confined denotes interface cache)
    (present : key ∈ (applyActions denotes interface actions).peers) :
    ∃ node peer, wantedPeer localNodeId records cache node = some peer ∧
      peer.publicKey = key := by
  obtain ⟨action, member, named⟩ | ⟨before, unremoved⟩ := mem_peers_of_applyActions present
  · exact wanted_of_names distinct planned member named
  · obtain ⟨node, entry, cached, rfl⟩ := confined.peers key before
    obtain kept | ⟨record, listed, rfl, notLocal, drops | ⟨active, sameKey⟩⟩ :=
      fate_of_cached localNodeId records cached
    · exact ⟨node, entry.peer, kept, rfl⟩
    · exact absurd rfl (unremoved _ (planned.removal_mem listed notLocal cached drops))
    · exact ⟨record.nodeId, record.peer, wantedPeer_of_active distinct listed notLocal active,
        sameKey.symm⟩

/-- Every allowed address at the end is wanted by its peer. -/
theorem allowed_wanted
    (confined : Confined denotes interface cache)
    (owned : (applyActions denotes interface actions).owner destination = some key) :
    ∃ node peer, wantedPeer localNodeId records cache node = some peer ∧
      peer.publicKey = key ∧ destination ∈ peer.destinations denotes := by
  obtain ⟨action, member, gives⟩ | ⟨before, uncleared⟩ := owner_of_applyActions owned
  · exact wanted_of_gives distinct planned member gives
  · obtain ⟨node, entry, cached, rfl, allowed⟩ := confined.allowed destination key before
    obtain kept | ⟨record, listed, rfl, notLocal, drops | ⟨active, sameKey⟩⟩ :=
      fate_of_cached localNodeId records cached
    · exact ⟨node, entry.peer, kept, rfl, allowed⟩
    · exact absurd rfl (uncleared _ (planned.removal_mem listed notLocal cached drops))
    · by_cases samePeer : entry.peer = record.peer
      · exact ⟨record.nodeId, record.peer, wantedPeer_of_active distinct listed notLocal active,
          sameKey.symm, samePeer ▸ allowed⟩
      · have resets : Resets cache[record.nodeId]? record := by
          refine ⟨active, fun same => samePeer ?_⟩
          rw [cached] at same
          exact Option.some.inj same
        obtain ⟨endpoint, member⟩ := planned.set_mem listed notLocal resets
        exact absurd sameKey.symm (uncleared _ member)

/-- Every route at the end is wanted, if nothing is given up without being released. -/
theorem routes_wanted
    (confined : Confined denotes interface cache)
    (released : Released denotes localNodeId records cache)
    (present : destination ∈ (applyActions denotes interface actions).routes) :
    Wanted denotes localNodeId records cache destination := by
  obtain ⟨action, member, key, gives⟩ | ⟨before, undeleted⟩ := mem_routes_of_applyActions present
  · obtain ⟨node, peer, wanted, _, given⟩ := wanted_of_gives distinct planned member gives
    exact ⟨node, peer, wanted, given⟩
  · have unremoved : ¬Removed denotes localNodeId records cache destination := by
      rintro ⟨record, listed, notLocal, entry, cached, drops, had⟩
      exact undeleted _ (planned.removal_mem listed notLocal cached drops) had
    obtain ⟨node, entry, cached, had⟩ := confined.routes destination before
    obtain kept | ⟨record, listed, rfl, notLocal, drops | ⟨active, sameKey⟩⟩ :=
      fate_of_cached localNodeId records cached
    · exact ⟨node, entry.peer, kept, had⟩
    · exact absurd ⟨record, listed, notLocal, entry, cached, drops, had⟩ unremoved
    · by_cases keeps : destination ∈ record.peer.destinations denotes
      · exact ⟨record.nodeId, record.peer,
          wantedPeer_of_active distinct listed notLocal active, keeps⟩
      · exact (released record listed notLocal active entry cached sameKey destination had
          keeps).resolve_right unremoved

omit distinct in
/-- What a node gives up is released, if every route at the end is wanted. -/
theorem released_of_routes_wanted
    (exact : Matches denotes interface cache)
    (wanted : ∀ destination ∈ (applyActions denotes interface actions).routes,
      Wanted denotes localNodeId records cache destination) :
    Released denotes localNodeId records cache := by
  intro record listed notLocal active entry cached sameKey destination had _
  by_cases removed : Removed denotes localNodeId records cache destination
  · exact Or.inr removed
  · refine Or.inl (wanted destination (mem_routes_applyActions (exact.routed _ entry cached _ had) ?_))
    intro action member deletes
    obtain ⟨other, otherListed, otherNotLocal, ⟨old, oldCached, drops, rfl⟩ | ⟨_, _, rfl | rfl⟩⟩ :=
      planned.kinds member
    · exact removed ⟨other, otherListed, otherNotLocal, old, oldCached, drops, deletes⟩
    · cases deletes
    · cases deletes

end Fates

section Leftovers

variable {δ : Type*} [DecidableEq δ]

/-- From an interface whose peers and routes are exactly those of the cache, the planned
actions lead to one that has no others than those of the next cache, exactly if every
destination that a node gives up while it keeps its key is wanted by another node or was
also that of a peer that is removed. -/
theorem reconciliation_leaves_nothing_iff
    (denotes : String → δ)
    (hash : ContentHash)
    (scope : MembershipScope)
    (calls : List AgentStore.StoreCall)
    (localNodeId : String)
    (cache : PeerCache)
    (observedEndpoints : ExtTreeMap String SocketAddr)
    (interface : Interface String δ δ)
    (exact : Matches denotes interface cache) :
    ∃ plan, planReconciliation localNodeId (membersAfter hash scope calls) cache
        observedEndpoints = some plan ∧
      (Confined denotes (applyActions denotes interface plan.actions) plan.nextCache ↔
        Released denotes localNodeId (membersAfter hash scope calls) cache) := by
  have sound : (AgentStore.run hash scope .empty calls).Sound hash scope :=
    AgentStore.sound_empty.run calls
  have distinct := nodup_of_sorted sound.sorted_latestMembership
  obtain ⟨plan, actions, planned, steps, isActions, wants⟩ :
      ∃ plan actions, planRecords localNodeId observedEndpoints ⟨[], cache⟩ []
          (membersAfter hash scope calls) = some plan ∧
        Planned localNodeId observedEndpoints cache (membersAfter hash scope calls) actions ∧ _ :=
    planned_of_planRecords distinct (fun _ => sound.endpoints_ne_nil) (by simp) (fun _ _ => rfl)
  obtain rfl : plan.actions = actions := isActions
  refine ⟨plan, planned, fun confined => ?_, fun released => ⟨?_, ?_, ?_⟩⟩
  · refine released_of_routes_wanted steps exact fun destination present => ?_
    exact (exists_next_iff wants).mp (confined.routes destination present)
  · intro key present
    exact (exists_next_iff wants).mpr
      (peers_wanted distinct steps exact.toConfined present)
  · intro destination key owned
    exact (exists_next_iff wants).mpr
      (allowed_wanted distinct steps exact.toConfined owned)
  · intro destination present
    exact (exists_next_iff wants).mpr
      (routes_wanted distinct steps exact.toConfined released present)

theorem sampleInterface_matches : Matches id sampleInterface sampleCache := by
  have reflects := sampleInterface_reflects
  have first : sampleCache["a"]? = some (sampleEntry "a" "alpha" 1) := by decide +kernel
  have second : sampleCache["b"]? = some (sampleEntry "b" "beta" 2) := by decide +kernel
  have owners : ∀ destination key, sampleInterface.owner destination = some key →
      destination ∈ (sampleEntry "b" "beta" 2).peer.destinations id ∧ "key-b" = key ∨
        destination ∈ (sampleEntry "a" "alpha" 1).peer.destinations id ∧ "key-a" = key := by
    intro destination key owned
    rw [sampleInterface, Interface.servePeer_owner, Interface.setPeer] at owned
    dsimp only at owned
    split_ifs at owned with inSecond
    · exact Or.inl ⟨inSecond, Option.some.inj owned⟩
    · rw [Interface.servePeer_owner, Interface.setPeer] at owned
      dsimp only at owned
      split_ifs at owned with inFirst
      · exact Or.inr ⟨inFirst, Option.some.inj owned⟩
      · cases owned
  refine ⟨⟨?_, ?_, ?_⟩, fun node entry cached => (reflects node entry cached).present,
    fun node entry cached => (reflects node entry cached).routed⟩
  · intro key present
    have listed : sampleInterface.peers = ["key-b", "key-a"] := by decide +kernel
    rw [listed] at present
    obtain rfl | rfl : key = "key-b" ∨ key = "key-a" := by simpa using present
    · exact ⟨"b", _, second, rfl⟩
    · exact ⟨"a", _, first, rfl⟩
  · intro destination key owned
    obtain ⟨given, rfl⟩ | ⟨given, rfl⟩ := owners destination key owned
    · exact ⟨"b", _, second, rfl, given⟩
    · exact ⟨"a", _, first, rfl, given⟩
  · intro destination present
    rw [sampleInterface, Interface.mem_servePeer_routes, Interface.mem_servePeer_routes] at present
    obtain inSecond | inFirst | absent := present
    · exact ⟨"b", _, second, inSecond⟩
    · exact ⟨"a", _, first, inFirst⟩
    · cases absent

/-- Two nodes, of which the second moves on and a third one takes its place. -/
def succession : List AgentStore.StoreCall :=
  [.applyMembership 0 (sampleMember "a" "alpha" 1 1 1 .active),
    .applyMembership 0 (sampleMember "b" "beta" 2 1 1 .active),
    .applyMembership 0 (sampleMember "b" "beta" 3 1 2 .active),
    .applyMembership 0 (sampleMember "d" "delta" 2 1 1 .active)]

theorem members_of_succession :
    membersAfter numberedHash ⟨"p", 1⟩ succession =
      [sampleMember "a" "alpha" 1 1 1 .active, sampleMember "b" "beta" 3 1 2 .active,
        sampleMember "d" "delta" 2 1 1 .active] := by
  decide +kernel

theorem succession_released :
    Released id "c" (membersAfter numberedHash ⟨"p", 1⟩ succession) sampleCache := by
  rw [members_of_succession]
  intro record listed _ _ entry cached _ destination had gone
  simp only [List.mem_cons, List.not_mem_nil, or_false] at listed
  obtain rfl | rfl | rfl := listed
  · have known : sampleCache["a"]? = some (sampleEntry "a" "alpha" 1) := by decide +kernel
    obtain rfl := Option.some.inj (cached.symm.trans known)
    exact absurd had gone
  · have known : sampleCache["b"]? = some (sampleEntry "b" "beta" 2) := by decide +kernel
    obtain rfl := Option.some.inj (cached.symm.trans known)
    exact Or.inl ⟨"d", (sampleMember "d" "delta" 2 1 1 .active).peer, by decide +kernel, had⟩
  · have unknown : sampleCache["d"]? = none := by decide +kernel
    exact absurd (cached.symm.trans unknown) (by simp)

/-- The routes of the node that moves on become those of its successor. -/
theorem reconciliation_leaves_nothing_iff_succession :
    ∃ plan, planReconciliation "c" (membersAfter numberedHash ⟨"p", 1⟩ succession) sampleCache ∅ =
        some plan ∧
      Confined id (applyActions id sampleInterface plan.actions) plan.nextCache := by
  obtain ⟨plan, planned, confined⟩ := reconciliation_leaves_nothing_iff id numberedHash ⟨"p", 1⟩
    succession "c" sampleCache ∅ sampleInterface sampleInterface_matches
  exact ⟨plan, planned, confined.mpr succession_released⟩

/-- A node moves on and nobody takes its place: its old routes stay. -/
theorem moved_node_leaves_routes :
    Matches id sampleInterface sampleCache ∧
      ∃ plan, planReconciliation "c"
          (membersAfter numberedHash ⟨"p", 1⟩ (succession.take 3)) sampleCache ∅ = some plan ∧
        "10.211.2.0/24" ∈ (applyActions id sampleInterface plan.actions).routes ∧
        ∀ (node : String) (entry : PeerCacheEntry), plan.nextCache[node]? = some entry →
          "10.211.2.0/24" ∉ entry.peer.destinations id := by
  have outcome : (planReconciliation "c"
      (membersAfter numberedHash ⟨"p", 1⟩ (succession.take 3)) sampleCache ∅).map
        (fun plan => ((applyActions id sampleInterface plan.actions).routes,
          plan.nextCache.toList.map fun entry => entry.2.peer.destinations id)) =
      some (["10.211.3.0/24", "10.210.0.3/32", "10.211.2.0/24", "10.210.0.2/32", "10.211.1.0/24",
          "10.210.0.1/32"],
        [["10.210.0.1/32", "10.211.1.0/24"], ["10.210.0.3/32", "10.211.3.0/24"]]) := by
    decide +kernel
  obtain ⟨plan, planned, same⟩ := Option.map_eq_some_iff.mp outcome
  obtain ⟨routes, entries⟩ := Prod.mk.inj same
  refine ⟨sampleInterface_matches, plan, planned, ?_, fun node entry found had => ?_⟩
  · rw [routes]
    decide
  · have listed : entry.peer.destinations id ∈
        plan.nextCache.toList.map fun entry => entry.2.peer.destinations id :=
      List.mem_map.mpr ⟨(node, entry), ExtTreeMap.mem_toList_iff_getElem?_eq_some.mpr found, rfl⟩
    rw [entries] at listed
    have apart : ∀ destinations ∈ [["10.210.0.1/32", "10.211.1.0/24"],
        ["10.210.0.3/32", "10.211.3.0/24"]], "10.211.2.0/24" ∉ destinations := by
      decide
    exact apart _ listed had

end Leftovers

end Agent
end Jiji
