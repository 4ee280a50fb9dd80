import Jiji.Agent.WireGuardReconcile
import Jiji.Control.Retry

/-!
# Planning again and executing again

A plan settles the cache: planning once more with the same records and endpoints has
nothing left to do.  A tick that is interrupted leaves the cache as it was, so the next
one executes the same actions from the start; the kernel ends as if nothing had happened.
-/

namespace Jiji
namespace Agent

open Std Network Control

section Planning

variable {localNodeId node : String} {observedEndpoints : ExtTreeMap String SocketAddr}
variable {plan final : ReconcilePlan} {handled : List String} {records : List MembershipRecord}
variable {record : MembershipRecord} {previous next : Option PeerCacheEntry}
variable {own : List PeerAction} {entry : PeerCacheEntry}

def PeerAction.nodeId : PeerAction → String
  | .set nodeId _ _ _ => nodeId
  | .updateEndpoint nodeId _ _ => nodeId
  | .remove nodeId _ _ => nodeId

/-- The record that decides about a node: its first one, unless the node is the local one or
was handled before. -/
def countedRecord
    (localNodeId : String)
    (handled : List String)
    (records : List MembershipRecord)
    (node : String) : Option MembershipRecord :=
  if node = localNodeId ∨ node ∈ handled then none
  else records.find? fun record => record.nodeId = node

/-- What is planned for a node by the record that decides about it. -/
def PlannedFor
    (observedEndpoints : ExtTreeMap String SocketAddr)
    (counted : Option MembershipRecord)
    (previous next : Option PeerCacheEntry)
    (own : List PeerAction) : Prop :=
  match counted with
  | none => next = previous ∧ own = []
  | some record => planRecord observedEndpoints previous record = some (own, next)

theorem countedRecord_skip
    (skipped : record.nodeId = localNodeId ∨ record.nodeId ∈ handled) :
    countedRecord localNodeId handled (record :: records) node =
      countedRecord localNodeId handled records node := by
  unfold countedRecord
  by_cases uncounted : node = localNodeId ∨ node ∈ handled
  · rw [if_pos uncounted, if_pos uncounted]
  · have apart : record.nodeId ≠ node := by
      rintro rfl
      exact uncounted skipped
    rw [if_neg uncounted, if_neg uncounted, List.find?_cons_of_neg (by simpa using apart)]

theorem countedRecord_self
    (counted : ¬(record.nodeId = localNodeId ∨ record.nodeId ∈ handled)) :
    countedRecord localNodeId handled (record :: records) record.nodeId = some record := by
  simp [countedRecord, counted]

theorem countedRecord_handled :
    countedRecord localNodeId (node :: handled) records node = none := by
  simp [countedRecord]

theorem countedRecord_of_ne (apart : node ≠ record.nodeId) :
    countedRecord localNodeId (record.nodeId :: handled) records node =
      countedRecord localNodeId handled (record :: records) node := by
  simp [countedRecord, apart, apart.symm]

/-- All actions on account of a record name its node. -/
theorem nodeId_of_planRecord
    (planned : planRecord observedEndpoints previous record = some (own, next)) :
    ∀ action ∈ own, action.nodeId = record.nodeId := by
  obtain ⟨update, rfl, kind⟩ := update_of_planRecord planned
  intro action member
  obtain removed | updated := List.mem_append.mp member
  · simp only [Option.mem_toList, Option.map_eq_some_iff] at removed
    obtain ⟨old, _, rfl⟩ := removed
    rfl
  · cases kind with
    | bury => cases updated
    | keep => cases updated
    | touch =>
        obtain rfl := List.mem_singleton.mp updated
        rfl
    | reset =>
        obtain rfl := List.mem_singleton.mp updated
        rfl

/-- The actions that name a node, and its place in the next cache, are what its deciding
record asks for. -/
theorem plannedFor_of_planRecords
    (planned : planRecords localNodeId observedEndpoints plan handled records = some final) :
    ∃ actions, final.actions = plan.actions ++ actions ∧
      ∀ node, PlannedFor observedEndpoints (countedRecord localNodeId handled records node)
        plan.nextCache[node]? final.nextCache[node]?
        (actions.filter fun action => action.nodeId = node) := by
  induction records generalizing plan handled with
  | nil =>
      obtain rfl := Option.some.inj planned
      refine ⟨[], (List.append_nil _).symm, fun node => ?_⟩
      have uncounted : countedRecord localNodeId handled [] node = none := by
        simp [countedRecord]
      rw [uncounted]
      exact ⟨rfl, rfl⟩
  | cons record records inductionHypothesis =>
      rw [planRecords] at planned
      split at planned
      · rename_i skipped
        obtain ⟨actions, appended, each⟩ := inductionHypothesis planned
        refine ⟨actions, appended, fun node => ?_⟩
        rw [countedRecord_skip skipped]
        exact each node
      · rename_i counted
        obtain ⟨⟨own, entry⟩, ownPlanned, rest⟩ := Option.bind_eq_some_iff.mp planned
        obtain ⟨actions, appended, each⟩ := inductionHypothesis rest
        refine ⟨own ++ actions, by rw [appended, List.append_assoc], fun node => ?_⟩
        have named := nodeId_of_planRecord ownPlanned
        have later := each node
        rw [getElem?_setEntry] at later
        rw [List.filter_append]
        by_cases same : node = record.nodeId
        · subst same
          rw [countedRecord_handled, if_pos rfl] at later
          rw [countedRecord_self counted, later.2, List.append_nil, later.1,
            List.filter_eq_self.mpr fun action member => decide_eq_true (named action member)]
          exact ownPlanned
        · rw [countedRecord_of_ne same, if_neg same] at later
          have none : own.filter (fun action => action.nodeId = node) = [] := by
            rw [List.filter_eq_nil_iff]
            intro action member isNamed
            exact same ((of_decide_eq_true isNamed).symm.trans (named action member))
          rw [none, List.nil_append]
          exact later

theorem setEntry_self (cache : PeerCache) (node : String) :
    setEntry cache node cache[node]? = cache := by
  refine ExtTreeMap.ext_getElem? fun {other} => ?_
  rw [getElem?_setEntry]
  split
  · rename_i same
    rw [same]
  · rfl

/-- Nothing is planned if no record asks for anything. -/
theorem planRecords_idle
    (idle : ∀ node record, countedRecord localNodeId handled records node = some record →
      planRecord observedEndpoints plan.nextCache[node]? record =
        some ([], plan.nextCache[node]?)) :
    planRecords localNodeId observedEndpoints plan handled records = some plan := by
  induction records generalizing handled with
  | nil => rfl
  | cons record records inductionHypothesis =>
      rw [planRecords]
      split
      · rename_i skipped
        refine inductionHypothesis fun node other counted => idle node other ?_
        rwa [countedRecord_skip skipped]
      · rename_i counted
        rw [idle record.nodeId record (countedRecord_self counted), Option.bind_some]
        dsimp only
        rw [List.append_nil, setEntry_self]
        refine inductionHypothesis fun node other found => idle node other ?_
        have apart : node ≠ record.nodeId := by
          rintro rfl
          rw [countedRecord_handled] at found
          cases found
        rwa [countedRecord_of_ne apart] at found

/-- The endpoint of a node is found again in the cache. -/
theorem peerEndpoint_again
    (found : peerEndpoint observedEndpoints previous record = some endpoint) :
    peerEndpoint observedEndpoints (some (nextEntry record endpoint)) record = some endpoint := by
  unfold peerEndpoint at found ⊢
  cases observed : observedEndpoints[record.wireguardPublicKey]? with
  | none => simp [nextEntry]
  | some seen =>
      rw [observed, Option.some_or] at found
      rw [Option.some_or, found]

/-- A record asks for nothing more once it was planned for. -/
theorem planRecord_again
    (planned : planRecord observedEndpoints previous record = some (own, next)) :
    planRecord observedEndpoints next record = some ([], next) := by
  unfold planRecord at planned ⊢
  split at planned
  · obtain ⟨rfl, rfl⟩ := Prod.mk.inj (Option.some.inj planned)
    rfl
  · obtain ⟨endpoint, found, same⟩ := Option.map_eq_some_iff.mp planned
    obtain ⟨_, rfl⟩ := Prod.mk.inj same
    rw [peerEndpoint_again found]
    simp [nextEntry]

/-- An active record that agrees with the cache asks at most for a new endpoint. -/
theorem planRecord_of_same_peer
    (planned : planRecord observedEndpoints (some entry) record = some (own, next))
    (active : record.state = .active)
    (samePeer : entry.peer = record.peer) :
    ∀ action ∈ own, ∃ endpoint,
      action = .updateEndpoint record.nodeId record.wireguardPublicKey endpoint := by
  obtain ⟨update, rfl, kind⟩ := update_of_planRecord planned
  have unremoved : dropped (some entry) record = none := by
    have sameKey : entry.wireguardPublicKey = record.wireguardPublicKey :=
      congrArg Peer.publicKey samePeer
    simp [dropped, active, sameKey]
  rw [unremoved]
  intro action member
  cases kind with
  | bury => cases member
  | keep => cases member
  | touch next => exact ⟨next.endpoint, List.mem_singleton.mp member⟩
  | reset _ resets => exact absurd (congrArg some samePeer) resets.2

end Planning

section Execution

variable {δ : Type*}

/-- What the kernel knows about an interface and the peers on it. -/
structure Tunnel (δ : Type*) where
  interface : Interface String δ δ
  endpoint : String → Option SocketAddr
  keepalive : String → ℕ

/-- The same tunnel, with peers and routes compared as sets. -/
structure Tunnel.Same (left right : Tunnel δ) : Prop where
  up : left.interface.up = right.interface.up
  addresses : left.interface.addresses = right.interface.addresses
  peers : left.interface.SamePeers right.interface
  routes : left.interface.SameRoutes right.interface
  endpoint : left.endpoint = right.endpoint
  keepalive : left.keepalive = right.keepalive

/-- One call of `wg` or of `ip`. -/
inductive KernelCommand
  | setPeer (publicKey : String) (endpoint : SocketAddr) (allowedIps : List String)
  | setEndpoint (publicKey : String) (endpoint : SocketAddr)
  | removePeer (publicKey : String)
  | replaceRoute (destination : String)
  | deleteRoute (destination : String)
  deriving DecidableEq, Repr

/-- The calls that one action makes. -/
def PeerAction.commands : PeerAction → List KernelCommand
  | .set _ publicKey endpoint allowedIps =>
      .setPeer publicKey endpoint allowedIps :: allowedIps.map .replaceRoute
  | .updateEndpoint _ publicKey endpoint => [.setEndpoint publicKey endpoint]
  | .remove _ publicKey allowedIps => .removePeer publicKey :: allowedIps.map .deleteRoute

variable [DecidableEq δ] (denotes : String → δ)

/-- What one call does to the kernel.  A peer that is set gets an interval of 25 seconds. -/
def execute (tunnel : Tunnel δ) : KernelCommand → Tunnel δ
  | .setPeer publicKey endpoint allowedIps =>
      { interface := tunnel.interface.setPeer publicKey (allowedIps.map denotes)
        endpoint := Function.update tunnel.endpoint publicKey (some endpoint)
        keepalive := Function.update tunnel.keepalive publicKey 25 }
  | .setEndpoint publicKey endpoint =>
      { tunnel with
        interface := tunnel.interface.touchPeer publicKey
        endpoint := Function.update tunnel.endpoint publicKey (some endpoint) }
  | .removePeer publicKey =>
      { interface := tunnel.interface.removePeer publicKey
        endpoint := Function.update tunnel.endpoint publicKey none
        keepalive := Function.update tunnel.keepalive publicKey 0 }
  | .replaceRoute destination =>
      { tunnel with interface := tunnel.interface.replaceRoute (denotes destination) }
  | .deleteRoute destination =>
      { tunnel with interface := tunnel.interface.deleteRoute (denotes destination) }

def executeAll (tunnel : Tunnel δ) (commands : List KernelCommand) : Tunnel δ :=
  commands.foldl (execute denotes) tunnel

end Execution

section Places

variable {δ : Type*} (denotes : String → δ)

/-- What a call does to the presence of a peer. -/
def presenceChange (key : String) : KernelCommand → Prop → Prop
  | .setPeer publicKey _ _, present => key = publicKey ∨ present
  | .setEndpoint publicKey _, present => key = publicKey ∨ present
  | .removePeer publicKey, present => present ∧ key ≠ publicKey
  | _, present => present

/-- What a call does to the owner of a destination. -/
def ownerChange [DecidableEq δ] (destination : δ) :
    KernelCommand → Option String → Option String
  | .setPeer publicKey _ allowedIps, owner =>
      if destination ∈ allowedIps.map denotes then some publicKey
      else if owner = some publicKey then none else owner
  | .removePeer publicKey, owner => if owner = some publicKey then none else owner
  | _, owner => owner

/-- What a call does to the presence of a route. -/
def routeChange (route : δ) : KernelCommand → Prop → Prop
  | .replaceRoute destination, present => route = denotes destination ∨ present
  | .deleteRoute destination, present => present ∧ route ≠ denotes destination
  | _, present => present

/-- What a call does to the endpoint of a peer. -/
def endpointChange (key : String) : KernelCommand → Option SocketAddr → Option SocketAddr
  | .setPeer publicKey endpoint _, current => if key = publicKey then some endpoint else current
  | .setEndpoint publicKey endpoint, current => if key = publicKey then some endpoint else current
  | .removePeer publicKey, current => if key = publicKey then none else current
  | _, current => current

/-- What a call does to the interval of a peer. -/
def keepaliveChange (key : String) : KernelCommand → ℕ → ℕ
  | .setPeer publicKey _ _, current => if key = publicKey then 25 else current
  | .removePeer publicKey, current => if key = publicKey then 0 else current
  | _, current => current

theorem presenceChange_settles (key : String) (command : KernelCommand) :
    Settling False (presenceChange key command) := by
  cases command with
  | setPeer publicKey =>
      exact .of_cond (fun same _ => eq_true (Or.inl same)) fun other _ => by
        simp [presenceChange, other]
  | setEndpoint publicKey =>
      exact .of_cond (fun same _ => eq_true (Or.inl same)) fun other _ => by
        simp [presenceChange, other]
  | removePeer publicKey =>
      exact .of_cond (fun same _ => eq_false fun present => present.2 same) fun other _ => by
        simp [presenceChange, other]
  | replaceRoute => exact .refl
  | deleteRoute => exact .refl

theorem ownerChange_settles [DecidableEq δ] (destination : δ) (command : KernelCommand) :
    Settling none (ownerChange denotes destination command) := by
  have clears : ∀ (publicKey : String) (owner : Option String),
      (if owner = some publicKey then none else owner) = owner ∨
        (if owner = some publicKey then none else owner) = none := by
    intro publicKey owner
    split
    · exact Or.inr rfl
    · exact Or.inl rfl
  cases command with
  | setPeer publicKey endpoint allowedIps =>
      by_cases given : destination ∈ allowedIps.map denotes
      · exact .overwrite (some publicKey) fun _ => if_pos given
      · refine .release fun owner => ?_
        simp only [ownerChange, if_neg given]
        exact clears publicKey owner
  | setEndpoint => exact .refl
  | removePeer publicKey => exact .release (clears publicKey)
  | replaceRoute => exact .refl
  | deleteRoute => exact .refl

theorem routeChange_settles (route : δ) (command : KernelCommand) :
    Settling False (routeChange denotes route command) := by
  cases command with
  | setPeer => exact .refl
  | setEndpoint => exact .refl
  | removePeer => exact .refl
  | replaceRoute destination =>
      exact .of_cond (fun same _ => eq_true (Or.inl same)) fun other _ => by
        simp [routeChange, other]
  | deleteRoute destination =>
      exact .of_cond (fun same _ => eq_false fun present => present.2 same) fun other _ => by
        simp [routeChange, other]

theorem endpointChange_settles (key : String) (command : KernelCommand) :
    Settling none (endpointChange key command) := by
  cases command with
  | setPeer => exact .of_cond (fun same _ => if_pos same) fun other _ => if_neg other
  | setEndpoint => exact .of_cond (fun same _ => if_pos same) fun other _ => if_neg other
  | removePeer => exact .of_cond (fun same _ => if_pos same) fun other _ => if_neg other
  | replaceRoute => exact .refl
  | deleteRoute => exact .refl

theorem keepaliveChange_settles (key : String) (command : KernelCommand) :
    Settling 0 (keepaliveChange key command) := by
  cases command with
  | setPeer => exact .of_cond (fun same _ => if_pos same) fun other _ => if_neg other
  | setEndpoint => exact .refl
  | removePeer => exact .of_cond (fun same _ => if_pos same) fun other _ => if_neg other
  | replaceRoute => exact .refl
  | deleteRoute => exact .refl

end Places

section Retry

variable {δ : Type*} [DecidableEq δ] (denotes : String → δ)

theorem execute_rest (tunnel : Tunnel δ) (command : KernelCommand) :
    (tunnel.interface.up, tunnel.interface.addresses) =
      ((execute denotes tunnel command).interface.up,
        (execute denotes tunnel command).interface.addresses) := by
  cases command <;> rfl

theorem presenceChange_acts (key : String) (tunnel : Tunnel δ) (command : KernelCommand) :
    presenceChange key command (key ∈ tunnel.interface.peers) =
      (key ∈ (execute denotes tunnel command).interface.peers) := by
  cases command <;> simp [presenceChange, execute, Interface.setPeer, Interface.touchPeer,
    Interface.removePeer, Interface.replaceRoute, Interface.deleteRoute]

theorem ownerChange_acts (destination : δ) (tunnel : Tunnel δ) (command : KernelCommand) :
    ownerChange denotes destination command (tunnel.interface.owner destination) =
      (execute denotes tunnel command).interface.owner destination := by
  cases command <;> rfl

theorem routeChange_acts (route : δ) (tunnel : Tunnel δ) (command : KernelCommand) :
    routeChange denotes route command (route ∈ tunnel.interface.routes) =
      (route ∈ (execute denotes tunnel command).interface.routes) := by
  cases command <;> simp [routeChange, execute, Interface.setPeer, Interface.touchPeer,
    Interface.removePeer, Interface.replaceRoute, Interface.deleteRoute]

theorem endpointChange_acts (key : String) (tunnel : Tunnel δ) (command : KernelCommand) :
    endpointChange key command (tunnel.endpoint key) =
      (execute denotes tunnel command).endpoint key := by
  cases command <;> simp [endpointChange, execute, Function.update_apply]

theorem keepaliveChange_acts (key : String) (tunnel : Tunnel δ) (command : KernelCommand) :
    keepaliveChange key command (tunnel.keepalive key) =
      (execute denotes tunnel command).keepalive key := by
  cases command <;> simp [keepaliveChange, execute, Function.update_apply]

/-- Calls that are interrupted and then made again from the first one on have the effect of
making each of them once. -/
theorem executeAll_retry
    (tunnel : Tunnel δ)
    (stopped : interrupted <+: commands) :
    (executeAll denotes (executeAll denotes tunnel interrupted) commands).Same
      (executeAll denotes tunnel commands) := by
  have still : ∀ _ : KernelCommand,
      Settling (tunnel.interface.up, tunnel.interface.addresses) fun current => current :=
    fun _ => .refl
  have kept := place_retry (fun state : Tunnel δ => (state.interface.up, state.interface.addresses))
    (execute_rest denotes) still stopped tunnel
  refine ⟨congrArg Prod.fst kept, congrArg Prod.snd kept, ⟨fun key => ?_, ?_⟩, fun route => ?_,
    ?_, ?_⟩
  · exact iff_of_eq (place_retry (fun state : Tunnel δ => key ∈ state.interface.peers)
      (presenceChange_acts denotes key) (presenceChange_settles key) stopped tunnel)
  · funext destination
    exact place_retry (fun state : Tunnel δ => state.interface.owner destination)
      (ownerChange_acts denotes destination) (ownerChange_settles denotes destination) stopped
      tunnel
  · exact iff_of_eq (place_retry (fun state : Tunnel δ => route ∈ state.interface.routes)
      (routeChange_acts denotes route) (routeChange_settles denotes route) stopped tunnel)
  · funext key
    exact place_retry (fun state : Tunnel δ => state.endpoint key) (endpointChange_acts denotes key)
      (endpointChange_settles key) stopped tunnel
  · funext key
    exact place_retry (fun state : Tunnel δ => state.keepalive key)
      (keepaliveChange_acts denotes key) (keepaliveChange_settles key) stopped tunnel

/-- Planning again has nothing left to do; a cached node without a record is left alone; an
active node that agrees with its cache entry gets at most a new endpoint; and the planned
calls may be interrupted anywhere and made again from the start. -/
theorem reconciliation_settles
    (denotes : String → δ)
    (localNodeId : String)
    (records : List MembershipRecord)
    (cache : PeerCache)
    (observedEndpoints : ExtTreeMap String SocketAddr)
    (plan : ReconcilePlan)
    (planned : planReconciliation localNodeId records cache observedEndpoints = some plan) :
    planReconciliation localNodeId records plan.nextCache observedEndpoints =
        some ⟨[], plan.nextCache⟩ ∧
      (∀ (node : String) (entry : PeerCacheEntry), cache[node]? = some entry →
        (∀ record ∈ records, record.nodeId ≠ node) →
          plan.nextCache[node]? = some entry ∧ ∀ action ∈ plan.actions, action.nodeId ≠ node) ∧
      (∀ (node : String) (entry : PeerCacheEntry) (record : MembershipRecord),
        cache[node]? = some entry → records.find? (fun other => other.nodeId = node) = some record →
          record.state = .active → entry.peer = record.peer →
            ∀ action ∈ plan.actions, action.nodeId = node → ∃ endpoint,
              action = .updateEndpoint node record.wireguardPublicKey endpoint) ∧
      ∀ (tunnel : Tunnel δ) (interrupted : List KernelCommand),
        interrupted <+: plan.actions.flatMap PeerAction.commands →
          (executeAll denotes (executeAll denotes tunnel interrupted)
            (plan.actions.flatMap PeerAction.commands)).Same
              (executeAll denotes tunnel (plan.actions.flatMap PeerAction.commands)) := by
  obtain ⟨actions, rfl, each⟩ : ∃ actions, plan.actions = actions ∧
      ∀ node, PlannedFor observedEndpoints (countedRecord localNodeId [] records node)
        cache[node]? plan.nextCache[node]?
        (actions.filter fun action => action.nodeId = node) := plannedFor_of_planRecords planned
  refine ⟨planRecords_idle fun node record counted => ?_, fun node entry cached unrecorded => ?_,
    fun node entry record cached first active samePeer action member named => ?_,
    fun tunnel interrupted stopped => executeAll_retry denotes tunnel stopped⟩
  · have own := each node
    rw [counted] at own
    exact planRecord_again own
  · have uncounted : countedRecord localNodeId [] records node = none := by
      unfold countedRecord
      split
      · rfl
      · exact List.find?_eq_none.mpr fun record member => by simpa using unrecorded record member
    have own := each node
    rw [uncounted] at own
    refine ⟨own.1.trans cached, fun action member named => ?_⟩
    exact List.filter_eq_nil_iff.mp own.2 action member (decide_eq_true named)
  · have own := each node
    have listed : action ∈ plan.actions.filter fun other => other.nodeId = node :=
      List.mem_filter.mpr ⟨member, decide_eq_true named⟩
    unfold countedRecord at own
    split at own
    · rw [own.2] at listed
      cases listed
    · rw [first, cached] at own
      obtain rfl : record.nodeId = node := by simpa using List.find?_some first
      exact planRecord_of_same_peer own active samePeer action listed

/-- A node that changes its number and a node that leaves, with both in the cache. -/
def sampleMoves : List MembershipRecord :=
  [sampleMember "a" "alpha" 3 1 2 .active, sampleMember "b" "beta" 2 1 2 .tombstoned]

/-- The plan for the sample stops after the first call, and is executed again. -/
theorem reconciliation_settles_moves :
    ∃ plan, planReconciliation "c" sampleMoves sampleCache ∅ = some plan ∧
      plan.actions.length = 2 ∧
      (executeAll id (executeAll id ⟨sampleInterface, fun _ => none, fun _ => 0⟩
          ((plan.actions.flatMap PeerAction.commands).take 1))
        (plan.actions.flatMap PeerAction.commands)).Same
          (executeAll id ⟨sampleInterface, fun _ => none, fun _ => 0⟩
            (plan.actions.flatMap PeerAction.commands)) := by
  have outcome : (planReconciliation "c" sampleMoves sampleCache ∅).map
      (fun plan => plan.actions.length) = some 2 := by
    decide +kernel
  obtain ⟨plan, planned, count⟩ := Option.map_eq_some_iff.mp outcome
  obtain ⟨_, _, _, retried⟩ :=
    reconciliation_settles id "c" sampleMoves sampleCache ∅ plan planned
  exact ⟨plan, planned, count, retried _ _ (List.take_prefix _ _)⟩

/-- A node that leaves agrees with its cache entry, and is removed. -/
theorem leaving_node_is_removed :
    (sampleEntry "b" "beta" 2).peer = (sampleMember "b" "beta" 2 1 2 .tombstoned).peer ∧
      sampleCache["b"]? = some (sampleEntry "b" "beta" 2) ∧
      ∃ plan, planReconciliation "c" [sampleMember "b" "beta" 2 1 2 .tombstoned] sampleCache ∅ =
          some plan ∧
        plan.actions = [.remove "b" "key-b" ["10.210.0.2/32", "10.211.2.0/24"]] := by
  have outcome : (planReconciliation "c" [sampleMember "b" "beta" 2 1 2 .tombstoned] sampleCache
      ∅).map (fun plan => plan.actions) =
        some [.remove "b" "key-b" ["10.210.0.2/32", "10.211.2.0/24"]] := by
    decide +kernel
  obtain ⟨plan, planned, actions⟩ := Option.map_eq_some_iff.mp outcome
  exact ⟨by decide +kernel, by decide +kernel, plan, planned, actions⟩

end Retry

end Agent
end Jiji
