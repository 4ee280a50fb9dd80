import Mathlib

/-!
# Cryptokey-routed interfaces

An interface has peers, a table that assigns every destination to at most one of them,
addresses of its own, and the routes of the host that lead through it.  Giving a
destination to a peer takes it from any other one, and losing a peer frees its
destinations.  Routes are kept apart from the table and have to be set one by one.
-/

namespace Jiji
namespace Network

/-- The state of an interface.  The lists stand for sets.  Its own addresses may be written in
another way than destinations. -/
structure Interface (κ δ α : Type*) where
  up : Bool
  peers : List κ
  owner : δ → Option κ
  addresses : List α
  routes : List δ

namespace Interface

variable {κ δ α : Type*}

/-- An interface that was just created, or none at all. -/
def blank : Interface κ δ α where
  up := false
  peers := []
  owner := fun _ => none
  addresses := []
  routes := []

/-- The same peers with the same destinations. -/
def SamePeers (left right : Interface κ δ α) : Prop :=
  (∀ key, key ∈ left.peers ↔ key ∈ right.peers) ∧ left.owner = right.owner

/-- The same routes. -/
def SameRoutes (left right : Interface κ δ α) : Prop :=
  ∀ route, route ∈ left.routes ↔ route ∈ right.routes

/-- A peer is present with exactly these destinations. -/
structure Allows (interface : Interface κ δ α) (key : κ) (destinations : List δ) : Prop where
  present : key ∈ interface.peers
  allowed : ∀ destination, interface.owner destination = some key ↔ destination ∈ destinations

/-- A peer has exactly these destinations, and a route leads to each of them. -/
structure Serves (interface : Interface κ δ α) (key : κ) (destinations : List δ) : Prop extends
    Allows interface key destinations where
  routed : ∀ destination ∈ destinations, destination ∈ interface.routes

variable {interface left right : Interface κ δ α} {key : κ} {destinations : List δ}

theorem SamePeers.symm (same : left.SamePeers right) : right.SamePeers left :=
  ⟨fun key => (same.1 key).symm, same.2.symm⟩

theorem SamePeers.trans
    (first : left.SamePeers middle)
    (second : middle.SamePeers right) :
    left.SamePeers right :=
  ⟨fun key => (first.1 key).trans (second.1 key), first.2.trans second.2⟩

theorem SamePeers.allows (same : left.SamePeers right) (allows : left.Allows key destinations) :
    right.Allows key destinations :=
  ⟨(same.1 key).mp allows.present, same.2 ▸ allows.allowed⟩

section Operations

variable [DecidableEq κ] [DecidableEq δ]

/-- Name a peer, without giving it any destination. -/
def touchPeer (interface : Interface κ δ α) (key : κ) : Interface κ δ α :=
  { interface with peers := interface.peers.insert key }

/-- Give a peer exactly these destinations. -/
def setPeer (interface : Interface κ δ α) (key : κ) (destinations : List δ) : Interface κ δ α :=
  { interface with
    peers := interface.peers.insert key
    owner := fun destination =>
      if destination ∈ destinations then some key
      else if interface.owner destination = some key then none
      else interface.owner destination }

def removePeer (interface : Interface κ δ α) (key : κ) : Interface κ δ α :=
  { interface with
    peers := interface.peers.filter (· ≠ key)
    owner := fun destination =>
      if interface.owner destination = some key then none else interface.owner destination }

/-- Set one peer after another. -/
def setPeers (interface : Interface κ δ α) (entries : List (κ × List δ)) : Interface κ δ α :=
  entries.foldl (fun interface peer => interface.setPeer peer.1 peer.2) interface

/-- Replace all peers by those of a configuration, read from the top. -/
def syncPeers (interface : Interface κ δ α) (configuration : List (κ × List δ)) :
    Interface κ δ α :=
  setPeers { interface with peers := [], owner := fun _ => none } configuration

def replaceAddress [DecidableEq α] (interface : Interface κ δ α) (address : α) :
    Interface κ δ α :=
  { interface with addresses := interface.addresses.insert address }

def replaceRoute (interface : Interface κ δ α) (route : δ) : Interface κ δ α :=
  { interface with routes := interface.routes.insert route }

def deleteRoute (interface : Interface κ δ α) (route : δ) : Interface κ δ α :=
  { interface with routes := interface.routes.filter (· ≠ route) }

end Operations

section Peers

variable [DecidableEq κ] [DecidableEq δ]

theorem setPeer_allows (interface : Interface κ δ α) (key : κ) (destinations : List δ) :
    (interface.setPeer key destinations).Allows key destinations where
  present := List.mem_insert_self
  allowed destination := by
    by_cases given : destination ∈ destinations
    · simp [setPeer, given]
    · by_cases owned : interface.owner destination = some key
      · simp [setPeer, given, owned]
      · simp [setPeer, given, owned]

/-- Setting a peer leaves another one alone unless it takes a destination from it. -/
theorem Allows.setPeer_of_ne
    (allows : interface.Allows key destinations)
    (different : other ≠ key)
    (apart : ∀ destination ∈ taken, destination ∉ destinations) :
    (interface.setPeer other taken).Allows key destinations where
  present := List.mem_insert_of_mem allows.present
  allowed destination := by
    rw [← allows.allowed destination]
    by_cases given : destination ∈ taken
    · have free : interface.owner destination ≠ some key := fun owned =>
        apart _ given ((allows.allowed _).mp owned)
      simp [setPeer, given, different, free]
    · by_cases owned : interface.owner destination = some other
      · simp [setPeer, given, owned, different]
      · simp [setPeer, given, owned]

theorem SamePeers.setPeer
    (same : left.SamePeers right)
    (key : κ)
    (destinations : List δ) :
    (left.setPeer key destinations).SamePeers (right.setPeer key destinations) := by
  refine ⟨fun other => ?_, ?_⟩
  · simp only [Interface.setPeer, List.mem_insert_iff, same.1 other]
  · simp only [Interface.setPeer, same.2]

theorem SamePeers.setPeers (same : left.SamePeers right) (entries : List (κ × List δ)) :
    (left.setPeers entries).SamePeers (right.setPeers entries) := by
  induction entries generalizing left right with
  | nil => exact same
  | cons entry entries inductionHypothesis => exact inductionHypothesis (same.setPeer _ _)

/-- Setting other peers leaves one alone unless they take a destination from it. -/
theorem Allows.setPeers
    (allows : interface.Allows key destinations)
    (apart : ∀ entry ∈ entries, entry.1 ≠ key ∧
      ∀ destination ∈ entry.2, destination ∉ destinations) :
    (interface.setPeers entries).Allows key destinations := by
  induction entries generalizing interface with
  | nil => exact allows
  | cons entry entries inductionHypothesis =>
      obtain ⟨different, disjoint⟩ := apart entry List.mem_cons_self
      exact inductionHypothesis (allows.setPeer_of_ne different disjoint)
        fun other member => apart other (List.mem_cons_of_mem _ member)

/-- Setting peers adds them. -/
theorem mem_setPeers_peers {entries : List (κ × List δ)} :
    key ∈ (interface.setPeers entries).peers ↔
      key ∈ interface.peers ∨ key ∈ entries.map Prod.fst := by
  induction entries generalizing interface with
  | nil => simp [setPeers]
  | cons entry entries inductionHypothesis =>
      refine inductionHypothesis.trans ?_
      simp only [setPeer, List.mem_insert_iff, List.map_cons, List.mem_cons]
      tauto

/-- Peers that share nothing all have what they were set to. -/
theorem setPeers_allows
    (keys : (entries.map Prod.fst).Nodup)
    (apart : entries.Pairwise fun entry other => ∀ destination ∈ other.2, destination ∉ entry.2)
    (interface : Interface κ δ α) :
    ∀ entry ∈ entries, (interface.setPeers entries).Allows entry.1 entry.2 := by
  induction entries generalizing interface with
  | nil => exact fun _ absent => absurd absent List.not_mem_nil
  | cons first entries inductionHypothesis =>
      obtain ⟨fresh, keys⟩ := List.nodup_cons.mp keys
      obtain ⟨disjoint, apart⟩ := List.pairwise_cons.mp apart
      intro entry member
      obtain rfl | later := List.mem_cons.mp member
      · refine (setPeer_allows interface _ _).setPeers fun other otherMember => ⟨?_, ?_⟩
        · exact fun same => fresh (same ▸ List.mem_map_of_mem otherMember)
        · exact disjoint other otherMember
      · exact inductionHypothesis keys apart _ entry later

/-- Setting peers leaves everything else alone. -/
theorem setPeers_rest (interface : Interface κ δ α) (entries : List (κ × List δ)) :
    (interface.setPeers entries).addresses = interface.addresses ∧
      (interface.setPeers entries).routes = interface.routes ∧
      (interface.setPeers entries).up = interface.up := by
  induction entries generalizing interface with
  | nil => exact ⟨rfl, rfl, rfl⟩
  | cons entry entries inductionHypothesis => exact inductionHypothesis _

@[simp] theorem syncPeers_addresses
    (interface : Interface κ δ α)
    (configuration : List (κ × List δ)) :
    (interface.syncPeers configuration).addresses = interface.addresses :=
  (setPeers_rest _ configuration).1

/-- The peers after a synchronisation are those of the configuration, whatever there was
before. -/
theorem syncPeers_samePeers
    (left right : Interface κ δ α)
    (configuration : List (κ × List δ)) :
    (left.syncPeers configuration).SamePeers (right.syncPeers configuration) := by
  have cleared : SamePeers ({ left with peers := [], owner := fun _ => none } : Interface κ δ α)
      { right with peers := [], owner := fun _ => none } := ⟨fun _ => Iff.rfl, rfl⟩
  exact cleared.setPeers configuration

end Peers

section Service

variable [DecidableEq κ] [DecidableEq δ]

/-- Give a peer its destinations and set the route to each of them. -/
def servePeer (interface : Interface κ δ α) (key : κ) (destinations : List δ) : Interface κ δ α :=
  destinations.foldl replaceRoute (interface.setPeer key destinations)

/-- Remove a peer and delete the routes to its destinations. -/
def dropPeer (interface : Interface κ δ α) (key : κ) (destinations : List δ) : Interface κ δ α :=
  destinations.foldl deleteRoute (interface.removePeer key)

omit [DecidableEq κ] in
theorem foldl_replaceRoute (interface : Interface κ δ α) (routes : List δ) :
    (routes.foldl replaceRoute interface).peers = interface.peers ∧
      (routes.foldl replaceRoute interface).owner = interface.owner ∧
      ∀ route, route ∈ (routes.foldl replaceRoute interface).routes ↔
        route ∈ routes ∨ route ∈ interface.routes := by
  induction routes generalizing interface with
  | nil => simp
  | cons first routes inductionHypothesis =>
      obtain ⟨peers, owner, members⟩ := inductionHypothesis (interface.replaceRoute first)
      refine ⟨peers, owner, fun route => ?_⟩
      rw [List.foldl_cons, members]
      simp only [replaceRoute, List.mem_insert_iff, List.mem_cons]
      tauto

omit [DecidableEq κ] in
theorem foldl_deleteRoute (interface : Interface κ δ α) (routes : List δ) :
    (routes.foldl deleteRoute interface).peers = interface.peers ∧
      (routes.foldl deleteRoute interface).owner = interface.owner ∧
      ∀ route, route ∈ (routes.foldl deleteRoute interface).routes ↔
        route ∉ routes ∧ route ∈ interface.routes := by
  induction routes generalizing interface with
  | nil => simp
  | cons first routes inductionHypothesis =>
      obtain ⟨peers, owner, members⟩ := inductionHypothesis (interface.deleteRoute first)
      refine ⟨peers, owner, fun route => ?_⟩
      rw [List.foldl_cons, members]
      simp only [deleteRoute, List.mem_filter, decide_eq_true_eq, List.mem_cons, not_or]
      tauto

variable {other : κ} {others : List δ}

theorem servePeer_owner (destination : δ) :
    (interface.servePeer other others).owner destination =
      (interface.setPeer other others).owner destination :=
  congrFun (foldl_replaceRoute _ others).2.1 destination

theorem dropPeer_owner (destination : δ) :
    (interface.dropPeer other others).owner destination =
      (interface.removePeer other).owner destination :=
  congrFun (foldl_deleteRoute _ others).2.1 destination

theorem mem_servePeer_routes {route : δ} :
    route ∈ (interface.servePeer other others).routes ↔
      route ∈ others ∨ route ∈ interface.routes :=
  (foldl_replaceRoute (interface.setPeer other others) others).2.2 route

theorem mem_dropPeer_routes {route : δ} :
    route ∈ (interface.dropPeer other others).routes ↔
      route ∉ others ∧ route ∈ interface.routes :=
  (foldl_deleteRoute (interface.removePeer other) others).2.2 route

theorem Allows.servePeer
    (allows : (interface.setPeer other others).Allows key destinations) :
    (interface.servePeer other others).Allows key destinations where
  present := by
    rw [Interface.servePeer, (foldl_replaceRoute _ others).1]
    exact allows.present
  allowed destination := by rw [servePeer_owner, allows.allowed]

/-- A peer that is served has what it was given. -/
theorem servePeer_serves (interface : Interface κ δ α) (key : κ) (destinations : List δ) :
    (interface.servePeer key destinations).Serves key destinations where
  toAllows := (setPeer_allows interface key destinations).servePeer
  routed _ member := mem_servePeer_routes.mpr (Or.inl member)

/-- Serving another peer leaves one alone unless it takes a destination from it. -/
theorem Serves.servePeer_of_ne
    (serves : interface.Serves key destinations)
    (different : other ≠ key)
    (apart : ∀ destination ∈ others, destination ∉ destinations) :
    (interface.servePeer other others).Serves key destinations where
  toAllows := (serves.toAllows.setPeer_of_ne different apart).servePeer
  routed destination member := mem_servePeer_routes.mpr (Or.inr (serves.routed destination member))

end Service

end Interface

end Network
end Jiji
