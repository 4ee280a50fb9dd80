import Jiji.Control.Machine
import Jiji.Network.Cidr
import Jiji.Proxy.Certificates

/-!
# The proxy

The proxy keeps a table of routes by host and path and a table of raw TCP routes by port.
Requests on its admin socket are served concurrently: each of them holds a lock for one
section at a time and waits for name resolution and health checks in between.  A loop of
its own orders certificates for the hosts that ask for them.
-/

namespace Jiji
namespace Proxy

open Network Control

section Requests

structure HealthCheckRequest where
  path : Option String
  intervalSecs : ℕ
  timeoutSecs : ℕ
  consecutiveSuccess : ℕ
  consecutiveFailure : ℕ
  deriving DecidableEq, Repr

structure HealthCheckSpec where
  path : Option String
  interval : ℕ
  timeout : ℕ
  consecutiveSuccess : ℕ
  consecutiveFailure : ℕ
  deriving DecidableEq, Repr

/-- The health check that a request asks for; nothing is zero. -/
def HealthCheckSpec.ofRequest (request : HealthCheckRequest) : HealthCheckSpec where
  path := request.path
  interval := max request.intervalSecs 1
  timeout := max request.timeoutSecs 1
  consecutiveSuccess := max request.consecutiveSuccess 1
  consecutiveFailure := max request.consecutiveFailure 1

/-- A route of a host. -/
structure RouteEntry where
  dnsServer : SocketAddr
  name : String
  port : BitVec 16
  pathPrefix : Option String
  tls : Bool
  refreshInterval : ℕ
  healthCheckInterval : Option ℕ
  deriving DecidableEq, Repr

/-- A raw TCP route. -/
structure TcpRouteEntry where
  dnsServer : SocketAddr
  name : String
  port : BitVec 16
  listenPort : BitVec 16
  refreshInterval : ℕ
  healthCheckInterval : Option ℕ
  deriving DecidableEq, Repr

structure RouteSummary where
  host : String
  pathPrefix : Option String
  dnsServer : SocketAddr
  name : String
  port : BitVec 16
  tls : Bool
  healthCheck : Bool
  deriving DecidableEq, Repr

structure TcpRouteSummary where
  listenPort : BitVec 16
  dnsServer : SocketAddr
  name : String
  port : BitVec 16
  healthCheck : Bool
  deriving DecidableEq, Repr

/-- What a route by host is made from. -/
structure RouteApply where
  host : String
  pathPrefix : Option String
  dnsServer : SocketAddr
  name : String
  port : BitVec 16
  refreshIntervalSecs : ℕ
  tls : Bool
  reloadCertificate : Bool
  preserveExistingTls : Bool
  healthCheck : Option HealthCheckRequest
  deriving DecidableEq, Repr

/-- What a raw TCP route is made from. -/
structure TcpRouteApply where
  listenPort : BitVec 16
  dnsServer : SocketAddr
  name : String
  port : BitVec 16
  refreshIntervalSecs : ℕ
  healthCheck : Option HealthCheckRequest
  deriving DecidableEq, Repr

inductive AdminRequest
  | routeApply (apply : RouteApply)
  | routeRemove (host : String) (pathPrefix : Option String)
  | routeList
  | tcpRouteApply (apply : TcpRouteApply)
  | tcpRouteRemove (listenPort : BitVec 16)
  | tcpRouteList
  deriving DecidableEq, Repr

inductive AdminResponse
  | ok
  | routes (routes : List RouteSummary)
  | tcpRoutes (routes : List TcpRouteSummary)
  | error (message : String)
  deriving DecidableEq, Repr

end Requests

section Tables

/-- Longer path prefixes come first, and the route without one comes last. -/
def precedes (left right : RouteEntry) : Bool :=
  match left.pathPrefix, right.pathPrefix with
  | some left, some right => right.utf8ByteSize ≤ left.utf8ByteSize
  | some _, none => true
  | none, some _ => false
  | none, none => true

def sortByPrefixLengthDescending (entries : List RouteEntry) : List RouteEntry :=
  entries.insertionSort fun left right => precedes left right = true

theorem sortByPrefixLengthDescending_perm (entries : List RouteEntry) :
    (sortByPrefixLengthDescending entries).Perm entries :=
  List.perm_insertionSort _ entries

/-- The routes of one host: no two of them have the same path prefix. -/
structure HostRoutes where
  entries : List RouteEntry
  distinct : (entries.map RouteEntry.pathPrefix).Nodup

namespace HostRoutes

/-- The routes of a host without any. -/
def empty : HostRoutes := ⟨[], List.nodup_nil⟩

/-- The route of a path prefix. -/
def find (routes : HostRoutes) (pathPrefix : Option String) : Option RouteEntry :=
  routes.entries.find? fun entry => entry.pathPrefix = pathPrefix

theorem find_eq_some_iff
    {routes : HostRoutes}
    {entry : RouteEntry} :
    routes.find pathPrefix = some entry ↔
      entry ∈ routes.entries ∧ entry.pathPrefix = pathPrefix := by
  constructor
  · intro found
    exact ⟨List.mem_of_find?_eq_some found, by simpa using List.find?_some found⟩
  · rintro ⟨member, rfl⟩
    cases found : routes.find entry.pathPrefix with
    | none =>
        have absent := List.find?_eq_none.mp found entry member
        simp at absent
    | some other =>
        have same : other.pathPrefix = entry.pathPrefix := by
          simpa using List.find?_some found
        rw [List.inj_on_of_nodup_map routes.distinct (List.mem_of_find?_eq_some found) member same]

/-- The routes of the other path prefixes. -/
def drop (routes : HostRoutes) (pathPrefix : Option String) : HostRoutes where
  entries := routes.entries.filter fun entry => entry.pathPrefix ≠ pathPrefix
  distinct := routes.distinct.sublist (List.filter_sublist.map _)

theorem put_distinct (routes : HostRoutes) (entry : RouteEntry) :
    ((sortByPrefixLengthDescending ((routes.drop entry.pathPrefix).entries ++ [entry])).map
      RouteEntry.pathPrefix).Nodup := by
  rw [((sortByPrefixLengthDescending_perm _).map _).nodup_iff, List.map_append,
    List.nodup_append]
  refine ⟨(routes.drop entry.pathPrefix).distinct, List.nodup_singleton _, ?_⟩
  intro kept keptMember new newMember
  obtain ⟨other, otherMember, rfl⟩ := List.mem_map.mp keptMember
  rw [List.map_singleton, List.mem_singleton] at newMember
  rw [newMember]
  simpa [drop] using (List.mem_filter.mp otherMember).2

/-- Add a route in place of the one with its path prefix. -/
def put (routes : HostRoutes) (entry : RouteEntry) : HostRoutes where
  entries :=
    sortByPrefixLengthDescending ((routes.drop entry.pathPrefix).entries ++ [entry])
  distinct := routes.put_distinct entry

variable {routes : HostRoutes} {entry : RouteEntry} {pathPrefix other : Option String}

theorem find_drop_self : (routes.drop pathPrefix).find pathPrefix = none := by
  apply List.find?_eq_none.mpr
  intro entry member
  simpa [drop] using (List.mem_filter.mp member).2

theorem find_drop_of_ne (different : other ≠ pathPrefix) :
    (routes.drop pathPrefix).find other = routes.find other := by
  apply Option.ext
  intro entry
  simp only [find_eq_some_iff, drop, List.mem_filter, decide_not, Bool.not_eq_eq_eq_not,
    Bool.not_true, decide_eq_false_iff_not]
  constructor
  · rintro ⟨⟨member, _⟩, same⟩
    exact ⟨member, same⟩
  · rintro ⟨member, rfl⟩
    exact ⟨⟨member, different⟩, rfl⟩

theorem mem_put (candidate : RouteEntry) :
    candidate ∈ (routes.put entry).entries ↔
      candidate ∈ (routes.drop entry.pathPrefix).entries ∨ candidate = entry := by
  rw [put, (sortByPrefixLengthDescending_perm _).mem_iff, List.mem_append, List.mem_singleton]

theorem find_put_self : (routes.put entry).find entry.pathPrefix = some entry := by
  rw [find_eq_some_iff, mem_put]
  exact ⟨Or.inr rfl, rfl⟩

theorem find_put_of_ne (different : other ≠ entry.pathPrefix) :
    (routes.put entry).find other = routes.find other := by
  have kept : (routes.drop entry.pathPrefix).find other = routes.find other :=
    find_drop_of_ne different
  rw [← kept]
  apply Option.ext
  intro candidate
  rw [find_eq_some_iff, find_eq_some_iff, mem_put]
  constructor
  · rintro ⟨kept | rfl, same⟩
    · exact ⟨kept, same⟩
    · exact absurd same.symm different
  · rintro ⟨kept, same⟩
    exact ⟨Or.inl kept, same⟩

end HostRoutes

/-- The tables of the proxy, and its certificates if it serves any. -/
structure RouteManager where
  routes : Std.ExtTreeMap String HostRoutes
  tcpRoutes : Std.ExtTreeMap (BitVec 16) TcpRouteEntry
  certStore : Option CertStore

namespace RouteManager

/-- The route of a host and a path prefix. -/
def route (manager : RouteManager) (place : String × Option String) : Option RouteEntry :=
  manager.routes[place.1]?.bind fun routes => routes.find place.2

def routeTls (manager : RouteManager) (host : String) (pathPrefix : Option String) :
    Option Bool :=
  (manager.route (host, pathPrefix)).map RouteEntry.tls

/-- Add or replace the route of a host and a path prefix. -/
def apply (manager : RouteManager) (request : RouteApply) (tls : Bool) : RouteManager :=
  let healthCheck := request.healthCheck.map HealthCheckSpec.ofRequest
  let entry : RouteEntry :=
    { dnsServer := request.dnsServer
      name := request.name
      port := request.port
      pathPrefix := request.pathPrefix
      tls := tls
      refreshInterval := max request.refreshIntervalSecs 1
      healthCheckInterval := healthCheck.map HealthCheckSpec.interval }
  let routes := manager.routes[request.host]?.getD HostRoutes.empty
  { manager with routes := manager.routes.insert request.host (routes.put entry) }

/-- Remove the route of a host and a path prefix. -/
def remove (manager : RouteManager) (host : String) (pathPrefix : Option String) :
    RouteManager :=
  match manager.routes[host]? with
  | none => manager
  | some routes =>
      let kept := routes.drop pathPrefix
      if kept.entries = [] then { manager with routes := manager.routes.erase host }
      else { manager with routes := manager.routes.insert host kept }

def list (manager : RouteManager) : List RouteSummary :=
  manager.routes.toList.flatMap fun (host, routes) => routes.entries.map fun entry =>
    { host := host
      pathPrefix := entry.pathPrefix
      dnsServer := entry.dnsServer
      name := entry.name
      port := entry.port
      tls := entry.tls
      healthCheck := entry.healthCheckInterval.isSome }

/-- The hosts that ask for a certificate. -/
def tlsHosts (manager : RouteManager) : List String :=
  (manager.routes.toList.filter fun (host, routes) =>
    !isWildcardHost host && routes.entries.any RouteEntry.tls).map Prod.fst

/-- A port that is claimed under another name is refused. -/
def tcpCheck (manager : RouteManager) (request : TcpRouteApply) : Except String Unit :=
  match manager.tcpRoutes[request.listenPort]? with
  | none => .ok ()
  | some existing =>
      if existing.name = request.name then .ok ()
      else
        let port := request.listenPort.toNat
        let owner := existing.name
        .error (s!"listen_port {port} is already in use by '{owner}'; " ++
          "each TCP route needs its own public port")

/-- Add or replace the route of a port. -/
def tcpInsert (manager : RouteManager) (request : TcpRouteApply) : RouteManager :=
  let healthCheck := request.healthCheck.map HealthCheckSpec.ofRequest
  let entry : TcpRouteEntry :=
    { dnsServer := request.dnsServer
      name := request.name
      port := request.port
      listenPort := request.listenPort
      refreshInterval := max request.refreshIntervalSecs 1
      healthCheckInterval := healthCheck.map HealthCheckSpec.interval }
  { manager with tcpRoutes := manager.tcpRoutes.insert request.listenPort entry }

def tcpRemove (manager : RouteManager) (listenPort : BitVec 16) : RouteManager :=
  { manager with tcpRoutes := manager.tcpRoutes.erase listenPort }

def tcpList (manager : RouteManager) : List TcpRouteSummary :=
  manager.tcpRoutes.toList.map fun (_, entry) =>
    { listenPort := entry.listenPort
      dnsServer := entry.dnsServer
      name := entry.name
      port := entry.port
      healthCheck := entry.healthCheckInterval.isSome }

/-- The name under which a port is claimed. -/
def tcpOwner (manager : RouteManager) (listenPort : BitVec 16) : Option String :=
  manager.tcpRoutes[listenPort]?.map TcpRouteEntry.name

def reloadStaticCertificate (ssl : OpenSsl) (manager : RouteManager) (host : String) :
    Except String RouteManager :=
  match manager.certStore with
  | none => .error "HTTPS is not enabled in jiji-proxy"
  | some store =>
      (store.reloadStatic ssl host).map fun store => { manager with certStore := some store }

/-- The tables of a proxy that starts. -/
def start
    (certStore : Option CertStore)
    (routes : List RouteApply)
    (tcpRoutes : List TcpRouteApply) : Except String RouteManager :=
  let seeded := routes.foldl
    (fun manager request =>
      manager.apply { request with host := request.host.toLower } request.tls)
    ⟨∅, ∅, certStore⟩
  tcpRoutes.foldlM
    (fun manager request => (manager.tcpCheck request).map fun _ => manager.tcpInsert request)
    seeded

variable {manager : RouteManager} {request : RouteApply} {tls : Bool}
variable {tcpRequest : TcpRouteApply} {listenPort other : BitVec 16}
variable {host : String} {pathPrefix : Option String} {place : String × Option String}

theorem routes_apply (name : String) :
    (manager.apply request tls).route (name, pathPrefix) =
      if name = request.host then
        ((manager.routes[request.host]?.getD HostRoutes.empty).put
          { dnsServer := request.dnsServer
            name := request.name
            port := request.port
            pathPrefix := request.pathPrefix
            tls := tls
            refreshInterval := max request.refreshIntervalSecs 1
            healthCheckInterval := (request.healthCheck.map HealthCheckSpec.ofRequest).map
              HealthCheckSpec.interval }).find pathPrefix
      else manager.route (name, pathPrefix) := by
  simp only [route, apply, Std.ExtTreeMap.getElem?_insert, Std.compare_eq_iff_eq,
    eq_comm (a := request.host)]
  split
  · rfl
  · rfl

/-- The route that was applied has the flag that it was applied with. -/
theorem routeTls_apply_self :
    ((manager.apply request tls).route (request.host, request.pathPrefix)).map RouteEntry.tls =
      some tls := by
  rw [routes_apply, if_pos rfl, HostRoutes.find_put_self]
  rfl

theorem route_empty (manager : RouteManager) (host : String) (pathPrefix : Option String) :
    (manager.routes[host]?.getD HostRoutes.empty).find pathPrefix =
      manager.route (host, pathPrefix) := by
  rw [route]
  cases manager.routes[host]? with
  | none => rfl
  | some routes => rfl

/-- The other routes are left alone. -/
theorem route_apply_of_ne (different : place ≠ (request.host, request.pathPrefix)) :
    (manager.apply request tls).route place = manager.route place := by
  obtain ⟨host, pathPrefix⟩ := place
  rw [routes_apply]
  split
  · rename_i same
    subst same
    rw [HostRoutes.find_put_of_ne, route_empty]
    intro same
    exact different (by rw [same])
  · rfl

theorem route_remove_self : (manager.remove host pathPrefix).route (host, pathPrefix) = none := by
  unfold remove
  split
  · rename_i absent
    simp [route, absent]
  · dsimp only
    split
    · simp [route]
    · simp [route, HostRoutes.find_drop_self]

theorem route_remove_of_ne (different : place ≠ (host, pathPrefix)) :
    (manager.remove host pathPrefix).route place = manager.route place := by
  obtain ⟨otherHost, otherPrefix⟩ := place
  unfold remove
  split
  · rfl
  · rename_i routes present
    by_cases same : otherHost = host
    · subst same
      have apart : otherPrefix ≠ pathPrefix := by
        intro same
        exact different (by rw [same])
      have kept : manager.route (otherHost, otherPrefix) =
          (routes.drop pathPrefix).find otherPrefix := by
        rw [route, present, HostRoutes.find_drop_of_ne apart]
        rfl
      rw [kept]
      dsimp only
      split
      · rename_i none
        simp [route, HostRoutes.find, none]
      · simp [route]
    · dsimp only
      split
      · simp [route, Std.ExtTreeMap.getElem?_erase, Ne.symm same]
      · simp [route, Std.ExtTreeMap.getElem?_insert, Ne.symm same]

@[simp] theorem tcpOwner_tcpInsert_self :
    (manager.tcpInsert tcpRequest).tcpOwner tcpRequest.listenPort = some tcpRequest.name := by
  simp [tcpOwner, tcpInsert]

theorem tcpOwner_tcpInsert_of_ne (different : other ≠ tcpRequest.listenPort) :
    (manager.tcpInsert tcpRequest).tcpOwner other = manager.tcpOwner other := by
  simp [tcpOwner, tcpInsert, Std.ExtTreeMap.getElem?_insert, Ne.symm different]

@[simp] theorem tcpOwner_tcpRemove_self :
    (manager.tcpRemove listenPort).tcpOwner listenPort = none := by
  simp [tcpOwner, tcpRemove]

theorem tcpOwner_tcpRemove_of_ne (different : other ≠ listenPort) :
    (manager.tcpRemove listenPort).tcpOwner other = manager.tcpOwner other := by
  simp [tcpOwner, tcpRemove, Std.ExtTreeMap.getElem?_erase, Ne.symm different]

/-- A port that passes the check is free or claimed under the same name. -/
theorem tcpOwner_of_tcpCheck
    (passes : manager.tcpCheck tcpRequest = .ok ())
    (owned : manager.tcpOwner tcpRequest.listenPort = some owner) :
    owner = tcpRequest.name := by
  obtain ⟨entry, found, rfl⟩ := Option.map_eq_some_iff.mp owned
  simp only [tcpCheck, found] at passes
  split at passes
  · assumption
  · cases passes

end RouteManager

end Tables

section Machine

/-- How far an admin request has come: it waits for its first section, its certificate is
reloaded, its names are resolved and its backends checked, or it is answered. -/
inductive CallStage
  | arrived
  | reloaded
  | resolving (tls : Bool)
  | connecting
  | answered (response : AdminResponse)
  deriving DecidableEq, Repr

structure AdminCall where
  request : AdminRequest
  stage : CallStage
  deriving DecidableEq, Repr

/-- The flag that a route is applied with. -/
def RouteManager.effectiveTls (manager : RouteManager) (request : RouteApply) : Bool :=
  if request.preserveExistingTls then
    (manager.routeTls request.host request.pathPrefix).getD request.tls
  else request.tls

/-- The next section of an admin request, where the resolver for its backends may turn out
to be impossible to build. -/
def AdminCall.nextSection
    (ssl : OpenSsl)
    (discovery : Except String Unit)
    (manager : RouteManager)
    (call : AdminCall) : Option (RouteManager × CallStage) :=
  match call.request, call.stage with
  | .routeApply request, .arrived =>
      if request.reloadCertificate then
        match manager.reloadStaticCertificate ssl request.host with
        | .error error =>
            let host := request.host
            some (manager,
              .answered (.error s!"could not reload certificate for '{host}': {error}"))
        | .ok manager => some (manager, .reloaded)
      else some (manager, .reloaded)
  | .routeApply request, .reloaded =>
      match discovery with
      | .error error => some (manager, .answered (.error error))
      | .ok _ => some (manager, .resolving (manager.effectiveTls request))
  | .routeApply request, .resolving tls => some (manager.apply request tls, .answered .ok)
  | .routeRemove host pathPrefix, .arrived =>
      some (manager.remove host pathPrefix, .answered .ok)
  | .routeList, .arrived => some (manager, .answered (.routes manager.list))
  | .tcpRouteApply request, .arrived =>
      match manager.tcpCheck request, discovery with
      | .error error, _ => some (manager, .answered (.error error))
      | .ok _, .error error => some (manager, .answered (.error error))
      | .ok _, .ok _ => some (manager, .connecting)
  | .tcpRouteApply request, .connecting => some (manager.tcpInsert request, .answered .ok)
  | .tcpRouteRemove listenPort, .arrived =>
      some (manager.tcpRemove listenPort, .answered .ok)
  | .tcpRouteList, .arrived => some (manager, .answered (.tcpRoutes manager.tcpList))
  | _, _ => none

/-- What a section of a request may do: reload a certificate, look at a table, write to a
table, or nothing that a later section or another request depends on. -/
inductive SectionEffect (ssl : OpenSsl) (manager : RouteManager) :
    AdminCall → RouteManager → CallStage → Prop
  | reload (request : RouteApply) {next : RouteManager} :
      request.reloadCertificate = true →
      manager.reloadStaticCertificate ssl request.host = .ok next →
      SectionEffect ssl manager ⟨.routeApply request, .arrived⟩ next .reloaded
  | look (request : RouteApply) :
      SectionEffect ssl manager ⟨.routeApply request, .reloaded⟩ manager
        (.resolving (manager.effectiveTls request))
  | apply (request : RouteApply) (tls : Bool) :
      SectionEffect ssl manager ⟨.routeApply request, .resolving tls⟩
        (manager.apply request tls) (.answered .ok)
  | remove (host : String) (pathPrefix : Option String) :
      SectionEffect ssl manager ⟨.routeRemove host pathPrefix, .arrived⟩
        (manager.remove host pathPrefix) (.answered .ok)
  | tcpCheck (request : TcpRouteApply) :
      manager.tcpCheck request = .ok () →
      SectionEffect ssl manager ⟨.tcpRouteApply request, .arrived⟩ manager .connecting
  | tcpInsert (request : TcpRouteApply) :
      SectionEffect ssl manager ⟨.tcpRouteApply request, .connecting⟩
        (manager.tcpInsert request) (.answered .ok)
  | tcpRemove (listenPort : BitVec 16) :
      SectionEffect ssl manager ⟨.tcpRouteRemove listenPort, .arrived⟩
        (manager.tcpRemove listenPort) (.answered .ok)
  | quiet {call : AdminCall} {stage : CallStage} :
      stage ≠ .connecting → (∀ tls, stage ≠ .resolving tls) →
      SectionEffect ssl manager call manager stage

theorem AdminCall.effect_of_nextSection
    {discovery : Except String Unit}
    {manager next : RouteManager}
    {call : AdminCall}
    {stage : CallStage}
    (proceeds : call.nextSection ssl discovery manager = some (next, stage)) :
    SectionEffect ssl manager call next stage := by
  obtain ⟨request, current⟩ := call
  cases request with
  | routeApply request =>
      cases current with
      | arrived =>
          simp only [AdminCall.nextSection] at proceeds
          split at proceeds
          · rename_i asked
            split at proceeds
            · cases proceeds
              exact .quiet (by simp) (by simp)
            · rename_i reloaded
              cases proceeds
              exact .reload request asked reloaded
          · cases proceeds
            exact .quiet (by simp) (by simp)
      | reloaded =>
          simp only [AdminCall.nextSection] at proceeds
          split at proceeds
          · cases proceeds
            exact .quiet (by simp) (by simp)
          · cases proceeds
            exact .look request
      | resolving tls =>
          cases proceeds
          exact .apply request tls
      | connecting => cases proceeds
      | answered response => cases proceeds
  | tcpRouteApply request =>
      cases current with
      | arrived =>
          simp only [AdminCall.nextSection] at proceeds
          split at proceeds
          · cases proceeds
            exact .quiet (by simp) (by simp)
          · cases proceeds
            exact .quiet (by simp) (by simp)
          · rename_i passes
            cases proceeds
            exact .tcpCheck request passes
      | connecting =>
          cases proceeds
          exact .tcpInsert request
      | reloaded => cases proceeds
      | resolving tls => cases proceeds
      | answered response => cases proceeds
  | routeRemove host pathPrefix =>
      cases current <;> cases proceeds
      exact .remove host pathPrefix
  | tcpRouteRemove listenPort =>
      cases current <;> cases proceeds
      exact .tcpRemove listenPort
  | routeList =>
      cases current <;> cases proceeds
      exact .quiet (by simp) (by simp)
  | tcpRouteList =>
      cases current <;> cases proceeds
      exact .quiet (by simp) (by simp)

/-- How much of an ordered certificate is stored. -/
inductive StoreProgress
  | parsed
  | crtWritten
  | keyWritten
  deriving DecidableEq, Repr

/-- What the loop that orders certificates is doing: it waits for its next turn, has some
hosts left to look at, waits for an order, or stores a certificate. -/
inductive AcmePhase
  | waiting
  | checking (hosts : List String)
  | ordering (host : String) (rest : List String)
  | storing (host : String) (rest : List String) (certPem keyPem : String) (cert : X509)
      (key : PKey) (progress : StoreProgress)
  deriving DecidableEq

structure ProxyServer where
  manager : RouteManager
  calls : List AdminCall
  acme : AcmePhase
  now : ℕ

/-- The configuration of a proxy. -/
structure ProxySettings where
  routes : List RouteApply
  tcpRoutes : List TcpRouteApply
  renewBefore : ℕ

/-- What may happen: an admin request arrives or goes through its next section, the loop that
orders certificates moves on, an operator places a file, time passes, or the proxy is
started again. -/
inductive ProxyEvent
  | arrive (request : AdminRequest)
  | proceed (position : ℕ) (discovery : Except String Unit)
  | check (hosts : List String)
  | visit
  | conclude (order : Except String (String × String))
  | store (written : Bool)
  | placeCrt (host pem : String)
  | placeKey (host pem : String)
  | wait (seconds : ℕ)
  | restart

namespace ProxyServer

/-- Change the certificates. -/
def withStore (server : ProxyServer) (store : CertStore) : ProxyServer :=
  { server with manager := { server.manager with certStore := some store } }

/-- The next section of the request at a position. -/
def proceed
    (ssl : OpenSsl)
    (server : ProxyServer)
    (position : ℕ)
    (discovery : Except String Unit)
    (call : AdminCall) : Option ProxyServer :=
  (call.nextSection ssl discovery server.manager).map fun (manager, stage) =>
    { server with
      manager := manager
      calls := server.calls.set position { call with stage := stage } }

/-- Read what an order has brought. -/
def parseIssued (ssl : OpenSsl) (certPem keyPem : String) : Except String (X509 × PKey) := do
  let cert ← ssl.certFromPem certPem
  let key ← ssl.keyFromPem keyPem
  .ok (cert, key)

/-- The loop that orders certificates moves on. -/
def acmeStep
    (ssl : OpenSsl)
    (settings : ProxySettings)
    (server : ProxyServer)
    (store : CertStore) : ProxyEvent → Option ProxyServer
  | .check hosts =>
      if server.acme = .waiting ∧ hosts.isPerm server.manager.tlsHosts then
        some { server with acme := .checking hosts }
      else none
  | .visit =>
      match server.acme with
      | .checking [] => some { server with acme := .waiting }
      | .checking (host :: rest) =>
          if store.needsIssuance ssl server.now host settings.renewBefore then
            some { server with acme := .ordering host rest }
          else some { server with acme := .checking rest }
      | _ => none
  | .conclude order =>
      match server.acme, order with
      | .ordering _ rest, .error _ => some { server with acme := .checking rest }
      | .ordering host rest, .ok (certPem, keyPem) =>
          match parseIssued ssl certPem keyPem with
          | .error _ => some { server with acme := .checking rest }
          | .ok (cert, key) =>
              some { server with acme := .storing host rest certPem keyPem cert key .parsed }
      | _, _ => none
  | .store written =>
      match server.acme with
      | .storing host rest certPem keyPem cert key .parsed =>
          if written then
            some { server.withStore (store.writeCrt host certPem) with
              acme := .storing host rest certPem keyPem cert key .crtWritten }
          else some { server with acme := .checking rest }
      | .storing host rest certPem keyPem cert key .crtWritten =>
          if written then
            some { server.withStore (store.writeKey host keyPem) with
              acme := .storing host rest certPem keyPem cert key .keyWritten }
          else some { server with acme := .checking rest }
      | .storing host rest _ _ cert key .keyWritten =>
          some { server.withStore (store.insert host ⟨cert, key, .acme⟩) with
            acme := .checking rest }
      | _ => none
  | _ => none

def advance (ssl : OpenSsl) (settings : ProxySettings) (server : ProxyServer) :
    ProxyEvent → Option ProxyServer
  | .arrive request => some { server with calls := server.calls ++ [⟨request, .arrived⟩] }
  | .proceed position discovery =>
      server.calls[position]?.bind (server.proceed ssl position discovery)
  | .placeCrt host pem =>
      server.manager.certStore.map fun store => server.withStore (store.writeCrt host pem)
  | .placeKey host pem =>
      server.manager.certStore.map fun store => server.withStore (store.writeKey host pem)
  | .wait seconds => some { server with now := server.now + seconds }
  | .restart =>
      match RouteManager.start
          (server.manager.certStore.map fun store => CertStore.load ssl store.dir)
          settings.routes settings.tcpRoutes with
      | .error _ => none
      | .ok manager => some ⟨manager, [], .waiting, server.now⟩
  | event => server.manager.certStore.bind fun store => server.acmeStep ssl settings store event

variable {ssl : OpenSsl} {settings : ProxySettings} {server next : ProxyServer}
variable {store : CertStore} {event : ProxyEvent}

/-- The loop that orders certificates leaves the tables and the requests alone. -/
theorem acmeStep_tables (stepped : server.acmeStep ssl settings store event = some next) :
    next.manager.routes = server.manager.routes ∧
      next.manager.tcpRoutes = server.manager.tcpRoutes ∧ next.calls = server.calls := by
  cases event with
  | check hosts =>
      simp only [acmeStep, Option.ite_none_right_eq_some, Option.some.injEq] at stepped
      rw [← stepped.2]
      exact ⟨rfl, rfl, rfl⟩
  | visit =>
      simp only [acmeStep] at stepped
      split at stepped
      · cases stepped
        exact ⟨rfl, rfl, rfl⟩
      · split at stepped <;> cases stepped <;> exact ⟨rfl, rfl, rfl⟩
      · cases stepped
  | conclude order =>
      simp only [acmeStep] at stepped
      split at stepped
      · cases stepped
        exact ⟨rfl, rfl, rfl⟩
      · split at stepped <;> cases stepped <;> exact ⟨rfl, rfl, rfl⟩
      · cases stepped
  | store written =>
      simp only [acmeStep] at stepped
      split at stepped
      · split at stepped <;> cases stepped <;> exact ⟨rfl, rfl, rfl⟩
      · split at stepped <;> cases stepped <;> exact ⟨rfl, rfl, rfl⟩
      · cases stepped
        exact ⟨rfl, rfl, rfl⟩
      · cases stepped
  | arrive request => cases stepped
  | proceed position discovery => cases stepped
  | placeCrt host pem => cases stepped
  | placeKey host pem => cases stepped
  | wait seconds => cases stepped
  | restart => cases stepped

end ProxyServer

/-- The proxy as a machine. -/
def proxyMachine (ssl : OpenSsl) (settings : ProxySettings) :
    Machine ProxyServer ProxyEvent where
  advance := ProxyServer.advance ssl settings

end Machine

end Proxy
end Jiji
