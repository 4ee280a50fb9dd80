import Jiji.Control.Reservation
import Jiji.Proxy.Server

/-!
# Requests that look first and write later

A raw TCP route is refused if its port is claimed under another name, and a route by host
may ask to keep the flag of the route that it replaces.  Both look at a table in one section
and write to it in a later one.  In between they hold a reservation, and the tables stay
coherent with the reservations as long as a request writes only what the others that have
already looked at the same entry are about to write.
-/

namespace Jiji
namespace Proxy

open Network Control

section Claims

variable {κ α : Type}

/-- Whether a request is between its look at an entry and its write: the entry and the value
that it is about to write. -/
abbrev Claim (κ α : Type) := AdminCall → Option (κ × α)

/-- A raw TCP route that has passed its check claims a port for a name. -/
def tcpClaim : Claim (BitVec 16) String
  | ⟨.tcpRouteApply request, .connecting⟩ => some (request.listenPort, request.name)
  | _ => none

/-- A route by host that keeps the flag of the route it replaces claims its place for the flag
that it has found. -/
def tlsClaim : Claim (String × Option String) Bool
  | ⟨.routeApply request, .resolving tls⟩ =>
      if request.preserveExistingTls then some ((request.host, request.pathPrefix), tls) else none
  | _ => none

/-- The flag that a route by host writes in its next section, whether it kept it or not. -/
def tlsWrite : Claim (String × Option String) Bool
  | ⟨.routeApply request, .resolving tls⟩ => some ((request.host, request.pathPrefix), tls)
  | _ => none

namespace ProxyServer

variable {server next : ProxyServer} {claim : Claim κ α} {call : AdminCall} {stage : CallStage}
variable {position : ℕ}

/-- Some request claims an entry for a value. -/
def Reserved (server : ProxyServer) (claim : Claim κ α) (key : κ) (value : α) : Prop :=
  ∃ (position : ℕ) (call : AdminCall),
    server.calls[position]? = some call ∧ claim call = some (key, value)

/-- A request writes an entry only if every other request that claims the entry claims it
for the same value. -/
def Agreeing (claim write : Claim κ α) (server : ProxyServer) : ProxyEvent → Prop
  | .proceed position _ =>
      ∀ call, server.calls[position]? = some call → ∀ key value, write call = some (key, value) →
        ∀ other otherCall, other ≠ position → server.calls[other]? = some otherCall →
          ∀ claimed, claim otherCall = some (key, claimed) → claimed = value
  | _ => True

/-- After a section, what is claimed is claimed by the request itself in its new stage or was
claimed by another one. -/
theorem reserved_of_set
    {value : α}
    (calls : next.calls = server.calls.set position { call with stage := stage })
    (reserved : next.Reserved claim key value) :
    claim { call with stage := stage } = some (key, value) ∨
      ∃ other otherCall, other ≠ position ∧ server.calls[other]? = some otherCall ∧
        claim otherCall = some (key, value) := by
  obtain ⟨other, otherCall, found, claims⟩ := reserved
  rw [calls, List.getElem?_set] at found
  split at found
  · split at found
    · obtain rfl := Option.some.inj found
      exact Or.inl claims
    · cases found
  · rename_i different
    exact Or.inr ⟨other, otherCall, Ne.symm different, found, claims⟩

theorem unchanged_of_acmeBind
    (advanced : (server.manager.certStore.bind fun store =>
      server.acmeStep ssl settings store event) = some next) :
    next.manager.routes = server.manager.routes ∧
      next.manager.tcpRoutes = server.manager.tcpRoutes ∧
      ∀ (position : ℕ) (call : AdminCall), next.calls[position]? = some call →
        server.calls[position]? = some call ∨ call.stage = .arrived := by
  obtain ⟨store, _, stepped⟩ := Option.bind_eq_some_iff.mp advanced
  obtain ⟨routes, tcpRoutes, calls⟩ := acmeStep_tables stepped
  exact ⟨routes, tcpRoutes, fun position call found => Or.inl (calls ▸ found)⟩

/-- An event that is not a section of a request leaves both tables as they are, and requests
only arrive. -/
theorem advance_cases
    {settings : ProxySettings}
    {event : ProxyEvent}
    (advanced : server.advance ssl settings event = some next)
    (stays : event ≠ .restart) :
    (∃ position discovery call manager stage, event = .proceed position discovery ∧
      server.calls[position]? = some call ∧
      call.nextSection ssl discovery server.manager = some (manager, stage) ∧
      next.manager = manager ∧
      next.calls = server.calls.set position { call with stage := stage }) ∨
    (next.manager.routes = server.manager.routes ∧
      next.manager.tcpRoutes = server.manager.tcpRoutes ∧
      ∀ (position : ℕ) (call : AdminCall), next.calls[position]? = some call →
        server.calls[position]? = some call ∨ call.stage = .arrived) := by
  cases event with
  | restart => exact absurd rfl stays
  | proceed position discovery =>
      obtain ⟨call, found, proceeds⟩ := Option.bind_eq_some_iff.mp advanced
      obtain ⟨⟨manager, stage⟩, sectioned, rfl⟩ := Option.map_eq_some_iff.mp proceeds
      exact Or.inl ⟨position, discovery, call, manager, stage, rfl, found, sectioned, rfl, rfl⟩
  | arrive request =>
      cases advanced
      refine Or.inr ⟨rfl, rfl, fun position call found => ?_⟩
      rw [List.getElem?_append] at found
      split at found
      · exact Or.inl found
      · obtain rfl := List.mem_singleton.mp (List.mem_of_getElem? found)
        exact Or.inr rfl
  | placeCrt host pem =>
      obtain ⟨store, _, rfl⟩ := Option.map_eq_some_iff.mp advanced
      exact Or.inr ⟨rfl, rfl, fun _ _ found => Or.inl found⟩
  | placeKey host pem =>
      obtain ⟨store, _, rfl⟩ := Option.map_eq_some_iff.mp advanced
      exact Or.inr ⟨rfl, rfl, fun _ _ found => Or.inl found⟩
  | wait seconds =>
      cases advanced
      exact Or.inr ⟨rfl, rfl, fun _ _ found => Or.inl found⟩
  | check hosts =>
      exact Or.inr (unchanged_of_acmeBind advanced)
  | visit =>
      exact Or.inr (unchanged_of_acmeBind advanced)
  | conclude order =>
      exact Or.inr (unchanged_of_acmeBind advanced)
  | store written =>
      exact Or.inr (unchanged_of_acmeBind advanced)

/-- Requests that only arrive claim nothing. -/
theorem reserved_of_arrived
    {value : α}
    (calls : ∀ (position : ℕ) (call : AdminCall), next.calls[position]? = some call →
      server.calls[position]? = some call ∨ call.stage = .arrived)
    (unclaimed : ∀ call : AdminCall, call.stage = .arrived → claim call = none)
    (reserved : next.Reserved claim key value) :
    server.Reserved claim key value := by
  obtain ⟨position, call, found, claims⟩ := reserved
  cases calls position call found with
  | inl earlier => exact ⟨position, call, earlier, claims⟩
  | inr arrived =>
      rw [unclaimed call arrived] at claims
      cases claims

/-- A request that claims nothing in its new stage leaves the claims of the others. -/
theorem reserved_of_section
    {value : α}
    (calls : next.calls = server.calls.set position { call with stage := stage })
    (unclaimed : claim { call with stage := stage } = none)
    (reserved : next.Reserved claim key value) :
    server.Reserved claim key value := by
  cases reserved_of_set calls reserved with
  | inl own =>
      rw [unclaimed] at own
      cases own
  | inr others =>
      obtain ⟨other, otherCall, _, found, claims⟩ := others
      exact ⟨other, otherCall, found, claims⟩

/-- A request that claims an entry in its new stage adds one claim. -/
theorem reserved_or_own
    (calls : next.calls = server.calls.set position { call with stage := stage })
    (own : claim { call with stage := stage } = some (target, pending))
    (key : κ)
    (value : α)
    (reserved : next.Reserved claim key value) :
    server.Reserved claim key value ∨ key = target ∧ value = pending := by
  cases reserved_of_set calls reserved with
  | inl new =>
      obtain ⟨rfl, rfl⟩ := Prod.mk.inj (Option.some.inj (own.symm.trans new))
      exact Or.inr ⟨rfl, rfl⟩
  | inr others =>
      obtain ⟨other, otherCall, _, found, claims⟩ := others
      exact Or.inl ⟨other, otherCall, found, claims⟩

/-- What is still claimed of an entry that a section writes is claimed for the value written. -/
theorem eq_of_agreeing
    (agreeing : server.Agreeing claim write (.proceed position discovery))
    (found : server.calls[position]? = some call)
    (writes : write call = some (target, written))
    (calls : next.calls = server.calls.set position { call with stage := stage })
    (unclaimed : claim { call with stage := stage } = none)
    (value : α)
    (reserved : next.Reserved claim target value) :
    value = written := by
  cases reserved_of_set calls reserved with
  | inl own =>
      rw [unclaimed] at own
      cases own
  | inr others =>
      obtain ⟨other, otherCall, different, otherFound, claims⟩ := others
      exact agreeing call found _ _ writes other otherCall different otherFound value claims

/-- Without requests nothing is claimed. -/
theorem coherent_of_idle (idle : server.calls = []) : Coherent (server.Reserved claim) table := by
  rintro key value ⟨position, call, found, _⟩
  rw [idle] at found
  cases found

end ProxyServer

end Claims

section Sections

variable {ssl : OpenSsl} {discovery : Except String Unit} {manager next : RouteManager}
variable {call : AdminCall} {stage : CallStage}

theorem routes_of_reload
    {host : String}
    (reloaded : manager.reloadStaticCertificate ssl host = .ok next) :
    next.routes = manager.routes ∧ next.tcpRoutes = manager.tcpRoutes := by
  unfold RouteManager.reloadStaticCertificate at reloaded
  split at reloaded
  · cases reloaded
  · rename_i store _
    cases read : store.reloadStatic ssl host with
    | error error =>
        rw [read] at reloaded
        cases reloaded
    | ok store =>
        rw [read] at reloaded
        cases reloaded
        exact ⟨rfl, rfl⟩

theorem tcpRoutes_remove (host : String) (pathPrefix : Option String) :
    (manager.remove host pathPrefix).tcpRoutes = manager.tcpRoutes := by
  unfold RouteManager.remove
  split
  · rfl
  · dsimp only
    split
    · rfl
    · rfl

end Sections

section Ports

variable {ssl : OpenSsl} {settings : ProxySettings} {server next : ProxyServer}
variable {event : ProxyEvent}

theorem tcpClaim_eq_none {call : AdminCall} (idle : call.stage ≠ .connecting) :
    tcpClaim call = none := by
  unfold tcpClaim
  split
  · simp at idle
  · rfl

theorem tcpOwner_congr
    {manager other : RouteManager}
    (tables : manager.tcpRoutes = other.tcpRoutes) :
    manager.tcpOwner = other.tcpOwner := by
  funext listenPort
  rw [RouteManager.tcpOwner, RouteManager.tcpOwner, tables]

/-- The ports are claimed under the names that the requests on their way claim them for. -/
def ProxyServer.PortsCoherent (server : ProxyServer) : Prop :=
  Coherent (server.Reserved tcpClaim) server.manager.tcpOwner

/-- Every step that agrees with the claims of the others keeps the ports coherent. -/
theorem ProxyServer.PortsCoherent.advance
    (coherent : server.PortsCoherent)
    (agreeing : server.Agreeing tcpClaim tcpClaim event)
    (stays : event ≠ .restart)
    (advanced : server.advance ssl settings event = some next) :
    next.PortsCoherent := by
  cases advance_cases advanced stays with
  | inr unchanged =>
      obtain ⟨_, tables, calls⟩ := unchanged
      unfold PortsCoherent
      rw [tcpOwner_congr tables]
      refine coherent.mono fun key value => reserved_of_arrived calls ?_
      intro call arrived
      exact tcpClaim_eq_none (by rw [arrived]; simp)
  | inl sectioned =>
      obtain ⟨position, discovery, call, manager, stage, rfl, found, proceeds, managed, calls⟩ :=
        sectioned
      have quiet : stage ≠ .connecting → ∀ key value, next.Reserved tcpClaim key value →
          server.Reserved tcpClaim key value := by
        intro idle key value
        exact reserved_of_section calls (tcpClaim_eq_none idle)
      unfold PortsCoherent
      rw [managed]
      cases call.effect_of_nextSection proceeds with
      | reload request _ reloaded =>
          rw [tcpOwner_congr (routes_of_reload reloaded).2]
          exact coherent.mono (quiet (by simp))
      | look request => exact coherent.mono (quiet (by simp))
      | apply request tls => exact coherent.mono (quiet (by simp))
      | remove host pathPrefix =>
          rw [tcpOwner_congr (tcpRoutes_remove host pathPrefix)]
          exact coherent.mono (quiet (by simp))
      | tcpCheck request passes =>
          exact coherent.reserve
            (fun owner owned => RouteManager.tcpOwner_of_tcpCheck passes owned)
            (reserved_or_own calls rfl)
      | tcpInsert request =>
          exact coherent.write (quiet (by simp)) (eq_of_agreeing agreeing found rfl calls rfl)
            RouteManager.tcpOwner_tcpInsert_self
            fun key different => RouteManager.tcpOwner_tcpInsert_of_ne different
      | tcpRemove removed =>
          exact coherent.erase (quiet (by simp)) RouteManager.tcpOwner_tcpRemove_self
            fun key different => RouteManager.tcpOwner_tcpRemove_of_ne different
      | quiet idle _ => exact coherent.mono (quiet idle)

/-- A port keeps its name in every such step, unless its route is removed. -/
theorem ProxyServer.PortsCoherent.owner_advance
    {name : String}
    (coherent : server.PortsCoherent)
    (stays : event ≠ .restart)
    (advanced : server.advance ssl settings event = some next)
    (owned : server.manager.tcpOwner listenPort = some name) :
    next.manager.tcpOwner listenPort = some name ∨
      ∃ position discovery, event = .proceed position discovery ∧
        server.calls[position]? = some ⟨.tcpRouteRemove listenPort, .arrived⟩ := by
  cases advance_cases advanced stays with
  | inr unchanged => exact Or.inl (by rw [tcpOwner_congr unchanged.2.1, owned])
  | inl sectioned =>
      obtain ⟨position, discovery, call, manager, stage, rfl, found, proceeds, managed, _⟩ :=
        sectioned
      rw [managed]
      cases call.effect_of_nextSection proceeds with
      | reload request _ reloaded =>
          exact Or.inl (by rw [tcpOwner_congr (routes_of_reload reloaded).2, owned])
      | look request => exact Or.inl owned
      | apply request tls => exact Or.inl owned
      | remove host pathPrefix =>
          exact Or.inl (by rw [tcpOwner_congr (tcpRoutes_remove host pathPrefix), owned])
      | tcpCheck request passes => exact Or.inl owned
      | tcpInsert request =>
          refine Or.inl ?_
          by_cases same : listenPort = request.listenPort
          · subst same
            have kept : name = request.name :=
              coherent _ request.name ⟨position, _, found, rfl⟩ name owned
            rw [RouteManager.tcpOwner_tcpInsert_self, kept]
          · rw [RouteManager.tcpOwner_tcpInsert_of_ne same, owned]
      | tcpRemove removed =>
          by_cases same : listenPort = removed
          · subst same
            exact Or.inr ⟨position, discovery, rfl, found⟩
          · exact Or.inl (by rw [RouteManager.tcpOwner_tcpRemove_of_ne same, owned])
      | quiet _ _ => exact Or.inl owned

/-- The proxy keeps running, and a raw TCP route is added only if every other raw TCP route
that has passed its check for the same port has the same name. -/
def ProxyServer.PortsRespected (server : ProxyServer) (event : ProxyEvent) : Prop :=
  event ≠ .restart ∧ server.Agreeing tcpClaim tcpClaim event

/-- On the way from one state to another a request removed the route of a port that was
claimed under a name. -/
def ProxyServer.RemovedBetween
    (ssl : OpenSsl)
    (settings : ProxySettings)
    (listenPort : BitVec 16)
    (name : String)
    (server later : ProxyServer) : Prop :=
  ∃ middle next position discovery,
    (proxyMachine ssl settings).Reaches ProxyServer.PortsRespected server middle ∧
    middle.manager.tcpOwner listenPort = some name ∧
    middle.calls[position]? = some ⟨.tcpRouteRemove listenPort, .arrived⟩ ∧
    middle.advance ssl settings (.proceed position discovery) = some next ∧
    (proxyMachine ssl settings).Reaches ProxyServer.PortsRespected next later

/-- As long as its route is not removed, a port keeps its name. -/
theorem ProxyServer.PortsCoherent.owner_or_removed
    (coherent : server.PortsCoherent)
    (owned : server.manager.tcpOwner listenPort = some name)
    (goesOn : (proxyMachine ssl settings).Reaches PortsRespected server later) :
    later.PortsCoherent ∧
      (later.manager.tcpOwner listenPort = some name ∨
        RemovedBetween ssl settings listenPort name server later) := by
  induction goesOn with
  | start => exact ⟨coherent, Or.inl owned⟩
  | @step state reached event goesOn allowed advanced inductionHypothesis =>
      obtain ⟨stateCoherent, progress⟩ := inductionHypothesis
      refine ⟨stateCoherent.advance allowed.2 allowed.1 advanced, ?_⟩
      cases progress with
      | inl kept =>
          cases stateCoherent.owner_advance allowed.1 advanced kept with
          | inl still => exact Or.inl still
          | inr removal =>
              obtain ⟨position, discovery, rfl, found⟩ := removal
              exact Or.inr ⟨state, reached, position, discovery, goesOn, kept, found, advanced,
                .start⟩
      | inr removed =>
          obtain ⟨middle, next, position, discovery, before, held, found, removes, after⟩ :=
            removed
          exact Or.inr ⟨middle, next, position, discovery, before, held, found, removes,
            .step event after allowed advanced⟩

/-- If a port is claimed under one name in some state and under another one in a later state,
its route was removed in between. -/
theorem tcp_port_taken_over_only_after_removal
    (ssl : OpenSsl)
    (settings : ProxySettings)
    {start server later : ProxyServer}
    {listenPort : BitVec 16}
    {name other : String}
    (idle : start.calls = [])
    (reaches : (proxyMachine ssl settings).Reaches ProxyServer.PortsRespected start server)
    (owned : server.manager.tcpOwner listenPort = some name)
    (goesOn : (proxyMachine ssl settings).Reaches ProxyServer.PortsRespected server later)
    (taken : later.manager.tcpOwner listenPort = some other)
    (different : name ≠ other) :
    ProxyServer.RemovedBetween ssl settings listenPort name server later := by
  have coherent : server.PortsCoherent := by
    refine reaches.invariant (ProxyServer.coherent_of_idle idle) ?_
    intro state event next before allowed advanced
    exact before.advance allowed.2 allowed.1 advanced
  cases (coherent.owner_or_removed owned goesOn).2 with
  | inl still =>
      rw [still] at taken
      exact absurd (Option.some.inj taken) different
  | inr removed => exact removed

/-- A library that reads every text as one and the same pair, which ends after ninety days. -/
def sampleSsl : OpenSsl where
  certFromPem _ := .ok ⟨.ok "key", 7776000⟩
  keyFromPem _ := .ok ⟨"key"⟩
  daysFromNow now days := .ok (now + 86400 * days)
  daysFromNow_eq _ _ _ computed := (Except.ok.inj computed).symm

/-- Certificates are renewed thirty days before they end. -/
def sampleSettings : ProxySettings := ⟨[], [], 2592000⟩

/-- A proxy without routes. -/
def idleProxy : ProxyServer := ⟨⟨∅, ∅, none⟩, [], .waiting, 0⟩

/-- Two projects that ask for one public port. -/
def sampleTcpApply (name : String) : AdminRequest :=
  .tcpRouteApply ⟨5432, ⟨.v4 0, 53⟩, name, 5432, 5, none⟩

/-- The condition on a section, decided. -/
def ProxyServer.agreeing
    {κ α : Type}
    [DecidableEq κ]
    [DecidableEq α]
    (claim write : Claim κ α)
    (server : ProxyServer) : ProxyEvent → Bool
  | .proceed position _ =>
      match server.calls[position]?.bind write with
      | none => true
      | some (key, value) =>
          (List.range server.calls.length).all fun other =>
            other = position || (server.calls[other]?.bind claim).all fun (place, claimed) =>
              place ≠ key || claimed = value
  | _ => true

theorem ProxyServer.agreeing_of_agreeing
    {κ α : Type}
    [DecidableEq κ]
    [DecidableEq α]
    {claim write : Claim κ α}
    (passed : server.agreeing claim write event = true) :
    server.Agreeing claim write event := by
  cases event with
  | proceed position discovery =>
      intro call found key value writes other otherCall different otherFound claimed claims
      have inside := (List.getElem?_eq_some_iff.mp otherFound).1
      simp only [agreeing, found, Option.bind_some, writes, List.all_eq_true,
        List.mem_range] at passed
      simpa [different, otherFound, claims] using passed other inside
  | _ => trivial

def ProxyServer.portsRespected (server : ProxyServer) : ProxyEvent → Bool
  | .restart => false
  | event => server.agreeing tcpClaim tcpClaim event

theorem ProxyServer.portsRespected_of_portsRespected
    (server : ProxyServer)
    (event : ProxyEvent)
    (passed : server.portsRespected event = true) :
    server.PortsRespected event := by
  unfold portsRespected at passed
  split at passed
  · cases passed
  · rename_i stays
    exact ⟨stays, agreeing_of_agreeing passed⟩

theorem tcp_port_taken_over_only_after_removal_handedOver :
    ∃ server later,
      (proxyMachine sampleSsl sampleSettings).Reaches ProxyServer.PortsRespected
        idleProxy server ∧
      server.manager.tcpOwner 5432 = some "shop-db.jiji" ∧
      (proxyMachine sampleSsl sampleSettings).Reaches ProxyServer.PortsRespected
        server later ∧
      later.manager.tcpOwner 5432 = some "blog-db.jiji" ∧
      ProxyServer.RemovedBetween sampleSsl sampleSettings 5432 "shop-db.jiji" server later := by
  have ran : ((((proxyMachine sampleSsl sampleSettings).checked
      ProxyServer.portsRespected).run idleProxy
        [.arrive (sampleTcpApply "shop-db.jiji"), .proceed 0 (.ok ()),
          .proceed 0 (.ok ())]).bind fun server =>
      (((proxyMachine sampleSsl sampleSettings).checked ProxyServer.portsRespected).run server
        [.arrive (.tcpRouteRemove 5432), .proceed 1 (.ok ()),
          .arrive (sampleTcpApply "blog-db.jiji"), .proceed 2 (.ok ()),
          .proceed 2 (.ok ())]).map fun later =>
        (server.manager.tcpOwner 5432, later.manager.tcpOwner 5432)) =
      some (some "shop-db.jiji", some "blog-db.jiji") := by
    decide +kernel
  obtain ⟨server, before, rest⟩ := Option.bind_eq_some_iff.mp ran
  obtain ⟨later, after, summary⟩ := Option.map_eq_some_iff.mp rest
  obtain ⟨owned, taken⟩ := Prod.mk.inj summary
  have reaches :=
    Machine.reaches_of_checked before ProxyServer.portsRespected_of_portsRespected
  have goesOn :=
    Machine.reaches_of_checked after ProxyServer.portsRespected_of_portsRespected
  exact ⟨server, later, reaches, owned, goesOn, taken,
    tcp_port_taken_over_only_after_removal sampleSsl sampleSettings rfl reaches owned goesOn
      taken (by decide)⟩

/-- Two requests that pass the check of a free port before one of them adds its route are both
added, and the second one takes the port over. -/
theorem both_checked_port_taken_over :
    ((proxyMachine sampleSsl sampleSettings).run idleProxy
      [.arrive (sampleTcpApply "shop-db.jiji"), .arrive (sampleTcpApply "blog-db.jiji"),
        .proceed 0 (.ok ()), .proceed 1 (.ok ()), .proceed 0 (.ok ())]).bind (fun server =>
      ((proxyMachine sampleSsl sampleSettings).run server [.proceed 1 (.ok ())]).map
        fun later => (server.manager.tcpOwner 5432, later.manager.tcpOwner 5432)) =
      some (some "shop-db.jiji", some "blog-db.jiji") := by
  decide +kernel

end Ports

section Flags

variable {ssl : OpenSsl} {settings : ProxySettings} {server next : ProxyServer}
variable {event : ProxyEvent}

theorem tlsClaim_eq_none {call : AdminCall} (idle : ∀ tls, call.stage ≠ .resolving tls) :
    tlsClaim call = none := by
  unfold tlsClaim
  split
  · simp at idle
  · rfl

/-- The flags of the routes by host and path. -/
def RouteManager.flags (manager : RouteManager) (place : String × Option String) : Option Bool :=
  (manager.route place).map RouteEntry.tls

theorem flags_congr
    {manager other : RouteManager}
    (tables : manager.routes = other.routes) :
    manager.flags = other.flags := by
  funext place
  rw [RouteManager.flags, RouteManager.flags, RouteManager.route, RouteManager.route, tables]

/-- The routes have the flags that the requests on their way have kept. -/
def ProxyServer.FlagsCoherent (server : ProxyServer) : Prop :=
  Coherent (server.Reserved tlsClaim) server.manager.flags

/-- A request that keeps a flag claims what it has found. -/
theorem effectiveTls_of_flags
    {manager : RouteManager}
    {current : Bool}
    (preserves : request.preserveExistingTls = true)
    (found : manager.flags (request.host, request.pathPrefix) = some current) :
    current = manager.effectiveTls request := by
  unfold RouteManager.flags at found
  simp [RouteManager.effectiveTls, RouteManager.routeTls, preserves, found]

/-- Every step that agrees with the flags the others have kept leaves the routes coherent. -/
theorem ProxyServer.FlagsCoherent.advance
    (coherent : server.FlagsCoherent)
    (agreeing : server.Agreeing tlsClaim tlsWrite event)
    (advanced : server.advance ssl settings event = some next) :
    next.FlagsCoherent := by
  by_cases restarts : event = .restart
  · subst restarts
    simp only [ProxyServer.advance] at advanced
    split at advanced
    · cases advanced
    · cases advanced
      exact coherent_of_idle rfl
  cases advance_cases advanced restarts with
  | inr unchanged =>
      obtain ⟨tables, _, calls⟩ := unchanged
      unfold FlagsCoherent
      rw [flags_congr tables]
      refine coherent.mono fun key value => reserved_of_arrived calls ?_
      intro call arrived
      exact tlsClaim_eq_none (by rw [arrived]; simp)
  | inl sectioned =>
      obtain ⟨position, discovery, call, manager, stage, rfl, found, proceeds, managed, calls⟩ :=
        sectioned
      have quiet : (∀ tls, stage ≠ .resolving tls) → ∀ key value,
          next.Reserved tlsClaim key value → server.Reserved tlsClaim key value := by
        intro idle key value
        exact reserved_of_section calls (tlsClaim_eq_none idle)
      unfold FlagsCoherent
      rw [managed]
      cases call.effect_of_nextSection proceeds with
      | reload request _ reloaded =>
          rw [flags_congr (routes_of_reload reloaded).1]
          exact coherent.mono (quiet (by simp))
      | look request =>
          by_cases preserves : request.preserveExistingTls = true
          · refine coherent.reserve (fun current => effectiveTls_of_flags preserves)
              (reserved_or_own calls ?_)
            exact if_pos preserves
          · refine coherent.mono fun key value => reserved_of_section calls ?_
            simp [tlsClaim, preserves]
      | apply request tls =>
          refine coherent.write (quiet (by simp)) (eq_of_agreeing agreeing found rfl calls rfl)
            RouteManager.routeTls_apply_self ?_
          intro place different
          rw [RouteManager.flags, RouteManager.flags, RouteManager.route_apply_of_ne different]
      | remove host pathPrefix =>
          have erased :
              (server.manager.remove host pathPrefix).flags (host, pathPrefix) = none := by
            rw [RouteManager.flags, RouteManager.route_remove_self]
            rfl
          refine coherent.erase (quiet (by simp)) erased ?_
          intro place different
          rw [RouteManager.flags, RouteManager.flags, RouteManager.route_remove_of_ne different]
      | tcpCheck request passes => exact coherent.mono (quiet (by simp))
      | tcpInsert request => exact coherent.mono (quiet (by simp))
      | tcpRemove removed => exact coherent.mono (quiet (by simp))
      | quiet _ idle => exact coherent.mono (quiet idle)

/-- If a route is added only while every other request that has already looked at the flag of
the same route, to keep it, is about to write the same flag, then a request that keeps a flag
and replaces a route writes the flag of the route that it replaces. -/
theorem preserved_flag_is_the_replaced_one
    (ssl : OpenSsl)
    (settings : ProxySettings)
    {start server next : ProxyServer}
    {position : ℕ}
    {discovery : Except String Unit}
    {request : RouteApply}
    {tls : Bool}
    {replaced : RouteEntry}
    (idle : start.calls = [])
    (reaches : (proxyMachine ssl settings).Reaches
      (ProxyServer.Agreeing tlsClaim tlsWrite) start server)
    (found : server.calls[position]? = some ⟨.routeApply request, .resolving tls⟩)
    (preserves : request.preserveExistingTls = true)
    (replaces : server.manager.route (request.host, request.pathPrefix) = some replaced)
    (advanced : server.advance ssl settings (.proceed position discovery) = some next) :
    ∃ entry, next.manager.route (request.host, request.pathPrefix) = some entry ∧
      entry.tls = replaced.tls := by
  have coherent : server.FlagsCoherent := by
    refine reaches.invariant (ProxyServer.coherent_of_idle idle) ?_
    intro state event next before allowed advanced
    exact before.advance allowed advanced
  have claims : tlsClaim ⟨.routeApply request, .resolving tls⟩ =
      some ((request.host, request.pathPrefix), tls) := by
    simp [tlsClaim, preserves]
  have kept : replaced.tls = tls := by
    refine coherent _ tls ⟨position, _, found, claims⟩ replaced.tls ?_
    rw [RouteManager.flags, replaces]
    rfl
  have applied : next.manager = server.manager.apply request tls := by
    have written : ProxyServer.proceed ssl server position discovery
        ⟨.routeApply request, .resolving tls⟩ = some next := by
      rw [← advanced, ProxyServer.advance, found, Option.bind_some]
    exact congrArg ProxyServer.manager (Option.some.inj written).symm
  have flagged : ((server.manager.apply request tls).route
      (request.host, request.pathPrefix)).map RouteEntry.tls = some tls :=
    RouteManager.routeTls_apply_self
  obtain ⟨entry, present, flag⟩ := Option.map_eq_some_iff.mp flagged
  exact ⟨entry, by rw [applied, present], by rw [flag, kept]⟩

/-- A route of the shop, applied by a deployment or repaired by the agent. -/
def sampleApply (tls preserve : Bool) : RouteApply :=
  ⟨"shop.example", none, ⟨.v4 0, 53⟩, "shop-web.jiji", 80, 5, tls, false, preserve, none⟩

/-- A deployment has switched transport security on, and the agent repairs the route. -/
def repairAfterDeployment : List ProxyEvent :=
  [.arrive (.routeApply (sampleApply true false)), .proceed 0 (.ok ()), .proceed 0 (.ok ()),
    .proceed 0 (.ok ()), .arrive (.routeApply (sampleApply false true)), .proceed 1 (.ok ()),
    .proceed 1 (.ok ())]

theorem preserved_flag_is_the_replaced_one_repair :
    ∃ server next replaced entry,
      (proxyMachine sampleSsl sampleSettings).Reaches
        (ProxyServer.Agreeing tlsClaim tlsWrite) idleProxy server ∧
      server.manager.route ("shop.example", none) = some replaced ∧ replaced.tls = true ∧
      server.advance sampleSsl sampleSettings (.proceed 1 (.ok ())) = some next ∧
      next.manager.route ("shop.example", none) = some entry ∧ entry.tls = replaced.tls := by
  have ran : ((((proxyMachine sampleSsl sampleSettings).checked
      (ProxyServer.agreeing tlsClaim tlsWrite)).run idleProxy repairAfterDeployment).bind
        fun server => (server.advance sampleSsl sampleSettings (.proceed 1 (.ok ()))).map
          fun _ => (server.calls[1]?, server.manager.flags ("shop.example", none))) =
      some (some ⟨.routeApply (sampleApply false true), .resolving true⟩, some true) := by
    decide +kernel
  obtain ⟨server, before, rest⟩ := Option.bind_eq_some_iff.mp ran
  obtain ⟨next, advanced, summary⟩ := Option.map_eq_some_iff.mp rest
  obtain ⟨found, flag⟩ := Prod.mk.inj summary
  obtain ⟨replaced, replaces, secure⟩ := Option.map_eq_some_iff.mp flag
  have reaches := Machine.reaches_of_checked before fun _ _ => ProxyServer.agreeing_of_agreeing
  obtain ⟨entry, present, same⟩ := preserved_flag_is_the_replaced_one sampleSsl sampleSettings
    rfl reaches found rfl replaces advanced
  exact ⟨server, next, replaced, entry, reaches, replaces, secure, advanced, present, same⟩

/-- A repair that looks at the flag before a deployment switches transport security on writes
its old value over the new one. -/
theorem repair_during_deployment_drops_flag :
    ((proxyMachine sampleSsl sampleSettings).run idleProxy
      [.arrive (.routeApply (sampleApply false false)), .proceed 0 (.ok ()), .proceed 0 (.ok ()),
        .proceed 0 (.ok ()), .arrive (.routeApply (sampleApply false true)),
        .proceed 1 (.ok ()), .proceed 1 (.ok ()),
        .arrive (.routeApply (sampleApply true false)), .proceed 2 (.ok ()),
        .proceed 2 (.ok ()), .proceed 2 (.ok ())]).bind (fun server =>
      ((proxyMachine sampleSsl sampleSettings).run server [.proceed 1 (.ok ())]).map
        fun next => (server.calls[1]?, server.manager.flags ("shop.example", none),
          next.manager.flags ("shop.example", none))) =
      some (some ⟨.routeApply (sampleApply false true), .resolving false⟩, some true,
        some false) := by
  decide +kernel

end Flags

end Proxy
end Jiji
