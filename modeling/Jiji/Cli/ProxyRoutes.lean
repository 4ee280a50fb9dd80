import Jiji.Agent.Membership

/-!
# Planning of proxy routes

The routes of a service follow from its proxy configuration alone: one route for
each host of a target, or one raw TCP route for a target that listens on a port of
its own.  The certificates of a route may name variables of the environment.
-/

namespace Jiji
namespace Cli

open Network

/-- Transport security of a route: switched on or off, or given by a certificate
and its key, each literal or the name of a variable. -/
inductive SslValue
  | enabled (on : Bool)
  | certs (certificatePem privateKeyPem : String)
  deriving DecidableEq, Repr

structure ProxyTarget where
  port : ℕ
  hosts : Option (List String)
  ssl : Option SslValue
  pathPrefix : Option String
  listenPort : Option (BitVec 16)
  deriving DecidableEq, Repr

structure ProxyConfig where
  port : Option ℕ
  hosts : Option (List String)
  ssl : Option SslValue
  pathPrefix : Option String
  targets : Option (List ProxyTarget)
  listenPort : Option (BitVec 16)
  deriving DecidableEq, Repr

structure RouteTarget where
  host : String
  pathPrefix : Option String
  dnsServer : SocketAddr
  name : String
  port : BitVec 16
  ssl : Option SslValue
  deriving DecidableEq, Repr

structure TcpRouteTarget where
  listenPort : BitVec 16
  dnsServer : SocketAddr
  name : String
  port : BitVec 16
  deriving DecidableEq, Repr

/-- A port number that fits in 16 bits. -/
def portOf (value : ℕ) : Option (BitVec 16) :=
  if value < 2 ^ 16 then some (BitVec.ofNat 16 value) else none

/-- Text that looks like PEM data. -/
def isPem (value : String) : Bool :=
  "-----BEGIN ".toList.isPrefixOf (value.toList.dropWhile Agent.isWhitespace)

/-- The name that the proxy resolves to find the replicas of a service. -/
def routeName (project serviceName : String) : String :=
  project ++ "-" ++ serviceName ++ ".jiji"

/-- The port of a target, or the reason for which it is refused. -/
def targetPort (serviceName : String) (port : ℕ) : Except String (BitVec 16) :=
  match portOf port with
  | some port => .ok port
  | none => .error s!"service '{serviceName}' proxy target port {port} is out of range (must fit in 16 bits)"

/-- The port of a proxy without targets, or the reason for which it is refused. -/
def proxyPort (serviceName : String) (port : ℕ) : Except String (BitVec 16) :=
  match portOf port with
  | some port => .ok port
  | none => .error s!"service '{serviceName}' proxy port {port} is out of range (must fit in 16 bits)"

/-- The routes by host of one target; a target that listens itself has none. -/
def ProxyTarget.routes
    (project serviceName : String)
    (dnsServer : SocketAddr)
    (target : ProxyTarget) : Except String (List RouteTarget) :=
  if target.listenPort.isSome then .ok []
  else (targetPort serviceName target.port).map fun port =>
    (target.hosts.getD []).map fun host =>
      ⟨host, target.pathPrefix, dnsServer, routeName project serviceName, port, target.ssl⟩

/-- The raw TCP route of a target that listens itself. -/
def ProxyTarget.tcpRoutes
    (project serviceName : String)
    (dnsServer : SocketAddr)
    (target : ProxyTarget) : Except String (List TcpRouteTarget) :=
  match target.listenPort with
  | none => .ok []
  | some listenPort => (targetPort serviceName target.port).map fun port =>
      [⟨listenPort, dnsServer, routeName project serviceName, port⟩]

/-- The routes by host of a service. -/
def targetsForService
    (project serviceName : String)
    (proxy : Option ProxyConfig)
    (dnsServer : SocketAddr) : Except String (List RouteTarget) :=
  match proxy with
  | none => .ok []
  | some proxy =>
      match proxy.targets, proxy.listenPort, proxy.port with
      | some targets, _, _ =>
          (targets.mapM (ProxyTarget.routes project serviceName dnsServer)).map List.flatten
      | none, none, some port => (proxyPort serviceName port).map fun port =>
          (proxy.hosts.getD []).map fun host =>
            ⟨host, proxy.pathPrefix, dnsServer, routeName project serviceName, port, proxy.ssl⟩
      | none, _, _ => .ok []

/-- The raw TCP routes of a service. -/
def tcpTargetsForService
    (project serviceName : String)
    (proxy : Option ProxyConfig)
    (dnsServer : SocketAddr) : Except String (List TcpRouteTarget) :=
  match proxy with
  | none => .ok []
  | some proxy =>
      match proxy.targets, proxy.listenPort, proxy.port with
      | some targets, _, _ =>
          (targets.mapM (ProxyTarget.tcpRoutes project serviceName dnsServer)).map List.flatten
      | none, some listenPort, some port => (proxyPort serviceName port).map fun port =>
          [⟨listenPort, dnsServer, routeName project serviceName, port⟩]
      | none, _, _ => .ok []

/-- The PEM data that a certificate or key stands for. -/
def resolveTlsSecret
    (environment : String → Option String)
    (host kind value : String) : Except String String :=
  if isPem value then .ok value
  else
    match environment value with
    | none => .error s!"TLS {kind} variable '{value}' for host '{host}' was not resolved"
    | some resolved =>
        if isPem resolved then .ok resolved
        else .error s!"TLS {kind} for host '{host}' is not PEM data"

/-- Replace the variables that the certificate and key of a route name. -/
def RouteTarget.resolveTls
    (environment : String → Option String)
    (target : RouteTarget) : Except String RouteTarget :=
  match target.ssl with
  | some (.certs certificatePem privateKeyPem) =>
      match resolveTlsSecret environment target.host "certificate" certificatePem with
      | .error error => .error error
      | .ok certificate =>
          (resolveTlsSecret environment target.host "private key" privateKeyPem).map
            fun key => { target with ssl := some (.certs certificate key) }
  | _ => .ok target

/-- Replace the variables that the certificates of routes name. -/
def resolveTlsSecrets
    (environment : String → Option String)
    (targets : List RouteTarget) : Except String (List RouteTarget) :=
  targets.mapM (RouteTarget.resolveTls environment)

end Cli
end Jiji
