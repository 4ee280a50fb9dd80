import Jiji.Cli.NetworkRollback
import Jiji.Text.Lines

/-!
# The WireGuard configuration as a file

The configuration of a server is a text with one block for every peer whose key is known.
The private key is put in on the server itself.
-/

namespace Jiji
namespace Cli

open Std Network

section Rendering

/-- The text that stands for the private key until the file is installed. -/
def privateKeyPlaceholder : String := "__JIJI_PRIVATE_KEY__"

/-- The lines for the server itself. -/
def interfaceText (server : Network.ServerPlan) : String :=
  "[Interface]\nAddress = " ++ server.managementAddress.display ++ "/32\nListenPort = " ++
    toString server.wireguardPort ++ "\nPrivateKey = " ++ privateKeyPlaceholder ++ "\n"

/-- The block of a peer. -/
def peerText (peer : WireGuardPeerPlan) (publicKey : String) : String :=
  "\n[Peer]\n# " ++ peer.server ++ "\nPublicKey = " ++ publicKey ++ "\nEndpoint = " ++
    peer.endpoint ++ "\nAllowedIPs = " ++
    ", ".intercalate (peer.allowedIps.map Ipv4Cidr.display) ++ "\nPersistentKeepalive = 25\n"

/-- The configuration of a server as a text; `renderWireguard` says what its blocks mean. -/
def renderWireguardText
    (server : Network.ServerPlan)
    (publicKeys : ExtTreeMap String String) : String :=
  server.peers.foldl
    (fun output peer =>
      match publicKeys[peer.server]? with
      | none => output
      | some publicKey => output ++ peerText peer publicKey)
    (interfaceText server)

/-- Put the private key into a configuration, once in every line. -/
def finalizeWireguard (privateKey : String) (text : String) : String :=
  String.ofList (Text.mapLines
    (Text.replaceFirst privateKeyPlaceholder.toList privateKey.toList) text.toList)

end Rendering

section Sample

/-- The keys of the sample project. -/
def samplePublicKeys : ExtTreeMap String String := {("a", "ka"), ("b", "kb")}

end Sample

end Cli
end Jiji
