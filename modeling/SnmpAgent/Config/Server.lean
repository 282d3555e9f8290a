import SnmpAgent.Net.Address

/-!
# Where the server listens

The server listens on one UDP and one TCP address, by default the wildcard
addresses of one family on the port of the protocol.
-/

namespace SnmpAgent

/-- The port of the protocol. -/
def defaultPort : UInt16 := 161

/-- The most connections that wait to be accepted. -/
def listenBacklog : Int32 := 128

/-- The families of addresses: IPv4 alone, or IPv6, which also serves IPv4
    peers. -/
inductive AddressFamily where
  | ipv4
  | ipv6
  deriving DecidableEq

/-- The wildcard address of a family on a port. -/
def AddressFamily.any : AddressFamily → UInt16 → SocketAddr
  | .ipv4, port => SocketAddr.anyV4 port
  | .ipv6, port => SocketAddr.anyV6 port

/-- Where the server listens. -/
structure ServerConfig where
  udp : SocketAddr
  tcp : SocketAddr
  /-- The network device to which the server is restricted, if any. -/
  device : Option String := none
  /-- The most connections that wait to be accepted. -/
  backlog : Int32 := listenBacklog
  deriving DecidableEq

namespace ServerConfig

/-- The wildcard addresses of a family; connections use the port for datagrams
    unless they have one of their own. -/
def wildcard (family : AddressFamily) (udpPort : UInt16) (tcpPort : Option UInt16) :
    ServerConfig :=
  { udp := family.any udpPort, tcp := family.any (tcpPort.getD udpPort) }

/-- The wildcard IPv6 addresses on the port of the protocol. -/
def standard : ServerConfig := wildcard .ipv6 defaultPort none

end ServerConfig

end SnmpAgent
