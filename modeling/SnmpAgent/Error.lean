import SnmpAgent.Ber.Fault
import SnmpAgent.Mib.Fault
import SnmpAgent.Config.Fault
import SnmpAgent.Net.Address

/-!
# Errors

Everything that can go wrong in the agent, one constructor for each area, and
the wording of each.

* `AgentError.message`: the text of an error;
* `AgentError.target?`: the peer that an error concerns.
-/

namespace SnmpAgent

/-- What can go wrong in the agent. -/
inductive AgentError where
  | io (target : Option SocketAddr) (source : String)
  | bind (address : SocketAddr) (source : String)
  | invalidOid (fault : Oid.Fault)
  | decode (error : DecodeError)
  | encode (error : EncodeError)
  | mib (fault : MibFault) (oid : Oid)
  | invalidCommunity (target : Option SocketAddr)
  | config (fault : ConfigFault)
  deriving DecidableEq

namespace AgentError

/-- The text of an error. -/
def message : AgentError → String
  | .io none source => s!"I/O error: {source}"
  | .io (some target) source => s!"I/O error communicating with {target}: {source}"
  | .bind address source => s!"failed to bind {address}: {source}"
  | .invalidOid fault => s!"invalid OID: {fault.message}"
  | .decode error => error.message
  | .encode error => error.message
  | .mib fault oid => s!"MIB build failed at {oid}: {fault.message}"
  | .invalidCommunity none => "invalid community"
  | .invalidCommunity (some target) => s!"invalid community from {target}"
  | .config fault => s!"configuration error: {fault.message}"

/-- The peer that an error concerns. -/
def target? : AgentError → Option SocketAddr
  | .io target _ => target
  | .invalidCommunity target => target
  | _ => none

end AgentError

end SnmpAgent
