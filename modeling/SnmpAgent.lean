import SnmpAgent.Main
import SnmpAgent.Proofs.Config.Merging
import SnmpAgent.Proofs.Engine.Admission
import SnmpAgent.Proofs.Engine.Failures
import SnmpAgent.Proofs.Engine.Limits
import SnmpAgent.Proofs.Engine.Retrieval
import SnmpAgent.Proofs.Engine.Snapshots
import SnmpAgent.Proofs.Engine.Splicing
import SnmpAgent.Proofs.Engine.Walks
import SnmpAgent.Proofs.Host.Averages
import SnmpAgent.Proofs.Host.Layout
import SnmpAgent.Proofs.Host.Usage
import SnmpAgent.Proofs.Message.Containers
import SnmpAgent.Proofs.Message.Streams
import SnmpAgent.Proofs.Mib.Defects
import SnmpAgent.Proofs.Mib.Rows
import SnmpAgent.Proofs.Mib.Standard
import SnmpAgent.Proofs.Oid.Base128
import SnmpAgent.Proofs.Oid.Repacking
import SnmpAgent.Proofs.Server.Eviction
import SnmpAgent.Proofs.Server.Isolation
import SnmpAgent.Proofs.Server.Overtaking
import SnmpAgent.Proofs.Server.Reassembly
import SnmpAgent.Proofs.Server.Scripts
import SnmpAgent.Proofs.Server.Streams
