import SnmpAgent.Config.Agent
import SnmpAgent.Mib.Definition

/-!
# The standard variables

The variables that every agent exports: the system, interfaces, ip, tcp and
udp groups, the uptime of the host, and memory, disks, load averages and
processor figures. Definitions are listed by ascending name, the columns of a
table one after another.

Texts, sizes and addresses are taken from the configuration and one snapshot
and never change; the other figures are metrics.

* `standardDefinitions`: the definitions for a configuration.
-/

namespace SnmpAgent

namespace Standard

/-- The node of the system group. -/
def system : Oid := ⟨[1, 3, 6, 1, 2, 1, 1]⟩

/-- The node of the interfaces group. -/
def interfaces : Oid := ⟨[1, 3, 6, 1, 2, 1, 2]⟩

/-- The node of the columns of ifTable. -/
def ifEntry : Oid := ⟨[1, 3, 6, 1, 2, 1, 2, 2, 1]⟩

/-- The node of the ip group. -/
def ip : Oid := ⟨[1, 3, 6, 1, 2, 1, 4]⟩

/-- The node of the tcp group. -/
def tcp : Oid := ⟨[1, 3, 6, 1, 2, 1, 6]⟩

/-- The node of the udp group. -/
def udp : Oid := ⟨[1, 3, 6, 1, 2, 1, 7]⟩

/-- The node of the host resources. -/
def hrSystem : Oid := ⟨[1, 3, 6, 1, 2, 1, 25, 1]⟩

/-- The node of the memory figures. -/
def memory : Oid := ⟨[1, 3, 6, 1, 4, 1, 2021, 4]⟩

/-- The node of the columns of dskTable. -/
def dskEntry : Oid := ⟨[1, 3, 6, 1, 4, 1, 2021, 9, 1]⟩

/-- The node of the columns of laTable. -/
def laEntry : Oid := ⟨[1, 3, 6, 1, 4, 1, 2021, 10, 1]⟩

/-- The node of the processor figures. -/
def systemStats : Oid := ⟨[1, 3, 6, 1, 4, 1, 2021, 11]⟩

/-- A scalar that is sampled. -/
def sampled (root : Oid) (column : UInt32) (type : ValueType) (m : Metric) : Definition :=
  .scalar root column type (.metric m)

/-- A scalar that never changes. -/
def constant (root : Oid) (column : UInt32) (type : ValueType) (v : Value) : Definition :=
  .scalar root column type (.fixed v)

/-- A table column that holds the numbers of its rows. -/
def rowNumbers (root : Oid) (column : UInt32) (rows : Nat) : Definition :=
  .table root column .integer
    ((List.range rows).map fun row => .fixed (.integer (Int32.ofNat (row + 1))))

/-- A table column of texts. -/
def texts (root : Oid) (column : UInt32) (rows : List String) : Definition :=
  .table root column .octetString (rows.map fun text => .fixed (.ofString text))

/-- A table column that is sampled. -/
def sampledRows (root : Oid) (column : UInt32) (type : ValueType) (rows : Nat)
    (m : Nat → Metric) : Definition :=
  .table root column type ((List.range rows).map fun row => .metric (m row))

/-- The system group. -/
def systemGroup (c : AgentConfig) (s : Snapshot) : List Definition := [
  constant system 1 .octetString (.ofString c.description),
  constant system 2 .objectIdentifier (.objectIdentifier c.vendor),
  sampled system 3 .timeTicks .agentUptime,
  constant system 4 .octetString (.ofString c.contact),
  constant system 5 .octetString (.ofString s.hostname),
  constant system 6 .octetString (.ofString c.location)]

/-- A column of ifTable with a figure of each interface that never changes. -/
def ifColumn (c : AgentConfig) (s : Snapshot) (column : UInt32) (type : ValueType)
    (figure : Interface → Value) : Definition :=
  .table ifEntry column type ((List.range c.interfaces.length).map fun row =>
    .fixed (figure ((s.interfaces[row]?).getD {})))

/-- A column of ifTable that is sampled. -/
def ifMetric (c : AgentConfig) (column : UInt32) (type : ValueType) (field : InterfaceField) :
    Definition :=
  sampledRows ifEntry column type c.interfaces.length (.interface · field)

/-- The interfaces group. -/
def interfacesGroup (c : AgentConfig) (s : Snapshot) : List Definition := [
  constant interfaces 1 .integer (.integer (Int32.ofNat c.interfaces.length)),
  rowNumbers ifEntry 1 c.interfaces.length,
  texts ifEntry 2 c.interfaces,
  ifColumn c s 3 .integer fun i => .integer i.ifType,
  ifColumn c s 4 .integer fun i => .integer i.mtu,
  ifColumn c s 5 .gauge32 fun i => .gauge32 i.speed,
  ifColumn c s 6 .octetString fun i => .octetString i.physAddress.toList,
  ifMetric c 7 .integer .adminStatus,
  ifMetric c 8 .integer .operStatus,
  ifMetric c 10 .counter32 .inOctets,
  ifMetric c 11 .counter32 .inUcastPkts,
  ifMetric c 13 .counter32 .inDiscards,
  ifMetric c 14 .counter32 .inErrors,
  ifMetric c 16 .counter32 .outOctets,
  ifMetric c 17 .counter32 .outUcastPkts,
  ifMetric c 19 .counter32 .outDiscards,
  ifMetric c 20 .counter32 .outErrors]

/-- The ip group. -/
def ipGroup : List Definition := [
  sampled ip 1 .integer (.ip .forwarding),
  sampled ip 2 .integer (.ip .defaultTtl),
  sampled ip 13 .integer (.ip .reasmTimeout)]

/-- The tcp group. -/
def tcpGroup : List Definition := [
  sampled tcp 1 .integer (.tcp .rtoAlgorithm),
  sampled tcp 2 .integer (.tcp .rtoMin),
  sampled tcp 3 .integer (.tcp .rtoMax),
  sampled tcp 4 .integer (.tcp .maxConn),
  sampled tcp 5 .counter32 (.tcp .activeOpens),
  sampled tcp 6 .counter32 (.tcp .passiveOpens),
  sampled tcp 7 .counter32 (.tcp .attemptFails),
  sampled tcp 8 .counter32 (.tcp .estabResets),
  sampled tcp 9 .gauge32 (.tcp .currEstab),
  sampled tcp 10 .counter32 (.tcp .inSegs),
  sampled tcp 11 .counter32 (.tcp .outSegs),
  sampled tcp 12 .counter32 (.tcp .retransSegs),
  sampled tcp 14 .counter32 (.tcp .inErrs),
  sampled tcp 15 .counter32 (.tcp .outRsts)]

/-- The udp group. -/
def udpGroup : List Definition := [
  sampled udp 1 .counter32 (.udp .inDatagrams),
  sampled udp 2 .counter32 (.udp .noPorts),
  sampled udp 3 .counter32 (.udp .inErrors),
  sampled udp 4 .counter32 (.udp .outDatagrams)]

/-- The host resources. -/
def hostGroup : List Definition := [sampled hrSystem 1 .timeTicks .systemUptime]

/-- The memory figures. -/
def memoryGroup : List Definition := [
  sampled memory 5 .integer (.memory .total),
  sampled memory 6 .integer (.memory .free),
  sampled memory 13 .integer (.memory .shared),
  sampled memory 14 .integer (.memory .buffers),
  sampled memory 15 .integer (.memory .cached)]

/-- A column of dskTable that is sampled. -/
def dskMetric (c : AgentConfig) (column : UInt32) (type : ValueType) (field : DiskField) :
    Definition :=
  sampledRows dskEntry column type c.disks.length (.disk · field)

/-- The disk table. -/
def diskGroup (c : AgentConfig) : List Definition := [
  rowNumbers dskEntry 1 c.disks.length,
  texts dskEntry 2 c.disks,
  dskMetric c 6 .integer .total,
  dskMetric c 7 .integer .avail,
  dskMetric c 8 .integer .used,
  dskMetric c 9 .integer .percent,
  dskMetric c 10 .integer .percentNode]

/-- The load averages. -/
def loadGroup : List Definition := [
  rowNumbers laEntry 1 3,
  texts laEntry 2 ["Load-1", "Load-5", "Load-15"],
  sampledRows laEntry 3 .octetString 3 (.load · .text),
  sampledRows laEntry 5 .integer 3 (.load · .integer)]

/-- The processor figures. -/
def cpuGroup : List Definition := [
  sampled systemStats 50 .counter32 (.cpu .user),
  sampled systemStats 51 .counter32 (.cpu .nice),
  sampled systemStats 52 .counter32 (.cpu .system),
  sampled systemStats 53 .counter32 (.cpu .idle),
  sampled systemStats 59 .counter32 (.cpu .interrupts),
  sampled systemStats 60 .counter32 (.cpu .contexts)]

end Standard

open Standard in
/-- The variables of an agent, given its configuration and the figures that
    never change. -/
def standardDefinitions (c : AgentConfig) (s : Snapshot) : List Definition :=
  systemGroup c s ++ interfacesGroup c s ++ ipGroup ++ tcpGroup ++ udpGroup ++ hostGroup ++
    memoryGroup ++ diskGroup c ++ loadGroup ++ cpuGroup

end SnmpAgent
