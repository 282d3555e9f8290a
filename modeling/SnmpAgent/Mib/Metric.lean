import SnmpAgent.Host.Snapshot
import SnmpAgent.Value

/-!
# Metrics

A *metric* names one figure of the host. Sampling it in a snapshot gives a
value; rows that the snapshot does not have read as zero. The type of the
value depends on the metric alone.

* `Metric.sample`: the value of a metric in a snapshot;
* `Metric.type`: the type of that value, whatever the snapshot.
-/

namespace SnmpAgent

/-- The figures of `Memory`. -/
inductive MemoryField where
  | total
  | free
  | shared
  | buffers
  | cached
  deriving DecidableEq

/-- The changing figures of an `Interface`. -/
inductive InterfaceField where
  | adminStatus
  | operStatus
  | inOctets
  | inUcastPkts
  | inDiscards
  | inErrors
  | outOctets
  | outUcastPkts
  | outDiscards
  | outErrors
  deriving DecidableEq

/-- The figures of a `Disk`, with the percentages of blocks and of inodes used. -/
inductive DiskField where
  | total
  | avail
  | used
  | percent
  | percentNode
  deriving DecidableEq

/-- The figures of an `IpGroup`. -/
inductive IpField where
  | forwarding
  | defaultTtl
  | reasmTimeout
  deriving DecidableEq

/-- The figures of a `TcpGroup`. -/
inductive TcpField where
  | rtoAlgorithm
  | rtoMin
  | rtoMax
  | maxConn
  | activeOpens
  | passiveOpens
  | attemptFails
  | estabResets
  | currEstab
  | inSegs
  | outSegs
  | retransSegs
  | inErrs
  | outRsts
  deriving DecidableEq

/-- The figures of a `UdpGroup`. -/
inductive UdpField where
  | inDatagrams
  | noPorts
  | inErrors
  | outDatagrams
  deriving DecidableEq

/-- The figures of a `Cpu`. -/
inductive CpuField where
  | user
  | nice
  | system
  | idle
  | interrupts
  | contexts
  deriving DecidableEq

/-- The forms of a load average: a decimal text with two places, or a number of
    hundredths. -/
inductive LoadField where
  | text
  | integer
  deriving DecidableEq

/-- A figure of the host. The rows of interfaces and disks are counted from
    zero, and the slots of load averages are those over 1, 5 and 15 minutes. -/
inductive Metric where
  | agentUptime
  | systemUptime
  | memory (field : MemoryField)
  | interface (row : Nat) (field : InterfaceField)
  | disk (row : Nat) (field : DiskField)
  | load (slot : Nat) (field : LoadField)
  | ip (field : IpField)
  | tcp (field : TcpField)
  | udp (field : UdpField)
  | cpu (field : CpuField)
  deriving DecidableEq

/-- A number of 32 bits as a signed one; what does not fit becomes the largest. -/
def clampInt32 (v : UInt32) : Int32 := Int32.ofNat (min v.toNat (1 <<< 31 - 1))

/-- Hundredths as a decimal text with two places. -/
def hundredthsText (v : UInt32) : String :=
  let cents := v.toNat % 100
  s!"{v.toNat / 100}.{cents / 10}{cents % 10}"

/-- A figure of the memory. -/
def MemoryField.sample (m : Memory) : MemoryField → Value
  | .total => .integer (clampInt32 m.total)
  | .free => .integer (clampInt32 m.free)
  | .shared => .integer (clampInt32 m.shared)
  | .buffers => .integer (clampInt32 m.buffers)
  | .cached => .integer (clampInt32 m.cached)

/-- A figure of an interface. -/
def InterfaceField.sample (i : Interface) : InterfaceField → Value
  | .adminStatus => .integer i.adminStatus
  | .operStatus => .integer i.operStatus
  | .inOctets => .counter32 i.rxBytes
  | .inUcastPkts => .counter32 i.rxPackets
  | .inDiscards => .counter32 i.rxDrops
  | .inErrors => .counter32 i.rxErrors
  | .outOctets => .counter32 i.txBytes
  | .outUcastPkts => .counter32 i.txPackets
  | .outDiscards => .counter32 i.txDrops
  | .outErrors => .counter32 i.txErrors

/-- A figure of a disk. -/
def DiskField.sample (d : Disk) : DiskField → Value
  | .total => .integer (clampInt32 d.total)
  | .avail => .integer (clampInt32 d.avail)
  | .used => .integer (clampInt32 d.used)
  | .percent => .integer d.percent
  | .percentNode => .integer d.inodePercent

/-- A load average, given in hundredths. -/
def LoadField.sample (load : UInt32) : LoadField → Value
  | .text => .ofString (hundredthsText load)
  | .integer => .integer (clampInt32 load)

/-- A figure of the ip group. -/
def IpField.sample (ip : IpGroup) : IpField → Value
  | .forwarding => .integer ip.forwarding
  | .defaultTtl => .integer ip.defaultTtl
  | .reasmTimeout => .integer ip.reasmTimeout

/-- A figure of the tcp group. -/
def TcpField.sample (tcp : TcpGroup) : TcpField → Value
  | .rtoAlgorithm => .integer tcp.rtoAlgorithm
  | .rtoMin => .integer tcp.rtoMin
  | .rtoMax => .integer tcp.rtoMax
  | .maxConn => .integer tcp.maxConn
  | .activeOpens => .counter32 tcp.activeOpens
  | .passiveOpens => .counter32 tcp.passiveOpens
  | .attemptFails => .counter32 tcp.attemptFails
  | .estabResets => .counter32 tcp.estabResets
  | .currEstab => .gauge32 tcp.currEstab
  | .inSegs => .counter32 tcp.inSegs
  | .outSegs => .counter32 tcp.outSegs
  | .retransSegs => .counter32 tcp.retransSegs
  | .inErrs => .counter32 tcp.inErrs
  | .outRsts => .counter32 tcp.outRsts

/-- A figure of the udp group. -/
def UdpField.sample (udp : UdpGroup) : UdpField → Value
  | .inDatagrams => .counter32 udp.inDatagrams
  | .noPorts => .counter32 udp.noPorts
  | .inErrors => .counter32 udp.inErrors
  | .outDatagrams => .counter32 udp.outDatagrams

/-- A figure of the processors. -/
def CpuField.sample (cpu : Cpu) : CpuField → Value
  | .user => .counter32 cpu.user
  | .nice => .counter32 cpu.nice
  | .system => .counter32 cpu.system
  | .idle => .counter32 cpu.idle
  | .interrupts => .counter32 cpu.interrupts
  | .contexts => .counter32 cpu.contexts

namespace Metric

/-- The value of a metric in a snapshot. -/
def sample (s : Snapshot) : Metric → Value
  | .agentUptime => .timeTicks s.agentUptime
  | .systemUptime => .timeTicks s.systemUptime
  | .memory field => field.sample s.memory
  | .interface row field => field.sample ((s.interfaces[row]?).getD {})
  | .disk row field => field.sample ((s.disks[row]?).getD {})
  | .load slot field => field.sample ((s.load[slot]?).getD 0)
  | .ip field => field.sample s.ip
  | .tcp field => field.sample s.tcp
  | .udp field => field.sample s.udp
  | .cpu field => field.sample s.cpu

/-- The type of the values of a metric. -/
def type : Metric → ValueType
  | .agentUptime | .systemUptime => .timeTicks
  | .interface _ .adminStatus | .interface _ .operStatus => .integer
  | .interface _ _ => .counter32
  | .load _ .text => .octetString
  | .memory _ | .disk _ _ | .load _ .integer | .ip _ => .integer
  | .tcp .rtoAlgorithm | .tcp .rtoMin | .tcp .rtoMax | .tcp .maxConn => .integer
  | .tcp .currEstab => .gauge32
  | .tcp _ | .udp _ | .cpu _ => .counter32

/-- The type of a sample does not depend on the snapshot. -/
theorem type_sample (m : Metric) (s : Snapshot) : (m.sample s).type = m.type := by
  cases m with
  | agentUptime => rfl
  | systemUptime => rfl
  | memory field => cases field <;> rfl
  | interface row field => cases field <;> rfl
  | disk row field => cases field <;> rfl
  | load slot field => cases field <;> rfl
  | ip field => cases field <;> rfl
  | tcp field => cases field <;> rfl
  | udp field => cases field <;> rfl
  | cpu field => cases field <;> rfl

end Metric

end SnmpAgent
