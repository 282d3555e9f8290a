/-!
# Host figures

A *snapshot* is everything that the agent reports about its host at one
instant. Figures that are not available are zero, names that are not available
empty.

A *host* is a source of snapshots: it is told which interfaces and disks are
configured and sampled anew for every request and every refresh, so successive
samples may differ.

* `Snapshot.align`: the rows of a snapshot arranged by configured names;
* `Host.static`: the host whose figures never change.
-/

namespace SnmpAgent

/-- The figures of one network interface. -/
structure Interface where
  name : String := ""
  /-- The kind: ethernetCsmacd (6), ppp (23) or softwareLoopback (24). -/
  ifType : Int32 := 0
  /-- The largest packet. -/
  mtu : Int32 := 0
  /-- Bits per second. -/
  speed : UInt32 := 0
  physAddress : Vector UInt8 6 := Vector.replicate 6 0
  /-- Up (1) or down (2), as configured. -/
  adminStatus : Int32 := 0
  /-- Up (1), down (2), dormant (5), notPresent (6) or lowerLayerDown (7), as
      observed. -/
  operStatus : Int32 := 0
  rxBytes : UInt32 := 0
  rxPackets : UInt32 := 0
  rxDrops : UInt32 := 0
  rxErrors : UInt32 := 0
  txBytes : UInt32 := 0
  txPackets : UInt32 := 0
  /-- Packets dropped instead of sent. -/
  txDrops : UInt32 := 0
  txErrors : UInt32 := 0
  deriving DecidableEq

/-- The usage of one mounted file system, in kilobytes. -/
structure Disk where
  /-- The mount point. -/
  path : String := ""
  total : UInt32 := 0
  avail : UInt32 := 0
  used : UInt32 := 0
  /-- The percentage of blocks used, rounded up. -/
  percent : Int32 := 0
  /-- The percentage of inodes used, rounded up. -/
  inodePercent : Int32 := 0
  deriving DecidableEq

/-- Memory, in kilobytes. -/
structure Memory where
  total : UInt32 := 0
  free : UInt32 := 0
  shared : UInt32 := 0
  /-- The part that buffers devices. -/
  buffers : UInt32 := 0
  /-- The part that caches files. -/
  cached : UInt32 := 0
  deriving DecidableEq

/-- Processor time in kernel ticks and event counts; all wrap at 32 bits. -/
structure Cpu where
  user : UInt32 := 0
  /-- Time in user mode at low priority. -/
  nice : UInt32 := 0
  system : UInt32 := 0
  idle : UInt32 := 0
  interrupts : UInt32 := 0
  /-- Context switches. -/
  contexts : UInt32 := 0
  deriving DecidableEq

/-- The scalars of the ip group. -/
structure IpGroup where
  /-- Forwarding (1) or not (2). -/
  forwarding : Int32 := 0
  defaultTtl : Int32 := 0
  /-- The seconds for which fragments are kept. -/
  reasmTimeout : Int32 := 0
  deriving DecidableEq

/-- The scalars of the tcp group. -/
structure TcpGroup where
  rtoAlgorithm : Int32 := 0
  rtoMin : Int32 := 0
  rtoMax : Int32 := 0
  /-- The most connections, or -1 where the limit is dynamic. -/
  maxConn : Int32 := 0
  /-- Connections opened from here. -/
  activeOpens : UInt32 := 0
  /-- Connections opened from elsewhere. -/
  passiveOpens : UInt32 := 0
  attemptFails : UInt32 := 0
  estabResets : UInt32 := 0
  /-- Connections that are open. -/
  currEstab : UInt32 := 0
  inSegs : UInt32 := 0
  outSegs : UInt32 := 0
  retransSegs : UInt32 := 0
  inErrs : UInt32 := 0
  outRsts : UInt32 := 0
  deriving DecidableEq

/-- The scalars of the udp group. -/
structure UdpGroup where
  inDatagrams : UInt32 := 0
  /-- Datagrams for ports without a receiver. -/
  noPorts : UInt32 := 0
  inErrors : UInt32 := 0
  outDatagrams : UInt32 := 0
  deriving DecidableEq

/-- Everything that the agent reports about its host at one instant. -/
structure Snapshot where
  /-- The time since the agent started, in hundredths of a second. -/
  agentUptime : UInt32 := 0
  /-- The time since the host started, in hundredths of a second. -/
  systemUptime : UInt32 := 0
  /-- The load averages over 1, 5 and 15 minutes, in hundredths. -/
  load : Vector UInt32 3 := Vector.replicate 3 0
  memory : Memory := {}
  cpu : Cpu := {}
  ip : IpGroup := {}
  tcp : TcpGroup := {}
  udp : UdpGroup := {}
  interfaces : List Interface := []
  disks : List Disk := []
  hostname : String := ""
  deriving DecidableEq

namespace Snapshot

/-- The first interface of a given name, or one without figures. -/
def interfaceNamed (s : Snapshot) (name : String) : Interface :=
  (s.interfaces.find? (·.name = name)).getD { name }

/-- The first disk of a given path, or one without figures. -/
def diskAt (s : Snapshot) (path : String) : Disk :=
  (s.disks.find? (·.path = path)).getD { path }

/-- The snapshot with one interface for each name and one disk for each path, in
    that order. -/
def align (s : Snapshot) (interfaces disks : List String) : Snapshot :=
  { s with
    interfaces := interfaces.map s.interfaceNamed
    disks := disks.map s.diskAt }

end Snapshot

/-- A source of snapshots: what the host reports at its `turn`-th sampling,
    given the names of the interfaces and the paths of the disks. -/
abbrev Host := (turn : Nat) → (interfaces disks : List String) → Snapshot

/-- The host whose figures never change. -/
def Host.static (figures : Snapshot) : Host :=
  fun _ interfaces disks => figures.align interfaces disks

end SnmpAgent
