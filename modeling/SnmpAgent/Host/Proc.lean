import SnmpAgent.Host.Files
import SnmpAgent.Host.Snapshot
import SnmpAgent.Number.Decimal
import SnmpAgent.Text.Blank
import SnmpAgent.Text.Path

/-!
# Figures from the kernel

A Linux kernel shows its figures as text files. Each reader takes what it
knows from a text, by key or by column name, and leaves the rest; a figure that
is missing or cannot be read is zero, counters wrap at 32 bits, and levels stop
at their largest value.

* `Proc.uptime`, `Proc.loadAverages`, `Proc.memory`, `Proc.cpu`: the readers of
  single files;
* `Proc.row`: the counters of one protocol, under their column names;
* `Proc.interface`, `Proc.disk`: one row of a table;
* `Proc.snapshot`: everything together.
-/

namespace SnmpAgent.Proc

/-- An unsigned number of 64 bits, or zero. -/
def count64 (text : List Char) : Nat := (Text.unsigned? Text.decimal? (1 <<< 64) text).getD 0

/-- A signed number of 64 bits. -/
def number64? (text : List Char) : Option Int := Text.signed? Text.decimal? (1 <<< 63) text

/-- A number that wraps at 32 bits. -/
def wrap32 (n : Int) : UInt32 := UInt32.ofInt n

/-- A number that stops at the largest one of 32 bits. -/
def level32 (n : Nat) : UInt32 := UInt32.ofNat (min n (1 <<< 32 - 1))

/-- A figure with a fraction, in hundredths. -/
def hundredths (text : List Char) : UInt32 := ((Decimal.parse? text).map Decimal.hundredths).getD 0

/-- The time since the host started, the first word of its file. -/
def uptime (text : List Char) : UInt32 := ((Text.words text).head?.map hundredths).getD 0

/-- The load averages, the first three words of their file. -/
def loadAverages (text : List Char) : Vector UInt32 3 :=
  let load := ((Text.words text).take 3).map hundredths
  #v[load[0]?.getD 0, load[1]?.getD 0, load[2]?.getD 0]

/-- The memory figures while their lines are read: what was found so far, and
    the other name of the shared part. -/
structure MemoryLines where
  memory : Memory := {}
  /-- The shared part under its newer name. -/
  shmem : UInt32 := 0
  deriving DecidableEq

/-- Takes one line of memory figures. -/
def memoryLine (m : MemoryLines) (line : List Char) : MemoryLines :=
  match Text.splitOnce ':' line with
  | none => m
  | some (key, rest) =>
    let kilobytes := level32 (((Text.words rest).head?.map count64).getD 0)
    match String.ofList key with
    | "MemTotal" => { m with memory.total := kilobytes }
    | "MemFree" => { m with memory.free := kilobytes }
    | "MemShared" => { m with memory.shared := kilobytes }
    | "Shmem" => { m with shmem := kilobytes }
    | "Buffers" => { m with memory.buffers := kilobytes }
    | "Cached" => { m with memory.cached := kilobytes }
    | _ => m

/-- The memory figures. The shared part is taken under its newer name where the
    older one is missing or zero. -/
def memory (text : List Char) : Memory :=
  let m := (Text.lines text).foldl memoryLine {}
  if m.memory.shared = 0 then { m.memory with shared := m.shmem } else m.memory

/-- Takes one line of processor figures. -/
def cpuLine (cpu : Cpu) (line : List Char) : Cpu :=
  match Text.words line with
  | [] => cpu
  | key :: fields =>
    let figure (i : Nat) : UInt32 := wrap32 ((fields[i]?.map count64).getD 0)
    match String.ofList key with
    | "cpu" =>
      { cpu with user := figure 0, nice := figure 1, system := figure 2, idle := figure 3 }
    | "intr" => { cpu with interrupts := figure 0 }
    | "ctxt" => { cpu with contexts := figure 0 }
    | _ => cpu

/-- The processor figures. -/
def cpu (text : List Char) : Cpu := (Text.lines text).foldl cpuLine {}

/-- The rest of a line that begins with the name of a protocol and a colon. -/
def protocolLine? (protocol : String) (line : List Char) : Option (List Char) := do
  Text.stripLead? [':'] (← Text.stripLead? protocol.toList line)

/-- The counters of a protocol under their column names: its first line names
    the columns, its second line holds the values. -/
def row (protocol : String) (text : List Char) : List (List Char × Int) :=
  match (Text.lines text).filterMap (protocolLine? protocol) with
  | header :: values :: _ =>
    (Text.words header).zip ((Text.words values).map fun v => (number64? v).getD 0)
  | _ => []

/-- The value in the first column of a given name, or zero. -/
def column (row : List (List Char × Int)) (name : String) : Int :=
  ((row.find? (·.1 = name.toList)).map (·.2)).getD 0

/-- The ip group. -/
def ip (text : List Char) : IpGroup :=
  let int (name : String) : Int32 := Int32.ofInt (column (row "Ip" text) name)
  { forwarding := int "Forwarding"
    defaultTtl := int "DefaultTTL"
    reasmTimeout := int "ReasmTimeout" }

/-- The tcp group. -/
def tcp (text : List Char) : TcpGroup :=
  let figures := row "Tcp" text
  let int (name : String) : Int32 := Int32.ofInt (column figures name)
  let counter (name : String) : UInt32 := wrap32 (column figures name)
  { rtoAlgorithm := int "RtoAlgorithm"
    rtoMin := int "RtoMin"
    rtoMax := int "RtoMax"
    maxConn := int "MaxConn"
    activeOpens := counter "ActiveOpens"
    passiveOpens := counter "PassiveOpens"
    attemptFails := counter "AttemptFails"
    estabResets := counter "EstabResets"
    currEstab := level32 (column figures "CurrEstab").toNat
    inSegs := counter "InSegs"
    outSegs := counter "OutSegs"
    retransSegs := counter "RetransSegs"
    inErrs := counter "InErrs"
    outRsts := counter "OutRsts" }

/-- The udp group. -/
def udp (text : List Char) : UdpGroup :=
  let figures := row "Udp" text
  let counter (name : String) : UInt32 := wrap32 (column figures name)
  { inDatagrams := counter "InDatagrams"
    noPorts := counter "NoPorts"
    inErrors := counter "InErrors"
    outDatagrams := counter "OutDatagrams" }

/-- The counters of an interface: those of its first line, in the order in which
    they are written. -/
def interfaceCounters (name : String) (text : List Char) : List Nat :=
  ((Text.lines text).findSome? fun line => do
    let (key, counters) ← Text.splitOnce ':' line
    guard (Text.trim key = name.toList)
    return (Text.words counters).map count64).getD []

/-- A hardware address: up to six octets in hexadecimal digits between colons. -/
def physAddress (text : List Char) : Vector UInt8 6 :=
  let octets := (Text.split ':' (Text.trim text)).map fun part =>
    UInt8.ofNat ((Text.unsigned? Text.hexadecimal? 256 part).getD 0)
  Vector.ofFn fun i => octets[i.val]?.getD 0

/-- The observed state of an interface. Interfaces without a carrier of their
    own never report that they are up. -/
def operStatus (text : List Char) : Int32 :=
  match String.ofList (Text.trim text) with
  | "up" | "unknown" => 1
  | "down" => 2
  | "dormant" => 5
  | "notpresent" => 6
  | "lowerlayerdown" => 7
  | _ => 2

/-- The kind of interface behind a hardware type: loopback, point-to-point, or
    else Ethernet. -/
def ifType (hardware : Int32) : Int32 :=
  if hardware = 772 then 24 else if hardware = 512 then 23 else 6

/-- A text without the marks `0x` at its beginning. -/
def dropHexMarks : List Char → List Char
  | '0' :: 'x' :: rest => dropHexMarks rest
  | text => text

/-- The flags of an interface. -/
def flags (text : List Char) : Int :=
  (Text.signed? Text.hexadecimal? (1 <<< 63) (dropHexMarks (Text.trim text))).getD 0

/-- Bits per second, given megabits per second. An interface that does not know
    its speed counts as fast Ethernet. -/
def bitsPerSecond (megabits : Option Int) : UInt32 :=
  level32 (((megabits.filter (0 < ·)).getD 1000).toNat * 1000000)

/-- The row of one interface. -/
def interface (f : Files) (counters : List Char) (name : String) : Interface :=
  let dir := Path.join "/sys/class/net" name
  let file (leaf : String) : Option (List Char) := f.text? (Path.join dir leaf)
  let number (leaf : String) : Option Int := do number64? (Text.trim (← file leaf))
  let figures := interfaceCounters name counters
  let counter (i : Nat) : UInt32 := wrap32 (figures[i]?.getD 0)
  { name
    ifType := ifType (Int32.ofInt ((number "type").getD 1))
    mtu := Int32.ofInt ((number "mtu").getD 1500)
    speed := bitsPerSecond (number "speed")
    physAddress := ((file "address").map physAddress).getD (Vector.replicate 6 0)
    adminStatus := if (((file "flags").map flags).getD 0) % 2 = 1 then 1 else 2
    operStatus := ((file "operstate").map operStatus).getD 2
    rxBytes := counter 0
    rxPackets := counter 1
    rxErrors := counter 2
    rxDrops := counter 3
    txBytes := counter 8
    txPackets := counter 9
    txErrors := counter 10
    txDrops := counter 11 }

/-- A number of 64 bits, or the largest one where `n` exceeds it. -/
def saturate64 (n : Nat) : Nat := min n (1 <<< 64 - 1)

/-- The share of `total` that is `used`, in percent rounded up, computed in 64
    bits. -/
def percentUsed (used total : UInt64) : Int32 :=
  if total = 0 then 0
  else
    let scaled := saturate64 (saturate64 (used.toNat * 100) + (total.toNat - 1))
    Int32.ofNat (min (scaled / total.toNat) 100)

/-- A number of blocks in kilobytes. -/
def kilobytes (u : FsUsage) (blocks : UInt64) : UInt32 :=
  level32 (saturate64 (blocks.toNat * u.fragmentSize.toNat) / 1024)

/-- The part of a total that is not free. -/
def usedPart (total free : UInt64) : UInt64 := UInt64.ofNat (total.toNat - free.toNat)

/-- The row of a disk with a given usage. -/
def diskFigures (path : String) (u : FsUsage) : Disk :=
  let used := usedPart u.blocks u.blocksFree
  { path
    total := kilobytes u u.blocks
    avail := kilobytes u u.blocksFree
    used := kilobytes u used
    percent := percentUsed used u.blocks
    inodePercent := percentUsed (usedPart u.files u.filesFree) u.files }

/-- The row of one disk. -/
def disk (f : Files) (path : String) : Disk :=
  match f.usage? path with
  | some u => diskFigures path u
  | none => { path }

/-- The time since the agent started in hundredths of a second, given
    nanoseconds: seconds and their fraction are converted to double precision
    one by one. -/
def agentUptime (nanoseconds : Nat) : UInt32 :=
  let seconds := Binary64.round ((nanoseconds / 1000000000 : Nat) : Rat)
  let fraction := Binary64.round (mkRat (nanoseconds % 1000000000 : Nat) 1000000000)
  Decimal.toHundredths (Binary64.round (seconds + fraction))

/-- The files that a snapshot is made from, given the names of the interfaces. -/
def paths (interfaces : List String) : List String :=
  let system := ["proc/uptime", "proc/loadavg", "proc/meminfo", "proc/stat", "proc/net/snmp",
    "proc/net/dev", "proc/sys/kernel/hostname"]
  let leaves := ["type", "mtu", "speed", "address", "flags", "operstate"]
  system.map (Path.join "/") ++ interfaces.flatMap fun name =>
    leaves.map (Path.join (Path.join "/sys/class/net" name))

/-- Everything that the files of a host say, when the agent has run for some
    nanoseconds. -/
def snapshot (f : Files) (nanoseconds : Nat) (interfaces disks : List String) : Snapshot :=
  let file (path : String) : List Char := (f.text? (Path.join "/" path)).getD []
  let protocols := file "proc/net/snmp"
  { agentUptime := agentUptime nanoseconds
    systemUptime := uptime (file "proc/uptime")
    load := loadAverages (file "proc/loadavg")
    memory := memory (file "proc/meminfo")
    cpu := cpu (file "proc/stat")
    ip := ip protocols
    tcp := tcp protocols
    udp := udp protocols
    interfaces := interfaces.map (interface f (file "proc/net/dev"))
    disks := disks.map (disk f)
    hostname := String.ofList (Text.trim (file "proc/sys/kernel/hostname")) }

end SnmpAgent.Proc
