import SnmpAgent.CommandLine
import SnmpAgent.Host.Proc
import SnmpAgent.Server
import SnmpAgent.Server.Timer

/-!
# The program

The agent on standard input and output. Each line of input is a packet in
hexadecimal digits; each reply is written as one line. Host figures are read
from the files of the kernel, and refreshed as the configuration asks.

The program only reads and prints: all that is done with packets, arguments
and files is in the modules that it imports.
-/

namespace SnmpAgent.Program

/-- The error number of the system for a failure to read a file. -/
def errorNumber : IO.Error → Int
  | .noFileOrDirectory .. => ErrorNumber.notFound
  | .permissionDenied .. => ErrorNumber.denied
  | .inappropriateType .. => ErrorNumber.isDirectory
  | _ => ErrorNumber.device

/-- The content of a file under its path. -/
def content (path : String) : IO (String × FileContent) := do
  try
    return (path, .octets (← IO.FS.readBinFile path).toList)
  catch e =>
    return (path, .failure (errorNumber e))

/-- The files at some paths. The usage of file systems is not available. -/
def files (paths : List String) : IO Files := do
  return Files.ofList (← paths.mapM content) []

/-- The host as it is now, when the program started at a given instant. -/
def host (config : AgentConfig) (started : Nat) : IO Host := do
  let files ← files (Proc.paths config.interfaces)
  let now ← IO.monoNanosNow
  return fun _ => Proc.snapshot files (now - started)

/-- Answers the packets in the lines of the input until it ends. -/
partial def loop (started : Nat) (timer : Timer) (s : Server) : IO Unit := do
  let line ← (← IO.getStdin).getLine
  if line.isEmpty then return
  let host ← host s.config started
  let now ← IO.monoMsNow
  let (timer, s) :=
    if timer.isDue now then (timer.tick now, (s.step host now .tick).1) else (timer, s)
  match Text.hexOctets? (Text.trim line.toList) with
  | none => loop started timer s
  | some packet =>
    let (s, effects) := s.step host now (.datagram packet (SocketAddr.anyV4 0))
    for effect in effects do
      match effect with
      | .datagram reply _ => IO.println (String.join (reply.map Text.hexOctet))
      | _ => pure ()
    loop started timer s

/-- Runs the agent that some arguments ask for. -/
def run (c : CommandLine) : IO UInt32 := do
  let started ← IO.monoNanosNow
  match (FileConfig.load (← files [c.configPath]) c.configPath).bind c.agentConfig with
  | .error e =>
    IO.eprintln e.message
    return 1
  | .ok config =>
    let now ← IO.monoMsNow
    match Server.bind config (← host config started), Timer.ofConfig config now with
    | .error e, _ | _, .error e =>
      IO.eprintln e.message
      return 2
    | .ok s, .ok timer =>
      loop started (timer.reset now) s
      return 0

end SnmpAgent.Program

/-- Runs the agent, or says how it is called. -/
def main (args : List String) : IO UInt32 := do
  match SnmpAgent.CommandLine.parse args with
  | .ok c => SnmpAgent.Program.run c
  | .error reason =>
    IO.eprintln
      "usage: [-4 | -6] [-i NAMES] [-I DEVICE] [-p PORT] [-P PORT] [-f FILE] [-d] [-D] [-v] [-h]"
    return if reason = .displayHelp ∨ reason = .displayVersion then 0 else 2
