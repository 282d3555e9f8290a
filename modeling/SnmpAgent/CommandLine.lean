import SnmpAgent.Config.File
import SnmpAgent.Config.Server

/-!
# The command line

The arguments of the agent are switches and options. Switches and options with
a short name may be bundled behind one dash; the value of an option follows as
an argument of its own or directly behind the name, with or without an equals
sign. A value that stands alone is taken up only when the next argument has
been recognised, so that an argument that is not known is reported first.

* `CommandLine.parse`: what the arguments say, or why they are refused;
* `CommandLine.agentConfig`, `CommandLine.serverConfig`: the configuration that
  they amount to, given the configuration file.
-/

namespace SnmpAgent

/-- Why arguments lead to no agent. A value is invalid if it is missing, or
    empty where it may not be, and fails the validation if it is not of its
    type. -/
inductive Usage where
  | displayHelp
  | displayVersion
  | unknownArgument
  | argumentConflict
  | invalidValue
  | valueValidation
  | tooManyValues
  deriving DecidableEq

/-- The arguments without a value. -/
inductive Switch where
  | useIpv4
  | useIpv6
  | debug
  | trace
  deriving DecidableEq

/-- The arguments with a value. The one of `listen` is the network device to
    which the server is restricted. -/
inductive Setting where
  | interfaces
  | listen
  | udpPort
  | tcpPort
  | config
  deriving DecidableEq

/-- What the name of an argument stands for: a switch, an option, or a question
    that ends the reading of arguments. -/
inductive Argument where
  | switch (s : Switch)
  | setting (s : Setting)
  | ask (u : Usage)
  deriving DecidableEq

/-- What the arguments say. -/
structure CommandLine where
  switches : List Switch := []
  interfaces : List String := []
  listen : Option String := none
  udpPort : Option UInt16 := none
  tcpPort : Option UInt16 := none
  config : Option String := none
  deriving DecidableEq

/-- The path of the configuration file where none is given. -/
def defaultConfigFile : String := "/etc/snmpbug.json"

namespace Argument

/-- The argument with a short name. -/
def short? : Char → Option Argument
  | '4' => some (.switch .useIpv4)
  | '6' => some (.switch .useIpv6)
  | 'i' => some (.setting .interfaces)
  | 'I' => some (.setting .listen)
  | 'p' => some (.setting .udpPort)
  | 'P' => some (.setting .tcpPort)
  | 'f' => some (.setting .config)
  | 'd' => some (.switch .debug)
  | 'D' => some (.switch .trace)
  | 'v' => some (.ask .displayVersion)
  | 'h' => some (.ask .displayHelp)
  | _ => none

/-- The argument with a long name. -/
def long? (name : List Char) : Option Argument :=
  match String.ofList name with
  | "use-ipv4" => some (.switch .useIpv4)
  | "use-ipv6" => some (.switch .useIpv6)
  | "interfaces" => some (.setting .interfaces)
  | "listen" => some (.setting .listen)
  | "udp-port" => some (.setting .udpPort)
  | "tcp-port" => some (.setting .tcpPort)
  | "config" => some (.setting .config)
  | "debug" => some (.switch .debug)
  | "trace" => some (.switch .trace)
  | "version" => some (.ask .displayVersion)
  | "help" => some (.ask .displayHelp)
  | _ => none

end Argument

namespace CommandLine

/-- A port in decimal digits, which may follow a sign. -/
def port? (text : List Char) : Option UInt16 := do
  let n ← Text.signed? Text.decimal? (1 <<< 63) text
  guard (0 ≤ n ∧ n < 1 <<< 16)
  return UInt16.ofNat n.toNat

/-- Takes up a switch, which must not have been given before. -/
def flip (c : CommandLine) (s : Switch) : Except Usage CommandLine :=
  if c.switches.contains s then .error .argumentConflict
  else .ok { c with switches := c.switches ++ [s] }

/-- Takes up the value of an option, which must not have been given before
    unless it is a list. -/
def give (c : CommandLine) (s : Setting) (text : List Char) : Except Usage CommandLine :=
  match s with
  | .interfaces =>
    .ok { c with interfaces := c.interfaces ++ (Text.split ',' text).map String.ofList }
  | .listen =>
    if c.listen.isSome then .error .argumentConflict
    else .ok { c with listen := some (String.ofList text) }
  | .udpPort =>
    if c.udpPort.isSome then .error .argumentConflict
    else match port? text with
      | some port => .ok { c with udpPort := some port }
      | none => .error .valueValidation
  | .tcpPort =>
    if c.tcpPort.isSome then .error .argumentConflict
    else match port? text with
      | some port => .ok { c with tcpPort := some port }
      | none => .error .valueValidation
  | .config =>
    if c.config.isSome then .error .argumentConflict
    else if text.isEmpty then .error .invalidValue
    else .ok { c with config := some (String.ofList text) }

/-- An option that was met but is not taken up yet, as it waits for its value or
    has just been given one. -/
inductive Pending where
  | nothing
  | wanted (s : Setting)
  | met (s : Setting) (text : List Char)
  deriving DecidableEq

/-- Takes up the option that is pending. -/
def settle (c : CommandLine) : Pending → Except Usage CommandLine
  | .nothing => .ok c
  | .wanted _ => .error .invalidValue
  | .met s text => c.give s text

/-- Takes up a bundle of short names. -/
def bundle (c : CommandLine) (p : Pending) : List Char → Except Usage (CommandLine × Pending)
  | [] => .ok (c, p)
  | name :: rest =>
    match Argument.short? name with
    | none => .error .unknownArgument
    | some (.ask u) => do
      let _ ← c.settle p
      throw u
    | some (.switch s) => do bundle (← (← c.settle p).flip s) .nothing rest
    | some (.setting s) => do
      let c ← c.settle p
      match rest with
      | [] => return (c, .wanted s)
      | '=' :: text => return (← c.give s text, .nothing)
      | text => return (← c.give s text, .nothing)

/-- Takes up a long name, with the value behind its equals sign. -/
def longName (c : CommandLine) (p : Pending) (name : List Char) (text? : Option (List Char)) :
    Except Usage (CommandLine × Pending) :=
  match Argument.long? name, text? with
  | none, _ => .error .unknownArgument
  | some (.setting s), some text => do return (← (← c.settle p).give s text, .nothing)
  | some (.setting s), none => do return (← c.settle p, .wanted s)
  | some _, some _ => .error .tooManyValues
  | some (.ask u), none => do
    let _ ← c.settle p
    throw u
  | some (.switch s), none => do return (← (← c.settle p).flip s, .nothing)

/-- Takes up an argument that is no name: the value of the option that waits for
    one. -/
def plain (c : CommandLine) (p : Pending) (text : List Char) :
    Except Usage (CommandLine × Pending) :=
  match p with
  | .wanted s => .ok (c, .met s text)
  | _ => .error .unknownArgument

/-- Takes up one argument. -/
def argument (c : CommandLine) (p : Pending) (text : List Char) :
    Except Usage (CommandLine × Pending) :=
  match text with
  | '-' :: '-' :: rest =>
    match Text.splitOnce '=' rest with
    | some (name, value) => longName c p name (some value)
    | none => longName c p rest none
  | '-' :: name :: rest => bundle c p (name :: rest)
  | _ => plain c p text

/-- Takes up all arguments. Two dashes end them, and nothing may follow. -/
def arguments (c : CommandLine) (p : Pending) : List (List Char) → Except Usage CommandLine
  | [] => c.settle p
  | text :: rest =>
    if text = ['-', '-'] then if rest.isEmpty then c.settle p else .error .unknownArgument
    else do
      let (c, p) ← argument c p text
      arguments c p rest

/-- What the arguments say. -/
def parse (args : List String) : Except Usage CommandLine := do
  let c ← arguments {} .nothing (args.map String.toList)
  if c.switches.contains .useIpv4 ∧ c.switches.contains .useIpv6 then throw .argumentConflict
  return c

/-- The level of the log. -/
def logLevel (c : CommandLine) : String :=
  if c.switches.contains .trace then "trace"
  else if c.switches.contains .debug then "debug"
  else "info"

/-- The path of the configuration file. -/
def configPath (c : CommandLine) : String := c.config.getD defaultConfigFile

/-- Where the server listens. -/
def serverConfig (c : CommandLine) : ServerConfig :=
  let family := if c.switches.contains .useIpv4 then .ipv4 else .ipv6
  { ServerConfig.wildcard family (c.udpPort.getD defaultPort) c.tcpPort with device := c.listen }

/-- The configuration of the agent. Interfaces that are given replace those of
    the file. -/
def agentConfig (c : CommandLine) (file : Option FileConfig) : Except AgentError AgentConfig := do
  let config ← (file.getD {}).agentConfig
  if c.interfaces.isEmpty then return config
  else return { config with interfaces := c.interfaces.filter (¬·.isEmpty) }

end CommandLine

end SnmpAgent
