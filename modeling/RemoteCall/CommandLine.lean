import RemoteCall.Client.Basic
import RemoteCall.Client.Dialer
import RemoteCall.Json.Conversion
import RemoteCall.Settings.Document

/-!
# The command line

`serve` serves the built-in methods and `call` makes one call. Options stand before or between the
other arguments, each at most once and followed by its value; after `--` no argument of that level
is an option or asks for help. Asking for help ends the reading of a level, and help is all that is
given unless something else is wrong.
-/

namespace RemoteCall

inductive Command where
  | serve (bind? name? : Option String)
  | call (server method args : String)
deriving DecidableEq, Repr

structure CommandLine where
  config? : Option String
  command : Command
deriving DecidableEq, Repr

namespace CommandLine

/-- Why a command line gives no command. -/
inductive Stop where
  | help (usage : String)
  | misuse
deriving DecidableEq, Repr

/-- What may stand on one level of a command line: options with their spellings, so many other
arguments, and commands, which begin the next level. -/
structure Level where
  /-- The line that shows how the level is written: options first, then the rest, with the mark
  between them that ends the options. -/
  usage : String
  options : List (String × List String)
  positionals : Nat
  commands : List String

/-- What stands on one level: values of options, other arguments, and a command with the arguments
that follow it. -/
structure Arguments where
  options : List (String × String)
  positionals : List String
  command? : Option (String × List String)
deriving DecidableEq, Repr

def isHelp (arg : String) : Bool := arg == "help" || arg == "--help"

namespace Level

def option? (l : Level) (arg : String) : Option String :=
  (l.options.find? (·.2.contains arg)).map Prod.fst

/-- Reads arguments, given what was read before, whether help was asked for and whether options have
ended. -/
def read (l : Level) (help optionsEnded : Bool) (found : Arguments) :
    List String → Except Stop Arguments
  | [] => if help then .error (.help l.usage) else .ok found
  | arg :: rest =>
    if isHelp arg && !optionsEnded then l.read true optionsEnded found rest
    else if arg.toList.head? == some '-' && !optionsEnded then
      if arg == "--" then l.read help true found rest
      else if help then .error .misuse
      else
        match rest with
        | [] => .error .misuse
        | value :: rest =>
          match l.option? arg with
          | none => .error .misuse
          | some name =>
            if (found.options.lookup name).isSome then .error .misuse
            else l.read help optionsEnded
              { found with options := found.options ++ [(name, value)] } rest
    else if l.commands.contains arg then
      .ok { found with command? := some (arg, if help then "help" :: rest else rest) }
    else if found.positionals.length < l.positionals then
      l.read help optionsEnded { found with positionals := found.positionals ++ [arg] } rest
    else .error .misuse

def readAll (l : Level) (args : List String) : Except Stop Arguments :=
  l.read false false ⟨[], [], none⟩ args

end Level

def topLevel : Level :=
  ⟨"Usage: tagrpc [-c <config>] <command> [<args>]", [("config", ["--config", "-c"])], 0,
    ["serve", "call"]⟩

def serveLevel : Level :=
  ⟨"Usage: tagrpc serve [-b <bind>] [-n <name>]",
    [("bind", ["--bind", "-b"]), ("name", ["--name", "-n"])], 0, []⟩

def callLevel : Level :=
  ⟨"Usage: tagrpc call [-a <args>] [--] <server> <method>", [("args", ["--args", "-a"])], 2, []⟩

/-- The arguments of a call that gives none. -/
def noArguments : String := "[]"

def serveCommand (args : Arguments) : Except Stop Command :=
  .ok (.serve (args.options.lookup "bind") (args.options.lookup "name"))

def callCommand (args : Arguments) : Except Stop Command :=
  match args.positionals with
  | [server, method] => .ok (.call server method ((args.options.lookup "args").getD noArguments))
  | _ => .error .misuse

def parse (args : List String) : Except Stop CommandLine := do
  let top ← topLevel.readAll args
  match top.command? with
  | some ("serve", rest) =>
    return ⟨top.options.lookup "config", ← serveCommand (← serveLevel.readAll rest)⟩
  | some (_, rest) =>
    return ⟨top.options.lookup "config", ← callCommand (← callLevel.readAll rest)⟩
  | none => .error .misuse

end CommandLine

/-- What a command leaves behind: an exit code and one line of output or of complaint. -/
structure Report where
  exitCode : UInt32
  output : String
  complaint : String
deriving DecidableEq, Repr

namespace Report

def success (output : String) : Report := ⟨0, output, ""⟩

def failure (text : String) : Report := ⟨1, "", "Error: " ++ text⟩

/-- The report on a call: its result as JSON, or its failure. -/
def ofOutcome : CallOutcome → Report
  | .ok v => .success v.toJson.text
  | .error f => .failure f.message

def ofStop : CommandLine.Stop → Report
  | .help usage => .success usage
  | .misuse => ⟨1, "", "Run tagrpc --help for more information."⟩

end Report

/-- A call that is ready to be made. -/
structure PlannedCall where
  client : Client
  pool : Pool
  dialer : Dialer
  method : String
  args : List Value

/-- How a call ends that nobody can be reached for: after so many milliseconds, with a failure. A
pool that may hold no connection waits for one in vain. A dialer goes round its endpoints until its
time is over, and then tries the one that it began with for the last time. The failure of each
endpoint is given, or nothing if it can be reached. -/
def PlannedCall.givesUp? (p : PlannedCall) (failure? : Endpoint → Option Failure) :
    Option (Nat × Failure) :=
  match (p.pool.acquire (fun _ => false) syncKey).1 with
  | .error f => some (p.pool.settings.acquireTimeout, f)
  | .ok _ =>
    match p.dialer.endpoints.mapM failure? with
    | some (f :: _) => some (p.dialer.settings.connectTimeout, Dialer.finalFailure f)
    | _ => none

/-- Prepares a call. The arguments are read before the address. -/
def planCall (s : ClientSettings) (server method args : String) : Except Report PlannedCall :=
  match Json.arguments? args with
  | none => .error (.failure "Invalid JSON in args")
  | some args =>
    match Dialer.ofText server s.connector with
    | .error f => .error (.failure f.message)
    | .ok dialer => .ok ⟨⟨server, true, false⟩, .new server s.pool, dialer, method, args⟩

/-- The settings of a server as the file, the command line and the environment give them. -/
def serverSettings (s : Settings) (bind? name? environment : Option String) : ServerSettings :=
  let server := (s.resolveBind bind? environment).server
  { server with name := name?.getD server.name }

/-- What is left to do once a command line and its file are read. -/
inductive Plan where
  | report (r : Report)
  | serve (settings : ServerSettings) (endpoint : Endpoint)
  | call (p : PlannedCall)

namespace CommandLine

/-- Plans a command, given the text of its file, if it could be read, and the address to bind that
the environment gives. -/
def plan (line : CommandLine) (text? environment : Option String) : Plan :=
  match line.config?.elim (.ok .default) (Settings.ofFile · text?) with
  | .error fault => .report (.failure fault.message)
  | .ok s =>
    match line.command with
    | .serve bind? name? =>
      let server := serverSettings s bind? name? environment
      match Endpoint.parse server.bind with
      | .error f => .report (.failure f.message)
      | .ok e => .serve server e
    | .call server method args =>
      match planCall s.client server method args with
      | .error r => .report r
      | .ok p => .call p

/-- The environment variable that gives the address to bind. -/
def bindVariable : String := "TAGRPC_BIND"

end CommandLine

end RemoteCall
