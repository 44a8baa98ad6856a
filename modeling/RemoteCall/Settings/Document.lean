import RemoteCall.Settings.Basic
import RemoteCall.Json.Reader

/-!
# Settings as JSON documents

A section is an object or the array of its settings in order. Settings that are left out keep their
defaults, unknown keys are ignored together with what stands under them, and a known key may occur
once. Counts and times are integers of 64 bits without sign.
-/

namespace RemoteCall

open Json (Raw stringOf? numberOf?)

namespace Settings

/-- One setting of a section `S`: its key, and how a document under that key sets it. -/
structure Entry (S : Type) where
  key : String
  assign : Raw → S → Option S

variable {S : Type}

def natural? : Raw → Option Nat
  | .number n =>
    match numberOf? n with
    | some (.integer k) => if 0 ≤ k then some k.toNat else none
    | _ => none
  | _ => none

def string? : Raw → Option String
  | .string pieces => stringOf? pieces
  | _ => none

/-- The entries of an object of strings, sorted by key. -/
def strings? : Raw → Option (List (String × String))
  | .object members => do
    let pairs ← members.mapM fun (key, value) => do
      return (← stringOf? key, ← string? value)
    return Json.sortMembers pairs
  | _ => none

def entry {α : Type} (key : String) (read? : Raw → Option α) (store : α → S → S) : Entry S :=
  ⟨key, fun raw s => (read? raw).map fun a => store a s⟩

/-- Assigns the members of an object, given the keys that were assigned before. -/
def assignMembers (entries : List (Entry S)) (seen : List String) (s : S) :
    List (List Json.Piece × Raw) → Option S
  | [] => some s
  | (key, raw) :: rest => do
    let key ← stringOf? key
    match entries.find? (·.key == key) with
    | none => assignMembers entries seen s rest
    | some e =>
      if seen.contains key then none
      else assignMembers entries (key :: seen) (← e.assign raw s) rest

/-- Assigns documents to the entries in order. There may be fewer documents than entries. -/
def assignItems : List (Entry S) → S → List Raw → Option S
  | _, s, [] => some s
  | [], _, _ :: _ => none
  | e :: es, s, raw :: raws => do assignItems es (← e.assign raw s) raws

/-- Reads a section over its defaults. -/
def readSection (entries : List (Entry S)) (defaults : S) : Raw → Option S
  | .object members => assignMembers entries [] defaults members
  | .array items => assignItems entries defaults items
  | _ => none

def connection? : Raw → Option ConnectionSettings :=
  readSection
    [entry "max_message_size" natural? fun n s => { s with maxMessageSize := n },
     entry "stall_timeout_ms" natural? fun n s => { s with stallTimeout := n },
     entry "warning_period_ms" natural? fun n s => { s with warningPeriod := n }]
    .default

def server? : Raw → Option ServerSettings :=
  readSection
    [entry "bind" string? fun b s => { s with bind := b },
     entry "name" string? fun n s => { s with name := n },
     entry "connection" connection? fun c s => { s with connection := c }]
    .default

def pool? : Raw → Option PoolSettings :=
  readSection
    [entry "max_connections" natural? fun n s => { s with maxConnections := n },
     entry "acquire_timeout_ms" natural? fun n s => { s with acquireTimeout := n }]
    .default

def connector? : Raw → Option ConnectorSettings :=
  readSection
    [entry "connect_timeout_ms" natural? fun n s => { s with connectTimeout := n },
     entry "retry_pause_ms" natural? fun n s => { s with retryPause := n },
     entry "header" strings? fun h s => { s with header := h },
     entry "connection" connection? fun c s => { s with connection := c }]
    .default

def client? : Raw → Option ClientSettings :=
  readSection
    [entry "pool" pool? fun p s => { s with pool := p },
     entry "connector" connector? fun c s => { s with connector := c }]
    .default

def settings? : Raw → Option Settings :=
  readSection
    [entry "server" server? fun v s => { s with server := v },
     entry "client" client? fun v s => { s with client := v }]
    .default

/-- Why a file gives no settings. -/
inductive Fault where
  | unreadable (path : String)
  | invalid (path : String)
deriving DecidableEq, Repr

def Fault.message : Fault → String
  | .unreadable path => s!"Failed to read config file {path}"
  | .invalid path => s!"Invalid config file {path}"

/-- The settings in a file, of which the text is given if it could be read. -/
def ofFile (path : String) (text? : Option String) : Except Fault Settings :=
  match text? with
  | none => .error (.unreadable path)
  | some text =>
    match (Raw.parse? text).bind settings? with
    | some s => .ok s
    | none => .error (.invalid path)

end Settings

def naturalJson (n : Nat) : Json := .number (.integer n)

def ConnectionSettings.toJson (s : ConnectionSettings) : Json :=
  .object [("max_message_size", naturalJson s.maxMessageSize),
    ("stall_timeout_ms", naturalJson s.stallTimeout),
    ("warning_period_ms", naturalJson s.warningPeriod)]

def ServerSettings.toJson (s : ServerSettings) : Json :=
  .object [("bind", .string s.bind), ("connection", s.connection.toJson), ("name", .string s.name)]

def PoolSettings.toJson (s : PoolSettings) : Json :=
  .object [("acquire_timeout_ms", naturalJson s.acquireTimeout),
    ("max_connections", naturalJson s.maxConnections)]

def ConnectorSettings.toJson (s : ConnectorSettings) : Json :=
  .object [("connect_timeout_ms", naturalJson s.connectTimeout),
    ("connection", s.connection.toJson),
    ("header", .object (s.header.map fun (key, value) => (key, .string value))),
    ("retry_pause_ms", naturalJson s.retryPause)]

def ClientSettings.toJson (s : ClientSettings) : Json :=
  .object [("connector", s.connector.toJson), ("pool", s.pool.toJson)]

def Settings.toJson (s : Settings) : Json :=
  .object [("client", s.client.toJson), ("server", s.server.toJson)]

end RemoteCall
