import RemoteCall.Address
import RemoteCall.Call
import RemoteCall.Client.AsyncRun
import RemoteCall.Client.Basic
import RemoteCall.Client.Dialer
import RemoteCall.Client.SyncRun
import RemoteCall.CommandLine
import RemoteCall.Connection.Arrivals
import RemoteCall.Connection.Basic
import RemoteCall.Connection.Callbacks
import RemoteCall.Connection.Handshake
import RemoteCall.Connection.Sending
import RemoteCall.Connection.Watchdog
import RemoteCall.Connection.WatchRun
import RemoteCall.Decimal.Reading
import RemoteCall.Decimal.Shortest
import RemoteCall.Decimal.Style
import RemoteCall.Failure.Basic
import RemoteCall.Failure.Cause
import RemoteCall.Failure.Relay
import RemoteCall.Frame
import RemoteCall.Ieee.Binary
import RemoteCall.Ieee.Format
import RemoteCall.Json.Basic
import RemoteCall.Json.Conversion
import RemoteCall.Json.Printer
import RemoteCall.Json.Raw
import RemoteCall.Json.Reader
import RemoteCall.Loopback.Client
import RemoteCall.Loopback.Dialing
import RemoteCall.Loopback.Link
import RemoteCall.Loopback.Pool
import RemoteCall.Loopback.Program
import RemoteCall.Loopback.Server
import RemoteCall.Main
import RemoteCall.Method.Builtin
import RemoteCall.Method.Table
import RemoteCall.Pool.Basic
import RemoteCall.Pool.Run
import RemoteCall.Pool.Slot
import RemoteCall.Schema.Field
import RemoteCall.Schema.FieldKind
import RemoteCall.Schema.RecordType
import RemoteCall.Schema.Registry
import RemoteCall.Server.Basic
import RemoteCall.Server.Session
import RemoteCall.Settings.Basic
import RemoteCall.Settings.Document
import RemoteCall.Text.Ascii
import RemoteCall.Text.Blank
import RemoteCall.Text.Hex
import RemoteCall.Text.Split
import RemoteCall.Text.Utf16
import RemoteCall.Value.Basic
import RemoteCall.Value.Coercion
import RemoteCall.Value.DeclaredType
import RemoteCall.Value.Display
import RemoteCall.Value.Extraction
import RemoteCall.Value.Identity
import RemoteCall.Width
import RemoteCall.Wire.Bytes
import RemoteCall.Wire.Codec
import RemoteCall.Wire.Decoder
import RemoteCall.Wire.Encoder
import RemoteCall.Wire.NameTable
import RemoteCall.Wire.Number
import RemoteCall.Wire.Reader
import RemoteCall.Wire.StringBody
import RemoteCall.Wire.Tag
import RemoteCall.Wire.Writer
import RemoteCall.Proofs.Text.Utf16
import RemoteCall.Proofs.Wire.Bytes
import RemoteCall.Proofs.Wire.Number
import RemoteCall.Proofs.Wire.StringBody
import RemoteCall.Proofs.Wire.Names
import RemoteCall.Proofs.Schema.Registry
import RemoteCall.Proofs.Schema.Layouts
import RemoteCall.Proofs.Schema.Fields
import RemoteCall.Proofs.Wire.Carries
import RemoteCall.Proofs.Wire.RoundTrip
import RemoteCall.Proofs.Wire.Interning
import RemoteCall.Proofs.Wire.Items
import RemoteCall.Proofs.Wire.Pace
import RemoteCall.Proofs.Wire.Headed
import RemoteCall.Proofs.Connection.Drafts
import RemoteCall.Proofs.Connection.Arrivals
import RemoteCall.Proofs.Call
import RemoteCall.Proofs.Failure.Relay
import RemoteCall.Proofs.Method.Table
import RemoteCall.Proofs.Connection.Exchange
import RemoteCall.Proofs.Server.Session
import RemoteCall.Proofs.Loopback.Server
import RemoteCall.Proofs.Wire.Failures
import RemoteCall.Proofs.Connection.Corruption
import RemoteCall.Proofs.Pool.Run
import RemoteCall.Proofs.Loopback.Client
import RemoteCall.Proofs.Pool.Slot
import RemoteCall.Proofs.Pool.Turn
import RemoteCall.Proofs.Pool.Exclusive
import RemoteCall.Proofs.Pool.Places
import RemoteCall.Proofs.Pool.Safety
import RemoteCall.Proofs.Pool.Holders
import RemoteCall.Proofs.Pool.Closing
import RemoteCall.Proofs.Client.Pairing
import RemoteCall.Proofs.Client.Outcomes
import RemoteCall.Proofs.Value.Legible
import RemoteCall.Proofs.Wire.Verdict
import RemoteCall.Proofs.Wire.Refusals
import RemoteCall.Proofs.Wire.Acceptance
import RemoteCall.Proofs.Value.Identity
import RemoteCall.Proofs.Server.Opening
import RemoteCall.Proofs.Server.Hooks
import RemoteCall.Proofs.Connection.Bodies
import RemoteCall.Proofs.Connection.Framing
import RemoteCall.Proofs.Server.Answers
import RemoteCall.Proofs.Server.Replies
import RemoteCall.Proofs.Wire.Compact
import RemoteCall.Proofs.Wire.Evolution
import RemoteCall.Proofs.Wire.Yields
import RemoteCall.Proofs.Wire.Relay
import RemoteCall.Proofs.Wire.Steps
import RemoteCall.Proofs.Wire.Delimited
import RemoteCall.Proofs.Wire.Received
import RemoteCall.Proofs.Connection.Watchdog
import RemoteCall.Proofs.Wire.Soundness
import RemoteCall.Proofs.Wire.Typed
import RemoteCall.Proofs.Wire.Probe
import RemoteCall.Proofs.Wire.Kept
import RemoteCall.Proofs.Wire.Narrowing
import RemoteCall.Proofs.Value.Coercion
import RemoteCall.Proofs.Method.Resolution
import RemoteCall.Proofs.Schema.DistinctNames
import RemoteCall.Proofs.Wire.RepeatedNames
import RemoteCall.Proofs.Wire.Canonical
import RemoteCall.Proofs.Client.Dialing
import RemoteCall.Proofs.Text.Blank
import RemoteCall.Proofs.Decimal.Reading
import RemoteCall.Proofs.Value.Integers
import RemoteCall.Proofs.Address
import RemoteCall.Proofs.Ieee.Binary
import RemoteCall.Proofs.Wire.Floats
import RemoteCall.Proofs.Width
import RemoteCall.Proofs.Json.Conversion
import RemoteCall.Proofs.Wire.StringBlocks
import RemoteCall.Proofs.Wire.Spelling
import RemoteCall.Proofs.Connection.Stalls
import RemoteCall.Proofs.Pool.Alone
