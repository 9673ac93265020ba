import RemoteTable.Cli.Arguments
import RemoteTable.Cli.Demo

/-!
# Commands

The commands show the tunneled form of an error, read a failure under a policy, plan the chunks of a payload,
and run the demonstration. A command ends in a response, written as one line of JSON, or in an error.
-/

namespace RemoteTable.Cli

inductive Command where
  | encodeError (kind message : String)
  | decodeError (policy : String) (message : Option String)
  | chunk (size bytes : Nat)
  | demo (config : Option String)
  deriving DecidableEq, Repr

namespace Command

/-! ## Reading commands -/

def names : List String := ["encode-error", "decode-error", "chunk", "demo", "help"]

/-- The value of a setting that may not be left out. -/
def required (a : Arguments) (name : String) : Except Usage String :=
  match a.get? name with
  | some v => .ok v
  | none => .error .refused

def number (a : Arguments) (name : String) : Except Usage Nat := do
  match word? (← required a name) with
  | some n => return n
  | none => throw .refused

def readNamed (name : String) (args : List String) : Except Usage Command :=
  match name with
  | "encode-error" => do
    let a ← Arguments.readAll [{ name := "kind" }, { name := "message" }] {} args
    return encodeError (← required a "kind") (← required a "message")
  | "decode-error" => do
    let a ← Arguments.readAll [{ name := "policy" }, { name := "message" }] {} args
    return decodeError ((a.get? "policy").getD "always") (a.get? "message")
  | "chunk" => do
    let isWord := fun s => (word? s).isSome
    let a ← Arguments.readAll [⟨"size", isWord⟩, ⟨"bytes", isWord⟩] {} args
    let size ← if (a.get? "size").isSome then number a "size" else pure 65536
    return chunk size (← number a "bytes")
  | "demo" => do
    let a ← Arguments.readAll [⟨"config", fun s => !s.isEmpty⟩] {} args
    return demo (a.get? "config")
  | _ => throw .refused

/-- Reads a command. Help is given for all commands or for one. -/
def read : List String → Except Usage Command
  | [] => .error .refused
  | "help" :: rest =>
    match rest with
    | [] => .error .shown
    | [name] => if names.contains name then .error .shown else .error .refused
    | _ => .error .refused
  | name :: rest =>
    match name.toList with
    | '-' :: '-' :: _ => if name == "--help" || name == "--version" then .error .shown else .error .refused
    | '-' :: 'h' :: _ | '-' :: 'V' :: _ => .error .shown
    | _ => readNamed name rest

/-! ## Running commands -/

def chunkSizes (size : ChunkSize) (bytes : Nat) : List Nat :=
  let count := Chunk.count bytes size
  List.replicate (count - 1) size.bytes ++ [bytes - (count - 1) * size.bytes]

def encodeErrorResponse (kind message : String) : Except Error Json :=
  match ErrorKind.ofName? kind with
  | some k => .ok (.object [("wire", .text (Tunnel.wireText ⟨k, message⟩))])
  | none => .error ⟨.argument, s!"unknown error kind '{kind}'"⟩

def decodeErrorResponse (policy : String) (message : Option String) : Except Error Json :=
  match Policy.ofName? policy with
  | some p =>
    let e := Tunnel.decode (.generic message) p
    .ok (.object [
      ("policy", .text p.name),
      ("kind", .text e.kind.name),
      ("code", .text e.kind.code),
      ("message", .text e.message)])
  | none => .error ⟨.argument, s!"unknown policy '{policy}'"⟩

def chunkResponse (size bytes : Nat) : Except Error Json := do
  let chunkSize ← (ChunkSize.ofNat size).mapError .ofChunkSize
  let sizes := chunkSizes chunkSize bytes
  return .object [
    ("max_chunk_size", .int size),
    ("payload_bytes", .int bytes),
    ("chunk_count", .int sizes.length),
    ("chunk_sizes", .array (sizes.map fun (n : Nat) => .int n))]

def file? : Command → Option String
  | demo config => config
  | _ => none

/-- The configuration that a command runs under, given what its file holds. -/
def configuration (contents : String → Except String Bytes) (path : Option String) :
    Except ConfigError Config × List Record :=
  match path with
  | some path => Config.load path (contents path)
  | none => (.ok {}, [])

/-- What a command writes to the two streams, and its error if it fails. -/
structure Run where
  written : Written
  error : Option Error

def response (data : Json) : String := (Json.object [("status", .text "ok"), ("data", data)]).sorted.render

/-- The run of a command that reported records under a logger and ended in a response or in an error. -/
def finish (before : Written) (logger : Logger) (r : Except Error Json × List Record) : Run :=
  let logged := logger.write r.2
  let out := before.out ++ logged.out
  let err := before.err ++ logged.err
  match r.1 with
  | .ok data => ⟨⟨out ++ [response data], err⟩, none⟩
  | .error e => ⟨⟨out, err⟩, some e⟩

/-- Runs a command. The demonstration logs at the level of its configuration. -/
def run (command : Command) (contents : String → Except String Bytes) (supply : Supply) : Run :=
  match command with
  | encodeError kind message => finish ⟨[], []⟩ .default (encodeErrorResponse kind message, [])
  | decodeError policy message => finish ⟨[], []⟩ .default (decodeErrorResponse policy message, [])
  | chunk size bytes => finish ⟨[], []⟩ .default (chunkResponse size bytes, [])
  | demo path =>
    let (loaded, records) := configuration contents path
    let before := Logger.default.write records
    match loaded.bind fun c => c.severity.map fun s => (c, s) with
    | .error e => finish before .default (.error (.ofConfig e), [])
    | .ok (config, severity) => finish before ⟨severity⟩ (Demo.run config supply)

end Command

end RemoteTable.Cli
