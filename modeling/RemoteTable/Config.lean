import RemoteTable.Chunk.Depot
import RemoteTable.Json.Codec
import RemoteTable.Log.Record

/-!
# Configuration

A configuration is a JSON record all of whose fields may be left out. It is usable when its chunk size is
positive and fits the length field of a frame, and when its log level is the name of a severity.
-/

namespace RemoteTable

open Json (Codec Fields)

structure Config where
  /-- Payload bytes in a chunk, on the serving side. -/
  maxChunkSize : UInt64 := 65536
  /-- Whether the checksums of received frames are looked at. -/
  verifyChecksums : Bool := true
  /-- The name of the lowest severity that is logged. -/
  logLevel : String := "warn"
  /-- On whose behalf privileged calls are made. -/
  principal : Option String := none
  deriving DecidableEq, Repr

inductive ConfigError where
  /-- The file at this path cannot be read. -/
  | unreadable (path reason : String)
  | malformed (e : Json.ReadError)
  | zeroChunkSize
  | chunkSizeTooLarge
  | unknownLevel (name : String)
  deriving DecidableEq, Repr

namespace ConfigError

def message : ConfigError → String
  | unreadable path reason => s!"failed to read config {path}: {reason}"
  | malformed e => s!"failed to parse config: {e.message}"
  | zeroChunkSize => "invalid config value for max_chunk_size: must be greater than zero"
  | chunkSizeTooLarge => s!"invalid config value for max_chunk_size: must not exceed {Frame.maxPayload}"
  | unknownLevel name => s!"invalid config value for log_level: unknown level '{name}'"

end ConfigError

namespace Config

def codec : Codec Config :=
  (Fields.cons ⟨"max_chunk_size", .word, .allowed 65536⟩ <|
    Fields.cons ⟨"verify_chunk_checksums", .flag, .allowed true⟩ <|
    Fields.cons ⟨"log_level", .text, .allowed "warn"⟩ <|
    Fields.cons ⟨"principal", .nullable .text, .allowed none⟩ .nil).codec.imap
    (fun (maxChunkSize, verifyChecksums, logLevel, principal, _) =>
      ⟨maxChunkSize, verifyChecksums, logLevel, principal⟩)
    fun c => (c.maxChunkSize, c.verifyChecksums, c.logLevel, c.principal, ())

def severity (c : Config) : Except ConfigError Severity :=
  match Severity.ofName? c.logLevel with
  | some s => .ok s
  | none => .error (.unknownLevel c.logLevel)

def validate (c : Config) : Except ConfigError Unit := do
  if c.maxChunkSize = 0 then throw .zeroChunkSize
  if Frame.maxPayload < c.maxChunkSize.toNat then throw .chunkSizeTooLarge
  discard c.severity

def ofJsonText (text : Bytes) : Except ConfigError Config := do
  let c ← (codec.decode text).mapError .malformed
  c.validate
  return c

/-- Reads a configuration file, of which the contents or the reason for having none are given; success is reported. -/
def load (path : String) (contents : Except String Bytes) : Except ConfigError Config × List Record :=
  let text := contents.bind fun bs => if (Bytes.toString? bs).isSome then .ok bs else .error "not valid UTF-8"
  match (text.mapError (.unreadable path)).bind ofJsonText with
  | .ok c => (.ok c, [Event.configLoaded.record [("path", path)]])
  | .error e => (.error e, [])

end Config

end RemoteTable
