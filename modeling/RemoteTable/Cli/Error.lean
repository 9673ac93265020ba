import RemoteTable.Config
import RemoteTable.Json.Complaint

/-!
# Errors of the command line

Each kind of error has a stable code and a message, and ends the program with exit code 1.
-/

namespace RemoteTable.Cli

inductive Code where
  | config
  | argument
  | io
  | remote
  deriving DecidableEq, Repr

def Code.text : Code → String
  | config => "AERO_REMOTE_CLI_CONFIG_ERROR"
  | argument => "AERO_REMOTE_CLI_INVALID_ARGUMENT"
  | io => "AERO_REMOTE_CLI_IO_ERROR"
  | remote => "AERO_REMOTE_CLI_REMOTE_FAILURE"

structure Error where
  code : Code
  message : String
  deriving DecidableEq, Repr

namespace Error

def display (e : Error) : String := s!"{e.code.text}: {e.message}"

def ofConfig (e : ConfigError) : Error := ⟨.config, e.message⟩

def ofTransport (e : TransportError) : Error := ⟨.remote, e.display⟩

def ofJson (c : Json.Complaint) : Error := ⟨.io, s!"JSON error: {c.wording}"⟩

def ofChunkSize (_ : ChunkSizeError) : Error := ⟨.argument, "chunk size must be greater than zero"⟩

end Error

end RemoteTable.Cli
