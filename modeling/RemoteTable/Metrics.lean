import RemoteTable.Json.Basic

/-!
# Metrics of a session

Six counters that only grow. They count modulo 2^64.
-/

namespace RemoteTable

structure Metrics where
  /-- Invocations of the channel, chunk fetches and releases included. -/
  callsIssued : UInt64 := 0
  /-- Operations that ended in an error. -/
  callsFailed : UInt64 := 0
  /-- Chunks pulled after a first one. -/
  chunksFetched : UInt64 := 0
  /-- Bytes of completely reassembled payloads. -/
  payloadBytes : UInt64 := 0
  /-- Failures that their policy turned into internal errors. -/
  tunnelCollapses : UInt64 := 0
  /-- Operations that ended with the remote side unavailable. -/
  unavailable : UInt64 := 0
  deriving DecidableEq, Repr

namespace Metrics

def issued (m : Metrics) : Metrics := { m with callsIssued := m.callsIssued + 1 }

def failed (m : Metrics) : Metrics := { m with callsFailed := m.callsFailed + 1 }

def fetched (m : Metrics) : Metrics := { m with chunksFetched := m.chunksFetched + 1 }

def received (n : UInt64) (m : Metrics) : Metrics := { m with payloadBytes := m.payloadBytes + n }

def collapsed (m : Metrics) : Metrics := { m with tunnelCollapses := m.tunnelCollapses + 1 }

def unreachable (m : Metrics) : Metrics := { m with unavailable := m.unavailable + 1 }

def toJson (m : Metrics) : Json :=
  .object [
    ("calls_issued", .word m.callsIssued),
    ("calls_failed", .word m.callsFailed),
    ("chunks_fetched", .word m.chunksFetched),
    ("payload_bytes", .word m.payloadBytes),
    ("tunnel_collapses", .word m.tunnelCollapses),
    ("service_unavailable", .word m.unavailable)]

end Metrics

end RemoteTable
