import RemoteTable.Log.Severity

/-!
# Events

The events that the library reports, each with the name and the level of its log line. Reporting is read-only:
the operations collect records, and only at the outermost layer does a logger decide which of them are
written.
-/

namespace RemoteTable

inductive Event where
  | sessionOpen
  | sessionClose
  | configLoaded
  | remoteCallStart
  | remoteCallComplete
  | remoteCallFailed
  | remoteUnavailable
  | chunkFetch
  | chunkChainComplete
  | chunkFrameRejected
  | tunnelCollapsed
  | metadataCacheMiss
  | metadataCacheRefresh
  | loopbackDispatch
  | loopbackDisconnected
  deriving DecidableEq, Repr

namespace Event

def all : List Event :=
  [sessionOpen, sessionClose, configLoaded, remoteCallStart, remoteCallComplete, remoteCallFailed,
    remoteUnavailable, chunkFetch, chunkChainComplete, chunkFrameRejected, tunnelCollapsed,
    metadataCacheMiss, metadataCacheRefresh, loopbackDispatch, loopbackDisconnected]

def name : Event → String
  | sessionOpen => "SESSION_OPEN"
  | sessionClose => "SESSION_CLOSE"
  | configLoaded => "CONFIG_LOADED"
  | remoteCallStart => "REMOTE_CALL_START"
  | remoteCallComplete => "REMOTE_CALL_COMPLETE"
  | remoteCallFailed => "REMOTE_CALL_FAILED"
  | remoteUnavailable => "REMOTE_UNAVAILABLE"
  | chunkFetch => "CHUNK_FETCH"
  | chunkChainComplete => "CHUNK_CHAIN_COMPLETE"
  | chunkFrameRejected => "CHUNK_FRAME_REJECTED"
  | tunnelCollapsed => "TUNNEL_DECODE_COLLAPSED"
  | metadataCacheMiss => "METADATA_CACHE_MISS"
  | metadataCacheRefresh => "METADATA_CACHE_REFRESH"
  | loopbackDispatch => "LOOPBACK_DISPATCH"
  | loopbackDisconnected => "LOOPBACK_DISCONNECTED"

def severity : Event → Severity
  | remoteCallStart | remoteCallComplete | chunkFetch | chunkChainComplete | loopbackDispatch => .trace
  | sessionOpen | sessionClose | configLoaded | metadataCacheMiss | metadataCacheRefresh => .info
  | remoteCallFailed | tunnelCollapsed | loopbackDisconnected => .warn
  | remoteUnavailable | chunkFrameRejected => .error

end Event

end RemoteTable
