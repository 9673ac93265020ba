import RemoteTable.Client
import RemoteTable.Metadata.Cache

/-!
# Sessions

A session is a client with a metadata cache of its own. Metadata reads go through the cache; everything else
goes straight to the client.
-/

namespace RemoteTable

/-- A session on its own, between two operations. -/
structure Session where
  config : Config
  metrics : Metrics
  cache : Cache

/-- A session's end of a line during an operation. -/
structure Seat (σ : Type) where
  link : Link σ
  cache : Cache

/-- What a session can be asked for. -/
inductive SessionCall where
  /-- A call that does not touch the cache. -/
  | direct (call : Call)
  /-- The metadata of a table that passes a filter, through the cache. -/
  | cached (table : String) (filter : MetadataFilter)

structure Performed (σ : Type) where
  result : Except TransportError Answer
  session : Session
  peer : σ
  records : List Record

namespace Session

variable {σ : Type} [Channel σ]

def new (config : Config) : Session := ⟨config, {}, .empty⟩

def opening (config : Config) : List Record :=
  [Event.sessionOpen.record
    [("max_chunk_size", toString config.maxChunkSize.toNat), ("principal", config.principal.getD "<none>")]]

def closing (cache : Cache) : List Record :=
  [Event.sessionClose.record [("cached_tables", toString cache.lines.size)]]

/-- Carries a client's exchange out at a seat. -/
def atLink {σ : Type} (x : Exchange (Link σ) α) : Exchange (Seat σ) α := .of fun s =>
  let (r, t) := x.on ⟨s.state.link, s.journal⟩
  (r, ⟨{ s.state with link := t.state }, t.journal⟩)

def inquire (config : Config) : Inquiry → Exchange (Link σ) MetadataSet
  | .fetch table => Client.getMetadata config table
  | .ifChanged table known => Client.getMetadataIfChanged config table known

/-- The metadata of a table that passes a filter, through the cache. A failed inquiry leaves the cache as it was. -/
def metadata (config : Config) (table : String) (filter : MetadataFilter) : Exchange (Seat σ) MetadataSet :=
  .of fun s =>
    let (r, t) := (s.state.cache.get (inquire config) table filter).on ⟨s.state.link, s.journal⟩
    match r with
    | .ok (set, cache) => (.ok set, ⟨⟨t.state, cache⟩, t.journal⟩)
    | .error e => (.error e, ⟨⟨t.state, s.state.cache⟩, t.journal⟩)

def answer (config : Config) : SessionCall → Exchange (Seat σ) Answer
  | .direct call => atLink (Client.perform config call)
  | .cached table filter => .metadata <$> metadata config table filter

def perform (s : Session) (call : SessionCall) (peer : σ) : Performed σ :=
  let (r, t) := (answer s.config call).on (.start ⟨⟨peer, s.metrics⟩, s.cache⟩)
  ⟨r, ⟨s.config, t.state.link.metrics, t.state.cache⟩, t.state.link.peer, t.records⟩

end Session

end RemoteTable
