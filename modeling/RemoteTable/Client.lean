import RemoteTable.Call.Basic
import RemoteTable.Chunk.Stream
import RemoteTable.Config
import RemoteTable.Metrics

/-!
# Remote calls

The client runs one operation from its arguments to a typed value. It invokes the channel; if a chunked value
comes back it fetches the rest of the chain and reads the payload; a failure is read under the policy of the
operation. A chain that cannot be completed is released. Nothing is tried twice, and whatever goes wrong ends
in a transport error.

What the client changes is its end of the line (`Link`): the channel and the counters.
-/

namespace RemoteTable

/-- The client's end of a line. -/
structure Link (σ : Type) where
  peer : σ
  metrics : Metrics

namespace Client

open Exchange (note update)

variable {σ : Type} [Channel σ]

/-! ## One invocation -/

def tally {σ : Type} (f : Metrics → Metrics) : Exchange (Link σ) Unit := update fun l => { l with metrics := f l.metrics }

def transmit (method : String) (args : Json) : Exchange (Link σ) Outcome := .of fun s =>
  let d := Channel.invoke s.state.peer method args
  (.ok d.outcome, ⟨{ s.state with peer := d.peer }, d.records.reverse ++ s.journal⟩)

@[simp] theorem on_tally {σ : Type} (f : Metrics → Metrics) (s : Noted (Link σ)) :
    (tally f).on s = (.ok (), { s with state := { s.state with metrics := f s.state.metrics } }) := rfl

@[simp] theorem on_transmit (method : String) (args : Json) (s : Noted (Link σ)) :
    (transmit method args).on s = (.ok (Channel.invoke s.state.peer method args).outcome,
      ⟨{ s.state with peer := (Channel.invoke s.state.peer method args).peer },
        (Channel.invoke s.state.peer method args).records.reverse ++ s.journal⟩) := rfl

/-- Counts and reports a failure that the operation's policy turns into an internal error. -/
def noteCollapse {σ : Type} (op : Operation) (failure : Failure) : Exchange (Link σ) Unit := do
  if (Tunnel.decode failure op.policy).kind = .internal then
    tally .collapsed
    note .tunnelCollapsed [("method", op.method), ("policy", op.policy.name), ("raw", failure.display)]

/-- Reads a failure under the operation's policy and fails with it. -/
def refuse {σ : Type} (op : Operation) (failure : Failure) : Exchange (Link σ) α := do
  noteCollapse op failure
  throw (Tunnel.decode failure op.policy)

def invoke (op : Operation) (args : Json) : Exchange (Link σ) Reply := do
  tally .issued
  note .remoteCallStart [("method", op.method)]
  match ← transmit op.method args with
  | .ok reply =>
    note .remoteCallComplete [("method", op.method), ("reply", reply.shape)]
    return reply
  | .error failure => refuse op failure

/-- The client's end just after an invocation has come back. -/
def delivered (op : Operation) (args : Json) (s : Noted (Link σ)) : Noted (Link σ) :=
  let d := Channel.invoke s.state.peer op.method args
  ⟨⟨d.peer, s.state.metrics.issued⟩,
    d.records.reverse ++ Event.remoteCallStart.record [("method", op.method)] :: s.journal⟩

theorem on_invoke (op : Operation) (args : Json) (s : Noted (Link σ)) :
    (invoke op args).on s = match (Channel.invoke s.state.peer op.method args).outcome with
      | .ok reply =>
        (.ok reply, ⟨(delivered op args s).state,
          Event.remoteCallComplete.record [("method", op.method), ("reply", reply.shape)] ::
            (delivered op args s).journal⟩)
      | .error failure => (refuse op failure).on (delivered op args s) := by
  unfold invoke
  rw [Exchange.on_bind_ok (on_tally ..), Exchange.on_bind_ok (Exchange.on_note ..),
    Exchange.on_bind_ok (on_transmit ..)]
  cases (Channel.invoke s.state.peer op.method args).outcome <;> rfl

theorem on_refuse_ne_ok {σ : Type} (op : Operation) (failure : Failure) (s t : Noted (Link σ)) (a : α) :
    (refuse op failure).on s ≠ (.ok a, t) := by
  unfold refuse
  rw [Exchange.on_bind]
  split <;> simp

theorem peer_invoke {op : Operation} {args : Json} {s t : Noted (Link σ)} {reply : Reply}
    (h : (invoke op args).on s = (.ok reply, t)) :
    (Channel.invoke s.state.peer op.method args).outcome = .ok reply ∧
      t.state.peer = (Channel.invoke s.state.peer op.method args).peer := by
  rw [on_invoke] at h
  split at h
  · rename_i houtcome
    simp only [Prod.mk.injEq, Except.ok.injEq] at h
    obtain ⟨rfl, rfl⟩ := h
    exact ⟨houtcome, rfl⟩
  · exact absurd h (on_refuse_ne_ok _ _ _ _ _)

/-- The error of a reply that the operation cannot have. -/
def unexpected (op : Operation) (reply : Reply) : TransportError :=
  ⟨.internal, s!"unexpected {reply.shape} reply to {op.method}"⟩

/-! ## Chains -/

def openFrame {σ : Type} (verify : Bool) (frame : Bytes) : Exchange σ Chunk :=
  match Frame.decode frame verify with
  | .ok chunk => return chunk
  | .error e => do
    note .chunkFrameRejected [("error", e.display)]
    throw e.toTransport

def fetchChunk (verify : Bool) (id : Token) : Exchange (Link σ) Chunk := do
  note .chunkFetch [("id", id.render)]
  match ← invoke .fetchChunk (FetchArgs.codec.pack ⟨id⟩) with
  | .fragment frame =>
    let chunk ← openFrame verify frame
    tally .fetched
    return chunk
  | reply => throw (unexpected .fetchChunk reply)

/-- Asks the remote side to drop what is left of a chain. If that fails too, there is nothing more to do. -/
def releaseChain (chain : Token) : Exchange (Link σ) Unit :=
  tryCatch (discard (invoke .releaseChain (ReleaseArgs.codec.pack ⟨chain⟩))) fun e =>
    note .remoteCallFailed
      [("method", Operation.releaseChain.method), ("code", e.kind.code), ("message", e.message)]

theorem openFrame_ok {σ : Type} {verify : Bool} {frame : Bytes} {s t : Noted σ} {c : Chunk}
    (h : (openFrame verify frame).on s = (.ok c, t)) : t = s := by
  unfold openFrame at h
  split at h
  · exact (Prod.mk.inj h).2.symm
  · simp [Exchange.on_bind] at h

theorem credit_fetchChunk (verify : Bool) (id : Token) (s : Noted (Link σ)) (c : Chunk) (t : Noted (Link σ))
    (h : (fetchChunk verify id).on s = (.ok c, t)) : Channel.credit t.state.peer < Channel.credit s.state.peer := by
  unfold fetchChunk at h
  rw [Exchange.on_bind_ok (Exchange.on_note ..), Exchange.on_bind] at h
  split at h
  · rename_i reply u hu
    obtain ⟨houtcome, hpeer⟩ := peer_invoke hu
    split at h
    · rw [Exchange.on_bind] at h
      split at h
      · rename_i hframe
        obtain rfl := openFrame_ok hframe
        rw [Exchange.on_bind_ok (on_tally ..)] at h
        obtain rfl := (Prod.mk.inj h).2
        simpa [hpeer] using Channel.spends _ _ _ _ houtcome
      · simp at h
    · simp at h
  · simp at h

def supplier (verify : Bool) : Supplier (Link σ) where
  fetch := fetchChunk verify
  credit l := Channel.credit l.peer
  spends := credit_fetchChunk verify

/-- The payload of the chain in a reply; a chain that cannot be completed is released. -/
def reassemble (verify : Bool) (op : Operation) (frame : Bytes) : Exchange (Link σ) Bytes := do
  let first ← openFrame verify frame
  let payload ← tryCatch (Chunk.decode (supplier verify) first) fun e => do
    releaseChain first.id
    throw e
  tally (.received (UInt64.ofNat payload.length))
  note .chunkChainComplete [("method", op.method), ("bytes", toString payload.length)]
  return payload

/-! ## One operation -/

def readPayload {σ : Type} (tag : Tag) (codec : Json.Codec α) (payload : Bytes) : Exchange σ α :=
  match codec.decode payload with
  | .ok a => return a
  | .error e => throw ⟨.internal, s!"failed to decode {tag.name} payload: {e.message}"⟩

/-- The value in a reply, if it is not absent. -/
def readValue (verify : Bool) (op : Operation) (codec : Json.Codec α) (reply : Reply) :
    Exchange (Link σ) (Option α) :=
  match reply with
  | .chunked tag frame =>
    if op.tag? = some tag then do
      let payload ← reassemble verify op frame
      some <$> readPayload tag codec payload
    else throw (unexpected op reply)
  | .absent tag =>
    if op.tag? = some tag ∧ op.isNullable then return none else throw (unexpected op reply)
  | _ => throw (unexpected op reply)

/-- Runs an operation whose failure is counted and reported once, whichever of its steps failed. -/
def observe {σ : Type} (op : Operation) (run : Exchange (Link σ) α) : Exchange (Link σ) α :=
  tryCatch run fun e => do
    tally .failed
    if e.requiresReconnect then
      tally .unreachable
      note .remoteUnavailable [("method", op.method), ("message", e.message)]
    else
      note .remoteCallFailed [("method", op.method), ("code", e.kind.code), ("message", e.message)]
    throw e

/-- Runs a call that may find no value. -/
def lookup (config : Config) (call : Call) (codec : Json.Codec α) : Exchange (Link σ) (Option α) :=
  observe call.operation do
    let reply ← invoke call.operation (call.arguments config.principal)
    readValue config.verifyChecksums call.operation codec reply

/-- Runs a call that has a value. -/
def request (config : Config) (call : Call) (codec : Json.Codec α) : Exchange (Link σ) α :=
  observe call.operation do
    let reply ← invoke call.operation (call.arguments config.principal)
    match ← readValue config.verifyChecksums call.operation codec reply with
    | some a => return a
    | none => throw ⟨.internal, s!"{call.operation.method} returned no value"⟩

/-- Runs a call that has no value. -/
def command (config : Config) (call : Call) : Exchange (Link σ) Unit :=
  observe call.operation do
    match ← invoke call.operation (call.arguments config.principal) with
    | .unit => return ()
    | reply => throw (unexpected call.operation reply)

/-! ## The operations -/

def openTable (config : Config) (table : String) : Exchange (Link σ) TableInfo :=
  request config (.openTable table) TableInfo.codec

def closeTable (config : Config) (table : String) : Exchange (Link σ) Unit := command config (.closeTable table)

def query (config : Config) (q : Query) : Exchange (Link σ) QueryResult :=
  request config (.query q) QueryResult.codec

def getRow (config : Config) (table row : String) : Exchange (Link σ) (Option Row) :=
  lookup config (.getRow table row) Row.codec

def getMetadata (config : Config) (table : String) : Exchange (Link σ) MetadataSet :=
  request config (.getMetadata table) MetadataSet.codec

def getMetadataIfChanged (config : Config) (table : String) (known : Option Token) :
    Exchange (Link σ) MetadataSet :=
  request config (.getMetadataIfChanged table known) MetadataSet.codec

/-- Writes a metadata entry as the configured principal. -/
def putMetadata (config : Config) (entry : MetadataEntry) : Exchange (Link σ) Unit :=
  command config (.putMetadata entry)

/-- Deletes a metadata entry as the configured principal. -/
def deleteMetadata (config : Config) (table : String) (slot : Slot) : Exchange (Link σ) Unit :=
  command config (.deleteMetadata table slot)

def perform (config : Config) : Call → Exchange (Link σ) Answer
  | .openTable table => .info <$> openTable config table
  | .closeTable table => (fun _ => .done) <$> closeTable config table
  | .query q => .rows <$> query config q
  | .getRow table row => .row <$> getRow config table row
  | .getMetadata table => .metadata <$> getMetadata config table
  | .getMetadataIfChanged table known => .metadata <$> getMetadataIfChanged config table known
  | .putMetadata entry => (fun _ => .done) <$> putMetadata config entry
  | .deleteMetadata table slot => (fun _ => .done) <$> deleteMetadata config table slot

end Client

end RemoteTable
