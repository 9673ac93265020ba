import RemoteTable.Chunk.Depot
import RemoteTable.Store

/-!
# The serving side

A peer answers invocations from its store. Values are sent as JSON text cut into chunks: the first goes with
the reply, the others wait in the depot. Every error goes through the tunnel. A peer that is not connected
answers nothing, and loses its parked chunks when the connection drops.

An invocation that fails changes nothing but the count of invocations.
-/

namespace RemoteTable

/-- The serving side of a line. -/
structure Peer where
  store : Store
  depot : Depot
  connected : Bool
  /-- Every invocation counts: what a 64-bit word counts, below 2 ^ 64 invocations. -/
  invocations : Nat
  supply : Supply

namespace Peer

def new (depot : Depot) (supply : Supply) : Peer := ⟨.empty, depot, true, 0, supply⟩

/-- Drops the connection, and with it the parked chunks. -/
def disconnect (p : Peer) : Peer × List Record :=
  ({ p with connected := false, depot := p.depot.clear }, [Event.loopbackDisconnected.record []])

def reconnect (p : Peer) : Peer := { p with connected := true }

/-- Sends a payload: its first chunk with the reply, the others parked. -/
def send (p : Peer) (tag : Tag) (payload : Bytes) : Reply × Peer :=
  let (first, depot, supply) := p.depot.deposit payload p.supply
  (.chunked tag (Frame.encode first), { p with depot, supply })

def reply (p : Peer) : Answer → Reply × Peer
  | .done => (.unit, p)
  | .info info => p.send .tableInfo (TableInfo.codec.encode info)
  | .rows result => p.send .queryResult (QueryResult.codec.encode result)
  | .row (some row) => p.send .row (Row.codec.encode row)
  | .row none => (.absent .row, p)
  | .metadata set => p.send .metadataSet (MetadataSet.codec.encode set)

def serve (p : Peer) : Request → Except TransportError (Reply × Peer)
  | .call principal call => do
    let (answer, store, supply) ← (p.store.answer principal call p.supply).mapError StoreError.toTransport
    return { p with store, supply }.reply answer
  | .fetch id =>
    match p.depot.take? id with
    | some (chunk, depot) => .ok (.fragment (Frame.encode chunk), { p with depot })
    | none => .error ⟨.argument, s!"unknown chunk id: {id.render}"⟩
  | .release chain => .ok (.unit, { p with depot := (p.depot.release chain).2 })

def dispatch (p : Peer) (method : String) (args : Json) : Except TransportError (Reply × Peer) :=
  match Operation.ofMethod? method with
  | none => .error ⟨.argument, s!"unknown method: {method}"⟩
  | some op =>
    match Request.read op args with
    | .error e => .error ⟨.argument, s!"invalid arguments: {e.message}"⟩
    | .ok request => p.serve request

def attend (p : Peer) (method : String) (args : Json) : Delivery Peer :=
  let records := [Event.loopbackDispatch.record [("method", method)]]
  match p.dispatch method args with
  | .ok (reply, p) => ⟨.ok reply, p, records⟩
  | .error e => ⟨.error (Tunnel.encode e), p, records⟩

def counted (p : Peer) : Peer := { p with invocations := p.invocations + 1 }

def invoke (p : Peer) (method : String) (args : Json) : Delivery Peer :=
  if p.connected then p.counted.attend method args
  else ⟨.error (.platform "remote process is not reachable"), p.counted, []⟩

/-! ## Fragments come from the depot -/

theorem reply_ne_fragment (p q : Peer) (a : Answer) (frame : Bytes) : p.reply a ≠ (.fragment frame, q) := by
  unfold reply send
  split <;> simp

theorem pending_serve {p q : Peer} {r : Request} {frame : Bytes} (h : p.serve r = .ok (.fragment frame, q)) :
    q.depot.pending + 1 = p.depot.pending := by
  cases r with
  | call principal call =>
    simp only [serve] at h
    cases hc : p.store.answer principal call p.supply with
    | error e =>
      rw [hc] at h
      exact nomatch h
    | ok v =>
      rw [hc] at h
      exact absurd (Except.ok.inj h) (reply_ne_fragment _ _ _ _)
  | fetch id =>
    simp only [serve] at h
    split at h
    · rename_i chunk depot htake
      simp only [Except.ok.injEq, Prod.mk.injEq] at h
      obtain ⟨-, rfl⟩ := h
      exact Depot.pending_take? htake
    · simp at h
  | release chain => simp [serve] at h

theorem pending_dispatch {p q : Peer} {method : String} {args : Json} {frame : Bytes}
    (h : p.dispatch method args = .ok (.fragment frame, q)) : q.depot.pending + 1 = p.depot.pending := by
  unfold dispatch at h
  split at h
  · simp at h
  · split at h
    · simp at h
    · exact pending_serve h

theorem pending_invoke {p : Peer} {method : String} {args : Json} {frame : Bytes}
    (h : (p.invoke method args).outcome = .ok (.fragment frame)) :
    (p.invoke method args).peer.depot.pending + 1 = p.depot.pending := by
  unfold invoke at h ⊢
  split at h
  · rw [if_pos (by assumption)]
    unfold attend at h ⊢
    cases hd : p.counted.dispatch method args with
    | error e => simp [hd] at h
    | ok v =>
      simp only [hd, Except.ok.injEq] at h ⊢
      have hd' : p.counted.dispatch method args = .ok (.fragment frame, v.2) := by rw [hd, ← h]
      exact (pending_dispatch hd' : v.2.depot.pending + 1 = p.counted.depot.pending)
  · simp at h

instance : Channel Peer where
  invoke := invoke
  credit p := p.depot.pending
  spends p method args frame h := by
    have := pending_invoke h
    omega

end Peer

end RemoteTable
