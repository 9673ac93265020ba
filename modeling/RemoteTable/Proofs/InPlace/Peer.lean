import RemoteTable.Peer
import RemoteTable.Proofs.InPlace.Store

/-!
# Invocations in place

A peer that is invoked gives itself back only if it has a reply. Here an invocation is carried out in place on a peer that
outlives an error: it is counted, the store is changed by the operations in place, and chunks are parked and taken out one
statement after another. It comes to the same (`InPlace.on_invoke`). Only a fetch writes before its check, and what it
writes when there is no such chunk is what was parked before (`InPlace.on_take`).
-/

namespace RemoteTable.InPlace

variable {α : Type}

/-- Carries out at a peer what is done to its store. -/
def atStore (x : Exchange Keeper α) : Exchange Peer α := .of fun s =>
  let (r, t) := x.on ⟨⟨s.state.store, s.state.supply⟩, s.journal⟩
  (r, ⟨{ s.state with store := t.state.store, supply := t.state.supply }, t.journal⟩)

def alterParked (f : List Parked → List Parked) : Exchange Peer Unit :=
  .update fun p => { p with depot := { p.depot with parked := f p.depot.parked } }

def cut (payload : Bytes) : Exchange Peer Chain := .of fun s =>
  let (chain, supply) := Chain.split s.state.depot.size payload s.state.supply
  (.ok chain, { s with state := { s.state with supply } })

def register (payload : Bytes) : Exchange Peer Chunk := do
  let chain ← cut payload
  alterParked (· ++ chain.rest.map (Parked.mk chain.first.id))
  return chain.first

/-- The chunk is taken out before it is looked at whether there was one. -/
def take (id : Token) : Exchange Peer (Option Chunk) := do
  let found ← peek fun p => p.depot.parked.find? (·.chunk.id = id)
  alterParked (·.eraseP (·.chunk.id = id))
  return found.map Parked.chunk

def release (chain : Token) : Exchange Peer Nat := do
  let before ← peek (·.depot.pending)
  alterParked (·.filter (·.chain ≠ chain))
  let after ← peek (·.depot.pending)
  return before - after

def send (tag : Tag) (payload : Bytes) : Exchange Peer Reply := do
  let first ← register payload
  return .chunked tag (Frame.encode first)

def reply : Answer → Exchange Peer Reply
  | .done => return .unit
  | .info info => send .tableInfo (TableInfo.codec.encode info)
  | .rows result => send .queryResult (QueryResult.codec.encode result)
  | .row (some row) => send .row (Row.codec.encode row)
  | .row none => return .absent .row
  | .metadata set => send .metadataSet (MetadataSet.codec.encode set)

def serve : Request → Exchange Peer Reply
  | .call principal call => do
    let a ← atStore (answer principal call)
    reply a
  | .fetch id => do
    match ← take id with
    | some chunk => return .fragment (Frame.encode chunk)
    | none => throw ⟨.argument, s!"unknown chunk id: {id.render}"⟩
  | .release chain => do
    let _ ← release chain
    return .unit

def dispatch (method : String) (args : Json) : Exchange Peer Reply :=
  match Operation.ofMethod? method with
  | none => throw ⟨.argument, s!"unknown method: {method}"⟩
  | some op =>
    match Request.read op args with
    | .error e => throw ⟨.argument, s!"invalid arguments: {e.message}"⟩
    | .ok request => serve request

/-- The invocation is counted first, and an error goes through the tunnel. -/
def invoke (method : String) (args : Json) : Exchange Peer Outcome := do
  .update Peer.counted
  if ← peek Peer.connected then
    Exchange.note .loopbackDispatch [("method", method)]
    tryCatch (.ok <$> dispatch method args) fun e => return .error (Tunnel.encode e)
  else return .error (.platform "remote process is not reachable")

/-- What a dispatch leaves that gives the peer back only if it succeeds. -/
def dispatched (s : Noted Peer) : Except TransportError (Reply × Peer) → Except TransportError Reply × Noted Peer
  | .ok (reply, p) => (.ok reply, { s with state := p })
  | .error e => (.error e, s)

theorem on_reply (a : Answer) (s : Noted Peer) :
    (reply a).on s = (.ok (s.state.reply a).1, { s with state := (s.state.reply a).2 }) := by
  cases a with
  | row row => cases row <;> rfl
  | done | info | rows | metadata => rfl

/-- To write back what is parked changes nothing. -/
theorem on_alterParked_same {f : List Parked → List Parked} {s : Noted Peer}
    (h : f s.state.depot.parked = s.state.depot.parked) : (alterParked f).on s = (.ok (), s) := by
  rw [alterParked, Exchange.on_update, h]

theorem on_take (id : Token) (s : Noted Peer) : (take id).on s = match s.state.depot.take? id with
    | some (chunk, depot) => (.ok (some chunk), { s with state := { s.state with depot } })
    | none => (.ok none, s) := by
  rw [take, Exchange.on_bind_ok (on_peek ..), Depot.take?]
  cases hfind : s.state.depot.parked.find? (·.chunk.id = id) with
  | some k => rfl
  | none =>
    have hkept : s.state.depot.parked.eraseP (·.chunk.id = id) = s.state.depot.parked :=
      List.eraseP_of_forall_not (List.find?_eq_none.1 hfind)
    rw [Exchange.on_bind_ok (on_alterParked_same hkept)]
    rfl

/-- As many chunks are dropped as there are fewer afterwards. -/
theorem on_release (chain : Token) (s : Noted Peer) : (release chain).on s =
    (.ok (s.state.depot.release chain).1,
      { s with state := { s.state with depot := (s.state.depot.release chain).2 } }) := by
  have hparts : s.state.depot.parked.length = s.state.depot.parked.countP (·.chain = chain) + _ :=
    List.length_eq_countP_add_countP _
  have hdropped : s.state.depot.pending - (s.state.depot.release chain).2.pending = (s.state.depot.release chain).1 := by
    simp only [decide_eq_true_eq, List.countP_eq_length_filter] at hparts
    simp only [Depot.pending, Depot.release, List.countP_eq_length_filter, ne_eq]
    omega
  rw [← hdropped]
  rfl

theorem on_atStore (principal : Option String) (call : Call) (s : Noted Peer) :
    (atStore (answer principal call)).on s = match s.state.store.answer principal call s.state.supply with
      | .ok (a, store, supply) => (.ok a, { s with state := { s.state with store, supply } })
      | .error e => (.error e.toTransport, s) := by
  rw [atStore, Exchange.on_of, on_answer, Keeper.attempt]
  cases s.state.store.answer principal call s.state.supply <;> rfl

theorem on_serve (request : Request) (s : Noted Peer) :
    (serve request).on s = dispatched s (s.state.serve request) := by
  cases request with
  | call principal call =>
    rw [serve, Peer.serve, Exchange.on_bind, on_atStore]
    cases s.state.store.answer principal call s.state.supply with
    | error e => rfl
    | ok answered => exact on_reply answered.1 _
  | fetch id =>
    rw [serve, Peer.serve, Exchange.on_bind, on_take]
    cases s.state.depot.take? id <;> rfl
  | release chain =>
    rw [serve, Exchange.on_bind_ok (on_release chain s)]
    rfl

theorem on_dispatch (method : String) (args : Json) (s : Noted Peer) :
    (dispatch method args).on s = dispatched s (s.state.dispatch method args) := by
  rw [dispatch, Peer.dispatch]
  cases Operation.ofMethod? method with
  | none => rfl
  | some op =>
    simp only
    cases Request.read op args with
    | error e => rfl
    | ok request => exact on_serve request s

/-- Statement by statement an invocation comes to the same, whether it fails or not. -/
theorem on_invoke (method : String) (args : Json) (s : Noted Peer) :
    (invoke method args).on s = (.ok (s.state.invoke method args).outcome,
      ⟨(s.state.invoke method args).peer, (s.state.invoke method args).records.reverse ++ s.journal⟩) := by
  rw [invoke, Exchange.on_bind_ok (Exchange.on_update ..), Exchange.on_bind_ok (on_peek ..), Peer.invoke]
  cases hconnected : s.state.connected with
  | false => simp [Peer.counted, hconnected]
  | true =>
    have hcounted : s.state.counted.connected = true := hconnected
    simp only [hcounted, if_true]
    rw [Exchange.on_bind_ok (Exchange.on_note ..), Exchange.on_tryCatch, Exchange.on_map, on_dispatch, Peer.attend]
    cases s.state.counted.dispatch method args <;> rfl

end RemoteTable.InPlace
