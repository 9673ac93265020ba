import RemoteTable.Channel.Faulty
import RemoteTable.Session

/-!
# Deployments

One peer with its store, a line to it with faults ahead, and the sessions that share the line. Each step is an
operation of a session, an operation on the store itself, a change of the connection or of the sessions, or an
invocation made on the peer without a session and without faults.
-/

namespace RemoteTable

/-- The place of a session, which may have been closed. -/
structure Place where
  config : Config
  session : Option Session

/-- A peer, the line to it and the sessions on the line. -/
structure Deployment where
  line : Faulty
  places : List Place

inductive Step where
  | session (index : Nat) (call : SessionCall)
  | createTable (table : String) (columns : List String)
  | insertRow (table : String) (row : Row)
  | grantWrite (principal : String)
  /-- A call answered by the store itself. -/
  | direct (principal : Option String) (call : Call)
  | disconnect
  | reconnect
  | closeSession (index : Nat)
  | openSession (index : Nat)
  /-- Replaces the faults ahead. -/
  | expect (faults : List Fault)
  | invoke (method : String) (args : Json)

inductive StepResult where
  | result (r : Except TransportError Answer)
  /-- The result of a session's operation, and the session after it. -/
  | performed (r : Except TransportError Answer) (session : Session)
  | invoked (outcome : Outcome)
  /-- The connection, the sessions or the faults ahead were changed. -/
  | changed
  /-- There is no session at the index. -/
  | noSession

namespace Deployment

structure Stepped where
  result : StepResult
  deployment : Deployment
  records : List Record := []

def peer (d : Deployment) : Peer := d.line.peer

def withPeer (d : Deployment) (p : Peer) : Deployment := { d with line := { d.line with peer := p } }

/-- The deployment with another store, and with tokens drawn. -/
def withStore (d : Deployment) (store : Store) (supply : Supply) : Deployment :=
  d.withPeer { d.peer with store, supply }

/-- Opens a session for each configuration on a sound line to a new peer. -/
def start (chunkSize : Nat) (configs : List Config) (supply : Supply) :
    Except ChunkSizeError (Deployment × List Record) := do
  let depot ← Depot.new chunkSize
  let places := configs.map fun c => ⟨c, some (.new c)⟩
  return (⟨⟨.new depot supply, []⟩, places⟩, configs.flatMap Session.opening)

/-- What is reported when the sessions still open are closed in order. -/
def closing (d : Deployment) : List Record :=
  d.places.flatMap fun p => p.session.elim [] fun s => Session.closing s.cache

def session? (d : Deployment) (index : Nat) : Option Session := d.places[index]?.bind (·.session)

def withSession (d : Deployment) (index : Nat) (session : Option Session) : Deployment :=
  { d with places := d.places.modify index fun p => { p with session } }

/-- A step on the store, which answers it or refuses. -/
def onStore (d : Deployment) (r : Except StoreError (Answer × Store × Supply)) : Stepped :=
  match r with
  | .ok (answer, store, supply) => ⟨.result (.ok answer), d.withStore store supply, []⟩
  | .error e => ⟨.result (.error e.toTransport), d, []⟩

def step (d : Deployment) : Step → Stepped
  | .session index call =>
    match d.session? index with
    | none => ⟨.noSession, d, []⟩
    | some s =>
      let r := s.perform call d.line
      ⟨.performed r.result r.session, { d with line := r.peer }.withSession index r.session, r.records⟩
  | .createTable table columns =>
    d.onStore ((d.peer.store.createTable table columns d.peer.supply).map fun (s, supply) => (.done, s, supply))
  | .insertRow table row => d.onStore ((d.peer.store.insertRow table row).map fun s => (.done, s, d.peer.supply))
  | .grantWrite principal => d.onStore (.ok (.done, d.peer.store.grantWrite principal, d.peer.supply))
  | .direct principal call => d.onStore (d.peer.store.answer principal call d.peer.supply)
  | .disconnect =>
    let (p, records) := d.peer.disconnect
    ⟨.changed, d.withPeer p, records⟩
  | .reconnect => ⟨.changed, d.withPeer d.peer.reconnect, []⟩
  | .closeSession index =>
    match d.session? index with
    | none => ⟨.noSession, d, []⟩
    | some s => ⟨.changed, d.withSession index none, Session.closing s.cache⟩
  | .openSession index =>
    match d.places[index]? with
    | none => ⟨.noSession, d, []⟩
    | some p =>
      let closed := p.session.elim [] fun s => Session.closing s.cache
      ⟨.changed, d.withSession index (some (.new p.config)), Session.opening p.config ++ closed⟩
  | .expect faults => ⟨.changed, { d with line := { d.line with faults } }, []⟩
  | .invoke method args =>
    let r := d.peer.invoke method args
    ⟨.invoked r.outcome, d.withPeer r.peer, r.records⟩

end Deployment

end RemoteTable
