import RemoteTable.Cli.Error
import RemoteTable.Peer
import RemoteTable.Session

/-!
# The demonstration

A session against a peer in the same process: it opens a table, queries it, looks for a row that is not there,
writes a metadata entry, reads it twice through the cache, and reports what it counted.
-/

namespace RemoteTable.Cli.Demo

def table : String := "demo"

/-- On whose behalf the session writes. -/
def principal : String := "demo-admin"

def rowCount : Nat := 200

def row (i : Nat) : Row :=
  ⟨toString i, [("name", .text s!"row-{i}"), ("score", .int (i * 7 % 100 : Nat))]⟩

def store (supply : Supply) : Except StoreError (Store × Supply) := do
  let (s, supply) ← Store.empty.createTable table ["name", "score"] supply
  let s ← (List.range rowCount).foldlM (fun s i => s.insertRow table (row i)) s
  return (s.grantWrite principal, supply)

def script (config : Config) : Exchange (Seat Peer) Json := do
  let info ← Session.atLink (Client.openTable config table)
  let result ← Session.atLink (Client.query config (.all table))
  let missing ← Session.atLink (Client.getRow config table "no-such-row")
  Session.atLink (Client.putMetadata config ⟨table, "default", "display", "title", "string", "Demo table"⟩)
  let first ← Session.metadata config table .all
  let second ← Session.metadata config table { aspect := some "display" }
  Session.atLink (Client.closeTable config table)
  let seat := (← get).state
  return .object [
    ("table", .text info.table),
    ("rows_returned", .int result.rows.length),
    ("missing_row_absent", .bool missing.isNone),
    ("metadata_entries", .int first.entries.length),
    ("metadata_revision_stable", .bool (first.revision == second.revision)),
    ("metrics", seat.link.metrics.toJson),
    ("cache", seat.cache.stats.toJson)]

/-- Runs the demonstration under a configuration: its report, and all that was reported on the way. -/
def run (config : Config) (supply : Supply) : Except Error Json × List Record :=
  let config := { config with principal := some principal }
  match Depot.new config.maxChunkSize.toNat, store supply with
  | .error e, _ => (.error (.ofChunkSize e), [])
  | _, .error e => (.error (.ofTransport e.toTransport), [])
  | .ok depot, .ok (store, supply) =>
    let peer := { Peer.new depot supply with store }
    let (r, t) := (script config).on (.start ⟨⟨peer, {}⟩, .empty⟩)
    (r.mapError .ofTransport, Session.opening config ++ t.records ++ Session.closing t.state.cache)

end RemoteTable.Cli.Demo
