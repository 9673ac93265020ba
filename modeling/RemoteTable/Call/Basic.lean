import RemoteTable.Call.Arguments
import RemoteTable.Call.Operation

/-!
# Calls

A call is an operation of the store with its arguments, and an answer is what such an operation gives.
`Call.arguments` is what the client sends for a call; `Request.read` is how the serving side understands what
it is sent. Two more requests concern parked chunks and not the store.
-/

namespace RemoteTable

open Json (ReadError)

inductive Call where
  | openTable (table : String)
  | closeTable (table : String)
  | query (q : Query)
  | getRow (table row : String)
  | getMetadata (table : String)
  | getMetadataIfChanged (table : String) (known : Option Token)
  | putMetadata (entry : MetadataEntry)
  | deleteMetadata (table : String) (slot : Slot)

inductive Answer where
  | done
  | info (info : TableInfo)
  | rows (result : QueryResult)
  | row (row : Option Row)
  | metadata (set : MetadataSet)

def Call.operation : Call → Operation
  | openTable _ => .openTable
  | closeTable _ => .closeTable
  | query _ => .query
  | getRow .. => .getRow
  | getMetadata _ => .getMetadata
  | getMetadataIfChanged .. => .getMetadataIfChanged
  | putMetadata _ => .putMetadata
  | deleteMetadata .. => .deleteMetadata

/-- The arguments of a call as they are sent on behalf of a principal. -/
def Call.arguments (principal : Option String) : Call → Json
  | openTable table | closeTable table | getMetadata table => TableArgs.codec.pack ⟨table⟩
  | query q => Query.codec.pack q
  | getRow table row => RowArgs.codec.pack ⟨table, row⟩
  | getMetadataIfChanged table known => RevisionArgs.codec.pack ⟨table, known⟩
  | putMetadata entry => PutArgs.codec.pack ⟨principal, entry⟩
  | deleteMetadata table slot => DeleteArgs.codec.pack ⟨principal, table, slot⟩

/-- What the serving side can be asked for. -/
inductive Request where
  /-- A call on behalf of a principal. -/
  | call (principal : Option String) (call : Call)
  /-- A parked chunk. -/
  | fetch (id : Token)
  /-- To drop what is parked of a chain. -/
  | release (chain : Token)

def Request.read (op : Operation) (args : Json) : Except ReadError Request :=
  match op with
  | .openTable => do
    let a ← TableArgs.codec.ofJson args
    return call none (.openTable a.table)
  | .closeTable => do
    let a ← TableArgs.codec.ofJson args
    return call none (.closeTable a.table)
  | .query => do
    let q ← Query.codec.ofJson args
    return call none (.query q)
  | .getRow => do
    let a ← RowArgs.codec.ofJson args
    return call none (.getRow a.table a.row)
  | .getMetadata => do
    let a ← TableArgs.codec.ofJson args
    return call none (.getMetadata a.table)
  | .getMetadataIfChanged => do
    let a ← RevisionArgs.codec.ofJson args
    return call none (.getMetadataIfChanged a.table a.known)
  | .putMetadata => do
    let a ← PutArgs.codec.ofJson args
    return call a.principal (.putMetadata a.entry)
  | .deleteMetadata => do
    let a ← DeleteArgs.codec.ofJson args
    return call a.principal (.deleteMetadata a.table a.slot)
  | .fetchChunk => do
    let a ← FetchArgs.codec.ofJson args
    return fetch a.id
  | .releaseChain => do
    let a ← ReleaseArgs.codec.ofJson args
    return release a.chain

end RemoteTable
