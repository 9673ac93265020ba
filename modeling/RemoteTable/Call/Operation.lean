import RemoteTable.Channel.Basic
import RemoteTable.Tunnel

/-!
# Operations

The methods of the remote side. For each of them this file says under which policy its failures are read, of
which type its value is, and whether the value may be absent.
-/

namespace RemoteTable

inductive Operation where
  | openTable
  | closeTable
  | query
  | getRow
  | getMetadata
  | getMetadataIfChanged
  | putMetadata
  | deleteMetadata
  /-- Asks for a parked chunk. -/
  | fetchChunk
  /-- Gives up a chain. -/
  | releaseChain
  deriving DecidableEq, Repr

namespace Operation

def all : List Operation :=
  [openTable, closeTable, query, getRow, getMetadata, getMetadataIfChanged, putMetadata, deleteMetadata,
    fetchChunk, releaseChain]

def method : Operation → String
  | openTable => "open"
  | closeTable => "close"
  | query => "query"
  | getRow => "get_row"
  | getMetadata => "get_metadata"
  | getMetadataIfChanged => "get_metadata_if_changed"
  | putMetadata => "put_metadata"
  | deleteMetadata => "delete_metadata"
  | fetchChunk => "fetch_chunk"
  | releaseChain => "release_chain"

def ofMethod? (s : String) : Option Operation := all.find? (·.method == s)

theorem ofMethod?_method (op : Operation) : ofMethod? op.method = some op := by cases op <;> decide

theorem method_of_ofMethod? {s : String} {op : Operation} (h : ofMethod? s = some op) : op.method = s := by
  simpa using List.find?_some h

theorem method_injective {op other : Operation} (h : op.method = other.method) : op = other := by
  have hsame := congrArg ofMethod? h
  rw [ofMethod?_method, ofMethod?_method] at hsame
  exact Option.some.inj hsame

/-- The policy that the operation's failures are read under: writes are privileged. -/
def policy : Operation → Policy
  | putMetadata | deleteMetadata => .privileged
  | _ => .alwaysAllowed

def tag? : Operation → Option Tag
  | openTable => some .tableInfo
  | query => some .queryResult
  | getRow => some .row
  | getMetadata | getMetadataIfChanged => some .metadataSet
  | _ => none

def isNullable : Operation → Bool
  | getRow => true
  | _ => false

end Operation

end RemoteTable
