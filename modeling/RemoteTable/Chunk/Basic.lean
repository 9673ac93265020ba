import RemoteTable.Token.Supply

/-!
# Chunks and chains

A chunk is one piece of a payload together with its own id and the id of the chunk that follows it. Chunks
linked in this way form a chain, named by its first chunk.

`split` cuts a payload into a chain of chunks of at most a given size. An empty payload is one empty chunk, so
that a value of no bytes stays different from no value.
-/

namespace RemoteTable

structure Chunk where
  payload : Bytes
  id : Token
  next : Option Token
  deriving DecidableEq

/-- The largest number of payload bytes in a chunk. -/
structure ChunkSize where
  bytes : Nat
  positive : 0 < bytes
  deriving DecidableEq

namespace Chunk

def count (length : Nat) (size : ChunkSize) : Nat :=
  if length = 0 then 1 else length / size.bytes + (if length % size.bytes = 0 then 0 else 1)

/-- The pieces of a payload, each of full size but the last; no bytes are no pieces. -/
def pieces (size : ChunkSize) : Bytes → List Bytes
  | [] => []
  | b :: bs => (b :: bs).take size.bytes :: pieces size ((b :: bs).drop size.bytes)
termination_by payload => payload.length
decreasing_by
  have := size.positive
  rw [List.length_drop, List.length_cons]
  omega

end Chunk

/-- Chunks that follow each other, of which there is at least one. -/
structure Chain where
  first : Chunk
  rest : List Chunk
  deriving DecidableEq

namespace Chain

def toList (c : Chain) : List Chunk := c.first :: c.rest

def link (id : Token) (piece : Bytes) : List (Token × Bytes) → Chain
  | [] => ⟨⟨piece, id, none⟩, []⟩
  | (next, other) :: more => ⟨⟨piece, id, some next⟩, (link next other more).toList⟩

/-- The chain of a payload, its ids drawn from a supply. -/
def split (size : ChunkSize) (payload : Bytes) (supply : Supply) : Chain × Supply :=
  let pieces := Chunk.pieces size (payload.drop size.bytes)
  let (id, supply) := supply.next
  let (ids, supply) := supply.take pieces.length
  (link id (payload.take size.bytes) (ids.zip pieces), supply)

end Chain

end RemoteTable
