import RemoteTable.Chunk.Frame

/-!
# The depot of the serving side

When a payload is too long for one message, the serving side sends its first chunk with the reply and parks
the others here until they are asked for. A parked chunk is handed out once. A receiver that gives a chain up
releases whatever of it is still parked, by the id of the chain's first chunk.
-/

namespace RemoteTable

/-- A parked chunk and the first chunk's id of its chain. -/
structure Parked where
  chain : Token
  chunk : Chunk
  deriving DecidableEq

/-- The chunks waiting to be asked for, and the size they are cut to. -/
structure Depot where
  size : ChunkSize
  fits : size.bytes ≤ Frame.maxPayload
  parked : List Parked

inductive ChunkSizeError where
  | zero
  | tooLarge
  deriving DecidableEq, Repr

def ChunkSizeError.message : ChunkSizeError → String
  | zero => "max_chunk_size must be positive"
  | tooLarge => "max_chunk_size must fit a frame length"

def ChunkSize.ofNat (n : Nat) : Except ChunkSizeError ChunkSize :=
  if h : 0 < n then .ok ⟨n, h⟩ else .error .zero

namespace Depot

def new (n : Nat) : Except ChunkSizeError Depot := do
  let size ← ChunkSize.ofNat n
  if h : size.bytes ≤ Frame.maxPayload then return ⟨size, h, []⟩ else throw .tooLarge

/-- Cuts a payload into a chain, parks all but its first chunk and hands that one out. -/
def deposit (d : Depot) (payload : Bytes) (supply : Supply) : Chunk × Depot × Supply :=
  let (chain, supply) := Chain.split d.size payload supply
  (chain.first, { d with parked := d.parked ++ chain.rest.map (Parked.mk chain.first.id) }, supply)

/-- Hands out the parked chunk with this id, which is then no longer parked. -/
def take? (d : Depot) (id : Token) : Option (Chunk × Depot) :=
  (d.parked.find? (·.chunk.id = id)).map fun p =>
    (p.chunk, { d with parked := d.parked.eraseP (·.chunk.id = id) })

/-- Drops the parked chunks of a chain, and tells how many there were. -/
def release (d : Depot) (chain : Token) : Nat × Depot :=
  (d.parked.countP (·.chain = chain), { d with parked := d.parked.filter (·.chain ≠ chain) })

def clear (d : Depot) : Depot := { d with parked := [] }

def pending (d : Depot) : Nat := d.parked.length

theorem pending_take? {d e : Depot} {id : Token} {c : Chunk} (h : d.take? id = some (c, e)) :
    e.pending + 1 = d.pending := by
  obtain ⟨p, hp, he⟩ := Option.map_eq_some_iff.1 h
  obtain ⟨-, rfl⟩ := Prod.mk.injEq .. ▸ he
  have hmem := List.mem_of_find?_eq_some hp
  have hpos := List.length_pos_of_mem hmem
  simp only [pending, List.length_eraseP_of_mem hmem (List.find?_some hp)]
  omega

end Depot

end RemoteTable
