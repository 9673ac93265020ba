import RemoteTable.Chunk.Basic
import RemoteTable.Exchange

/-!
# Reassembly of chains

The receiver holds the first chunk of a chain and asks a supplier for each following one by its id. A chunk
under another id breaks the chain; a supplier that fails makes the remote side unavailable. Either fault ends
the reassembly, and nothing is asked for after it.

Nothing bounds the length of a chain from the receiver's side: what makes reassembly end is on the side of the
supplier, whose credit falls with every chunk it hands out.

`ChunkStream.next` hands out the pieces one at a time and asks only when the next piece is wanted;
`Chunk.decode` gathers the whole payload.
-/

namespace RemoteTable

structure Supplier (σ : Type) where
  fetch : Token → Exchange σ Chunk
  /-- Bounds the number of chunks that can still be handed out. -/
  credit : σ → Nat
  /-- Handing out a chunk lowers the credit. -/
  spends : ∀ id s c t, (fetch id).on s = (.ok c, t) → credit t.state < credit s.state

namespace Chunk

/-- What the receiver makes of the answer when it asked for an id. -/
def accept (asked : Token) : Except TransportError Chunk → Except TransportError Chunk
  | .error e => .error ⟨.unavailable, s!"failed to fetch chunk {asked.render}: {e.message}"⟩
  | .ok chunk =>
    if chunk.id = asked then .ok chunk
    else .error ⟨.internal, s!"chunk chain broken: requested {asked.render}, received {chunk.id.render}"⟩

theorem accept_eq_ok {asked : Token} {answer : Except TransportError Chunk} {c : Chunk} :
    accept asked answer = .ok c ↔ answer = .ok c ∧ c.id = asked := by
  cases answer with
  | error e => simp [accept]
  | ok d =>
    by_cases h : d.id = asked
    · simp only [accept, h, if_true, Except.ok.injEq]
      exact ⟨fun e => ⟨e, e ▸ h⟩, fun e => e.1⟩
    · simp only [accept, h, if_false, Except.ok.injEq, reduceCtorEq, false_iff]
      rintro ⟨rfl, e⟩
      exact h e

/-- The bytes of the chain that goes on with `next`. -/
def follow (supplier : Supplier σ) (next : Option Token) (s : Noted σ) : Except TransportError Bytes × Noted σ :=
  match next with
  | none => (.ok [], s)
  | some id =>
    match _fetched : (supplier.fetch id).on s with
    | (answer, t) =>
      match _accepted : accept id answer with
      | .error e => (.error e, t)
      | .ok chunk =>
        match follow supplier chunk.next t with
        | (.ok bytes, t) => (.ok (chunk.payload ++ bytes), t)
        | (.error e, t) => (.error e, t)
termination_by supplier.credit s.state
decreasing_by exact supplier.spends _ _ _ _ (_fetched.trans (by rw [(accept_eq_ok.1 _accepted).1]))

def decode (supplier : Supplier σ) (first : Chunk) : Exchange σ Bytes := do
  let bytes ← Exchange.of (follow supplier first.next)
  return first.payload ++ bytes

def decode? (supplier : Supplier σ) : Option Chunk → Exchange σ (Option Bytes)
  | none => return none
  | some first => some <$> decode supplier first

end Chunk

/-! ## Streams -/

inductive ChunkStream.Position where
  /-- The first chunk has not been handed out. -/
  | start (first : Chunk)
  /-- The next piece is in the chunk with this id. -/
  | awaiting (id : Token)
  /-- The chain has ended, or has failed. -/
  | done
  deriving DecidableEq

structure ChunkStream where
  position : ChunkStream.Position
  /-- How many chunks the supplier has handed out: the count of a 64-bit word, below 2 ^ 64 chunks. -/
  fetched : Nat
  deriving DecidableEq

namespace ChunkStream

def new (first : Chunk) : ChunkStream := ⟨.start first, 0⟩

def after (chunk : Chunk) : Position := chunk.next.elim .done .awaiting

/-- The next piece, or the error that ends the stream, or nothing once it has ended. -/
def next (fetch : Token → Exchange σ Chunk) (stream : ChunkStream) (s : Noted σ) :
    Option (Except TransportError Bytes) × ChunkStream × Noted σ :=
  match stream.position with
  | .start first => (some (.ok first.payload), { stream with position := after first }, s)
  | .done => (none, stream, s)
  | .awaiting id =>
    let (answer, t) := (fetch id).on s
    let fetched := stream.fetched + (if answer.isOk then 1 else 0)
    match Chunk.accept id answer with
    | .ok chunk => (some (.ok chunk.payload), ⟨after chunk, fetched⟩, t)
    | .error e => (some (.error e), ⟨.done, fetched⟩, t)

end ChunkStream

/-! ## Suppliers that answer from a list -/

/-- Answers that are still to be given, and the ids asked for, newest first. -/
structure ScriptedChunks where
  answers : List (Except TransportError Chunk)
  asked : List Token := []

namespace ScriptedChunks

/-- Gives the next answer, whatever id is asked for; fails when there is none. -/
def answer (id : Token) (s : Noted ScriptedChunks) : Except TransportError Chunk × Noted ScriptedChunks :=
  match s.state.answers with
  | [] => (.error ⟨.storage, "no more replies"⟩, { s with state := ⟨[], id :: s.state.asked⟩ })
  | a :: rest => (a, { s with state := ⟨rest, id :: s.state.asked⟩ })

def supplier : Supplier ScriptedChunks where
  fetch id := .of (answer id)
  credit s := s.answers.length
  spends id s c t h := by
    rw [Exchange.on_of, answer] at h
    split at h
    · simp at h
    · rename_i heq
      simp only [Prod.mk.injEq] at h
      obtain ⟨-, rfl⟩ := h
      simp [heq]

end ScriptedChunks

end RemoteTable
