import Mathlib.Data.List.Chain
import RemoteTable.Proofs.Client.Yields

/-!
# Trails

To follow a chain is to accept chunk after chunk until one names no other or something goes wrong (`Chunk.Trail`); the
bytes of the chain are the payloads that were accepted (`Chunk.follow_trail`, `Chunk.decode_trail`). A stream that is pulled
to its end goes along the same trail, and needs one pull for each chunk and one more at most (`ChunkStream.pull_decode`).
-/

namespace RemoteTable

namespace Chunk

/-- The one chunk goes on with the other. -/
def Names (c d : Chunk) : Prop := c.next = some d.id

/-- Following a chain that goes on with `next`, from the state `s` on, accepts these chunks one after another, comes to
the end of the chain or to an error, and leaves the state `t`. -/
inductive Trail (supplier : Supplier σ) :
    (next : Option Token) → (s : Noted σ) → List Chunk → Except TransportError Unit → (t : Noted σ) → Prop
  | ended {s : Noted σ} : Trail supplier none s [] (.ok ()) s
  | broken {id : Token} {s : Noted σ} {e : TransportError}
    (refused : accept id ((supplier.fetch id).on s).1 = .error e) :
    Trail supplier (some id) s [] (.error e) ((supplier.fetch id).on s).2
  | further {id : Token} {s t : Noted σ} {c : Chunk} {accepted : List Chunk} {r : Except TransportError Unit}
    (taken : accept id ((supplier.fetch id).on s).1 = .ok c)
    (rest : Trail supplier c.next ((supplier.fetch id).on s).2 accepted r t) :
    Trail supplier (some id) s (c :: accepted) r t

variable {supplier : Supplier σ} {s t : Noted σ} {accepted : List Chunk} {r : Except TransportError Unit}

theorem follow_trail (supplier : Supplier σ) (next : Option Token) (s : Noted σ) : ∃ accepted r,
    Trail supplier next s accepted r (follow supplier next s).2 ∧
      (follow supplier next s).1 = (fun _ => (accepted.map payload).flatten) <$> r := by
  cases next with
  | none =>
    refine ⟨[], .ok (), ?_⟩
    rw [follow]
    exact ⟨.ended, rfl⟩
  | some id =>
    cases haccept : accept id ((supplier.fetch id).on s).1 with
    | error e =>
      refine ⟨[], .error e, ?_⟩
      rw [follow_error haccept]
      exact ⟨.broken haccept, rfl⟩
    | ok c =>
      obtain ⟨accepted, r, htrail, hbytes⟩ := follow_trail supplier c.next ((supplier.fetch id).on s).2
      refine ⟨c :: accepted, r, ?_⟩
      rw [follow_ok haccept, hbytes]
      refine ⟨.further haccept htrail, ?_⟩
      cases r <;> rfl
termination_by supplier.credit s.state
decreasing_by exact supplier.spends _ _ _ _ (Prod.ext (accept_eq_ok.1 haccept).1 rfl)

/-- The payload of a chain is that of its first chunk and of those that were accepted after it. -/
theorem decode_trail (supplier : Supplier σ) (first : Chunk) (s : Noted σ) : ∃ accepted r,
    Trail supplier first.next s accepted r ((decode supplier first).on s).2 ∧
      ((decode supplier first).on s).1 = (fun _ => ((first :: accepted).map payload).flatten) <$> r := by
  obtain ⟨accepted, r, htrail, hbytes⟩ := follow_trail supplier first.next s
  have hfollow : (Exchange.of (follow supplier first.next)).on s =
      ((fun _ => (accepted.map payload).flatten) <$> r, (follow supplier first.next s).2) := Prod.ext hbytes rfl
  refine ⟨accepted, r, ?_⟩
  cases r with
  | error e =>
    rw [decode, Exchange.on_bind_error hfollow]
    exact ⟨htrail, rfl⟩
  | ok u =>
    rw [decode, Exchange.on_bind_ok hfollow]
    exact ⟨htrail, rfl⟩

theorem Trail.linked {first : Chunk} (h : Trail supplier first.next s accepted r t) :
    (first :: accepted).IsChain Names := by
  generalize hnext : first.next = next at h
  induction h generalizing first with
  | ended | broken => exact .singleton first
  | further taken _ ih =>
    obtain ⟨-, hid⟩ := accept_eq_ok.1 taken
    refine .cons_cons ?_ (ih rfl)
    rw [Names, hnext, hid]

end Chunk

/-! ## Streams -/

namespace ChunkStream

/-- Takes pieces out of a stream until it gives no more, but at most so many. -/
def pull (fetch : Token → Exchange σ Chunk) : (most : Nat) → ChunkStream → Noted σ →
    List (Except TransportError Bytes) × ChunkStream × Noted σ
  | 0, stream, s => ([], stream, s)
  | most + 1, stream, s =>
    match stream.next fetch s with
    | (none, stream, s) => ([], stream, s)
    | (some piece, stream, s) =>
      let (pieces, stream, s) := pull fetch most stream s
      (piece :: pieces, stream, s)

/-- The pieces put together, or the first error among them. -/
def gather : List (Except TransportError Bytes) → Except TransportError Bytes
  | [] => .ok []
  | .error e :: _ => .error e
  | .ok piece :: pieces => (piece ++ ·) <$> gather pieces

variable {supplier : Supplier σ} {s t : Noted σ} {accepted : List Chunk} {r : Except TransportError Unit}

/-- How many chunks have been handed out after one more answer. -/
def counted (fetched : Nat) (answer : Except TransportError Chunk) : Nat := fetched + (if answer.isOk then 1 else 0)

theorem next_error {fetch : Token → Exchange σ Chunk} {id : Token} {e : TransportError} (fetched : Nat)
    (h : Chunk.accept id ((fetch id).on s).1 = .error e) :
    (⟨.awaiting id, fetched⟩ : ChunkStream).next fetch s =
      (some (.error e), ⟨.done, counted fetched ((fetch id).on s).1⟩, ((fetch id).on s).2) := by
  simp only [next, h]
  rfl

theorem next_ok {fetch : Token → Exchange σ Chunk} {id : Token} {c : Chunk} (fetched : Nat)
    (h : Chunk.accept id ((fetch id).on s).1 = .ok c) :
    (⟨.awaiting id, fetched⟩ : ChunkStream).next fetch s =
      (some (.ok c.payload), ⟨after c, counted fetched ((fetch id).on s).1⟩, ((fetch id).on s).2) := by
  simp only [next, h]
  rfl

theorem pull_piece {fetch : Token → Exchange σ Chunk} {stream later last : ChunkStream} {s t u : Noted σ}
    {piece : Except TransportError Bytes} {pieces : List (Except TransportError Bytes)} {most : Nat}
    (hnext : stream.next fetch s = (some piece, later, t)) (hrest : pull fetch most later t = (pieces, last, u)) :
    pull fetch (most + 1) stream s = (piece :: pieces, last, u) := by
  simp only [pull, hnext, hrest]

theorem pull_done (fetch : Token → Exchange σ Chunk) (most fetched : Nat) (s : Noted σ) :
    pull fetch most ⟨.done, fetched⟩ s = ([], ⟨.done, fetched⟩, s) := by
  cases most <;> rfl

/-- What a stream gives along a trail, in one pull for each chunk and one more at most. -/
theorem pull_trail {next : Option Token} (h : Chunk.Trail supplier next s accepted r t) {most : Nat}
    (hmost : accepted.length < most) (before : Nat) : ∃ pieces fetched,
    pull supplier.fetch most ⟨next.elim .done .awaiting, before⟩ s = (pieces, ⟨.done, fetched⟩, t) ∧
      gather pieces = (fun _ => (accepted.map Chunk.payload).flatten) <$> r := by
  induction h generalizing most before with
  | ended => exact ⟨[], before, pull_done .., rfl⟩
  | broken refused =>
    obtain ⟨most, rfl⟩ := Nat.exists_eq_add_one_of_ne_zero (Nat.ne_zero_of_lt hmost)
    exact ⟨[.error _], _, pull_piece (next_error before refused) (pull_done ..), rfl⟩
  | @further id s t c accepted r taken rest ih =>
    obtain ⟨most, rfl⟩ := Nat.exists_eq_add_one_of_ne_zero (Nat.ne_zero_of_lt hmost)
    obtain ⟨pieces, fetched, hpull, hgather⟩ := ih (Nat.lt_of_succ_lt_succ hmost) (counted before _)
    refine ⟨.ok c.payload :: pieces, fetched, pull_piece (next_ok before taken) hpull, ?_⟩
    rw [gather, hgather]
    cases r <;> rfl

/-- A stream gives what a receiver of the whole chain gets, with the same fetches, in one pull for each chunk and one more
at most. -/
theorem pull_decode {first : Chunk} (h : Chunk.Trail supplier first.next s accepted r t) {most : Nat}
    (hmost : accepted.length + 1 < most) : ∃ pieces fetched,
    pull supplier.fetch most (new first) s = (pieces, ⟨.done, fetched⟩, t) ∧
      gather pieces = (fun _ => ((first :: accepted).map Chunk.payload).flatten) <$> r := by
  obtain ⟨most, rfl⟩ := Nat.exists_eq_add_one_of_ne_zero (Nat.ne_zero_of_lt hmost)
  obtain ⟨pieces, fetched, hpull, hgather⟩ := pull_trail h (Nat.lt_of_succ_lt_succ hmost) 0
  refine ⟨.ok first.payload :: pieces, fetched, pull_piece rfl hpull, ?_⟩
  rw [gather, hgather]
  cases r <;> rfl

end ChunkStream

end RemoteTable
