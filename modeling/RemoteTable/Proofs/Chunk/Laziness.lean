import RemoteTable.Proofs.Chunk.Trail

/-!
# Lazy streams

A stream gives the pieces of a chain one at a time, from a fetch function that may answer anything and keep any state. What a
pull does is told by the chunk whose payload the pull before it gave: if that chunk names another, one fetch is made, of the
one named, and otherwise none (`ChunkStream.Lazy`). So the fetches stay one behind the pulls, an error is the last thing that
a stream gives (`ChunkStream.error_is_last`), and its end is final (`ChunkStream.end_is_final`). The fetches are counted in a
ledger, which no stream notices (`ChunkStream.pulled_plain`).

To reassemble a chain is to pull its stream to the end (`ChunkStream.decode_of_end`). Reassembly needs a supplier, whose
chains all have an end, while nothing bounds a fetch function. But as many of its fetches as one likes make a supplier
(`Ledger.rationed`), and if they suffice for the stream of a chain, then also for its reassembly, and conversely
(`ChunkStream.decode_rationed`, `ChunkStream.exists_end_of_rationed`).
-/

namespace RemoteTable

/-! ## Fetches that are entered in a ledger -/

/-- A fetch, by the id asked for and the answer. -/
structure Fetch where
  id : Token
  answer : Except TransportError Chunk

/-- The state of whoever answers fetches, and the fetches made, oldest first. -/
structure Ledger (σ : Type) where
  source : σ
  fetches : List Fetch

namespace Ledger

def start (s : Noted σ) : Noted (Ledger σ) := ⟨⟨s.state, []⟩, s.journal⟩

def plain (s : Noted (Ledger σ)) : Noted σ := ⟨s.state.source, s.journal⟩

def enter (fetch : Token → Exchange σ Chunk) (id : Token) : Exchange (Ledger σ) Chunk := .of fun s =>
  let (answer, t) := (fetch id).on (plain s)
  (answer, ⟨⟨t.state, s.state.fetches ++ [⟨id, answer⟩]⟩, t.journal⟩)

theorem fetches_enter (fetch : Token → Exchange σ Chunk) (id : Token) (s : Noted (Ledger σ)) :
    ((enter fetch id).on s).2.state.fetches = s.state.fetches ++ [⟨id, ((enter fetch id).on s).1⟩] := rfl

/-- Fetches and enters the fetch, as long as fewer are entered than are allowed. -/
def ration (limit : Nat) (fetch : Token → Exchange σ Chunk) (id : Token) : Exchange (Ledger σ) Chunk := .of fun s =>
  if s.state.fetches.length < limit then (enter fetch id).on s else (.error ⟨.unavailable, "no more fetches"⟩, s)

theorem ration_of_lt {limit : Nat} {fetch : Token → Exchange σ Chunk} {s : Noted (Ledger σ)}
    (h : s.state.fetches.length < limit) (id : Token) :
    (ration limit fetch id).on s = (enter fetch id).on s := by
  rw [ration, Exchange.on_of, if_pos h]

theorem ration_of_ge {limit : Nat} {fetch : Token → Exchange σ Chunk} {s : Noted (Ledger σ)}
    (h : limit ≤ s.state.fetches.length) (id : Token) :
    (ration limit fetch id).on s = (.error ⟨.unavailable, "no more fetches"⟩, s) := by
  rw [ration, Exchange.on_of, if_neg (Nat.not_lt.2 h)]

theorem length_le_enter (fetch : Token → Exchange σ Chunk) (id : Token) (s : Noted (Ledger σ)) :
    s.state.fetches.length ≤ ((enter fetch id).on s).2.state.fetches.length := by
  rw [fetches_enter, List.length_append]
  exact Nat.le_add_right ..

theorem length_le_ration (limit : Nat) (fetch : Token → Exchange σ Chunk) (id : Token) (s : Noted (Ledger σ)) :
    s.state.fetches.length ≤ ((ration limit fetch id).on s).2.state.fetches.length := by
  by_cases hlt : s.state.fetches.length < limit
  · rw [ration_of_lt hlt]
    exact length_le_enter ..
  · rw [ration_of_ge (Nat.not_lt.1 hlt)]

/-- The supplier that so many fetches of a fetch function make. -/
def rationed (limit : Nat) (fetch : Token → Exchange σ Chunk) : Supplier (Ledger σ) where
  fetch := ration limit fetch
  credit s := limit - s.fetches.length
  spends id s c t h := by
    by_cases hlt : s.state.fetches.length < limit
    · rw [ration_of_lt hlt] at h
      obtain ⟨-, rfl⟩ := Prod.mk.inj h
      simp only [List.length_append, List.length_singleton]
      omega
    · rw [ration_of_ge (Nat.not_lt.1 hlt)] at h
      cases h

end Ledger

/-! ## Pulls -/

namespace ChunkStream

section

variable (fetch : Token → Exchange σ Chunk) (stream : ChunkStream) (s : Noted σ)

/-- The stream after so many pulls, and the state that they leave. The stream may have ended before. -/
def pulled : (pulls : Nat) → ChunkStream × Noted σ
  | 0 => (stream, s)
  | k + 1 => ((pulled k).1.next fetch (pulled k).2).2

def item (before : Nat) : Option (Except TransportError Bytes) :=
  ((pulled fetch stream s before).1.next fetch (pulled fetch stream s before).2).1

def pieces (pulls : Nat) : List (Except TransportError Bytes) := (List.range pulls).filterMap (item fetch stream s)

/-- The chunk whose payload the next pull gives, if it gives any. -/
def upcoming : Option Chunk :=
  match stream.position with
  | .start first => some first
  | .awaiting id => (Chunk.accept id ((fetch id).on s).1).toOption
  | .done => none

end

/-- All that a pull can do. -/
inductive Pull (fetch : Token → Exchange σ Chunk) (s : Noted σ) :
    (stream : ChunkStream) → Option (Except TransportError Bytes) → (later : ChunkStream) → (t : Noted σ) → Prop
  | first {c : Chunk} {fetched : Nat} :
    Pull fetch s ⟨.start c, fetched⟩ (some (.ok c.payload)) ⟨after c, fetched⟩ s
  | further {id : Token} {c : Chunk} {fetched : Nat} (taken : Chunk.accept id ((fetch id).on s).1 = .ok c) :
    Pull fetch s ⟨.awaiting id, fetched⟩ (some (.ok c.payload))
      ⟨after c, counted fetched ((fetch id).on s).1⟩ ((fetch id).on s).2
  | broken {id : Token} {e : TransportError} {fetched : Nat}
    (refused : Chunk.accept id ((fetch id).on s).1 = .error e) :
    Pull fetch s ⟨.awaiting id, fetched⟩ (some (.error e))
      ⟨.done, counted fetched ((fetch id).on s).1⟩ ((fetch id).on s).2
  | ended {fetched : Nat} : Pull fetch s ⟨.done, fetched⟩ none ⟨.done, fetched⟩ s

theorem next_pull (fetch : Token → Exchange σ Chunk) (stream : ChunkStream) (s : Noted σ) : ∃ given later t,
    stream.next fetch s = (given, later, t) ∧ Pull fetch s stream given later t := by
  obtain ⟨position, fetched⟩ := stream
  cases position with
  | start c => exact ⟨_, _, _, rfl, .first⟩
  | done => exact ⟨_, _, _, rfl, .ended⟩
  | awaiting id =>
    cases haccept : Chunk.accept id ((fetch id).on s).1 with
    | error e => exact ⟨_, _, _, next_error fetched haccept, .broken haccept⟩
    | ok c => exact ⟨_, _, _, next_ok fetched haccept, .further haccept⟩

section

variable (fetch : Token → Exchange σ Chunk) (stream : ChunkStream) (s : Noted σ)

theorem position_next : (stream.next fetch s).2.1.position = (upcoming fetch stream s).elim .done after := by
  obtain ⟨given, later, t, hnext, hpull⟩ := next_pull fetch stream s
  rw [hnext]
  cases hpull with
  | first | ended => rfl
  | further h | broken h =>
    simp only [upcoming, h]
    rfl

theorem next_eq_ok_iff (bytes : Bytes) :
    (stream.next fetch s).1 = some (.ok bytes) ↔ ∃ c, upcoming fetch stream s = some c ∧ c.payload = bytes := by
  obtain ⟨given, later, t, hnext, hpull⟩ := next_pull fetch stream s
  rw [hnext]
  cases hpull with
  | first | ended => simp [upcoming]
  | further h | broken h => simp [upcoming, h, Except.toOption]

variable {stream}

theorem next_awaiting {id : Token} (h : stream.position = .awaiting id) :
    (stream.next fetch s).1 = some (Chunk.payload <$> Chunk.accept id ((fetch id).on s).1) ∧
      (stream.next fetch s).2.2 = ((fetch id).on s).2 := by
  obtain ⟨given, later, t, hnext, hpull⟩ := next_pull fetch stream s
  rw [hnext]
  cases hpull with
  | first | ended => cases h
  | further haccept | broken haccept =>
    cases h
    rw [haccept]
    exact ⟨rfl, rfl⟩

theorem next_done (h : stream.position = .done) : stream.next fetch s = (none, stream, s) := by
  unfold next
  rw [h]

end

variable {fetch other : Token → Exchange σ Chunk} {stream later : ChunkStream} {s t : Noted σ}
  {given : Option (Except TransportError Bytes)} {k j : Nat}

theorem position_of_none (h : (stream.next fetch s).1 = none) : stream.position = .done := by
  obtain ⟨given, later, t, hnext, hpull⟩ := next_pull fetch stream s
  rw [hnext] at h
  cases hpull with
  | ended => rfl
  | first | further | broken => cases h

theorem position_of_error {e : TransportError} (h : (stream.next fetch s).1 = some (.error e)) :
    (stream.next fetch s).2.1.position = .done := by
  obtain ⟨given, later, t, hnext, hpull⟩ := next_pull fetch stream s
  rw [hnext] at h ⊢
  cases hpull with
  | broken => rfl
  | first | further | ended => cases h

/-- A pull asks its fetch function for what the stream awaits, and for nothing else. -/
theorem next_congr (h : ∀ id, stream.position = .awaiting id → (fetch id).on s = (other id).on s) :
    stream.next fetch s = stream.next other s := by
  unfold next
  cases hposition : stream.position with
  | start | done => rfl
  | awaiting id => simp only [h id hposition]

/-! ## Many pulls -/

theorem pulled_succ (h : stream.next fetch s = (given, later, t)) (k : Nat) :
    pulled fetch stream s (k + 1) = pulled fetch later t k := by
  induction k with
  | zero => simp [pulled, h]
  | succ k ih => rw [pulled, ih, pulled]

theorem pieces_succ (h : stream.next fetch s = (given, later, t)) (k : Nat) :
    pieces fetch stream s (k + 1) = given.toList ++ pieces fetch later t k := by
  have hfirst : item fetch stream s 0 = given := by simp [item, pulled, h]
  have hothers : item fetch stream s ∘ Nat.succ = item fetch later t := by
    funext k
    simp [item, pulled_succ h]
  unfold pieces
  rw [List.range_succ_eq_map, List.filterMap_cons, hfirst, List.filterMap_map, hothers]
  cases given <;> rfl

/-- To take pieces until there is no more comes to the same as to pull on regardless. -/
theorem pull_eq (fetch : Token → Exchange σ Chunk) (most : Nat) (stream : ChunkStream) (s : Noted σ) :
    pull fetch most stream s = (pieces fetch stream s most, pulled fetch stream s most) := by
  induction most generalizing stream s with
  | zero => rfl
  | succ most ih =>
    obtain ⟨given, later, t, hnext, hpull⟩ := next_pull fetch stream s
    rw [pieces_succ hnext, pulled_succ hnext]
    cases given with
    | some piece => exact pull_piece hnext (ih later t)
    | none =>
      cases hpull
      rw [pull_done, Option.toList_none, List.nil_append, ← ih, pull_done]

theorem done_stays (h : (pulled fetch stream s k).1.position = .done) (hj : k ≤ j) :
    pulled fetch stream s j = pulled fetch stream s k ∧ item fetch stream s j = none := by
  have hnext := next_done fetch (pulled fetch stream s k).2 h
  have hpulled : pulled fetch stream s j = pulled fetch stream s k := by
    induction j, hj using Nat.le_induction with
    | base => rfl
    | succ j _ ih => rw [pulled, ih, hnext]
  exact ⟨hpulled, by rw [item, hpulled, hnext]⟩

theorem error_is_last {e : TransportError} (h : item fetch stream s k = some (.error e)) (hj : k < j) :
    item fetch stream s j = none :=
  (done_stays (k := k + 1) (position_of_error h) hj).2

theorem end_is_final (h : item fetch stream s k = none) (hj : k ≤ j) :
    pulled fetch stream s j = pulled fetch stream s k ∧ item fetch stream s j = none :=
  done_stays (position_of_none h) hj

theorem pieces_of_end (h : item fetch stream s k = none) (hj : k ≤ j) :
    pieces fetch stream s j = pieces fetch stream s k := by
  induction j, hj using Nat.le_induction with
  | base => rfl
  | succ j hj ih =>
    have hitem := (end_is_final h hj).2
    rw [← ih]
    simp [pieces, List.range_succ, hitem]

/-- What is fetched in so many pulls and one more, another fetch function answers in the same way. -/
def Alike (fetch other : Token → Exchange σ Chunk) (stream : ChunkStream) (s : Noted σ) (pulls : Nat) : Prop :=
  ∀ j ≤ pulls, ∀ id, (pulled fetch stream s j).1.position = .awaiting id →
    (fetch id).on (pulled fetch stream s j).2 = (other id).on (pulled fetch stream s j).2

theorem Alike.pulled_eq (h : Alike fetch other stream s k) (hj : j ≤ k) :
    pulled other stream s j = pulled fetch stream s j := by
  induction j with
  | zero => rfl
  | succ j ih =>
    have hbefore : j ≤ k := Nat.le_of_succ_le hj
    rw [pulled, ih hbefore, pulled, next_congr (h j hbefore)]

theorem Alike.item_eq (h : Alike fetch other stream s k) (hj : j ≤ k) :
    item other stream s j = item fetch stream s j := by
  rw [item, h.pulled_eq hj, item, next_congr (h j hj)]

theorem Alike.pieces_eq (h : Alike fetch other stream s k) : pieces other stream s k = pieces fetch stream s k :=
  List.filterMap_congr fun _ hj => h.item_eq (Nat.le_of_lt (List.mem_range.1 hj))

/-! ## Reassembly as a loop over a stream -/

/-- The stream of a supplier comes to an end, and reassembly returns what its pieces gather to. -/
theorem decode_pulled (supplier : Supplier σ) (first : Chunk) (s : Noted σ) : ∃ enough, ∀ k, enough ≤ k →
    item supplier.fetch (new first) s k = none ∧ (Chunk.decode supplier first).on s =
      (gather (pieces supplier.fetch (new first) s k), (pulled supplier.fetch (new first) s k).2) := by
  obtain ⟨accepted, r, htrail, hbytes⟩ := Chunk.decode_trail supplier first s
  refine ⟨accepted.length + 2, fun k hk => ?_⟩
  obtain ⟨pieces, fetched, hpull, hgather⟩ := pull_decode htrail hk
  rw [pull_eq] at hpull
  obtain ⟨rfl, hpulled⟩ := Prod.mk.inj hpull
  rw [item, hpulled]
  exact ⟨rfl, Prod.ext (hbytes.trans hgather.symm) rfl⟩

theorem decode_of_end {supplier : Supplier σ} {first : Chunk} (h : item supplier.fetch (new first) s k = none) :
    (Chunk.decode supplier first).on s =
      (gather (pieces supplier.fetch (new first) s k), (pulled supplier.fetch (new first) s k).2) := by
  obtain ⟨enough, hdecode⟩ := decode_pulled supplier first s
  obtain ⟨-, hdecode⟩ := hdecode (max enough k) (Nat.le_max_left ..)
  rw [hdecode, pieces_of_end h (Nat.le_max_right ..), (end_is_final h (Nat.le_max_right ..)).1]

/-! ## Laziness -/

/-- How the pulls of a stream go. Before the pull after `k` others these fetches have been made and so many chunks
counted; it gives `item k`, the payload of `chunk k` if it is one. -/
structure Lazy (first : Chunk) (item : Nat → Option (Except TransportError Bytes)) (chunk : Nat → Option Chunk)
    (fetches : Nat → List Fetch) (fetched : Nat → Nat) : Prop where
  /-- The first pull gives the first chunk, and no fetch is made for it. -/
  begins : chunk 0 = some first ∧ fetches 0 = [] ∧ fetches 1 = []
  gives : ∀ k bytes, item k = some (.ok bytes) ↔ ∃ c, chunk k = some c ∧ c.payload = bytes
  /-- After a chunk that names another, a pull makes one fetch, of the chunk named, and gives what is accepted of it. -/
  asks : ∀ k c id, chunk k = some c → c.next = some id → ∃ answer,
    fetches (k + 2) = fetches (k + 1) ++ [⟨id, answer⟩] ∧ chunk (k + 1) = (Chunk.accept id answer).toOption ∧
      item (k + 1) = some (Chunk.payload <$> Chunk.accept id answer)
  /-- After a chunk that names no other, and after no chunk, a pull makes no fetch and gives nothing. -/
  rests : ∀ k, (∀ c, chunk k = some c → c.next = none) →
    fetches (k + 2) = fetches (k + 1) ∧ chunk (k + 1) = none ∧ item (k + 1) = none
  /-- A chunk is counted when it is fetched, whatever its id. -/
  counts : ∀ k, fetched k = (fetches k).countP (·.answer.isOk)

theorem counted_enter {stream later : ChunkStream} {s t : Noted (Ledger σ)}
    (hpull : Pull (Ledger.enter fetch) s stream given later t)
    (hcount : stream.fetched = s.state.fetches.countP (·.answer.isOk)) :
    later.fetched = t.state.fetches.countP (·.answer.isOk) := by
  cases hpull with
  | first | ended => exact hcount
  | further | broken =>
    dsimp only at hcount ⊢
    rw [Ledger.fetches_enter, List.countP_append, List.countP_singleton, ← hcount]
    rfl

theorem lazy_pulled (fetch : Token → Exchange σ Chunk) (first : Chunk) (s : Noted σ) :
    let entered := Ledger.enter fetch
    let pulled := pulled entered (new first) (Ledger.start s)
    Lazy first (item entered (new first) (Ledger.start s)) (fun k => upcoming entered (pulled k).1 (pulled k).2)
      (fun k => (pulled k).2.state.fetches) (fun k => (pulled k).1.fetched) := by
  intro entered pulled
  -- where the stream stands is told by the chunk that it gave last
  have hposition (k : Nat) : (pulled (k + 1)).1.position =
      (upcoming entered (pulled k).1 (pulled k).2).elim .done after := position_next ..
  refine ⟨⟨rfl, rfl, rfl⟩, fun k bytes => next_eq_ok_iff .., ?_, ?_, ?_⟩
  · intro k c id hchunk hnext
    have hawaits : (pulled (k + 1)).1.position = .awaiting id := by
      rw [hposition, hchunk, Option.elim_some, after, hnext]
      rfl
    obtain ⟨hitem, hstate⟩ := next_awaiting entered (pulled (k + 1)).2 hawaits
    refine ⟨((entered id).on (pulled (k + 1)).2).1, ?_, ?_, hitem⟩
    · exact congrArg (·.state.fetches) hstate
    · simp only [upcoming, hawaits]
  · intro k hlast
    have hdone : (pulled (k + 1)).1.position = .done := by
      rw [hposition]
      cases hchunk : upcoming entered (pulled k).1 (pulled k).2 with
      | none => rfl
      | some c => simp [after, hlast c hchunk]
    have hnext := next_done entered (pulled (k + 1)).2 hdone
    refine ⟨?_, ?_, ?_⟩
    · exact congrArg (·.2.2.state.fetches) hnext
    · simp only [upcoming, hdone]
    · exact congrArg (·.1) hnext
  · intro k
    induction k with
    | zero => rfl
    | succ k ih =>
      obtain ⟨given, later, t, hnext, hpull⟩ := next_pull entered (pulled k).1 (pulled k).2
      have hlater : pulled (k + 1) = (later, t) := congrArg Prod.snd hnext
      simp only [hlater]
      exact counted_enter hpull ih

/-- With its fetches a stream stays one behind its pulls. -/
theorem Lazy.length_fetches_le {first : Chunk} {item : Nat → Option (Except TransportError Bytes)}
    {chunk : Nat → Option Chunk} {fetches : Nat → List Fetch} {fetched : Nat → Nat}
    (h : Lazy first item chunk fetches fetched) (k : Nat) : (fetches k).length ≤ k - 1 := by
  obtain _ | k := k
  · simp [h.begins]
  · induction k with
    | zero => simp [h.begins]
    | succ k ih =>
      by_cases hlast : ∀ c, chunk k = some c → c.next = none
      · obtain ⟨hfetches, -⟩ := h.rests k hlast
        rw [hfetches]
        omega
      · simp only [not_forall, Option.ne_none_iff_exists'] at hlast
        obtain ⟨c, hchunk, id, hnext⟩ := hlast
        obtain ⟨answer, hfetches, -⟩ := h.asks k c id hchunk hnext
        rw [hfetches, List.length_append, List.length_singleton]
        omega

/-! ## Any fetch function -/

theorem length_fetches_mono {fetch : Token → Exchange (Ledger σ) Chunk} {s : Noted (Ledger σ)}
    (hgrows : ∀ id s, s.state.fetches.length ≤ ((fetch id).on s).2.state.fetches.length) (hj : j ≤ k) :
    (pulled fetch stream s j).2.state.fetches.length ≤ (pulled fetch stream s k).2.state.fetches.length := by
  have hstep (stream : ChunkStream) (s : Noted (Ledger σ)) :
      s.state.fetches.length ≤ (stream.next fetch s).2.2.state.fetches.length := by
    obtain ⟨given, later, t, hnext, hpull⟩ := next_pull fetch stream s
    rw [hnext]
    cases hpull with
    | first | ended => exact Nat.le_refl _
    | further | broken => exact hgrows _ _
  induction k, hj using Nat.le_induction with
  | base => exact Nat.le_refl _
  | succ k _ ih => exact Nat.le_trans ih (hstep _ _)

variable {first : Chunk} {limit : Nat} {s : Noted (Ledger σ)}

theorem alike_rationed (hk : item (Ledger.enter fetch) stream s k = none)
    (hlimit : (pulled (Ledger.enter fetch) stream s k).2.state.fetches.length ≤ limit) :
    Alike (Ledger.enter fetch) (Ledger.rationed limit fetch).fetch stream s k := by
  intro j hj id hawaits
  -- the pull makes a fetch, which is among those that are there at the end
  have hstate := (next_awaiting (Ledger.enter fetch) (pulled (Ledger.enter fetch) stream s j).2 hawaits).2
  have hcount : (pulled (Ledger.enter fetch) stream s (j + 1)).2.state.fetches.length ≤ _ :=
    length_fetches_mono (Ledger.length_le_enter fetch) (Nat.succ_le_succ hj)
  rw [(end_is_final hk (Nat.le_succ k)).1, pulled, hstate, Ledger.fetches_enter, List.length_append] at hcount
  exact (Ledger.ration_of_lt (Nat.lt_of_succ_le (Nat.le_trans hcount hlimit)) id).symm

/-- A ration that suffices for a stream suffices for reassembly. -/
theorem decode_rationed (hk : item (Ledger.enter fetch) (new first) s k = none)
    (hlimit : (pulled (Ledger.enter fetch) (new first) s k).2.state.fetches.length ≤ limit) :
    (Chunk.decode (Ledger.rationed limit fetch) first).on s =
      (gather (pieces (Ledger.enter fetch) (new first) s k), (pulled (Ledger.enter fetch) (new first) s k).2) := by
  have halike := alike_rationed hk hlimit
  have hend := (halike.item_eq (Nat.le_refl k)).trans hk
  rw [decode_of_end hend, halike.pieces_eq, halike.pulled_eq (Nat.le_refl k)]

/-- If reassembly returns before the ration is used up, the stream has an end. -/
theorem exists_end_of_rationed
    (h : ((Chunk.decode (Ledger.rationed limit fetch) first).on s).2.state.fetches.length < limit) :
    ∃ k, item (Ledger.enter fetch) (new first) s k = none := by
  obtain ⟨k, hdecode⟩ := decode_pulled (Ledger.rationed limit fetch) first s
  obtain ⟨hend, hdone⟩ := hdecode k (Nat.le_refl k)
  have halike : Alike (Ledger.rationed limit fetch).fetch (Ledger.enter fetch) (new first) s k := by
    intro j hj id _
    have hcount : (pulled (Ledger.rationed limit fetch).fetch (new first) s j).2.state.fetches.length ≤ _ :=
      length_fetches_mono (Ledger.length_le_ration limit fetch) hj
    rw [hdone] at h
    exact Ledger.ration_of_lt (Nat.lt_of_le_of_lt hcount h) id
  exact ⟨k, (halike.item_eq (Nat.le_refl k)).trans hend⟩

/-! ## With and without the ledger -/

section

open Ledger (enter plain)

variable (fetch : Token → Exchange σ Chunk) (stream : ChunkStream) (s : Noted (Ledger σ))

theorem next_plain : stream.next fetch (plain s) =
    ((stream.next (enter fetch) s).1, (stream.next (enter fetch) s).2.1, plain (stream.next (enter fetch) s).2.2) := by
  obtain ⟨given, later, t, hnext, hpull⟩ := next_pull (enter fetch) stream s
  rw [hnext]
  cases hpull with
  | first | ended => rfl
  | further h => exact next_ok _ h
  | broken h => exact next_error _ h

theorem pulled_plain (k : Nat) : pulled fetch stream (plain s) k =
    ((pulled (enter fetch) stream s k).1, plain (pulled (enter fetch) stream s k).2) := by
  induction k with
  | zero => rfl
  | succ k ih =>
    rw [pulled, ih, next_plain]
    rfl

theorem item_plain : item fetch stream (plain s) = item (enter fetch) stream s := by
  funext k
  rw [item, pulled_plain, next_plain]
  rfl

end

/-! ## Lazy, in one pass, and fused -/

/-- The stream of a chain, whatever its fetch function answers, goes as `Lazy` tells: one fetch at most for each pull
after the first, nothing after an error, and neither item nor fetch after the end. Its pieces gather to what reassembly
returns, with the same fetches. Below 2 ^ 64 pulls the count is that of a 64-bit word. -/
theorem lazy_and_fused (fetch : Token → Exchange σ Chunk) (first : Chunk) (s : Noted σ) :
    let entered := Ledger.enter fetch
    let start := Ledger.start s
    let item := item entered (new first) start
    let pulled := pulled entered (new first) start
    let fetches k := (pulled k).2.state.fetches
    let gathered k := gather (pieces entered (new first) start k)
    let decoded limit := (Chunk.decode (Ledger.rationed limit fetch) first).on start
    (∃ chunk, Lazy first item chunk fetches fun k => (pulled k).1.fetched) ∧
    item 0 = some (.ok first.payload) ∧ (∀ k, (fetches k).length ≤ k - 1) ∧
    (∀ k e, item k = some (.error e) → ∀ j, k < j → item j = none) ∧
    (∀ k, item k = none → ∀ j, k ≤ j → item j = none ∧ fetches j = fetches k) ∧
    (∀ k, item k = none → ∀ limit, (fetches k).length ≤ limit → decoded limit = (gathered k, (pulled k).2)) ∧
    (∀ limit, (decoded limit).2.state.fetches.length < limit → ∃ k, item k = none) ∧
    (∀ k, ChunkStream.item fetch (new first) s k = item k ∧
      ChunkStream.pulled fetch (new first) s k = ((pulled k).1, Ledger.plain (pulled k).2)) ∧
    ∀ supplier : Supplier σ, supplier.fetch = fetch → ∃ k, item k = none ∧
      (Chunk.decode supplier first).on s = (gathered k, Ledger.plain (pulled k).2) := by
  intro entered start item pulled fetches gathered decoded
  have hlazy := lazy_pulled fetch first s
  have hplain : ChunkStream.item fetch (new first) s = item := item_plain fetch (new first) start
  refine ⟨⟨_, hlazy⟩, rfl, hlazy.length_fetches_le, fun k e hk j hj => error_is_last hk hj, fun k hk j hj => ?_,
    fun k hk limit hlimit => decode_rationed hk hlimit, fun limit h => exists_end_of_rationed h,
    fun k => ⟨congrFun hplain k, pulled_plain fetch (new first) start k⟩, ?_⟩
  · obtain ⟨hpulled, hnone⟩ := end_is_final hk hj
    exact ⟨hnone, congrArg (·.2.state.fetches) hpulled⟩
  · rintro supplier rfl
    obtain ⟨k, hdecode⟩ := decode_pulled supplier first s
    obtain ⟨hend, hdone⟩ := hdecode k (Nat.le_refl k)
    have hstate : (ChunkStream.pulled supplier.fetch (new first) s k).2 = Ledger.plain (pulled k).2 :=
      congrArg Prod.snd (pulled_plain supplier.fetch (new first) start k)
    refine ⟨k, (congrFun hplain k).symm.trans hend, ?_⟩
    rw [hdone, hstate, pieces, hplain]
    rfl

/-- A chunk under another id is fetched and counted, ends the stream, and is not asked for again. -/
theorem lazy_and_fused_of_stray :
    let asked : Token := ⟨2⟩
    let first : Chunk := ⟨[1], ⟨1⟩, some asked⟩
    let stray : Chunk := ⟨[2], ⟨3⟩, some asked⟩
    let fetch (_ : Token) : Exchange Unit Chunk := pure stray
    let start := Ledger.start (.start ())
    let item := item (Ledger.enter fetch) (new first) start
    let pulled := pulled (Ledger.enter fetch) (new first) start
    let e : TransportError :=
      ⟨.internal, s!"chunk chain broken: requested {asked.render}, received {stray.id.render}"⟩
    item 1 = some (.error e) ∧ item 2 = none ∧ (pulled 2).1.fetched = 1 ∧
      (∀ j, 2 ≤ j → item j = none ∧ (pulled j).2.state.fetches = [⟨asked, .ok stray⟩]) ∧
      (Chunk.decode (Ledger.rationed 1 fetch) first).on start = (.error e, (pulled 2).2) := by
  intro asked first stray fetch start item pulled e
  obtain ⟨-, -, -, herror, hend, hdecode, -⟩ := lazy_and_fused fetch first (.start ())
  have hstray : item 1 = some (.error e) := rfl
  have hover : item 2 = none := herror 1 e hstray 2 (by decide)
  exact ⟨hstray, hover, rfl, fun j hj => hend 2 hover j hj, hdecode 2 hover 1 (Nat.le_refl 1)⟩

end ChunkStream

end RemoteTable
