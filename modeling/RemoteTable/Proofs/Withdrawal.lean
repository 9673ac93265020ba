import RemoteTable.Peer
import RemoteTable.Proofs.Chunk.Parking
import RemoteTable.Proofs.Chunk.Trail
import RemoteTable.Proofs.Client.Course

/-!
# Reading a depot empty

Nothing bounds a chain from the receiver's side: a link may lead to itself, to a chunk of another chain or back to the
first one. But a depot hands out each chunk once, so whoever follows links into a depot asks at most once more than there
are chunks parked, and what has left the depot is what was read (`Storekeeper.decode_withdraws`). For the same reason every
call on a peer makes a bounded number of invocations (`Client.calls_perform`).
-/

namespace RemoteTable

/-! ## Depots that are asked for chunks -/

/-- A depot, the ids that it was asked for and the chunks that it gave, both newest first. -/
structure Storekeeper where
  depot : Depot
  asked : List Token := []
  given : List Chunk := []

namespace Storekeeper

variable (refusal : Token → TransportError)

/-- Hands out a parked chunk, and refuses what is not parked. -/
def answer (id : Token) (s : Noted Storekeeper) : Except TransportError Chunk × Noted Storekeeper :=
  match s.state.depot.take? id with
  | none => (.error (refusal id), { s with state := { s.state with asked := id :: s.state.asked } })
  | some (chunk, depot) => (.ok chunk, { s with state := ⟨depot, id :: s.state.asked, chunk :: s.state.given⟩ })

/-- The parked chunks bound those that can still be handed out, for each is handed out once. -/
def supplier : Supplier Storekeeper where
  fetch id := .of (answer refusal id)
  credit s := s.depot.pending
  spends id s c t h := by
    rw [Exchange.on_of, answer] at h
    split at h
    · cases h
    · rename_i htake
      obtain ⟨-, rfl⟩ := Prod.mk.inj h
      exact Nat.lt_of_succ_le (Nat.le_of_eq (Depot.pending_take? htake))

variable {refusal}

theorem on_fetch_none {id : Token} {s : Noted Storekeeper} (h : s.state.depot.take? id = none) :
    ((supplier refusal).fetch id).on s =
      (.error (refusal id), { s with state := { s.state with asked := id :: s.state.asked } }) := by
  change answer refusal id s = _
  rw [answer, h]

theorem on_fetch_some {id : Token} {s : Noted Storekeeper} {chunk : Chunk} {depot : Depot}
    (h : s.state.depot.take? id = some (chunk, depot)) : ((supplier refusal).fetch id).on s =
      (.ok chunk, { s with state := ⟨depot, id :: s.state.asked, chunk :: s.state.given⟩ }) := by
  change answer refusal id s = _
  rw [answer, h]

/-- Along a trail the depot is asked for what the chunks name, gives what is accepted, and has lost just that. -/
theorem trail_withdraws {first : Chunk} {s t : Noted Storekeeper} {accepted : List Chunk}
    {r : Except TransportError Unit} (h : Chunk.Trail (supplier refusal) first.next s accepted r t) :
    ∃ gone : List Parked, gone.map (·.chunk) = accepted ∧
      s.state.depot.parked.Perm (gone ++ t.state.depot.parked) ∧
      t.state.depot.parked.Sublist s.state.depot.parked ∧
      t.state.asked = ((first :: accepted).filterMap Chunk.next).reverse ++ s.state.asked ∧
      t.state.given = accepted.reverse ++ s.state.given := by
  generalize hnext : first.next = next at h
  induction h generalizing first with
  | ended => exact ⟨[], rfl, .refl _, .refl _, by simp [hnext], rfl⟩
  | @broken id s e refused =>
    cases htake : s.state.depot.take? id with
    | none =>
      rw [on_fetch_none htake]
      exact ⟨[], rfl, .refl _, .refl _, by simp [hnext], rfl⟩
    | some taken =>
      -- what is handed out has the id that was asked for, and is accepted
      obtain ⟨before, k, after, -, -, hid, -⟩ := Depot.take?_eq_some htake
      rw [on_fetch_some htake, Chunk.accept_eq_ok.2 ⟨rfl, hid⟩] at refused
      cases refused
  | @further id s t c accepted r taken rest ih =>
    obtain ⟨hanswer, -⟩ := Chunk.accept_eq_ok.1 taken
    obtain ⟨gone, hgone, hperm, hsublist, hasked, hgiven⟩ := ih rfl
    cases htake : s.state.depot.take? id with
    | none =>
      rw [on_fetch_none htake] at hanswer
      cases hanswer
    | some handed =>
      obtain ⟨before, k, after, hparked, hchunk, -, hdepot⟩ := Depot.take?_eq_some htake
      rw [on_fetch_some htake] at hanswer hperm hsublist hasked hgiven
      dsimp only at hperm hsublist hasked hgiven
      obtain rfl : handed.1 = c := Except.ok.inj hanswer
      rw [hdepot] at hperm hsublist
      refine ⟨k :: gone, ?_, ?_, ?_, ?_, ?_⟩
      · rw [List.map_cons, hchunk, hgone]
      · rw [hparked]
        exact List.perm_middle.trans (hperm.cons k)
      · rw [hparked]
        exact hsublist.trans ((List.sublist_cons_self k after).append_left before)
      · rw [List.filterMap_cons_some hnext, List.reverse_cons, hasked, List.append_assoc]
        rfl
      · rw [hgiven, List.reverse_cons, List.append_assoc]
        rfl

/-- What it comes to when the chain of a first chunk is read out of a depot with this result and this end. -/
structure Withdrawal (refusal : Token → TransportError) (d : Depot) (first : Chunk) (r : Except TransportError Bytes)
    (after : Noted Storekeeper) : Prop where
  /-- At most once more than there are chunks parked is asked, namely for what the chunks name. -/
  asked_le : after.state.asked.length ≤ d.pending + 1
  asked_eq : after.state.asked.reverse = (first :: after.state.given.reverse).filterMap Chunk.next
  /-- What has left the depot is what was given. -/
  gone : ∃ gone : List Parked, gone.map (·.chunk) = after.state.given.reverse ∧
    d.parked.Perm (gone ++ after.state.depot.parked)
  kept : after.state.depot.parked.Sublist d.parked
  pending : after.state.depot.pending + after.state.given.length = d.pending
  /-- All that was given was read. -/
  bytes : ∀ bytes, r = .ok bytes → bytes = ((first :: after.state.given.reverse).map Chunk.payload).flatten
  linked : (first :: after.state.given.reverse).IsChain Chunk.Names
  /-- A loop over the stream of the chain, which has no bound of its own, comes to the same end. -/
  pulled : ∀ most, d.pending + 2 ≤ most → ∃ pieces fetched,
    ChunkStream.pull (supplier refusal).fetch most (.new first) (.start { depot := d }) =
      (pieces, ⟨.done, fetched⟩, after) ∧ ChunkStream.gather pieces = r

theorem decode_withdraws (refusal : Token → TransportError) (d : Depot) (first : Chunk) :
    let done := (Chunk.decode (supplier refusal) first).on (.start { depot := d })
    Withdrawal refusal d first done.1 done.2 := by
  intro done
  obtain ⟨accepted, r, htrail, hbytes⟩ := Chunk.decode_trail (supplier refusal) first (.start { depot := d })
  obtain ⟨gone, hgone, hperm, hsublist, hasked, hgiven⟩ := trail_withdraws htrail
  have hasked : done.2.state.asked = ((first :: accepted).filterMap Chunk.next).reverse :=
    hasked.trans (List.append_nil _)
  have hgiven : done.2.state.given.reverse = accepted := by
    rw [← List.reverse_reverse accepted]
    exact congrArg List.reverse (hgiven.trans (List.append_nil _))
  have hlength : done.2.state.given.length = gone.length := by
    rw [← List.length_reverse, hgiven, ← hgone, List.length_map]
  have hpending : done.2.state.depot.pending + gone.length = d.pending := by
    have hcount : d.parked.length = _ := hperm.length_eq
    rw [List.length_append, Nat.add_comm] at hcount
    exact hcount.symm
  have haccepted : accepted.length ≤ d.pending := by
    rw [← hgone, List.length_map, ← hpending]
    exact Nat.le_add_left ..
  refine ⟨?_, ?_, ⟨gone, ?_, hperm⟩, hsublist, ?_, fun bytes hok => ?_, ?_, fun most hmost => ?_⟩
  · rw [hasked, List.length_reverse]
    exact Nat.le_trans (List.length_filterMap_le ..) (Nat.succ_le_succ haccepted)
  · rw [hasked, List.reverse_reverse, hgiven]
  · rw [hgiven, hgone]
  · rw [hlength, hpending]
  · rw [hgiven]
    have hresult := hbytes.symm.trans hok
    cases r with
    | error e => cases hresult
    | ok u => exact (Except.ok.inj hresult).symm
  · rw [hgiven]
    exact htrail.linked
  · rw [hbytes]
    exact ChunkStream.pull_decode htrail (Nat.lt_of_lt_of_le (Nat.add_lt_add_right (Nat.lt_succ_of_le haccepted) 1) hmost)

end Storekeeper

/-! ## Calls -/

namespace Client

section

variable {σ : Type} [Channel σ] {verify : Bool} {config : Config} {call : Call} {p q : σ} {turns : List Turn}

/-- Every fetch but the last brings a chunk, which costs credit. -/
theorem Fetches.length_le {next : Option Token} {r : Except TransportError Bytes} (h : Fetches verify next turns r)
    {later : List Turn} (hanswers : Channel.Answers p (turns ++ later) q) : turns.length ≤ Channel.credit p + 1 := by
  induction h generalizing p with
  | complete => exact Nat.zero_le _
  | failed | strayed => exact Nat.le_add_left 1 _
  | @more id outcome chunk turns r read same rest ih =>
    obtain ⟨houtcome, hrest⟩ := hanswers
    have hread : (fetchOn p id).outcome.chunk? verify = some chunk := houtcome ▸ read
    exact Nat.succ_le_succ (Nat.le_trans (ih hrest) (spends_of_chunk? hread))

/-- A call takes its own turn, those of its fetches, and one to give the chain up. -/
theorem Protocol.length_le (h : Protocol config call turns) (hanswers : Channel.Answers p turns q) :
    turns.length ≤ Channel.credit (firstOn config call p).peer + 3 := by
  cases h with
  | alone => exact Nat.le_add_left 1 _
  | complete _ follows =>
    have hfetches := follows.length_le (Channel.Answers.append_nil hanswers.2)
    exact Nat.le_succ_of_le (Nat.succ_le_succ hfetches)
  | released _ follows =>
    have hfetches := follows.length_le hanswers.2
    rw [List.length_cons, List.length_append, List.length_singleton]
    exact Nat.succ_le_succ (Nat.succ_le_succ hfetches)

theorem calls_perform (config : Config) (call : Call) (s : Noted (Link (Recorded σ))) : ∃ made : List Invocation,
    ((perform config call).on s).2.state.peer.calls = made ++ s.state.peer.calls ∧
      made.length ≤ Channel.credit (firstOn config call s.state.peer.peer).peer + 3 := by
  obtain ⟨turns, r, q, hanswers, hending, hyields⟩ := perform_course config call s.state.peer
  obtain ⟨hpeer, hcalls⟩ := hanswers.of_recorded
  refine ⟨(turns.map Turn.invocation).reverse, ?_, ?_⟩
  · rw [(hyields s rfl).2, hcalls]
  · rw [List.length_reverse, List.length_map]
    exact hending.protocol.length_le hpeer

end

/-- Out of a depot, wherever the links of the first chunk lead, a chain is read with at most one fetch more than chunks
are parked, and just what was read has left. On a peer a call makes at most three invocations more than chunks are
parked after its first. -/
theorem reading_ends :
    (∀ (refusal : Token → TransportError) (d : Depot) (first : Chunk),
      let done := (Chunk.decode (Storekeeper.supplier refusal) first).on (.start { depot := d })
      Storekeeper.Withdrawal refusal d first done.1 done.2) ∧
    ∀ (config : Config) (call : Call) (s : Noted (Link (Recorded Peer))), ∃ made : List Invocation,
      ((perform config call).on s).2.state.peer.calls = made ++ s.state.peer.calls ∧
        made.length ≤ (firstOn config call s.state.peer.peer).peer.depot.pending + 3 :=
  ⟨Storekeeper.decode_withdraws, calls_perform⟩

end Client

end RemoteTable
