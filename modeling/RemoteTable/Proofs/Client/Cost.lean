import RemoteTable.Proofs.Chunk.Shape
import RemoteTable.Proofs.Client.Counts
import RemoteTable.Proofs.Client.Refinement

/-!
# What a remote call costs

Over a sound line the cost of a call is known from the answer of the store. A value of `L` bytes takes as many
invocations as it has chunks, the call itself and a fetch for each chunk after the first, and nothing is given up
(`turns_sent`); the counters grow by that and by the bytes (`counts_sent`). The fetches are counted by the depot: each of
them takes one chunk out of it, and after the call what was parked before is parked again (`pending_fetches`). A call
without a value takes its own invocation (`counts_headless`).
-/

namespace RemoteTable

open Client (Fetches)

/-- The invocations of a call whose value is cut into `n` chunks, `bytes` long in all. -/
def Metrics.ofRead (n bytes : Nat) : Metrics where
  callsIssued := UInt64.ofNat n
  chunksFetched := UInt64.ofNat (n - 1)
  payloadBytes := UInt64.ofNat bytes

namespace Client

variable {config : Config} {call : Call} {p q : Peer}

/-! ## Fetches -/

theorem pending_fetches {verify : Bool} {next : Option Token} {fetches : List Turn} {r : Except TransportError Bytes}
    (h : Fetches verify next fetches r) {bytes : Bytes} (hr : r = .ok bytes) (hanswers : Channel.Answers p fetches q) :
    q.depot.pending + fetches.length = p.depot.pending := by
  induction h generalizing p bytes with
  | complete =>
    obtain rfl : q = p := hanswers
    rfl
  | failed | strayed => cases hr
  | @more id outcome chunk fetches r read _ _ ih =>
    obtain ⟨houtcome, hrest⟩ := hanswers
    have hlater : ∃ rest, r = .ok rest := by
      cases r with
      | error e => cases hr
      | ok rest => exact ⟨rest, rfl⟩
    obtain ⟨rest, hlater⟩ := hlater
    have hpending := ih hlater hrest
    obtain ⟨frame, rfl⟩ : ∃ frame, outcome = .ok (.fragment frame) := by
      match outcome with
      | .ok (.fragment frame) => exact ⟨frame, rfl⟩
      | .ok .unit | .ok (.chunked ..) | .ok (.absent _) | .error _ => cases read
    have htaken : (p.invoke _ _).peer.depot.pending + 1 = p.depot.pending := Peer.pending_invoke houtcome
    rw [List.length_cons, ← Nat.add_assoc, hpending]
    exact htaken

theorem heard_fetches {verify : Bool} {next : Option Token} {fetches : List Turn} {r : Except TransportError Bytes}
    (h : Fetches verify next fetches r) {bytes : Bytes} (hr : r = .ok bytes) : heard verify fetches =
      { callsIssued := UInt64.ofNat fetches.length, chunksFetched := UInt64.ofNat fetches.length } := by
  have hbrings : ∀ t ∈ fetches, t.brings verify = true ∧ t.collapses = false := by
    induction h generalizing bytes with
    | complete => intro t ht; cases ht
    | failed | strayed => cases hr
    | @more id outcome chunk fetches r read _ _ ih =>
      intro t ht
      rcases List.mem_cons.1 ht with rfl | ht
      · refine ⟨by simp [Turn.brings, Turn.fetch, read], ?_⟩
        cases outcome with
        | ok reply => rfl
        | error failure => cases read
      · cases r with
        | error e => cases hr
        | ok rest => exact ih rfl t ht
  unfold heard
  rw [List.countP_eq_length.2 fun t ht => (hbrings t ht).1,
    List.countP_eq_zero.2 fun t ht => by rw [(hbrings t ht).2]; exact Bool.false_ne_true]
  rfl

/-! ## Calls without a value -/

theorem counts_headless {σ : Type} [Channel σ] {p q : σ} {outcome : Outcome} {r : Except TransportError Answer}
    (hfirst : (firstOn config call p).outcome = outcome)
    (hhead : outcome.head? config.verifyChecksums call.operation = none) (hyields : Yields (perform config call) p r q) :
    turns config call p = [.opening config call outcome] ∧
      Counts (perform config call) p (heard config.verifyChecksums [.opening config call outcome] + verdict r) := by
  obtain ⟨r', q', hanswers, hending, hyields'⟩ := turns_course config call p
  obtain rfl := hyields.unique hyields'
  have hcounts := perform_counts hending hanswers hyields
  have hprotocol := hending.protocol
  generalize turns config call p = made at hanswers hcounts hprotocol ⊢
  obtain ⟨opening, rest, rfl⟩ : ∃ opening rest, made = .opening config call opening :: rest := by
    cases hprotocol with
    | alone | complete | released => exact ⟨_, _, rfl⟩
  obtain rfl : outcome = opening := hfirst.symm.trans hanswers.1
  obtain rfl := hprotocol.eq_nil_of_headless hhead
  rw [received_headless hhead, add_zero] at hcounts
  exact ⟨rfl, hcounts⟩

/-! ## Calls with a value -/

theorem pending_send (p : Peer) (tag : Tag) (payload : Bytes) :
    (p.send tag payload).2.depot.pending + 1 = p.depot.pending + Chunk.count payload.length p.depot.size := by
  have hlength : (p.depot.chain payload p.supply).rest.length + 1 = Chunk.count payload.length p.depot.size :=
    Chain.length_split p.depot.size payload p.supply
  have hparked : (p.send tag payload).2.depot.pending =
      p.depot.pending + (p.depot.chain payload p.supply).rest.length := by
    rw [send_eq]
    show (p.depot.parked ++ (p.depot.chain payload p.supply).rest.map _).length = _
    rw [List.length_append, List.length_map]
    rfl
  omega

section

variable {a : Answer} {store : Store} {supply : Supply} {tag : Tag} {payload : Bytes}
  (hconnected : p.connected = true) (hcall : call.WellFormed)
  (hanswer : p.store.answer config.principal call p.supply = .ok (a, store, supply))
  (hpayload : a.payload? = some (tag, payload))
  (hunmet : p.supply.Unmet (firstOn config call p).peer.supply (parkedIds p))

include hconnected hcall hanswer hpayload

/-- The first chunk of the value comes with the reply, and the others are parked. -/
theorem firstOn_sent : let sender : Peer := { p.counted with store, supply }
    (firstOn config call p).outcome = .ok (.chunked tag (Frame.encode (p.depot.chain payload supply).first)) ∧
      (firstOn config call p).peer = (sender.send tag payload).2 := by
  have hfirst := firstOn_eq config hconnected hcall
  rw [hanswer] at hfirst
  obtain ⟨houtcome, hpeer⟩ := hfirst
  rw [Peer.reply_payload hpayload] at houtcome hpeer
  rw [send_reply] at houtcome
  exact ⟨houtcome, hpeer⟩

include hunmet

/-- A value that the store answers with comes in as many turns as it has chunks, none of which gives anything up. -/
theorem turns_sent : ∃ outcome fetches bytes head, turns config call p = .opening config call outcome :: fetches ∧
    outcome.head? config.verifyChecksums call.operation = some head ∧
    Fetches config.verifyChecksums head.next fetches (.ok bytes) ∧ head.payload ++ bytes = payload ∧
    fetches.length + 1 = Chunk.count payload.length p.depot.size := by
  obtain ⟨houtcome, hpeer⟩ := firstOn_sent hconnected hcall hanswer hpayload
  obtain ⟨u, hperform, -, hdepot⟩ := perform_ok hconnected hcall hanswer hunmet
  have hlater : supply.Follows (Peer.send { p.counted with store, supply } tag payload).2.supply := by
    rw [send_eq]
    exact ⟨rfl, Nat.le_add_right ..⟩
  rw [hpeer] at hunmet
  obtain ⟨v, hwhole, -⟩ := reassemble_send config.verifyChecksums call.operation tag payload
    (p := { p.counted with store, supply }) hconnected (hunmet.later (Store.follows_answer hanswer) hlater)
  rw [← hpeer] at hwhole
  have hread : Frame.decode (Frame.encode (p.depot.chain payload supply).first) config.verifyChecksums =
      .ok (p.depot.chain payload supply).first :=
    opened_eq_ok.1 (opened_encode (Depot.fits_of_mem_chain List.mem_cons_self) config.verifyChecksums)
  have hexpected : call.operation.tag? = some tag := ((Store.answer_fits hanswer).payload hpayload).1
  obtain ⟨r, q, hanswers, hending, hyields⟩ := turns_course config call p
  obtain ⟨-, hq⟩ := hyields (.start ⟨p, {}⟩) rfl
  obtain ⟨-, hu⟩ := hperform (.start ⟨p, {}⟩) rfl
  obtain rfl : u = q := hu.symm.trans hq
  generalize turns config call p = made at hanswers hending ⊢
  -- the reply decides how the call can end
  have hreply {outcome : Outcome} {rest : List Turn}
      (h : Channel.Answers p (.opening config call outcome :: rest) u) :
      outcome = .ok (.chunked tag (Frame.encode (p.depot.chain payload supply).first)) := h.1.symm.trans houtcome
  cases hending with
  | refused | done | absent => cases hreply hanswers
  | unexpected wrong =>
    cases hreply hanswers
    exact absurd hexpected wrong
  | unreadable _ unread =>
    cases hreply hanswers
    cases unread.symm.trans hread
  | broken _ read follows =>
    obtain ⟨w, hfetches, hrelease⟩ := hanswers.2.split
    obtain ⟨e, hbroken, -⟩ := reassemble_counts_broken read follows hfetches hrelease call.operation
    cases hreply hanswers
    cases hwhole.unique hbroken
  | @unparsed _ _ head fetches bytes _ tagged read follows | @value _ _ head fetches bytes _ tagged read follows =>
    obtain ⟨hcomplete, -⟩ := reassemble_counts_complete read follows hanswers.2 call.operation
    refine ⟨_, fetches, bytes, head, rfl, head?_chunked tagged read, follows, ?_, ?_⟩
    · cases hreply hanswers
      exact Except.ok.inj (hcomplete.unique hwhole)
    · -- the fetches have taken out what the reply has parked
      have hpending := pending_fetches follows rfl hanswers.2
      change u.depot.pending + fetches.length = (firstOn config call p).peer.depot.pending at hpending
      rw [hpeer, hdepot] at hpending
      have hparked := pending_send { p.counted with store, supply } tag payload
      change _ = p.depot.pending + Chunk.count payload.length p.depot.size at hparked
      omega

/-- What is counted is the chunks, the bytes, and how the value is read. -/
theorem counts_sent : Counts (perform config call) p
    (.ofRead (Chunk.count payload.length p.depot.size) payload.length + verdict a.reread) := by
  obtain ⟨u, hperform, -⟩ := perform_ok hconnected hcall hanswer hunmet
  obtain ⟨outcome, fetches, bytes, head, hmade, hhead, hfetches, hbytes, hcount⟩ :=
    turns_sent hconnected hcall hanswer hpayload hunmet
  obtain ⟨r, q, hanswers, hending, hyields⟩ := turns_course config call p
  obtain rfl := hperform.unique hyields
  have hcounts := perform_counts hending hanswers hperform
  have hgathered := hfetches.gathered_eq []
  rw [List.append_nil] at hgathered
  rw [hmade, received_complete hhead hgathered, hbytes, ← List.singleton_append, heard_append,
    heard_fetches hfetches rfl, heard_of_ne (method_ne_fetch call).symm] at hcounts
  obtain ⟨reply, rfl⟩ : ∃ reply, outcome = .ok reply := by
    cases outcome with
    | ok reply => exact ⟨reply, rfl⟩
    | error failure => cases hhead
  have hread : Turn.noted (.opening config call (.ok reply)) +
      { callsIssued := UInt64.ofNat fetches.length, chunksFetched := UInt64.ofNat fetches.length } +
      { payloadBytes := UInt64.ofNat payload.length } =
        Metrics.ofRead (Chunk.count payload.length p.depot.size) payload.length := by
    rw [← hcount, Metrics.ofRead, Nat.add_sub_cancel, Nat.add_comm, UInt64.ofNat_add]
    refine Metrics.ext (UInt64.add_zero _) rfl ?_ ?_ rfl rfl
    · exact (UInt64.add_zero _).trans (UInt64.zero_add _)
    · exact UInt64.zero_add _
  rwa [hread] at hcounts

end

end Client

end RemoteTable
