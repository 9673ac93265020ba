import RemoteTable.Proofs.Chunk.Format
import RemoteTable.Proofs.Config
import RemoteTable.Proofs.Evolution

/-!
# How long messages are

Every frame that a peer emits carries a chunk that was cut to its depot's size, in the reply that the chunk was cut for
or, long after that, from the depot. So the invariant is about the depot: all that is parked there is cut to its size
(`Peer.Cuts`). An invocation keeps it and emits only frames of such chunks (`Peer.Cuts.invoke`), hence so does a run in
which the connection and the store change in any way (`Peer.Cuts.emitted`). A chunk cut to a size that a configuration
may ask for fits the length field, and that bounds its frame (`Frame.bounded_encode`, `Config.emission`).
-/

namespace RemoteTable

/-! ## Frames of chunks that were cut -/

/-- The frame is that of a chunk that was cut to the size. -/
def Frame.OfCut (size : ChunkSize) (frame : Bytes) : Prop := ∃ c : Chunk, c.Cut size ∧ encode c = frame

/-- The frame carries this chunk and no other. Its length field tells how long the payload is, a receiver who looks at
the checksum accepts it, and it is no longer than the given size allows. -/
structure Frame.Bounded (size : Nat) (frame : Bytes) (c : Chunk) : Prop where
  encoded : ∀ d, encode d = frame ↔ d = c
  tellable : c.payload.length ≤ maxPayload
  accepted : decode frame true = .ok c
  length_le : frame.length ≤ size + maxOverhead
  linked : c.next ≠ none → frame.length = size + maxOverhead
  last : c.next = none → frame.length = minSize + c.payload.length ∧ frame.length ≤ minSize + size

theorem Frame.bounded_encode {size : ChunkSize} {c : Chunk} (hsize : size.bytes ≤ maxPayload) (hcut : c.Cut size) :
    Bounded size.bytes (encode c) c := by
  have hfits := hcut.fits
  have htell : c.payload.length ≤ maxPayload := Nat.le_trans hfits hsize
  have hlinked : c.next ≠ none → (encode c).length = size.bytes + maxOverhead := by
    intro hnext
    rw [length_encode_of_next hnext, hcut.full hnext]
  have hlast : c.next = none → (encode c).length = minSize + c.payload.length ∧
      (encode c).length ≤ minSize + size.bytes := by
    intro hnone
    rw [length_encode_of_last hnone]
    exact ⟨rfl, Nat.add_le_add_left hfits minSize⟩
  refine ⟨fun d => encode_injective.eq_iff, htell, decode_encode htell true, ?_, hlinked, hlast⟩
  by_cases hnext : c.next = none
  · have hoverhead : minSize ≤ maxOverhead := by decide
    have := (hlast hnext).2
    omega
  · exact Nat.le_of_eq (hlinked hnext)

/-! ## Runs of a peer -/

/-- The frame that an outcome brings, if it brings one. -/
def Outcome.frame? : Outcome → Option Bytes
  | .ok (.chunked _ frame) | .ok (.fragment frame) => some frame
  | .ok .unit | .ok (.absent _) | .error _ => none

/-- What can happen to a peer. -/
inductive PeerAct where
  | invoke (method : String) (args : Json)
  | disconnect
  | reconnect
  /-- The store is given any other contents, for which any tokens may have been drawn. -/
  | restock (store : Store) (supply : Supply)

namespace Peer

/-- The peer after an act, and the frames that the act makes it emit. -/
def act (p : Peer) : PeerAct → Peer × List Bytes
  | .invoke method args =>
    let d := p.invoke method args
    (d.peer, (Outcome.frame? d.outcome).toList)
  | .disconnect => (p.disconnect.1, [])
  | .reconnect => (p.reconnect, [])
  | .restock store supply => ({ p with store, supply }, [])

def emitted (p : Peer) : List PeerAct → List Bytes
  | [] => []
  | act :: acts => (p.act act).2 ++ (p.act act).1.emitted acts

/-! ## Every parked chunk was cut -/

/-- The peer cuts payloads to this size, and what it has parked was cut to it. -/
structure Cuts (size : ChunkSize) (p : Peer) : Prop where
  size_eq : p.depot.size = size
  parked : ∀ k ∈ p.depot.parked, k.chunk.Cut size

namespace Cuts

variable {size : ChunkSize} {p q : Peer}

theorem of_sublist (h : p.Cuts size) (hsize : q.depot.size = p.depot.size)
    (hparked : q.depot.parked.Sublist p.depot.parked) : q.Cuts size :=
  ⟨hsize.trans h.size_eq, fun k hk => h.parked k (hparked.subset hk)⟩

theorem of_depot (h : p.Cuts size) (hdepot : q.depot = p.depot) : q.Cuts size :=
  h.of_sublist (congrArg Depot.size hdepot) (hdepot ▸ .refl _)

theorem send (h : p.Cuts size) (tag : Tag) (payload : Bytes) : (p.send tag payload).2.Cuts size ∧
    ∃ c : Chunk, c.Cut size ∧ (p.send tag payload).1 = .chunked tag (Frame.encode c) := by
  have hcut (c : Chunk) (hc : c ∈ (p.depot.chain payload p.supply).toList) : c.Cut size :=
    h.size_eq ▸ Depot.cut_of_mem_chain hc
  refine ⟨⟨?_, ?_⟩, (p.depot.chain payload p.supply).first, hcut _ List.mem_cons_self, Client.send_reply ..⟩
  · rw [Client.send_eq]
    exact h.size_eq
  · rw [Client.send_eq]
    intro k hk
    rcases List.mem_append.1 hk with hk | hk
    · exact h.parked k hk
    · obtain ⟨c, hc, rfl⟩ := List.mem_map.1 hk
      exact hcut c (List.mem_cons_of_mem _ hc)

theorem reply (h : p.Cuts size) (a : Answer) : (p.reply a).2.Cuts size ∧
    ∀ frame ∈ Outcome.frame? (.ok (p.reply a).1), Frame.OfCut size frame := by
  rcases reply_cases p a with ⟨hsame, hchunked⟩ | ⟨tag, payload, hsent⟩
  · rw [hsame]
    refine ⟨h, fun frame hframe => ?_⟩
    cases hreply : (p.reply a).1 with
    | unit | absent =>
      rw [hreply] at hframe
      cases hframe
    | chunked tag first => exact absurd hreply (hchunked tag first)
    | fragment next => exact (reply_ne_fragment p (p.reply a).2 a next (Prod.ext hreply rfl)).elim
  · obtain ⟨hcuts, c, hcut, hfirst⟩ := h.send tag payload
    rw [hsent, hfirst]
    exact ⟨hcuts, fun frame hframe => ⟨c, hcut, Option.some.inj hframe⟩⟩

/-- What an invocation parks was cut, and so was the chunk in the frame that it emits. -/
theorem invoke (h : p.Cuts size) (method : String) (args : Json) : (p.invoke method args).peer.Cuts size ∧
    ∀ frame ∈ Outcome.frame? (p.invoke method args).outcome, Frame.OfCut size frame := by
  cases ended p method args with
  | failed f outcome peer =>
    rw [outcome, peer]
    exact ⟨h.of_depot rfl, fun frame hframe => by cases hframe⟩
  | answered principal call a store supply _ _ _ _ outcome peer =>
    have hserved : Cuts size { p.counted with store, supply } := h.of_depot rfl
    rw [outcome, peer]
    exact hserved.reply a
  | fetched id chunk depot _ _ taken outcome peer =>
    have hlost := (drains_taken (p := p.counted) taken).parked
    obtain ⟨before, k, after, hparked, rfl, -, rfl⟩ := Depot.take?_eq_some taken
    rw [outcome, peer]
    refine ⟨h.of_sublist rfl hlost, fun frame hframe => ⟨k.chunk, h.parked k ?_, Option.some.inj hframe⟩⟩
    rw [hparked]
    exact List.mem_append_right before List.mem_cons_self
  | released chain _ _ outcome peer =>
    rw [outcome, peer]
    exact ⟨h.of_sublist rfl (drains_released p.counted chain).parked, fun frame hframe => by cases hframe⟩

theorem act (h : p.Cuts size) (act : PeerAct) : (p.act act).1.Cuts size ∧
    ∀ frame ∈ (p.act act).2, Frame.OfCut size frame := by
  cases act with
  | invoke method args =>
    obtain ⟨hcuts, hframes⟩ := h.invoke method args
    exact ⟨hcuts, fun frame hframe => hframes frame (Option.mem_toList.1 hframe)⟩
  | disconnect => exact ⟨h.of_sublist rfl (List.nil_sublist _), fun frame hframe => absurd hframe List.not_mem_nil⟩
  | reconnect => exact ⟨h.of_depot rfl, fun frame hframe => absurd hframe List.not_mem_nil⟩
  | restock store supply => exact ⟨h.of_depot rfl, fun frame hframe => absurd hframe List.not_mem_nil⟩

/-- Every frame of a run carries a chunk that was cut. -/
theorem emitted (h : p.Cuts size) (acts : List PeerAct) :
    ∀ frame ∈ p.emitted acts, Frame.OfCut size frame := by
  induction acts generalizing p with
  | nil => exact fun frame hframe => absurd hframe List.not_mem_nil
  | cons act acts ih =>
    obtain ⟨hcuts, hframes⟩ := h.act act
    intro frame hframe
    rcases List.mem_append.1 hframe with hnow | hlater
    · exact hframes frame hnow
    · exact ih hcuts frame hlater

end Cuts

end Peer

/-! ## Every accepted configuration -/

theorem Depot.new_of_usable {n : Nat} (hpositive : 0 < n) (hfits : n ≤ Frame.maxPayload) :
    new n = .ok ⟨⟨n, hpositive⟩, hfits, []⟩ := by
  have hsize : ChunkSize.ofNat n = .ok ⟨n, hpositive⟩ := dif_pos hpositive
  rw [new, hsize, Fallible.ok_bind, dif_pos hfits]
  rfl

/-- A configuration that is accepted names a severity and makes a depot, and each frame that a peer with this depot ever
emits is bounded by the chunk size. -/
theorem Config.emission {text : Bytes} {c : Config} (h : ofJsonText text = .ok c) :
    (∃ s, c.severity = .ok s) ∧ ∃ depot, Depot.new c.maxChunkSize.toNat = .ok depot ∧
      ∀ (store : Store) (supply : Supply) (acts : List PeerAct),
        ∀ frame ∈ ({ Peer.new depot supply with store } : Peer).emitted acts,
          ∃ chunk, Frame.Bounded c.maxChunkSize.toNat frame chunk := by
  obtain ⟨⟨hpositive, hfits⟩, hseverity⟩ := validate_eq_ok.1 (validate_of_ofJsonText h)
  refine ⟨hseverity, _, Depot.new_of_usable hpositive hfits, fun store supply acts frame hframe => ?_⟩
  have hcuts : Peer.Cuts ⟨c.maxChunkSize.toNat, hpositive⟩
      { Peer.new ⟨⟨c.maxChunkSize.toNat, hpositive⟩, hfits, []⟩ supply with store } :=
    ⟨rfl, fun k hk => absurd hk List.not_mem_nil⟩
  obtain ⟨chunk, hcut, rfl⟩ := hcuts.emitted acts frame hframe
  exact ⟨chunk, Frame.bounded_encode hfits hcut⟩

/-- A text that sets the chunk size to sixteen, and a run in which a table is opened and the two chunks are fetched that
were parked for it. -/
theorem Config.emission_of_fetches :
    let text := Bytes.ofString "\x7b\"max_chunk_size\": 16\x7d"
    let store := Store.empty.withTable "t" ⟨["c"], [], false, ⟨"t", none, []⟩⟩
    let supply : Supply := .fresh fun n => ⟨BitVec.ofNat 128 n⟩
    let acts : List PeerAct := [.invoke "open" ((Call.openTable "t").arguments none),
      .invoke "fetch_chunk" (FetchArgs.codec.pack ⟨⟨1⟩⟩), .invoke "fetch_chunk" (FetchArgs.codec.pack ⟨⟨2⟩⟩)]
    ofJsonText text = .ok { maxChunkSize := 16 } ∧ ∃ depot, Depot.new 16 = .ok depot ∧
      (({ Peer.new depot supply with store } : Peer).emitted acts).map List.length = [57, 57, 39] ∧
      ∀ frame ∈ ({ Peer.new depot supply with store } : Peer).emitted acts,
        ∃ chunk, Frame.Bounded 16 frame chunk := by
  intro text store supply acts
  have hsome : (ofJsonText text).toOption = some { maxChunkSize := 16 } := by decide +kernel
  have hread : ofJsonText text = .ok { maxChunkSize := 16 } := by
    cases hresult : ofJsonText text with
    | error e =>
      rw [hresult] at hsome
      cases hsome
    | ok c =>
      rw [hresult] at hsome
      exact congrArg Except.ok (Option.some.inj hsome)
  obtain ⟨-, depot, hnew, hbounded⟩ := emission hread
  refine ⟨hread, depot, hnew, ?_, hbounded store supply acts⟩
  obtain rfl : depot = ⟨⟨16, by decide⟩, by decide, []⟩ := by
    cases hnew
    rfl
  decide +kernel

end RemoteTable
