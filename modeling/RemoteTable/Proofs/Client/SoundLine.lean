import RemoteTable.Proofs.Chunk.Chain
import RemoteTable.Proofs.Chunk.Frame
import RemoteTable.Proofs.Peer

/-!
# Calls over a sound line

Over a sound line to a connected peer a payload that was sent arrives whole, and nothing of its chain stays behind
(`reassemble_send`). The ids of its chain have to be new: the tokens drawn for it differ from each other and from the
ids of the chunks that are parked already.
-/

namespace RemoteTable

namespace Client

def parkedIds (p : Peer) : List Token := p.depot.parked.map fun k => k.chunk.id

/-- A frame that was not damaged is read as the chunk that was sent. -/
theorem opened_encode {c : Chunk} (hfit : c.payload.length ≤ Frame.maxPayload) (verify : Bool) :
    opened verify (Frame.encode c) = .ok c := by
  rw [opened, Frame.decode_encode hfit verify]

/-- The parked rest of a chain is fetched chunk by chunk, and is then no longer parked. -/
theorem remainder_parked (verify : Bool) (chain : Token) {before : List Parked} {rest : List Chunk} {p : Peer}
    (hconnected : p.connected = true) (hparked : p.depot.parked = before ++ rest.map (Parked.mk chain))
    (hnodup : (rest.map Chunk.id).Nodup) (hunmet : ∀ c ∈ rest, ∀ k ∈ before, k.chunk.id ≠ c.id)
    (hlinked : Chain.Linked rest) (hfits : ∀ c ∈ rest, c.payload.length ≤ Frame.maxPayload) :
    ∃ q, Yields (remainder verify (rest.head?.map Chunk.id)) p (.ok (rest.map Chunk.payload).flatten) q ∧
      q.store = p.store ∧ q.supply = p.supply ∧ q.depot = { p.depot with parked := before } := by
  induction rest generalizing p with
  | nil =>
    refine ⟨p, remainder_none verify p, rfl, rfl, ?_⟩
    rw [List.map_nil, List.append_nil] at hparked
    rw [← hparked]
  | cons c rest ih =>
    obtain ⟨hnext, hlinked⟩ := hlinked
    obtain ⟨-, hnodup⟩ := List.nodup_cons.1 hnodup
    have htake := Depot.take?_append_cons (k := ⟨chain, c⟩) hparked (hunmet c List.mem_cons_self)
    obtain ⟨houtcome, hpeer⟩ := Peer.fetchOn_some hconnected htake
    have hfetch := fetchChunk_yields verify c.id p
    have hread : (reading .fetchChunk (.ok (.fragment (Frame.encode c))) >>= fragmentOf verify) = .ok c :=
      opened_encode (hfits c List.mem_cons_self) verify
    rw [houtcome, hpeer, hread] at hfetch
    obtain ⟨q, hrest, hstore, hsupply, hdepot⟩ := ih
      (p := { p.counted with depot := { p.depot with parked := before ++ rest.map (Parked.mk chain) } })
      hconnected rfl hnodup (fun d hd => hunmet d (List.mem_cons_of_mem c hd)) hlinked
      fun d hd => hfits d (List.mem_cons_of_mem c hd)
    refine ⟨q, ?_, hstore, hsupply, hdepot⟩
    rw [← hnext] at hrest
    exact remainder_ok hfetch hrest

theorem send_eq (p : Peer) (tag : Tag) (payload : Bytes) :
    let chain := p.depot.chain payload p.supply
    p.send tag payload = (.chunked tag (Frame.encode chain.first),
      { p with
        depot := { p.depot with parked := p.depot.parked ++ chain.rest.map (Parked.mk chain.first.id) },
        supply := { p.supply with used := p.supply.used + Chunk.count payload.length p.depot.size } }) := by
  rw [Peer.send, Depot.deposit_eq]

theorem send_reply (p : Peer) (tag : Tag) (payload : Bytes) :
    (p.send tag payload).1 = .chunked tag (Frame.encode (p.depot.chain payload p.supply).first) := by
  rw [send_eq]

/-- The ids of the chain that a payload is sent in are the tokens drawn for it. -/
theorem ids_send (p : Peer) (tag : Tag) (payload : Bytes) :
    (p.depot.chain payload p.supply).toList.map Chunk.id = p.supply.drawnUntil (p.send tag payload).2.supply := by
  have hcount : p.supply.used + Chunk.count payload.length p.depot.size - p.supply.used =
      Chunk.count payload.length p.depot.size := by omega
  rw [send_eq, Supply.drawnUntil, hcount]
  exact Chain.ids_split p.depot.size payload p.supply

section

variable {p : Peer} {tag : Tag} {payload : Bytes} {taken : List Token}

theorem nodup_ids_send (hunmet : p.supply.Unmet (p.send tag payload).2.supply taken) :
    ((p.depot.chain payload p.supply).toList.map Chunk.id).Nodup := by
  rw [ids_send p tag payload]
  exact hunmet.nodup

theorem ne_of_unmet (hunmet : p.supply.Unmet (p.send tag payload).2.supply taken) {c : Chunk}
    (hc : c ∈ (p.depot.chain payload p.supply).toList) {id : Token} (hid : id ∈ taken) : id ≠ c.id := by
  rintro rfl
  refine hunmet.unmet c.id ?_ hid
  rw [← ids_send]
  exact List.mem_map_of_mem hc

end

/-- A payload that was sent arrives whole, and nothing of its chain stays parked. -/
theorem reassemble_send (verify : Bool) (op : Operation) (tag : Tag) (payload : Bytes) {p : Peer}
    (hconnected : p.connected = true) (hunmet : p.supply.Unmet (p.send tag payload).2.supply (parkedIds p)) :
    ∃ q, Yields (reassemble verify op (Frame.encode (p.depot.chain payload p.supply).first)) (p.send tag payload).2
        (.ok payload) q ∧
      q.store = p.store ∧ q.supply = (p.send tag payload).2.supply ∧ q.depot = p.depot := by
  obtain ⟨chain, hchain⟩ : ∃ chain, chain = p.depot.chain payload p.supply := ⟨_, rfl⟩
  have hids : (chain.toList.map Chunk.id).Nodup := hchain ▸ nodup_ids_send hunmet
  have hlinked : Chain.Linked chain.toList := hchain ▸ Chain.linked_split p.depot.size payload p.supply
  have hbytes : (chain.toList.map Chunk.payload).flatten = payload :=
    hchain ▸ Chain.flatten_split p.depot.size payload p.supply
  have hfits : ∀ c ∈ chain.toList, c.payload.length ≤ Frame.maxPayload :=
    fun c hc => Depot.fits_of_mem_chain (hchain ▸ hc)
  -- chunks that were parked before are not taken in place of these
  have helsewhere : ∀ c ∈ chain.rest, ∀ k ∈ p.depot.parked, k.chunk.id ≠ c.id := by
    intro c hc k hk
    exact ne_of_unmet hunmet (hchain ▸ List.mem_cons_of_mem _ hc) (List.mem_map_of_mem hk)
  rw [send_eq]
  dsimp only
  rw [← hchain]
  obtain ⟨q, hrest, hstore, hsupply, hdepot⟩ := remainder_parked verify chain.first.id
    (p := { p with
      depot := { p.depot with parked := p.depot.parked ++ chain.rest.map (Parked.mk chain.first.id) },
      supply := { p.supply with used := p.supply.used + Chunk.count payload.length p.depot.size } })
    hconnected rfl (List.nodup_cons.1 hids).2 helsewhere hlinked.2 fun c hc => hfits c (List.mem_cons_of_mem _ hc)
  rw [← hlinked.1] at hrest
  have hwhole := reassemble_complete (opened_encode (hfits _ List.mem_cons_self) verify) hrest op
  refine ⟨q, ?_, hstore, hsupply, hdepot⟩
  have hpayload : chain.first.payload ++ (chain.rest.map Chunk.payload).flatten = payload := hbytes
  rwa [hpayload] at hwhole

end Client

end RemoteTable
