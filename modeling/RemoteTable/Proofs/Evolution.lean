import RemoteTable.Proofs.Client.FaultyLine
import RemoteTable.Proofs.Client.Leaves
import RemoteTable.Proofs.Revision

/-!
# How a peer changes

Whatever is invoked on a peer, over a faulty line or not, its supply moves forward, metadata changes only together
with a revision that was drawn in between, and a chunk that is parked was parked before or has ids that were drawn in
between (`Peer.Evolves`). Reads leave the store as it is. Fetches and releases take parked chunks and the connection
away at most (`Faulty.stable_drains`).
-/

namespace RemoteTable

/-! ## Peers -/

namespace Peer

/-- What invocations may make of a peer. -/
structure Evolves (p q : Peer) : Prop where
  supply : p.supply.Follows q.supply
  metadata : p.store.Revised p.supply q.store q.supply
  parked : ∀ k ∈ q.depot.parked, k ∈ p.depot.parked ∨ ∀ x ∈ k.ids, x ∈ p.supply.drawnUntil q.supply
  /-- No id of a parked chunk comes up twice unless it was drawn twice. -/
  parkedIds : (Client.parkedIds q).Sublist (Client.parkedIds p ++ p.supply.drawnUntil q.supply)

variable {p q r : Peer}

theorem Drains.parkedIds (h : Drains p q) : (Client.parkedIds q).Sublist (Client.parkedIds p) := h.parked.map _

theorem Drains.evolves (h : Drains p q) : Evolves p q := by
  refine ⟨?_, ?_, fun k hk => .inl (h.parked.subset hk),
    h.parkedIds.trans (List.sublist_append_left _ _)⟩
  · rw [h.supply]
    exact .refl p.supply
  · rw [h.store]
    exact Store.Revised.refl p.store p.supply _

theorem Evolves.trans (h : Evolves p q) (h' : Evolves q r) : Evolves p r := by
  have hdrawn := Supply.drawnUntil_append h.supply h'.supply
  refine ⟨h.supply.trans h'.supply, h.metadata.trans h'.metadata h.supply h'.supply, fun k hk => ?_, ?_⟩
  · rw [hdrawn]
    rcases h'.parked k hk with hq | hnew
    · rcases h.parked k hq with hp | hold
      · exact .inl hp
      · exact .inr fun x hx => List.mem_append_left _ (hold x hx)
    · exact .inr fun x hx => List.mem_append_right _ (hnew x hx)
  · rw [hdrawn, ← List.append_assoc]
    exact h'.parkedIds.trans (h.parkedIds.append_right _)

theorem evolves_send (p : Peer) (tag : Tag) (payload : Bytes) : Evolves p (p.send tag payload).2 := by
  have hids := Client.ids_send p tag payload
  rw [Client.send_eq] at hids ⊢
  refine ⟨⟨rfl, Nat.le_add_right ..⟩, Store.Revised.refl p.store p.supply _, fun k hk => ?_, ?_⟩
  · rcases List.mem_append.1 hk with hk | hk
    · exact .inl hk
    · obtain ⟨c, hc, rfl⟩ := List.mem_map.1 hk
      refine .inr fun x hx => ?_
      rw [← hids]
      rcases List.mem_cons.1 hx with rfl | hx
      · exact List.mem_map_of_mem List.mem_cons_self
      · rw [List.mem_singleton.1 hx]
        exact List.mem_map_of_mem (List.mem_cons_of_mem _ hc)
  · -- the first chunk goes out with the reply, so its id is drawn and not parked
    rw [← hids]
    unfold Client.parkedIds
    rw [List.map_append, List.map_map]
    exact (List.sublist_cons_self _ _).append_left _

/-- An answer is sent as a payload, or leaves the peer as it is and is not chunked. -/
theorem reply_cases (p : Peer) (a : Answer) :
    (p.reply a).2 = p ∧ (∀ tag frame, (p.reply a).1 ≠ .chunked tag frame) ∨
      ∃ tag payload, p.reply a = p.send tag payload := by
  cases hpayload : a.payload? with
  | none =>
    refine .inl ?_
    cases a with
    | done => exact ⟨rfl, nofun⟩
    | row found =>
      cases found with
      | none => exact ⟨rfl, nofun⟩
      | some row => cases hpayload
    | info | rows | metadata => cases hpayload
  | some sent => exact .inr ⟨sent.1, sent.2, reply_payload hpayload⟩

theorem evolves_reply (p : Peer) (a : Answer) : Evolves p (p.reply a).2 := by
  rcases reply_cases p a with ⟨hsame, -⟩ | ⟨tag, payload, hsent⟩
  · rw [hsame]
    exact (Drains.refl p).evolves
  · rw [hsent]
    exact evolves_send p tag payload

theorem evolves_invoke (p : Peer) (method : String) (args : Json) : Evolves p (p.invoke method args).peer := by
  have hcounted := (drains_counted p).evolves
  cases ended p method args with
  | failed f _ peer =>
    rw [peer]
    exact hcounted
  | answered principal call a store supply _ _ _ answer _ peer =>
    -- the answer draws first, then the chain of its payload
    have hserved : Evolves p { p.counted with store, supply } :=
      ⟨Store.follows_answer answer, (Store.amends_answer answer).revised, fun k hk => .inl hk,
        List.sublist_append_left _ _⟩
    rw [peer]
    exact hserved.trans (evolves_reply _ a)
  | fetched id chunk depot _ _ taken _ peer =>
    rw [peer]
    exact hcounted.trans (drains_taken (p := p.counted) taken).evolves
  | released chain _ _ _ peer =>
    rw [peer]
    exact hcounted.trans (drains_released p.counted chain).evolves

end Peer

namespace Faulty

theorem evolves_invoke (l : Faulty) (method : String) (args : Json) :
    Peer.Evolves l.peer (l.invoke method args).peer.peer := by
  rcases peer_invoke l method args with hsame | hdrains
  · rw [hsame]
    exact (Peer.Drains.refl l.peer).evolves
  · exact ((drains_met l).evolves.trans (Peer.evolves_invoke l.met method args)).trans hdrains.evolves

/-- Fetches and releases over a faulty line take parked chunks and the connection away at most. -/
theorem stable_drains (base : Peer) : Client.Stable fun l : Faulty => Peer.Drains base l.peer where
  fetch l id h := by
    rcases peer_invoke l Operation.fetchChunk.method (FetchArgs.codec.pack ⟨id⟩) with hsame | hdrains
    · exact hsame ▸ h
    · exact ((h.trans (drains_met l)).trans (Peer.fetchOn_drains l.met id).1).trans hdrains
  release l chain h := by
    rcases peer_invoke l Operation.releaseChain.method (ReleaseArgs.codec.pack ⟨chain⟩) with hsame | hdrains
    · exact hsame ▸ h
    · exact ((h.trans (drains_met l)).trans (Peer.releaseOn_drains l.met chain)).trans hdrains

theorem stable_within (damage : Damage → Prop) : Client.Stable fun l : Faulty => l.Within damage where
  fetch _ _ h := within_invoke h _ _
  release _ _ h := within_invoke h _ _

end Faulty

/-! ## Reads -/

theorem Store.answer_of_isRead {s t : Store} {principal : Option String} {call : Call} {supply later : Supply}
    {a : Answer} (hread : call.operation.IsRead) (h : s.answer principal call supply = .ok (a, t, later)) : t = s := by
  cases answer_eq_ok h with
  | read => rfl
  | opened | closed | put | deleted => exact hread.elim

namespace Peer

theorem store_reply (p : Peer) (a : Answer) : (p.reply a).2.store = p.store := by
  rcases reply_cases p a with ⟨hsame, -⟩ | ⟨tag, payload, hsent⟩
  · rw [hsame]
  · rw [hsent, Client.send_eq]

/-- A read leaves the store as it is. -/
theorem store_invoke {op : Operation} (hop : op.IsRead) (p : Peer) (args : Json) :
    (p.invoke op.method args).peer.store = p.store := by
  cases ended p op.method args with
  | failed f _ peer => rw [peer, counted]
  | answered principal call a store supply _ named _ answer _ peer =>
    obtain rfl := Operation.method_injective named
    rw [peer, store_reply, Store.answer_of_isRead hop answer]
  | fetched id chunk depot _ _ _ _ peer => rw [peer, counted]
  | released chain _ _ _ peer => rw [peer, counted]

end Peer

namespace Faulty

theorem store_invoke {op : Operation} (hop : op.IsRead) (l : Faulty) (args : Json) :
    (l.invoke op.method args).peer.peer.store = l.peer.store := by
  rcases peer_invoke l op.method args with hsame | hdrains
  · rw [hsame]
  · rw [hdrains.store, Peer.store_invoke hop l.met args, (drains_met l).store]

end Faulty

end RemoteTable
