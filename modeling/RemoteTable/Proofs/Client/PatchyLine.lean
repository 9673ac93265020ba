import RemoteTable.Proofs.Client.Course
import RemoteTable.Proofs.Deployment

/-!
# Calls over a patchy line

On a patchy line a fetch may not reach the peer, its answer may be lost, or a frame that cannot be read may come in its
place; what gives a chain up arrives, though its answer may be lost as well. Whatever happens to the fetches, when the
call is over the peer has parked what it had parked before the call (`perform_keeps_depot`): what the client has not
fetched it gives up, by the id under which the peer has filed it, and nothing else is filed under this id.

The invariant of the fetches is that the peer has parked what it had before and after that an end of the chain
(`Fetches.keeps`). A fetch takes at most the head of this end, and when a chunk comes it is this head.
-/

namespace RemoteTable

/-! ## Patchy lines -/

inductive Mishap (verify : Bool) where
  /-- Nothing. -/
  | spared
  /-- It does not reach the peer. -/
  | unsent (failure : Failure)
  /-- It reaches the peer, whose answer is lost. -/
  | lost (failure : Failure)
  /-- It reaches the peer, and in place of the chunk a frame comes back that cannot be read. -/
  | garbled (frame : Bytes) (unreadable : ∃ e, Frame.decode frame verify = .error e)

/-- A line to a peer, and what will happen to the fetches over it; later ones are spared. -/
structure Patchy (verify : Bool) where
  peer : Peer
  mishaps : List (Mishap verify)
  /-- What is heard instead of the answer when a chain is given up. -/
  unheard : Option Failure := none

/-- The reply with another frame in place of a chunk. -/
def Reply.garbled (frame : Bytes) : Reply → Reply
  | .fragment _ => .fragment frame
  | reply => reply

namespace Mishap

variable {verify : Bool}

def befall (m : Mishap verify) (p : Peer) (method : String) (args : Json) : Delivery Peer :=
  let d := p.invoke method args
  match m with
  | spared => d
  | unsent failure => ⟨.error failure, p, []⟩
  | lost failure => { d with outcome := .error failure }
  | garbled frame _ => { d with outcome := d.outcome.map (Reply.garbled frame) }

theorem garbled_eq_fragment {outcome : Outcome} {sent frame : Bytes}
    (h : outcome.map (Reply.garbled sent) = .ok (.fragment frame)) : ∃ chunk, outcome = .ok (.fragment chunk) := by
  match outcome with
  | .error _ => cases h
  | .ok (.fragment chunk) => exact ⟨chunk, rfl⟩
  | .ok .unit | .ok (.chunked ..) | .ok (.absent _) => cases h

theorem pending_befall {m : Mishap verify} {p : Peer} {method : String} {args : Json} {frame : Bytes}
    (h : (m.befall p method args).outcome = .ok (.fragment frame)) :
    (m.befall p method args).peer.depot.pending < p.depot.pending := by
  cases m with
  | spared => exact Nat.le_of_eq (Peer.pending_invoke h)
  | unsent | lost => cases h
  | garbled =>
    obtain ⟨chunk, houtcome⟩ := garbled_eq_fragment h
    exact Nat.le_of_eq (Peer.pending_invoke houtcome)

end Mishap

namespace Patchy

variable {verify : Bool}

/-- Lets everything through to the peer, except that fetches meet the mishaps, one after another. -/
def invoke (l : Patchy verify) (method : String) (args : Json) : Delivery (Patchy verify) :=
  if method = Operation.fetchChunk.method then
    let d := (l.mishaps.headD .spared).befall l.peer method args
    ⟨d.outcome, { l with peer := d.peer, mishaps := l.mishaps.tail }, d.records⟩
  else
    let d := l.peer.invoke method args
    let outcome := if method = Operation.releaseChain.method then l.unheard.elim d.outcome .error else d.outcome
    ⟨outcome, { l with peer := d.peer }, d.records⟩

theorem unheard_eq_fragment {unheard : Option Failure} {outcome : Outcome} {frame : Bytes}
    (h : unheard.elim outcome .error = .ok (.fragment frame)) : outcome = .ok (.fragment frame) := by
  cases unheard with
  | none => exact h
  | some failure => cases h

instance : Channel (Patchy verify) where
  invoke := invoke
  credit l := l.peer.depot.pending
  spends l method args frame h := by
    unfold invoke at h ⊢
    by_cases hfetch : method = Operation.fetchChunk.method
    · rw [if_pos hfetch] at h ⊢
      exact Mishap.pending_befall h
    · rw [if_neg hfetch] at h ⊢
      have hheard : (l.peer.invoke method args).outcome = .ok (.fragment frame) := by
        by_cases hrelease : method = Operation.releaseChain.method
        · exact unheard_eq_fragment ((if_pos hrelease).symm.trans h)
        · exact (if_neg hrelease).symm.trans h
      exact Nat.le_of_eq (Peer.pending_invoke hheard)

theorem invoke_fetch (l : Patchy verify) (args : Json) :
    let d := (l.mishaps.headD .spared).befall l.peer Operation.fetchChunk.method args
    l.invoke Operation.fetchChunk.method args =
      ⟨d.outcome, { l with peer := d.peer, mishaps := l.mishaps.tail }, d.records⟩ := by
  intro d
  exact if_pos rfl

theorem invoke_other (l : Patchy verify) {method : String} (h : method ≠ Operation.fetchChunk.method) (args : Json) :
    let d := l.peer.invoke method args
    let outcome := if method = Operation.releaseChain.method then l.unheard.elim d.outcome .error else d.outcome
    l.invoke method args = ⟨outcome, { l with peer := d.peer }, d.records⟩ := by
  intro d outcome
  exact if_neg h

/-- A call itself reaches the peer, and the answer comes back. -/
theorem firstOn_peer (l : Patchy verify) (config : Config) (call : Call) :
    (Client.firstOn config call l).outcome = (Client.firstOn config call l.peer).outcome ∧
      (Client.firstOn config call l).peer.peer = (Client.firstOn config call l.peer).peer := by
  have hinvoke : Client.firstOn config call l = _ :=
    l.invoke_other (Client.method_ne_fetch call).symm (call.arguments config.principal)
  rw [hinvoke]
  exact ⟨if_neg (Client.method_ne_release call).symm, rfl⟩

theorem releaseOn_peer (l : Patchy verify) (chain : Token) :
    (Client.releaseOn l chain).peer.peer = (Client.releaseOn l.peer chain).peer := by
  have hinvoke := l.invoke_other Client.fetch_ne_release.symm (ReleaseArgs.codec.pack ⟨chain⟩)
  exact congrArg (fun d => d.peer.peer) hinvoke

end Patchy

/-! ## Chains on file -/

/-- The peer is connected, and has parked what is in `base` and after that chunks of the chain. -/
structure Peer.Filed (base : Depot) (chain : Token) (rest : List Chunk) (p : Peer) : Prop where
  connected : p.connected = true
  depot : p.depot = { base with parked := base.parked ++ rest.map (Parked.mk chain) }

namespace Peer.Filed

variable {base : Depot} {chain : Token} {c : Chunk} {rest : List Chunk} {p : Peer} {verify : Bool}

/-- A fetch takes the head of what is left of the chain at most, and no other chunk comes. -/
theorem befall (h : Filed base chain (c :: rest) p) (hfit : c.payload.length ≤ Frame.maxPayload)
    (hunmet : ∀ k ∈ base.parked, k.chunk.id ≠ c.id) (m : Mishap verify) :
    let d := m.befall p Operation.fetchChunk.method (FetchArgs.codec.pack ⟨c.id⟩)
    (Filed base chain (c :: rest) d.peer ∧ d.outcome.chunk? verify = none) ∨
      (Filed base chain rest d.peer ∧ ∀ chunk, d.outcome.chunk? verify = some chunk → chunk = c) := by
  have hparked : p.depot.parked = base.parked ++ (Parked.mk chain c) :: rest.map (Parked.mk chain) := by
    rw [h.depot]
    rfl
  obtain ⟨houtcome, hpeer⟩ := fetchOn_some h.connected (Depot.take?_append_cons hparked hunmet)
  have htaken : Filed base chain rest (Client.fetchOn p c.id).peer := by
    rw [hpeer]
    exact ⟨h.connected, by rw [h.depot]⟩
  cases m with
  | spared =>
    refine .inr ⟨htaken, fun chunk hchunk => ?_⟩
    change (Client.fetchOn p c.id).outcome.chunk? verify = some chunk at hchunk
    rw [houtcome, Outcome.chunk?, Frame.decode_encode hfit verify] at hchunk
    exact (Option.some.inj hchunk).symm
  | unsent failure => exact .inl ⟨h, rfl⟩
  | lost failure =>
    refine .inr ⟨htaken, fun chunk hchunk => ?_⟩
    cases hchunk
  | garbled frame unreadable =>
    refine .inr ⟨htaken, fun chunk hchunk => ?_⟩
    change Outcome.chunk? verify ((Client.fetchOn p c.id).outcome.map (Reply.garbled frame)) = some chunk at hchunk
    obtain ⟨e, he⟩ := unreadable
    rw [houtcome, Except.map, Reply.garbled, Outcome.chunk?, he] at hchunk
    cases hchunk

/-- When the chain is given up, what is left of it is dropped, and nothing else. -/
theorem release (h : Filed base chain rest p) (hunmet : ∀ k ∈ base.parked, k.chain ≠ chain) :
    (Client.releaseOn p chain).peer.depot = base := by
  have hserve : p.counted.serve (.release chain) =
      .ok (.unit, { p.counted with depot := (p.counted.depot.release chain).2 }) := rfl
  have hpeer : (Client.releaseOn p chain).peer = { p.counted with depot := (p.counted.depot.release chain).2 } :=
    (invoke_served h.connected (Request.read_release chain) hserve).2
  have hkept : base.parked.filter (·.chain ≠ chain) = base.parked :=
    List.filter_eq_self.2 fun k hk => decide_eq_true (hunmet k hk)
  have hdropped : (rest.map (Parked.mk chain)).filter (·.chain ≠ chain) = [] := by
    simp [List.filter_eq_nil_iff]
  rw [hpeer]
  change { p.depot with parked := p.depot.parked.filter (·.chain ≠ chain) } = base
  rw [h.depot]
  dsimp only
  rw [List.filter_append, hkept, hdropped, List.append_nil]

end Peer.Filed

/-- If the next chunk of a chain has come, it is the head of what was left of the chain, and is no longer parked. -/
theorem Patchy.fetchOn_filed {verify : Bool} {base : Depot} {chain id : Token} {rest : List Chunk} {l : Patchy verify}
    (hfiled : l.peer.Filed base chain rest) (hnext : some id = rest.head?.map Chunk.id)
    (hfits : ∀ c ∈ rest, c.payload.length ≤ Frame.maxPayload)
    (hunmet : ∀ c ∈ rest, ∀ k ∈ base.parked, k.chunk.id ≠ c.id) :
    ∃ left, (Client.fetchOn l id).peer.peer.Filed base chain left ∧
      ∀ chunk, (Client.fetchOn l id).outcome.chunk? verify = some chunk → rest = chunk :: left := by
  cases rest with
  | nil => cases hnext
  | cons c rest =>
    obtain rfl : id = c.id := Option.some.inj hnext
    have hfetch : Client.fetchOn l c.id = _ := invoke_fetch l (FetchArgs.codec.pack ⟨c.id⟩)
    rw [hfetch]
    rcases hfiled.befall (hfits c List.mem_cons_self) (hunmet c List.mem_cons_self) (l.mishaps.headD .spared) with
      ⟨hkept, hnone⟩ | ⟨htaken, hchunk⟩
    · exact ⟨c :: rest, hkept, fun chunk h => nomatch hnone.symm.trans h⟩
    · exact ⟨rest, htaken, fun chunk h => by rw [hchunk chunk h]⟩

namespace Client

/-- Fetches that follow a chain leave an end of it parked, and nothing of it when they have brought all of it. -/
theorem Fetches.keeps {verify : Bool} {base : Depot} {chain : Token} {rest : List Chunk} {next : Option Token}
    {fetches : List Turn} {r : Except TransportError Bytes} {l u : Patchy verify} (h : Fetches verify next fetches r)
    (hanswers : Channel.Answers l fetches u) (hfiled : l.peer.Filed base chain rest)
    (hnext : next = rest.head?.map Chunk.id) (hlinked : Chain.Linked rest)
    (hfits : ∀ c ∈ rest, c.payload.length ≤ Frame.maxPayload)
    (hunmet : ∀ c ∈ rest, ∀ k ∈ base.parked, k.chunk.id ≠ c.id) :
    ∃ left, u.peer.Filed base chain left ∧ (r.isOk = true → left = []) := by
  induction h generalizing l rest with
  | complete =>
    obtain rfl : u = l := hanswers
    cases rest with
    | nil => exact ⟨[], hfiled, fun _ => rfl⟩
    | cons c rest => cases hnext
  | failed | strayed =>
    obtain ⟨left, hleft, -⟩ := Patchy.fetchOn_filed hfiled hnext hfits hunmet
    obtain rfl : u = _ := hanswers.2
    exact ⟨left, hleft, nofun⟩
  | @more id outcome chunk fetches r read _ _ ih =>
    obtain ⟨left, hleft, hhead⟩ := Patchy.fetchOn_filed hfiled hnext hfits hunmet
    obtain rfl : (fetchOn l id).outcome = outcome := hanswers.1
    obtain rfl := hhead chunk read
    obtain ⟨last, hlast, hall⟩ := ih hanswers.2 hleft hlinked.1 hlinked.2
      (fun c hc => hfits c (List.mem_cons_of_mem _ hc)) (fun c hc => hunmet c (List.mem_cons_of_mem _ hc))
    refine ⟨last, hlast, fun hok => hall ?_⟩
    cases r with
    | error e => cases hok
    | ok bytes => rfl

/-- A value that is sent: its first chunk is in the reply, and the others are parked after what was parked before. -/
theorem firstOn_filed {config : Config} {call : Call} {p : Peer} {tag : Tag} {frame : Bytes}
    (hreply : (firstOn config call p).outcome = .ok (.chunked tag frame)) :
    ∃ chain : Chain, frame = Frame.encode chain.first ∧ call.operation.tag? = some tag ∧
      (firstOn config call p).peer.Filed p.depot chain.first.id chain.rest ∧ Chain.Linked chain.toList ∧
      ∀ c ∈ chain.toList, c.payload.length ≤ Frame.maxPayload ∧
        c.id ∈ p.supply.drawnUntil (firstOn config call p).peer.supply := by
  cases Peer.met p call (call.arguments config.principal) with
  | refused f houtcome => cases hreply.symm.trans houtcome
  | unit _ houtcome => cases hreply.symm.trans houtcome
  | absent _ houtcome => cases hreply.symm.trans houtcome
  | sent store supply tag' payload hconnected htag hfollows houtcome hpeer =>
    obtain ⟨chain, hchain⟩ : ∃ chain, chain = p.depot.chain payload supply := ⟨_, rfl⟩
    have hids := ids_send { p.counted with store, supply } tag' payload
    change (p.depot.chain payload supply).toList.map Chunk.id = supply.drawnUntil _ at hids
    change (firstOn config call p).peer = _ at hpeer
    change (firstOn config call p).outcome = _ at houtcome
    rw [← hpeer, ← hchain] at hids
    rw [send_eq] at houtcome hpeer
    dsimp only at houtcome hpeer
    change (firstOn config call p).outcome = .ok (.chunked tag' (Frame.encode (p.depot.chain payload supply).first))
      at houtcome
    cases hreply.symm.trans houtcome
    have hsupply : supply.Follows (firstOn config call p).peer.supply := by
      rw [hpeer]
      exact ⟨rfl, Nat.le_add_right ..⟩
    refine ⟨chain, by rw [hchain], htag, ⟨?_, ?_⟩, ?_, fun c hc => ⟨?_, ?_⟩⟩
    · rw [hpeer]
      exact hconnected
    · rw [hpeer, hchain]
      rfl
    · exact hchain ▸ Chain.linked_split p.depot.size payload supply
    · exact Depot.fits_of_mem_chain (hchain ▸ hc)
    · rw [Supply.drawnUntil_append hfollows hsupply, ← hids]
      exact List.mem_append_right _ (List.mem_map_of_mem hc)

/-- When a call whose reply begins a chain has ended, nothing of the chain is parked, and the rest as before. -/
theorem Ending.keeps {config : Config} {call : Call} {made : List Turn} {r : Except TransportError Answer}
    {l q : Patchy config.verifyChecksums} {base : Depot} {chain : Chain} {tag : Tag} (h : Ending config call made r)
    (hanswers : Channel.Answers l made q) (htag : call.operation.tag? = some tag)
    (hreply : (firstOn config call l).outcome = .ok (.chunked tag (Frame.encode chain.first)))
    (hfiled : (firstOn config call l).peer.peer.Filed base chain.first.id chain.rest)
    (hlinked : Chain.Linked chain.toList) (hfits : ∀ c ∈ chain.toList, c.payload.length ≤ Frame.maxPayload)
    (hunmet : ∀ c ∈ chain.toList, ∀ k ∈ base.parked, k.chain ≠ c.id ∧ k.chunk.id ≠ c.id) : q.peer.depot = base := by
  have hhead := Frame.decode_encode (hfits _ List.mem_cons_self) config.verifyChecksums
  have hkeeps {fetches : List Turn} {r : Except TransportError Bytes} {u : Patchy config.verifyChecksums}
      (h : Fetches config.verifyChecksums chain.first.next fetches r)
      (hanswers : Channel.Answers (firstOn config call l).peer fetches u) :=
    h.keeps hanswers hfiled hlinked.1 hlinked.2 (fun c hc => hfits c (List.mem_cons_of_mem _ hc))
      fun c hc k hk => (hunmet c (List.mem_cons_of_mem _ hc) k hk).2
  cases h with
  | refused | done | absent => cases hreply.symm.trans hanswers.1
  | unexpected wrong =>
    cases hreply.symm.trans hanswers.1
    exact absurd htag wrong
  | unreadable _ unread =>
    cases hreply.symm.trans hanswers.1
    cases hhead.symm.trans unread
  | broken _ read follows =>
    cases hreply.symm.trans hanswers.1
    cases hhead.symm.trans read
    obtain ⟨u, hfetches, hrelease⟩ := hanswers.2.split
    obtain ⟨left, hleft, -⟩ := hkeeps follows hfetches
    obtain rfl : q = (releaseOn u chain.first.id).peer := hrelease.2
    rw [Patchy.releaseOn_peer]
    exact hleft.release fun k hk => (hunmet _ List.mem_cons_self k hk).1
  | unparsed _ read follows | value _ read follows =>
    cases hreply.symm.trans hanswers.1
    cases hhead.symm.trans read
    obtain ⟨left, hleft, hall⟩ := hkeeps follows hanswers.2
    obtain rfl := hall rfl
    rw [hleft.depot, List.map_nil, List.append_nil]

end Client

namespace Deployment

open Client

/-- Over a patchy line to the peer of any deployment, a call that is answered with a chain leaves parked what was parked
before it, however it ends, if no token is drawn twice. -/
theorem perform_keeps_depot {chunkSize : Nat} {configs : List Config} {supply : Supply} {records : List Record}
    {d : Deployment} (hstart : start chunkSize configs supply = .ok (d, records)) (steps : List Step) {config : Config}
    {call : Call} {tag : Tag} {frame : Bytes}
    (hreply : (firstOn config call (d.run steps).peer).outcome = .ok (.chunked tag frame))
    (hdistinct : (firstOn config call (d.run steps).peer).peer.supply.Distinct)
    {s : Noted (Link (Patchy config.verifyChecksums))} (hline : s.state.peer.peer = (d.run steps).peer) :
    let before := (d.run steps).peer
    let after := ((perform config call).on s).2.state.peer.peer
    after.depot = before.depot ∧ ∃ chain : Chain, frame = Frame.encode chain.first ∧
      (firstOn config call before).peer.depot.parked =
        before.depot.parked ++ chain.rest.map (Parked.mk chain.first.id) ∧
      ∀ k ∈ after.depot.parked, ∀ c ∈ chain.toList, k.chain ≠ c.id ∧ k.chunk.id ≠ c.id := by
  intro before after
  obtain ⟨chain, rfl, htag, hfiled, hlinked, hchunks⟩ := firstOn_filed hreply
  have hnew := (unmet_run hstart steps (Peer.evolves_invoke before _ _).supply hdistinct).unmet
  have hunmet (c : Chunk) (hc : c ∈ chain.toList) (k : Parked) (hk : k ∈ before.depot.parked) :
      k.chain ≠ c.id ∧ k.chunk.id ≠ c.id := by
    have hfresh (x : Token) (hx : x ∈ k.ids) : x ≠ c.id := by
      rintro rfl
      exact hnew c.id (hchunks c hc).2 (Depot.mem_ids.2 ⟨k, hk, hx⟩)
    exact ⟨hfresh k.chain (by simp [Parked.ids]), hfresh k.chunk.id (by simp [Parked.ids])⟩
  have hdepot : after.depot = before.depot := by
    obtain ⟨made, r, q, hanswers, hending, hyields⟩ := perform_course config call s.state.peer
    obtain ⟨hfirst, hpeer⟩ := s.state.peer.firstOn_peer config call
    rw [hline] at hfirst hpeer
    have hafter : after = q.peer := congrArg Patchy.peer (hyields s rfl).2
    rw [hafter]
    exact hending.keeps hanswers htag (hfirst.trans hreply) (hpeer ▸ hfiled) hlinked (fun c hc => (hchunks c hc).1)
      hunmet
  refine ⟨hdepot, chain, rfl, congrArg Depot.parked hfiled.depot, fun k hk c hc => hunmet c hc k ?_⟩
  rwa [hdepot] at hk

/-- A chain that somebody has left behind stays parked when a call meets a frame that cannot be read; the chain of the
call does not. -/
theorem perform_keeps_depot_of_garbled :
    let supply : Supply := .fresh fun n => ⟨BitVec.ofNat 128 n⟩
    let d : Deployment := ⟨⟨.new ⟨⟨16, by decide⟩, by decide, []⟩ supply, []⟩, []⟩
    let call : Call := .openTable "t"
    let steps : List Step := [.createTable "t" ["c"], .invoke "open" (call.arguments none)]
    let p := (d.run steps).peer
    let l : Patchy ({} : Config).verifyChecksums := ⟨p, [.garbled [] ⟨_, rfl⟩], some (.platform "down")⟩
    let done := (perform {} call).on (.start ⟨l, {}⟩)
    done.1.isOk = false ∧ p.depot.parked.length = 2 ∧ done.2.state.peer.peer.depot = p.depot := by
  intro supply d call steps p l done
  have hstart : start 16 [] supply = .ok (d, []) := rfl
  have hdistinct : (firstOn {} call p).peer.supply.Distinct := by decide +kernel
  have hhead : ((firstOn {} call p).outcome.head? false call.operation).isSome = true := by decide +kernel
  have hresult : done.1.isOk = false := by decide +kernel
  have hparked : p.depot.parked.length = 2 := by decide +kernel
  have hkeeps {tag : Tag} {frame : Bytes} (hreply : (firstOn {} call p).outcome = .ok (.chunked tag frame))
      (s : Noted (Link (Patchy ({} : Config).verifyChecksums))) (hline : s.state.peer.peer = p) :
      ((perform {} call).on s).2.state.peer.peer.depot = p.depot :=
    (perform_keeps_depot hstart steps hreply hdistinct hline).1
  clear_value p
  cases houtcome : (firstOn {} call p).outcome with
  | error failure =>
    rw [houtcome] at hhead
    cases hhead
  | ok reply =>
    rw [houtcome] at hhead
    cases reply with
    | chunked tag frame => exact ⟨hresult, hparked, hkeeps houtcome _ rfl⟩
    | unit | absent | fragment => cases hhead

end Deployment

end RemoteTable
