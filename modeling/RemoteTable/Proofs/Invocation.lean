import RemoteTable.Proofs.Deployment
import RemoteTable.Proofs.InPlace.Peer

/-!
# What an invocation changes

An invocation that fails changes nothing but the count of invocations, whatever its method and arguments are. One that
does not fail changes the parked chunks only as its reply tells (`Deployment.invoke_exact`): a chain that is sent adds
its chunks after the first (`Peer.reply_chunked`), any other answer leaves the depot alone (`Peer.reply_bare`), a fetch
takes the chunk that it returns and a release what is left of the chain that it names. Which chunk a fetch takes is
determined, because in every deployment that a run reaches different parked chunks have different ids
(`Deployment.nodup_run`).
-/

namespace RemoteTable

/-- A chain that is sent: the frame holds its first chunk, the others are parked behind what was parked before, each
chunk names the next, and none of their ids has been met before. -/
structure Chain.Sent (c : Chain) (before : Depot) (frame : Bytes) (after : Depot) : Prop where
  frame : frame = Frame.encode c.first
  parked : after.parked = before.parked ++ c.rest.map (Parked.mk c.first.id)
  linked : Chain.Linked c.toList
  nodup : (c.toList.map Chunk.id).Nodup
  unmet : ∀ k ∈ before.parked, ∀ d ∈ c.toList, k.chain ≠ d.id ∧ k.chunk.id ≠ d.id

/-- A chunked reply brings the first chunk of a chain whose others are parked, if the tokens drawn for it are new. -/
theorem Peer.reply_chunked {p : Peer} {a : Answer} {tag : Tag} {frame : Bytes}
    (h : (p.reply a).1 = .chunked tag frame) (hunmet : p.supply.Unmet (p.reply a).2.supply p.depot.ids) :
    ∃ c : Chain, c.Sent p.depot frame (p.reply a).2.depot := by
  rcases reply_cases p a with ⟨-, hnot⟩ | ⟨tag', payload, hsent⟩
  · exact absurd h (hnot tag frame)
  · rw [hsent] at h hunmet ⊢
    have hids := Client.ids_send p tag' payload
    refine ⟨p.depot.chain payload p.supply, ?_, ?_, ?_, ?_, ?_⟩
    · rw [Client.send_reply] at h
      cases h
      rfl
    · rw [Client.send_eq]
    · exact Chain.linked_split p.depot.size payload p.supply
    · exact Client.nodup_ids_send hunmet
    · intro k hk d hd
      have hother (x : Token) (hx : x ∈ k.ids) : x ≠ d.id :=
        Client.ne_of_unmet hunmet hd (Depot.mem_ids.2 ⟨k, hk, hx⟩)
      exact ⟨hother k.chain List.mem_cons_self, hother k.chunk.id (List.mem_cons_of_mem _ List.mem_cons_self)⟩

/-- A reply that is not chunked leaves the peer as it is. -/
theorem Peer.reply_bare {p : Peer} {a : Answer} (h : ∀ tag frame, (p.reply a).1 ≠ .chunked tag frame) :
    (p.reply a).2 = p := by
  rcases reply_cases p a with ⟨hsame, -⟩ | ⟨tag, payload, hsent⟩
  · exact hsame
  · rw [hsent] at h
    exact absurd (Client.send_reply p tag payload) (h tag _)

namespace Deployment

variable {chunkSize : Nat} {configs : List Config} {supply : Supply} {records : List Record} {d : Deployment}

/-- In every deployment that a run reaches, different parked chunks have different ids. -/
theorem nodup_run (hstart : start chunkSize configs supply = .ok (d, records)) (steps : List Step)
    (hdistinct : (d.run steps).peer.supply.Distinct) : (Client.parkedIds (d.run steps).peer).Nodup :=
  ((coherent_start hstart).peer.evolves (evolves_run d steps)).nodup hdistinct

/-- In every deployment that a run reaches, if no token is drawn twice: an invocation that fails leaves the peer as it
is, but counted. If it does not fail, the parked chunks change only as its reply tells. In place, on a peer that
outlives an error, it comes to the same. -/
theorem invoke_exact (hstart : start chunkSize configs supply = .ok (d, records)) (steps : List Step)
    (method : String) (args : Json) (hdistinct : ((d.run steps).peer.invoke method args).peer.supply.Distinct) :
    let before := (d.run steps).peer
    let done := before.invoke method args
    (∀ f, done.outcome = .error f → done.peer = before.counted) ∧
    (∀ tag frame, done.outcome = .ok (.chunked tag frame) →
      ∃ c : Chain, c.Sent before.depot frame done.peer.depot) ∧
    (∀ reply, done.outcome = .ok reply → method = Operation.fetchChunk.method →
      ∃ earlier k later, FetchArgs.codec.ofJson args = .ok ⟨k.chunk.id⟩ ∧ reply = .fragment (Frame.encode k.chunk) ∧
        before.depot.parked = earlier ++ k :: later ∧ done.peer.depot.parked = earlier ++ later ∧
        ∀ p ∈ earlier ++ later, p.chunk.id ≠ k.chunk.id) ∧
    (∀ reply, done.outcome = .ok reply → method = Operation.releaseChain.method →
      ∃ chain, ReleaseArgs.codec.ofJson args = .ok ⟨chain⟩ ∧ reply = .unit ∧
        done.peer.depot.parked = before.depot.parked.filter (·.chain ≠ chain)) ∧
    (∀ reply, done.outcome = .ok reply → (∀ tag frame, reply ≠ .chunked tag frame) →
      method ≠ Operation.fetchChunk.method → method ≠ Operation.releaseChain.method →
        done.peer.depot = before.depot) ∧
    ∀ journal, (InPlace.invoke method args).on ⟨before, journal⟩ =
      (.ok done.outcome, ⟨done.peer, done.records.reverse ++ journal⟩) := by
  intro before done
  have hplace (journal : List Record) := InPlace.on_invoke method args ⟨before, journal⟩
  have hunmet := unmet_run hstart steps (Peer.evolves_invoke before method args).supply hdistinct
  cases Peer.ended before method args with
  | failed f outcome peer =>
    have hnot {reply : Reply} (h : done.outcome = .ok reply) : False := by cases outcome.symm.trans h
    exact ⟨fun _ _ => peer, fun _ _ h => (hnot h).elim, fun _ h => (hnot h).elim, fun _ h => (hnot h).elim,
      fun _ h => (hnot h).elim, hplace⟩
  | answered principal call a store later connected named read answer outcome peer =>
    have hdone : done.peer = ({ before.counted with store, supply := later }.reply a).2 := peer
    have hreply {reply : Reply} (h : done.outcome = .ok reply) :
        ({ before.counted with store, supply := later }.reply a).1 = reply := Except.ok.inj (outcome.symm.trans h)
    refine ⟨fun f h => (by cases outcome.symm.trans h), fun tag frame h => ?_, fun reply _ hfetch => ?_,
      fun reply _ hrelease => ?_, fun reply h hnot _ _ => ?_, hplace⟩
    · rw [hdone]
      refine Peer.reply_chunked (hreply h) ?_
      rw [← hdone]
      exact hunmet.later (Store.follows_answer answer) (hdone ▸ (Peer.evolves_reply _ a).supply)
    · exact absurd (Operation.method_injective (named.symm.trans hfetch)) call.operation_ne.1
    · exact absurd (Operation.method_injective (named.symm.trans hrelease)) call.operation_ne.2
    · rw [hdone, Peer.reply_bare (hreply h ▸ hnot), Peer.counted]
  | fetched id chunk depot named read taken outcome peer =>
    obtain ⟨earlier, k, later, hparked, rfl, rfl, rfl⟩ := Depot.take?_eq_some taken
    refine ⟨fun f h => (by cases outcome.symm.trans h), fun tag frame h => (by cases outcome.symm.trans h),
      fun reply h _ => ?_, fun reply _ hrelease => ?_, fun reply _ _ hfetch => absurd named hfetch,
      hplace⟩
    · refine ⟨earlier, k, later, read, (Except.ok.inj (outcome.symm.trans h)).symm, hparked, ?_, fun p hp => ?_⟩
      · show (before.invoke method args).peer.depot.parked = _
        rw [peer]
      · exact Depot.id_ne_of_nodup
          (nodup_run hstart steps (hdistinct.of_follows (Peer.evolves_invoke before method args).supply)) hparked hp
    · cases Operation.method_injective (named.symm.trans hrelease)
  | released chain named read outcome peer =>
    refine ⟨fun f h => (by cases outcome.symm.trans h), fun tag frame h => (by cases outcome.symm.trans h),
      fun reply _ hfetch => ?_, fun reply h _ => ?_, fun reply _ _ _ hrelease => absurd named hrelease,
      hplace⟩
    · cases Operation.method_injective (named.symm.trans hfetch)
    · refine ⟨chain, read, (Except.ok.inj (outcome.symm.trans h)).symm, ?_⟩
      show (before.invoke method args).peer.depot.parked = _
      rw [peer, Depot.release]

/-- A chain is sent and one of its chunks is fetched, or an unknown method is called. -/
theorem invoke_exact_of_fetch :
    let supply : Supply := .fresh fun n => ⟨BitVec.ofNat 128 n⟩
    let d : Deployment := ⟨⟨.new ⟨⟨16, by decide⟩, by decide, []⟩ supply, []⟩, []⟩
    let steps : List Step := [.createTable "t" ["c"], .invoke "open" ((Call.openTable "t").arguments none)]
    let args : Json := FetchArgs.codec.pack ⟨⟨2⟩⟩
    (∃ earlier k later, (d.run steps).peer.depot.parked = earlier ++ k :: later ∧
      ((d.run steps).peer.invoke Operation.fetchChunk.method args).outcome = .ok (.fragment (Frame.encode k.chunk)) ∧
      ((d.run steps).peer.invoke Operation.fetchChunk.method args).peer.depot.parked = earlier ++ later) ∧
    ((d.run steps).peer.invoke "drop" args).outcome.isOk = false ∧
      ((d.run steps).peer.invoke "drop" args).peer = (d.run steps).peer.counted := by
  intro supply d steps args
  have hstart : start 16 [] supply = .ok (d, []) := rfl
  have hdistinct : ((d.run steps).peer.invoke Operation.fetchChunk.method args).peer.supply.Distinct := by
    decide +kernel
  have hdistinct' : ((d.run steps).peer.invoke "drop" args).peer.supply.Distinct := by decide +kernel
  have hok : ((d.run steps).peer.invoke Operation.fetchChunk.method args).outcome.isOk = true := by decide +kernel
  have hrefused : ((d.run steps).peer.invoke "drop" args).outcome.isOk = false := by decide +kernel
  have hfetch := (invoke_exact hstart steps Operation.fetchChunk.method args hdistinct).2.2.1
  have hfailed := (invoke_exact hstart steps "drop" args hdistinct').1
  generalize (d.run steps).peer = p at *
  refine ⟨?_, hrefused, ?_⟩
  · cases houtcome : (p.invoke Operation.fetchChunk.method args).outcome with
    | error f =>
      rw [houtcome] at hok
      cases hok
    | ok reply =>
      obtain ⟨earlier, k, later, -, rfl, hparked, hleft, -⟩ := hfetch reply houtcome rfl
      exact ⟨earlier, k, later, hparked, rfl, hleft⟩
  · cases houtcome : (p.invoke "drop" args).outcome with
    | error f => exact hfailed f houtcome
    | ok reply =>
      rw [houtcome] at hrefused
      cases hrefused

end Deployment

end RemoteTable
