import Mathlib.Data.List.Nodup
import RemoteTable.Channel.Faulty
import RemoteTable.Proofs.Client.SoundLine

/-!
# Calls over a faulty line

A call that meets faults is compared with the same call over a sound line to the peer that its first invocation
meets (`Faulty.met`). The faults are those that show themselves: a lost reply comes as a failure that the tunnel did
not write, and a receiver notices damage to a frame (`Damage.Noticed`). Then the call ends as it does over the sound
line, or as unavailable, and as an internal error exactly when the frame of the first chunk was damaged
(`perform_faulty`).

The chain of the value carries the argument. Faults can only take parked chunks away (`Peer.Drains`), so whatever is
still parked under an id of the chain is the chunk that was parked there (`Peer.Holds`), and a fetch brings this chunk
or fails.
-/

namespace RemoteTable

/-! ## Faults that show themselves -/

/-- A frame is still read after the damage only if the damage has not changed it. -/
def Damage.Noticed (verify : Bool) (d : Damage) : Prop :=
  ∀ c chunk, Frame.decode (d.apply (Frame.encode c)) verify = .ok chunk → d.apply (Frame.encode c) = Frame.encode c

theorem Damage.noticed_none (verify : Bool) : none.Noticed verify := fun c _ _ => apply_none (Frame.encode c)

theorem Damage.IsBurst.noticed {d : Damage} (h : d.IsBurst) : d.Noticed true :=
  fun c _ hdecode => Frame.decode_near (h (Frame.encode c)) hdecode

/-- The fault does such damage, or loses the reply so that this can be told from an answer. -/
def Fault.Within (damage : Damage → Prop) : Fault → Prop
  | .answer (.ok _) => False
  | .answer (.error f) => Tunnel.Unmarked f
  | .relay r => damage r.damage ∧ ∀ f, r.lost = some f → Tunnel.Unmarked f

theorem Fault.Within.mono {damage wider : Damage → Prop} (h : ∀ d, damage d → wider d) {f : Fault}
    (hf : f.Within damage) : f.Within wider := by
  match f with
  | .answer (.ok _) => exact hf
  | .answer (.error _) => exact hf
  | .relay r => exact ⟨h _ hf.1, hf.2⟩

namespace Faulty

variable {damage : Damage → Prop} {l : Faulty} {method : String} {args : Json}

def Within (damage : Damage → Prop) (l : Faulty) : Prop := ∀ f ∈ l.faults, f.Within damage

/-- The peer as the next invocation meets it. -/
def met (l : Faulty) : Peer :=
  match l.faults with
  | .relay r :: _ => (Switch.apply l.peer r.before).1
  | _ => l.peer

theorem drains_switch (p : Peer) (s : Option Switch) : Peer.Drains p (Switch.apply p s).1 := by
  match s with
  | none => exact .refl p
  | some .down => exact ⟨rfl, rfl, List.nil_sublist _⟩
  | some .up => exact ⟨rfl, rfl, .refl _⟩

theorem drains_met (l : Faulty) : Peer.Drains l.peer l.met := by
  unfold met
  split
  · exact drains_switch _ _
  · exact .refl _

theorem pass_not_lost {p : Peer} {r : Relay} (hlost : r.lost = none) (method : String) (args : Json) :
    (pass p r method args).outcome =
      ((Switch.apply p r.before).1.invoke method args).outcome.map (Reply.damaged r.damage) := by
  unfold pass
  cases houtcome : ((Switch.apply p r.before).1.invoke method args).outcome with
  | error f =>
    simp only [houtcome, hlost]
    rfl
  | ok reply =>
    simp only [houtcome, hlost]
    rfl

theorem pass_lost {p : Peer} {r : Relay} {f : Failure} (hlost : r.lost = some f) (method : String) (args : Json) :
    (pass p r method args).outcome = .error f := by
  unfold pass
  cases houtcome : ((Switch.apply p r.before).1.invoke method args).outcome with
  | error _ =>
    simp only [houtcome, hlost]
    rfl
  | ok _ => simp only [houtcome, hlost]

theorem drains_pass (p : Peer) (r : Relay) (method : String) (args : Json) :
    Peer.Drains ((Switch.apply p r.before).1.invoke method args).peer (pass p r method args).peer := by
  unfold pass
  cases houtcome : ((Switch.apply p r.before).1.invoke method args).outcome with
  | error f =>
    simp only [houtcome]
    exact .refl _
  | ok reply =>
    simp only [houtcome]
    exact drains_switch _ r.after

/-- An invocation reaches the peer or does not; in between only chunks and the connection can get lost. -/
theorem peer_invoke (l : Faulty) (method : String) (args : Json) : (l.invoke method args).peer.peer = l.peer ∨
    Peer.Drains (l.met.invoke method args).peer (l.invoke method args).peer.peer := by
  obtain ⟨p, faults⟩ := l
  match faults with
  | [] => exact .inr (drains_pass p {} method args)
  | .answer _ :: _ => exact .inl rfl
  | .relay r :: _ => exact .inr (drains_pass p r method args)

theorem within_invoke {damage : Damage → Prop} {l : Faulty} (h : l.Within damage) (method : String) (args : Json) :
    (l.invoke method args).peer.Within damage := by
  obtain ⟨p, faults⟩ := l
  match faults with
  | [] => exact h
  | .answer _ :: _ => exact fun f hf => h f (List.mem_cons_of_mem _ hf)
  | .relay _ :: _ => exact fun f hf => h f (List.mem_cons_of_mem _ hf)

theorem invoke_within (h : l.Within damage) (hnone : damage Damage.none) (method : String) (args : Json) :
    (∃ f, Tunnel.Unmarked f ∧ (l.invoke method args).outcome = .error f) ∨
    ∃ d, damage d ∧ (l.invoke method args).outcome = (l.met.invoke method args).outcome.map (Reply.damaged d) ∧
      Peer.Drains (l.met.invoke method args).peer (l.invoke method args).peer.peer := by
  obtain ⟨peer, faults⟩ := l
  cases faults with
  | nil =>
    exact .inr ⟨Damage.none, hnone, pass_not_lost rfl method args, drains_pass peer {} method args⟩
  | cons f faults =>
    have hnow : f.Within damage := h f List.mem_cons_self
    match f with
    | .answer (.ok _) => exact hnow.elim
    | .answer (.error failure) => exact .inl ⟨failure, hnow, rfl⟩
    | .relay r =>
      cases hlost : r.lost with
      | some failure => exact .inl ⟨failure, hnow.2 failure hlost, pass_lost hlost method args⟩
      | none =>
        exact .inr ⟨r.damage, hnow.1, pass_not_lost hlost method args, drains_pass peer r method args⟩

end Faulty

/-! ## The rest of a chain -/

/-- Whatever is parked under the id of one of these chunks is this chunk. -/
def Peer.Holds (p : Peer) (chunks : List Chunk) : Prop :=
  ∀ k ∈ p.depot.parked, ∀ c ∈ chunks, k.chunk.id = c.id → k.chunk = c

theorem Peer.Drains.holds {p q : Peer} {chunks : List Chunk} (h : Drains p q) (hp : p.Holds chunks) : q.Holds chunks :=
  fun k hk => hp k (h.parked.subset hk)

namespace Client

variable {verify : Bool} {l : Faulty}

/-- The frame of a chunk is read as the chunk, or was changed by the damage. -/
theorem opened_damaged {d : Damage} (hnoticed : d.Noticed verify) {c : Chunk}
    (hfit : c.payload.length ≤ Frame.maxPayload) :
    d.apply (Frame.encode c) = Frame.encode c ∧ opened verify (d.apply (Frame.encode c)) = .ok c ∨
    d.apply (Frame.encode c) ≠ Frame.encode c ∧
      ∃ e, opened verify (d.apply (Frame.encode c)) = .error e ∧ e.kind = .internal := by
  by_cases hsame : d.apply (Frame.encode c) = Frame.encode c
  · refine .inl ⟨hsame, ?_⟩
    rw [hsame]
    exact opened_encode hfit verify
  · refine .inr ⟨hsame, ?_⟩
    unfold opened
    cases hdecode : Frame.decode (d.apply (Frame.encode c)) verify with
    | ok chunk => exact absurd (hnoticed c chunk hdecode) hsame
    | error e => exact ⟨_, rfl, rfl⟩

/-- A fetch brings the chunk of the chain or fails. -/
theorem fetchChunk_faulty {c : Chunk} {chunks : List Chunk} (hfaults : l.Within (Damage.Noticed verify))
    (hholds : l.peer.Holds chunks) (hc : c ∈ chunks) (hfit : c.payload.length ≤ Frame.maxPayload) :
    ∃ answer u, Yields (fetchChunk verify c.id) l answer u ∧
      ((∃ e, answer = .error e) ∨ answer = .ok c ∧ u.Within (Damage.Noticed verify) ∧ u.peer.Holds chunks) := by
  refine ⟨_, _, fetchChunk_yields verify c.id l, ?_⟩
  rcases Faulty.invoke_within hfaults (Damage.noticed_none verify) Operation.fetchChunk.method
    (FetchArgs.codec.pack ⟨c.id⟩) with ⟨f, -, houtcome⟩ | ⟨d, hnoticed, houtcome, hdrains⟩
  · have hlost : (fetchOn l c.id).outcome = .error f := houtcome
    rw [hlost]
    exact .inl ⟨_, rfl⟩
  · have hreply : (fetchOn l c.id).outcome = (fetchOn l.met c.id).outcome.map (Reply.damaged d) := houtcome
    obtain ⟨hspent, hfragment⟩ := Peer.fetchOn_drains l.met c.id
    have hmet : l.met.Holds chunks := (Faulty.drains_met l).holds hholds
    cases hsent : (fetchOn l.met c.id).outcome with
    | error f =>
      rw [hreply, hsent]
      exact .inl ⟨_, rfl⟩
    | ok reply =>
      obtain ⟨k, hk, hid, rfl⟩ := hfragment reply hsent
      obtain rfl : k.chunk = c := hmet k hk c hc hid
      rw [hreply, hsent]
      change (∃ e, opened verify (d.apply (Frame.encode k.chunk)) = .error e) ∨ opened verify _ = .ok k.chunk ∧ _
      rcases opened_damaged hnoticed hfit with ⟨-, hopen⟩ | ⟨-, e, hopen, -⟩
      · exact .inr ⟨hopen, Faulty.within_invoke hfaults _ _, hdrains.holds (hspent.holds hmet)⟩
      · exact .inl ⟨e, hopen⟩

/-- The rest of a chain comes whole, or the remote side is unavailable. -/
theorem remainder_faulty {chunks : List Chunk} (hfaults : l.Within (Damage.Noticed verify))
    (hholds : l.peer.Holds chunks) (hlinked : Chain.Linked chunks)
    (hfits : ∀ c ∈ chunks, c.payload.length ≤ Frame.maxPayload) :
    ∃ r u, Yields (remainder verify (chunks.head?.map Chunk.id)) l r u ∧
      (r = .ok (chunks.map Chunk.payload).flatten ∨ ∃ e, r = .error e ∧ e.kind = .unavailable) := by
  induction chunks generalizing l with
  | nil => exact ⟨_, l, remainder_none verify l, .inl rfl⟩
  | cons c chunks ih =>
    obtain ⟨hnext, hlinked⟩ := hlinked
    obtain ⟨answer, u, hfetch, ⟨e, rfl⟩ | ⟨rfl, hlater, hkept⟩⟩ :=
      fetchChunk_faulty hfaults hholds List.mem_cons_self (hfits c List.mem_cons_self)
    · exact ⟨_, u, remainder_error hfetch rfl, .inr ⟨_, rfl, rfl⟩⟩
    · obtain ⟨r, v, hrest, hr⟩ := ih hlater (fun k hk d hd => hkept k hk d (List.mem_cons_of_mem c hd)) hlinked
        fun d hd => hfits d (List.mem_cons_of_mem c hd)
      rw [← hnext] at hrest
      refine ⟨_, v, remainder_ok hfetch hrest, ?_⟩
      rcases hr with rfl | ⟨e, rfl, hkind⟩
      · exact .inl rfl
      · exact .inr ⟨e, rfl, hkind⟩

/-! ## Whole calls -/

/-- A chain that is sent is all that is parked under its ids. -/
theorem holds_send {p : Peer} {tag : Tag} {payload : Bytes}
    (hunmet : p.supply.Unmet (p.send tag payload).2.supply (parkedIds p)) :
    (p.send tag payload).2.Holds (p.depot.chain payload p.supply).rest := by
  intro k hk c hc hid
  have hids := (List.nodup_cons.1 (nodup_ids_send hunmet)).2
  rw [send_eq] at hk
  rcases List.mem_append.1 hk with hbefore | hsent
  · exact absurd hid (ne_of_unmet hunmet (List.mem_cons_of_mem _ hc) (List.mem_map_of_mem hbefore))
  · obtain ⟨e, he, rfl⟩ := List.mem_map.1 hsent
    exact List.inj_on_of_nodup_map hids he hc hid

/-- What faults may make of the result of a call: nothing, or an error, which is internal if the first frame was
garbled and else says that the remote side is unavailable. -/
structure AllOrNothing {α : Type} (garbled : Prop) (sound faulty : Except TransportError α) : Prop where
  internal : garbled → ∃ e, faulty = .error e ∧ e.kind = .internal
  otherwise : ¬garbled → faulty = sound ∨ ∃ e, faulty = .error e ∧ e.kind = .unavailable

theorem AllOrNothing.map {α β : Type} {garbled : Prop} {sound faulty : Except TransportError α}
    (h : AllOrNothing garbled sound faulty) (f : α → β) : AllOrNothing garbled (f <$> sound) (f <$> faulty) := by
  refine ⟨fun hgarbled => ?_, fun hclean => ?_⟩
  · obtain ⟨e, rfl, hkind⟩ := h.internal hgarbled
    exact ⟨e, rfl, hkind⟩
  · rcases h.otherwise hclean with rfl | ⟨e, rfl, hkind⟩
    · exact .inl rfl
    · exact .inr ⟨e, rfl, hkind⟩

variable {config : Config} {call : Call}

/-- The frame of the first chunk of a call's value comes back changed. -/
def Garbled (config : Config) (call : Call) (l : Faulty) : Prop :=
  ∃ tag sent got, (firstOn config call l.met).outcome = .ok (.chunked tag sent) ∧
    (firstOn config call l).outcome = .ok (.chunked tag got) ∧ got ≠ sent

theorem garbled_iff {tag : Tag} {sent got : Bytes}
    (hsent : (firstOn config call l.met).outcome = .ok (.chunked tag sent))
    (hgot : (firstOn config call l).outcome = .ok (.chunked tag got)) : Garbled config call l ↔ got ≠ sent := by
  constructor
  · rintro ⟨tag', sent', got', hsent', hgot', hne⟩
    rw [hsent] at hsent'
    rw [hgot] at hgot'
    cases hsent'
    cases hgot'
    exact hne
  · intro hne
    exact ⟨tag, sent, got, hsent, hgot, hne⟩

theorem not_garbled {outcome : Outcome} (hsent : (firstOn config call l.met).outcome = outcome)
    (hbare : ∀ tag frame, outcome ≠ .ok (.chunked tag frame)) : ¬Garbled config call l := by
  rintro ⟨tag, sent, got, hchunked, -, -⟩
  exact hbare tag sent (hsent.symm.trans hchunked)

theorem perform_passed {d : Damage} (hfaults : l.Within (Damage.Noticed config.verifyChecksums))
    (hnoticed : d.Noticed config.verifyChecksums)
    (houtcome : (firstOn config call l).outcome = (firstOn config call l.met).outcome.map (Reply.damaged d))
    (hdrains : Peer.Drains (firstOn config call l.met).peer (firstOn config call l).peer.peer)
    (hunmet : l.met.supply.Unmet (firstOn config call l.met).peer.supply (parkedIds l.met)) :
    ∃ r q r' u, Yields (perform config call) l.met r q ∧ Yields (perform config call) l r' u ∧
      AllOrNothing (Garbled config call l) r r' := by
  cases Peer.met l.met call (call.arguments config.principal) with
  | refused f hsent =>
    have hgot : (firstOn config call l).outcome = .error f := houtcome.trans (congrArg _ hsent)
    exact ⟨_, _, _, _, perform_refused hsent, perform_refused hgot,
      fun h => absurd h (not_garbled hsent nofun), fun _ => .inl rfl⟩
  | unit htag hsent =>
    have hgot : (firstOn config call l).outcome = .ok .unit := houtcome.trans (congrArg _ hsent)
    exact ⟨_, _, _, _, perform_unit htag hsent, perform_unit htag hgot,
      fun h => absurd h (not_garbled hsent nofun), fun _ => .inl rfl⟩
  | absent hop hsent =>
    have hgot : (firstOn config call l).outcome = .ok (.absent .row) := houtcome.trans (congrArg _ hsent)
    obtain ⟨table, row, rfl⟩ : ∃ table row, call = .getRow table row := by
      cases call <;> cases hop
      exact ⟨_, _, rfl⟩
    exact ⟨_, _, _, _, perform_absent hsent, perform_absent hgot,
      fun h => absurd h (not_garbled hsent nofun), fun _ => .inl rfl⟩
  | sent store supply tag payload hconnected htag hfollows hsent hpeer =>
    obtain ⟨p, hp⟩ : ∃ p, p = { l.met.counted with store, supply } := ⟨_, rfl⟩
    rw [← hp] at hsent hpeer
    change (firstOn config call l.met).outcome = _ at hsent
    change (firstOn config call l.met).peer = _ at hpeer
    obtain ⟨chain, hchain⟩ : ∃ chain, chain = p.depot.chain payload p.supply := ⟨_, rfl⟩
    have hfit : ∀ c ∈ chain.toList, c.payload.length ≤ Frame.maxPayload :=
      fun c hc => Depot.fits_of_mem_chain (hchain ▸ hc)
    have hlinked : Chain.Linked chain.toList := hchain ▸ Chain.linked_split p.depot.size payload p.supply
    have hbytes : chain.first.payload ++ (chain.rest.map Chunk.payload).flatten = payload :=
      hchain ▸ Chain.flatten_split p.depot.size payload p.supply
    have hdrawn : p.supply.Follows (p.send tag payload).2.supply := by
      rw [send_eq]
      exact ⟨rfl, Nat.le_add_right ..⟩
    have hnew : p.supply.Unmet (p.send tag payload).2.supply (parkedIds p) := by
      rw [hpeer] at hunmet
      subst hp
      exact hunmet.later hfollows hdrawn
    -- over the sound line the value arrives
    obtain ⟨q, hwhole, -⟩ := reassemble_send config.verifyChecksums call.operation tag payload (hp ▸ hconnected) hnew
    rw [send_reply, ← hchain] at hsent
    rw [← hpeer, ← hchain] at hwhole
    have hsound := perform_chunked htag hsent hwhole
    -- over the faulty line the first frame decides, and then the rest of the chain
    have hgot : (firstOn config call l).outcome = .ok (.chunked tag (d.apply (Frame.encode chain.first))) :=
      houtcome.trans (congrArg _ hsent)
    have hholds : (firstOn config call l).peer.peer.Holds chain.rest :=
      hdrains.holds (hpeer ▸ hchain ▸ holds_send hnew)
    rcases opened_damaged hnoticed (hfit _ List.mem_cons_self) with ⟨hsame, hopen⟩ | ⟨hchanged, e, hopen, hkind⟩
    · have hclean : ¬Garbled config call l := fun h => (garbled_iff hsent hgot).1 h hsame
      obtain ⟨r, u, hrest, hr⟩ := remainder_faulty (Faulty.within_invoke hfaults _ _) hholds hlinked.2 fun c hc => hfit c (List.mem_cons_of_mem _ hc)
      rw [← hlinked.1] at hrest
      rcases hr with rfl | ⟨e, rfl, hkind⟩
      · have hdone := perform_chunked htag hgot (reassemble_complete hopen hrest call.operation)
        rw [hbytes] at hdone
        exact ⟨_, _, _, _, hsound, hdone, fun h => absurd h hclean, fun _ => .inl rfl⟩
      · have hbroken := perform_chunked htag hgot (reassemble_broken hopen hrest call.operation)
        exact ⟨_, _, _, _, hsound, hbroken, fun h => absurd h hclean, fun _ => .inr ⟨e, rfl, hkind⟩⟩
    · have hrefused := perform_chunked htag hgot (reassemble_unreadable hopen call.operation _)
      exact ⟨_, _, _, _, hsound, hrefused, fun _ => ⟨e, rfl, hkind⟩,
        fun h => absurd ((garbled_iff hsent hgot).2 hchanged) h⟩

/-- Under faults that show themselves a call ends as over a sound line or with an error. -/
theorem perform_faulty (hfaults : l.Within (Damage.Noticed config.verifyChecksums))
    (hunmet : l.met.supply.Unmet (firstOn config call l.met).peer.supply (parkedIds l.met)) :
    ∃ r q r' u, Yields (perform config call) l.met r q ∧ Yields (perform config call) l r' u ∧
      AllOrNothing (Garbled config call l) r r' := by
  have hnone := Damage.noticed_none config.verifyChecksums
  rcases Faulty.invoke_within hfaults hnone call.operation.method (call.arguments config.principal) with
    ⟨f, hunmarked, hlost⟩ | ⟨d, hnoticed, houtcome, hdrains⟩
  · obtain ⟨r, q, -, -, hsound, -⟩ := perform_passed (l := ⟨l.met, []⟩) nofun hnone
      (Faulty.pass_not_lost rfl call.operation.method (call.arguments config.principal))
      (Faulty.drains_pass l.met {} call.operation.method (call.arguments config.principal)) hunmet
    have hclean : ¬Garbled config call l := by
      rintro ⟨tag, sent, got, -, hgot, -⟩
      cases hgot.symm.trans hlost
    have hkind := Tunnel.decode_unmarked hunmarked call.operation.policy
    exact ⟨r, q, _, _, hsound, perform_refused hlost, fun h => absurd h hclean, fun _ => .inr ⟨_, rfl, hkind⟩⟩
  · exact perform_passed hfaults hnoticed houtcome hdrains hunmet

end Client

end RemoteTable
