import RemoteTable.Proofs.Client.FaultyLine
import RemoteTable.Proofs.Client.Leaves
import RemoteTable.Proofs.Client.Refinement
import RemoteTable.Session

/-!
# What a session makes of a call

Each operation of a session makes one remote call, its own or the inquiry of the cache (`Session.remote`), and makes
of the answer what it returns and what it keeps (`Session.conclude`). So what is known of calls is known of sessions
(`perform_yields`): under faults an operation ends as it does without them or with an error, and an error leaves the
cache as it was (`perform_all_or_nothing`).
-/

namespace RemoteTable

variable {σ α : Type}

def Inquiry.call : Inquiry → Call
  | .fetch table => .getMetadata table
  | .ifChanged table known => .getMetadataIfChanged table known

namespace Session

variable [Channel σ] {s : Session} {call : SessionCall} {p q : σ}

/-- The remote call that an operation makes. -/
def remote (s : Session) : SessionCall → Call
  | .direct call => call
  | .cached table _ => (s.cache.inquiry table).call

/-- What the session returns, and the cache that it keeps, once the remote call is answered. -/
def conclude (s : Session) : SessionCall → Answer → Answer × Cache
  | .cached table filter, .metadata set =>
    (.metadata ((s.cache.lineAfter table set).filtered filter), (s.cache.settle table set).1)
  | _, a => (a, s.cache)

omit [Channel σ] in
/-- A lookup in the cache settles on the answer to its inquiry. -/
theorem get_yields {c : Cache} {ask : Inquiry → Exchange (Link σ) MetadataSet} {table : String}
    {r : Except TransportError MetadataSet} (h : Yields (ask (c.inquiry table)) p r q) (filter : MetadataFilter) :
    Yields (c.get ask table filter) p
      ((fun set => ((c.lineAfter table set).filtered filter, (c.settle table set).1)) <$> r) q := by
  refine Yields.bind_ok (Yields.report _ p) ?_
  cases r with
  | error e => exact Yields.bind_error h
  | ok set => exact Yields.bind_ok h (Yields.bind_ok (Yields.report _ q) (Yields.pure _ q))

omit [Channel σ] in
theorem get_leaves {P Q : σ → Prop} {c : Cache} {ask : Inquiry → Exchange (Link σ) MetadataSet} {table : String}
    (h : Client.Leaves P (ask (c.inquiry table)) Q) (filter : MetadataFilter) :
    Client.Leaves P (c.get ask table filter) Q := by
  intro s hs
  unfold Cache.get
  rw [Exchange.on_bind_ok (Exchange.on_report ..)]
  exact h.bind (fun _ => (Client.Leaves.report _).bind fun _ => Client.Leaves.pure _) _ hs

theorem inquire_yields {config : Config} {inquiry : Inquiry} {r : Except TransportError Answer}
    (h : Yields (Client.perform config inquiry.call) p r q) :
    ∃ r', r = .metadata <$> r' ∧ Yields (inquire config inquiry) p r' q := by
  refine Yields.of_map (fun a b hab => by cases hab; rfl) ?_
  cases inquiry <;> exact h

omit [Channel σ] in
theorem on_atLink {x : Exchange (Link σ) α} {s : Noted (Seat σ)} {r : Except TransportError α} {t : Noted (Link σ)}
    (h : x.on ⟨s.state.link, s.journal⟩ = (r, t)) : (atLink x).on s = (r, ⟨⟨t.state, s.state.cache⟩, t.journal⟩) := by
  unfold atLink
  rw [Exchange.on_of]
  simp only [h]

theorem on_metadata_ok {config : Config} {table : String} {filter : MetadataFilter} {s : Noted (Seat σ)}
    {set : MetadataSet} {cache : Cache} {t : Noted (Link σ)}
    (h : (s.state.cache.get (inquire config) table filter).on ⟨s.state.link, s.journal⟩ = (.ok (set, cache), t)) :
    (answer config (.cached table filter)).on s = (.ok (.metadata set), ⟨⟨t.state, cache⟩, t.journal⟩) := by
  have hmetadata : (metadata config table filter).on s = (.ok set, ⟨⟨t.state, cache⟩, t.journal⟩) := by
    unfold metadata
    rw [Exchange.on_of]
    simp only [h]
  rw [answer, Exchange.on_map, hmetadata]
  rfl

theorem on_metadata_error {config : Config} {table : String} {filter : MetadataFilter} {s : Noted (Seat σ)}
    {e : TransportError} {t : Noted (Link σ)}
    (h : (s.state.cache.get (inquire config) table filter).on ⟨s.state.link, s.journal⟩ = (.error e, t)) :
    (answer config (.cached table filter)).on s = (.error e, ⟨⟨t.state, s.state.cache⟩, t.journal⟩) := by
  have hmetadata : (metadata config table filter).on s = (.error e, ⟨⟨t.state, s.state.cache⟩, t.journal⟩) := by
    unfold metadata
    rw [Exchange.on_of]
    simp only [h]
  rw [answer, Exchange.on_map, hmetadata]
  rfl

theorem perform_of_answer {r : Except TransportError Answer} {t : Noted (Seat σ)}
    (h : (answer s.config call).on (.start ⟨⟨p, s.metrics⟩, s.cache⟩) = (r, t)) :
    (s.perform call p).result = r ∧ (s.perform call p).session.cache = t.state.cache ∧
      (s.perform call p).peer = t.state.link.peer := by
  unfold perform
  rw [h]
  exact ⟨rfl, rfl, rfl⟩

theorem perform_direct (s : Session) (call : Call) (p : σ) :
    let done := (Client.perform s.config call).on (.start ⟨p, s.metrics⟩)
    (s.perform (.direct call) p).result = done.1 ∧ (s.perform (.direct call) p).session.cache = s.cache ∧
      (s.perform (.direct call) p).peer = done.2.state.peer := by
  intro done
  have hanswer : (answer s.config (.direct call)).on (.start ⟨⟨p, s.metrics⟩, s.cache⟩) =
      (done.1, ⟨⟨done.2.state, s.cache⟩, done.2.journal⟩) := on_atLink (s := .start ⟨⟨p, s.metrics⟩, s.cache⟩) rfl
  exact perform_of_answer hanswer

theorem perform_cached (s : Session) (table : String) (filter : MetadataFilter) (p : σ) :
    let done := (s.cache.get (inquire s.config) table filter).on (.start ⟨p, s.metrics⟩)
    (s.perform (.cached table filter) p).result = (fun found => .metadata found.1) <$> done.1 ∧
      (s.perform (.cached table filter) p).session.cache = (match done.1 with
        | .ok found => found.2
        | .error _ => s.cache) ∧
      (s.perform (.cached table filter) p).peer = done.2.state.peer := by
  intro done
  rcases hdone : done with ⟨e | ⟨set, cache⟩, t⟩
  · have hanswer := on_metadata_error (s := .start ⟨⟨p, s.metrics⟩, s.cache⟩) (hdone : _ = (Except.error e, t))
    exact perform_of_answer hanswer
  · have hanswer := on_metadata_ok (s := .start ⟨⟨p, s.metrics⟩, s.cache⟩) (hdone : _ = (Except.ok (set, cache), t))
    exact perform_of_answer hanswer

def kept (s : Session) (call : SessionCall) : Except TransportError Answer → Cache
  | .ok a => (s.conclude call a).2
  | .error _ => s.cache

/-- An operation returns and keeps what it makes of the answer; an error leaves the cache as it was. -/
theorem perform_yields {r : Except TransportError Answer}
    (h : Yields (Client.perform s.config (s.remote call)) p r q) :
    (s.perform call p).result = (fun a => (s.conclude call a).1) <$> r ∧
      (s.perform call p).session.cache = s.kept call r ∧ (s.perform call p).peer = q := by
  cases call with
  | direct call =>
    obtain ⟨hdone, hleft⟩ := h (.start ⟨p, s.metrics⟩) rfl
    obtain ⟨hresult, hcache, hpeer⟩ := perform_direct s call p
    refine ⟨(hresult.trans hdone).trans ?_, hcache.trans ?_, hpeer.trans hleft⟩
    · cases r <;> rfl
    · cases r <;> rfl
  | cached table filter =>
    obtain ⟨r, rfl, hinquire⟩ := inquire_yields h
    obtain ⟨hdone, hleft⟩ := get_yields hinquire filter (.start ⟨p, s.metrics⟩) rfl
    obtain ⟨hresult, hcache, hpeer⟩ := perform_cached s table filter p
    rw [hresult, hcache, hpeer, hdone]
    refine ⟨?_, ?_, hleft⟩
    · cases r <;> rfl
    · cases r <;> rfl

/-- What holds of the channel after the first invocation, and is kept by fetches and releases, holds after the
operation. -/
theorem perform_leaves {Q : σ → Prop} (h : Client.Stable Q)
    (hfirst : Q (Client.firstOn s.config (s.remote call) p).peer) : Q (s.perform call p).peer := by
  have hmet : ∀ u, u = p → Q (Client.firstOn s.config (s.remote call) u).peer := by
    rintro _ rfl
    exact hfirst
  cases call with
  | direct call =>
    rw [(perform_direct s call p).2.2]
    exact Client.perform_leaves h hmet (.start ⟨p, s.metrics⟩) rfl
  | cached table filter =>
    have hinquire : Client.Leaves (· = p) (inquire s.config (s.cache.inquiry table)) Q := by
      change ∀ u, u = p → Q (Client.firstOn s.config (s.cache.inquiry table).call u).peer at hmet
      cases hinquiry : s.cache.inquiry table <;>
      · rw [hinquiry] at hmet
        exact Client.request_leaves h hmet _
    rw [(perform_cached s table filter p).2.2]
    exact get_leaves hinquire filter (.start ⟨p, s.metrics⟩) rfl

theorem cache_of_error {r : Except TransportError Answer}
    (h : Yields (Client.perform s.config (s.remote call)) p r q) {e : TransportError}
    (herror : (s.perform call p).result = .error e) : (s.perform call p).session.cache = s.cache := by
  obtain ⟨hresult, hcache, -⟩ := perform_yields h
  rw [hcache]
  cases r with
  | ok a => cases hresult.symm.trans herror
  | error _ => rfl

/-! ## Faults -/

/-- Over a faulty line a session that looks at checksums gets what it would get over a sound line, or an error that
leaves the cache as it was. The faults may drop the connection, lose any reply and put a burst into any frame. -/
theorem perform_all_or_nothing {s : Session} (hverify : s.config.verifyChecksums = true) (call : SessionCall)
    {l : Faulty} (hfaults : l.Within Damage.IsBurst)
    (hunmet : l.met.supply.Unmet (Client.firstOn s.config (s.remote call) l.met).peer.supply (Client.parkedIds l.met)) :
    let sound := s.perform call l.met
    let faulty := s.perform call l
    Client.AllOrNothing (Client.Garbled s.config (s.remote call) l) sound.result faulty.result ∧
      ∀ e, faulty.result = .error e → faulty.session.cache = s.cache := by
  intro sound faulty
  have hnoticed : l.Within (Damage.Noticed s.config.verifyChecksums) := by
    intro f hf
    rw [hverify]
    exact (hfaults f hf).mono fun d hd => hd.noticed
  obtain ⟨r, q, r', u, hsound, hfaulty, hspared⟩ := Client.perform_faulty hnoticed hunmet
  refine ⟨?_, fun e he => cache_of_error hfaulty he⟩
  rw [(perform_yields hsound).1, (perform_yields hfaulty).1]
  exact hspared.map _

/-- The beginning of the metadata of a new table. -/
def firstPiece : Bytes := (MetadataSet.codec.encode ⟨"t", some ⟨0⟩, []⟩).take 16

/-- A first frame with one bit flipped. -/
theorem perform_all_or_nothing_garbled :
    let s := Session.new {}
    let l : Faulty := ⟨Client.strayPeer, [.relay { damage := { flips := [(30, 1)] } }]⟩
    Client.Garbled s.config (s.remote (.cached "t" .all)) l ∧
      (∃ e, (s.perform (.cached "t" .all) l).result = .error e ∧ e.kind = .internal) ∧
      (s.perform (.cached "t" .all) l).session.cache = .empty := by
  intro s l
  have hfaults : l.Within Damage.IsBurst := by
    intro f hf
    obtain rfl := List.mem_singleton.1 hf
    exact ⟨Damage.isBurst_of_flips 30 (by decide), nofun⟩
  have hunmet : l.met.supply.Unmet (Client.firstOn s.config (s.remote (.cached "t" .all)) l.met).peer.supply
      (Client.parkedIds l.met) := ⟨by decide +kernel, by decide +kernel⟩
  have hgarbled : Client.Garbled s.config (s.remote (.cached "t" .all)) l := by
    refine ⟨.metadataSet, Frame.encode ⟨firstPiece, ⟨1⟩, some ⟨2⟩⟩,
      Damage.apply { flips := [(30, 1)] } (Frame.encode ⟨firstPiece, ⟨1⟩, some ⟨2⟩⟩), ?_, ?_, ?_⟩
    · decide +kernel
    · decide +kernel
    · decide +kernel
  obtain ⟨hspared, hcache⟩ := perform_all_or_nothing rfl (.cached "t" .all) hfaults hunmet
  obtain ⟨e, he, hkind⟩ := hspared.internal hgarbled
  exact ⟨hgarbled, ⟨e, he, hkind⟩, hcache e he⟩

end Session

end RemoteTable
