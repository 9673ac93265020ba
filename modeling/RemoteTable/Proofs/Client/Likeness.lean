import RemoteTable.Proofs.Client.Yields

/-!
# Reports without influence

What has been reported has no influence on an exchange, and no more has what a channel keeps for itself beside what it
answers from. `Alike f x y` says of two exchanges that they come to the same and report the same from a state and from its
image under `f`, whatever was reported before. If `f` passes the invocations of one channel on to another
(`Channel.Forwards`), every function of the client is alike on both (`Client.perform_alike`). With the identity for `f`,
this says that the client does not look at its reports; with `Recorded.peer`, that it makes no difference whether its
invocations are kept.
-/

namespace RemoteTable

variable {S T α β : Type}

/-! ## What an exchange does -/

/-- From a state, the exchange comes to a result, leaves a state and reports these records, whatever was reported before. -/
def Exchange.Does (x : Exchange S α) (s : S) (r : Except TransportError α) (t : S) (records : List Record) : Prop :=
  ∀ j, x.on ⟨s, j⟩ = (r, ⟨t, records.reverse ++ j⟩)

namespace Exchange.Does

variable {x : Exchange S α} {s t u : S} {a : α} {e : TransportError} {records more : List Record}

theorem pure (a : α) (s : S) : Does (Pure.pure a) s (.ok a) s [] := fun _ => rfl

theorem throw (e : TransportError) (s : S) : Does (MonadExcept.throw e : Exchange S α) s (.error e) s [] := fun _ => rfl

theorem note (event : Event) (fields : List (String × String)) (s : S) :
    Does (Exchange.note event fields) s (.ok ()) s [event.record fields] := fun _ => rfl

theorem report (records : List Record) (s : S) : Does (Exchange.report records) s (.ok ()) s records := fun _ => rfl

/-- Reports of a second part stand behind those of the first. -/
theorem reverse_append (records more j : List Record) :
    more.reverse ++ (records.reverse ++ j) = (records ++ more).reverse ++ j := by
  rw [List.reverse_append, List.append_assoc]

theorem bind_ok {g : α → Exchange S β} {r : Except TransportError β} (h : Does x s (.ok a) t records)
    (hg : Does (g a) t r u more) : Does (x >>= g) s r u (records ++ more) := by
  intro j
  rw [Exchange.on_bind_ok (h j), hg, reverse_append]

theorem bind_error {g : α → Exchange S β} (h : Does x s (.error e) t records) :
    Does (x >>= g) s (.error e) t records :=
  fun j => Exchange.on_bind_error (h j) g

theorem map {r : Except TransportError α} (g : α → β) (h : Does x s r t records) :
    Does (g <$> x) s (g <$> r) t records := by
  intro j
  rw [Exchange.on_map, h]

theorem tryCatch_ok {g : TransportError → Exchange S α} (h : Does x s (.ok a) t records) :
    Does (MonadExcept.tryCatch x g) s (.ok a) t records := by
  intro j
  rw [Exchange.on_tryCatch, h]

theorem tryCatch_error {g : TransportError → Exchange S α} {r : Except TransportError α}
    (h : Does x s (.error e) t records) (hg : Does (g e) t r u more) :
    Does (MonadExcept.tryCatch x g) s r u (records ++ more) := by
  intro j
  rw [Exchange.on_tryCatch, h, ← reverse_append]
  exact hg _

end Exchange.Does

open Exchange (Does)

/-- From a state and from its image, the exchanges come to the same and report the same. -/
def Alike (f : S → T) (x : Exchange S α) (y : Exchange T α) : Prop :=
  ∀ s, ∃ r t records, Does x s r t records ∧ Does y (f s) r (f t) records

namespace Alike

variable {f : S → T} {x : Exchange S α} {y : Exchange T α}

theorem pure (a : α) : Alike f (Pure.pure a) (Pure.pure a) :=
  fun s => ⟨.ok a, s, [], Does.pure a s, Does.pure a (f s)⟩

theorem throw (e : TransportError) : Alike f (MonadExcept.throw e : Exchange S α) (MonadExcept.throw e) :=
  fun s => ⟨.error e, s, [], Does.throw e s, Does.throw e (f s)⟩

theorem note (event : Event) (fields : List (String × String)) :
    Alike f (Exchange.note event fields) (Exchange.note event fields) :=
  fun s => ⟨.ok (), s, [event.record fields], Does.note event fields s, Does.note event fields (f s)⟩

theorem report (records : List Record) : Alike f (Exchange.report records) (Exchange.report records) :=
  fun s => ⟨.ok (), s, records, Does.report records s, Does.report records (f s)⟩

theorem bind {g : α → Exchange S β} {h : α → Exchange T β} (hx : Alike f x y) (hg : ∀ a, Alike f (g a) (h a)) :
    Alike f (x >>= g) (y >>= h) := by
  intro s
  obtain ⟨r, t, records, hleft, hright⟩ := hx s
  cases r with
  | error e => exact ⟨.error e, t, records, hleft.bind_error, hright.bind_error⟩
  | ok a =>
    obtain ⟨r, u, more, hleft', hright'⟩ := hg a t
    exact ⟨r, u, records ++ more, hleft.bind_ok hleft', hright.bind_ok hright'⟩

theorem map (g : α → β) (hx : Alike f x y) : Alike f (g <$> x) (g <$> y) := by
  intro s
  obtain ⟨r, t, records, hleft, hright⟩ := hx s
  exact ⟨g <$> r, t, records, hleft.map g, hright.map g⟩

theorem tryCatch {g : TransportError → Exchange S α} {h : TransportError → Exchange T α} (hx : Alike f x y)
    (hg : ∀ e, Alike f (g e) (h e)) : Alike f (MonadExcept.tryCatch x g) (MonadExcept.tryCatch y h) := by
  intro s
  obtain ⟨r, t, records, hleft, hright⟩ := hx s
  cases r with
  | ok a => exact ⟨.ok a, t, records, hleft.tryCatch_ok, hright.tryCatch_ok⟩
  | error e =>
    obtain ⟨r, u, more, hleft', hright'⟩ := hg e t
    exact ⟨r, u, records ++ more, hleft.tryCatch_error hleft', hright.tryCatch_error hright'⟩

end Alike

/-! ## Channels behind channels -/

variable {σ τ : Type}

/-- Invocations of the one channel are answered by the other. -/
structure Channel.Forwards [Channel σ] [Channel τ] (f : σ → τ) : Prop where
  outcome : ∀ p method args, (invoke (f p) method args).outcome = (invoke p method args).outcome
  peer : ∀ p method args, (invoke (f p) method args).peer = f (invoke p method args).peer
  records : ∀ p method args, (invoke (f p) method args).records = (invoke p method args).records

theorem Channel.forwards_id [Channel σ] : Forwards (id : σ → σ) := ⟨fun _ _ _ => rfl, fun _ _ _ => rfl, fun _ _ _ => rfl⟩

theorem Recorded.forwards [Channel σ] : Channel.Forwards (Recorded.peer : Recorded σ → σ) :=
  ⟨fun _ _ _ => rfl, fun _ _ _ => rfl, fun _ _ _ => rfl⟩

def Link.through (f : σ → τ) (l : Link σ) : Link τ := ⟨f l.peer, l.metrics⟩

namespace Client

variable {f : σ → τ}

/-! ## One invocation -/

theorem tally_alike (g : Metrics → Metrics) : Alike (Link.through f) (tally g) (tally g) :=
  fun s => ⟨.ok (), ⟨s.peer, g s.metrics⟩, [], fun _ => rfl, fun _ => rfl⟩

theorem refuse_alike (op : Operation) (failure : Failure) :
    Alike (Link.through f) (refuse op failure : Exchange (Link σ) α) (refuse op failure) := by
  unfold refuse noteCollapse
  refine Alike.bind ?_ fun _ => Alike.throw _
  split
  · exact (tally_alike _).bind fun _ => Alike.note _ _
  · exact Alike.pure ()

theorem openFrame_alike (verify : Bool) (frame : Bytes) :
    Alike (Link.through f) (openFrame verify frame) (openFrame verify frame) := by
  unfold openFrame
  split
  · exact Alike.pure _
  · exact (Alike.note _ _).bind fun _ => Alike.throw _

theorem readPayload_alike (tag : Tag) (codec : Json.Codec α) (payload : Bytes) :
    Alike (Link.through f) (readPayload tag codec payload) (readPayload tag codec payload) := by
  unfold readPayload
  split
  · exact Alike.pure _
  · exact Alike.throw _

/-- Watching a call is the same on both lines. -/
theorem observe_alike {x : Exchange (Link σ) α} {y : Exchange (Link τ) α} (op : Operation)
    (hx : Alike (Link.through f) x y) : Alike (Link.through f) (observe op x) (observe op y) := by
  refine hx.tryCatch fun e => (tally_alike _).bind fun _ => ?_
  split
  · exact (tally_alike _).bind fun _ => (Alike.note _ _).bind fun _ => Alike.throw e
  · exact (Alike.note _ _).bind fun _ => Alike.throw e

variable [Channel σ] [Channel τ] (hf : Channel.Forwards f)

include hf

theorem transmit_alike (method : String) (args : Json) :
    Alike (Link.through f) (transmit method args) (transmit method args) := by
  intro s
  refine ⟨.ok (Channel.invoke s.peer method args).outcome, ⟨(Channel.invoke s.peer method args).peer, s.metrics⟩,
    (Channel.invoke s.peer method args).records, fun _ => rfl, fun j => ?_⟩
  rw [on_transmit, Link.through, hf.outcome, hf.peer, hf.records, Link.through]

theorem invoke_alike (op : Operation) (args : Json) : Alike (Link.through f) (invoke op args) (invoke op args) := by
  refine (tally_alike _).bind fun _ => (Alike.note _ _).bind fun _ => (transmit_alike hf _ _).bind fun outcome => ?_
  cases outcome with
  | ok reply => exact (Alike.note _ _).bind fun _ => Alike.pure reply
  | error failure => exact refuse_alike op failure

/-! ## Chains -/

theorem fetchChunk_alike (verify : Bool) (id : Token) :
    Alike (Link.through f) (fetchChunk verify id) (fetchChunk verify id) := by
  refine (Alike.note _ _).bind fun _ => (invoke_alike hf _ _).bind fun reply => ?_
  cases reply with
  | fragment frame => exact (openFrame_alike verify frame).bind fun _ => (tally_alike _).bind fun _ => Alike.pure _
  | unit | chunked | absent => exact Alike.throw _

theorem releaseChain_alike (chain : Token) : Alike (Link.through f) (releaseChain chain) (releaseChain chain) :=
  ((invoke_alike hf _ _).map _).tryCatch fun _ => Alike.note _ _

omit hf

section

omit [Channel τ]

variable {verify : Bool} {id : Token} {s t u : Link σ} {answer : Except TransportError Chunk} {records more : List Record}

theorem remainder_does_none (verify : Bool) (s : Link σ) : Does (remainder verify none) s (.ok []) s [] := by
  intro j
  rw [remainder, Exchange.on_of, Chunk.follow]
  rfl

theorem remainder_does_error {e : TransportError} (h : Does (fetchChunk verify id) s answer t records)
    (haccept : Chunk.accept id answer = .error e) : Does (remainder verify (some id)) s (.error e) t records := by
  intro j
  have hfetch : ((supplier verify).fetch id).on ⟨s, j⟩ = _ := h j
  have hbroken : Chunk.accept id (((supplier verify).fetch id).on ⟨s, j⟩).1 = .error e := by rwa [hfetch]
  rw [remainder, Exchange.on_of, Chunk.follow_error hbroken, hfetch]

theorem remainder_does_ok {c : Chunk} {r : Except TransportError Bytes}
    (h : Does (fetchChunk verify id) s answer t records) (haccept : Chunk.accept id answer = .ok c)
    (hrest : Does (remainder verify c.next) t r u more) :
    Does (remainder verify (some id)) s ((c.payload ++ ·) <$> r) u (records ++ more) := by
  intro j
  have hfetch : ((supplier verify).fetch id).on ⟨s, j⟩ = _ := h j
  have hnext : Chunk.accept id (((supplier verify).fetch id).on ⟨s, j⟩).1 = .ok c := by rwa [hfetch]
  have hfollow : Chunk.follow (supplier verify) c.next ⟨t, records.reverse ++ j⟩ = _ := hrest _
  rw [remainder, Exchange.on_of, Chunk.follow_ok hnext, hfetch, hfollow, Does.reverse_append]

end

include hf

/-- Both lines follow a chain to the same end: the credit of the one falls with every chunk. -/
theorem remainder_alike (verify : Bool) (next : Option Token) :
    Alike (Link.through f) (remainder verify next) (remainder verify next) := by
  intro s
  induction hcredit : Channel.credit s.peer using Nat.strongRecOn generalizing s next with
  | ind credit ih =>
    subst hcredit
    cases next with
    | none => exact ⟨.ok [], s, [], remainder_does_none verify s, remainder_does_none verify _⟩
    | some id =>
      obtain ⟨answer, t, records, hleft, hright⟩ := fetchChunk_alike hf verify id s
      cases haccept : Chunk.accept id answer with
      | error e =>
        exact ⟨.error e, t, records, remainder_does_error hleft haccept, remainder_does_error hright haccept⟩
      | ok c =>
        have hspent : Channel.credit t.peer < Channel.credit s.peer := by
          obtain ⟨rfl, -⟩ := Chunk.accept_eq_ok.1 haccept
          exact credit_fetchChunk verify id _ c _ (hleft [])
        obtain ⟨r, u, more, hrest, hrest'⟩ := ih _ hspent c.next t rfl
        exact ⟨(c.payload ++ ·) <$> r, u, records ++ more, remainder_does_ok hleft haccept hrest,
          remainder_does_ok hright haccept hrest'⟩

theorem reassemble_alike (verify : Bool) (op : Operation) (frame : Bytes) :
    Alike (Link.through f) (reassemble verify op frame) (reassemble verify op frame) := by
  unfold reassemble
  refine (openFrame_alike verify frame).bind fun first => Alike.bind ?_ fun payload => ?_
  · refine Alike.tryCatch ?_ fun e => (releaseChain_alike hf first.id).bind fun _ => Alike.throw e
    unfold Chunk.decode
    exact (remainder_alike hf verify first.next).bind fun _ => Alike.pure _
  · exact (tally_alike _).bind fun _ => (Alike.note _ _).bind fun _ => Alike.pure payload

/-! ## Whole calls -/

theorem readValue_alike (verify : Bool) (op : Operation) (codec : Json.Codec α) (reply : Reply) :
    Alike (Link.through f) (readValue verify op codec reply) (readValue verify op codec reply) := by
  unfold readValue
  split
  · split
    · exact (reassemble_alike hf verify op _).bind fun payload => (readPayload_alike _ codec payload).map _
    · exact Alike.throw _
  · split
    · exact Alike.pure _
    · exact Alike.throw _
  · exact Alike.throw _

section

variable (config : Config) (call : Call)

theorem lookup_alike (codec : Json.Codec α) :
    Alike (Link.through f) (lookup config call codec) (lookup config call codec) :=
  observe_alike _ ((invoke_alike hf _ _).bind fun reply => readValue_alike hf _ _ codec reply)

theorem request_alike (codec : Json.Codec α) :
    Alike (Link.through f) (request config call codec) (request config call codec) := by
  refine observe_alike _ ((invoke_alike hf _ _).bind fun reply => ?_)
  refine (readValue_alike hf _ _ codec reply).bind fun found => ?_
  cases found with
  | some a => exact Alike.pure a
  | none => exact Alike.throw _

theorem command_alike : Alike (Link.through f) (command config call) (command config call) := by
  refine observe_alike _ ((invoke_alike hf _ _).bind fun reply => ?_)
  cases reply with
  | unit => exact Alike.pure ()
  | chunked | absent | fragment => exact Alike.throw _

/-- A call comes to the same and reports the same on either line. -/
theorem perform_alike : Alike (Link.through f) (perform config call) (perform config call) := by
  cases call with
  | openTable | query | getMetadata | getMetadataIfChanged => exact (request_alike hf config _ _).map _
  | getRow => exact (lookup_alike hf config _ _).map _
  | closeTable | putMetadata | deleteMetadata => exact (command_alike hf config _).map _

end

end Client

end RemoteTable
