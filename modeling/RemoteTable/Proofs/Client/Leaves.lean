import RemoteTable.Proofs.Client.Yields

/-!
# What the client leaves of the channel

However a call ends, after its first invocation it has only asked for parked chunks and given chains up. So whatever
holds of the channel after the first invocation, and is kept by fetches and releases, holds after the call
(`perform_leaves`).
-/

namespace RemoteTable.Client

variable {σ α β : Type}

/-- On a channel of which `P` holds the exchange leaves one of which `Q` holds, however it ends. -/
def Leaves (P : σ → Prop) (x : Exchange (Link σ) α) (Q : σ → Prop) : Prop :=
  ∀ s, P s.state.peer → Q (x.on s).2.state.peer

namespace Leaves

variable {P Q : σ → Prop} {x : Exchange (Link σ) α}

theorem pure (a : α) : Leaves Q (Pure.pure a) Q := fun _ h => h

theorem throw (e : TransportError) : Leaves Q (MonadExcept.throw e : Exchange (Link σ) α) Q := fun _ h => h

theorem note (event : Event) (fields : List (String × String)) : Leaves Q (Exchange.note event fields) Q :=
  fun _ h => h

theorem report (records : List Record) : Leaves Q (Exchange.report records) Q := fun _ h => h

theorem tally (f : Metrics → Metrics) : Leaves Q (Client.tally f) Q := fun _ h => h

theorem bind {f : α → Exchange (Link σ) β} (hx : Leaves P x Q) (hf : ∀ a, Leaves Q (f a) Q) :
    Leaves P (x >>= f) Q := by
  intro s hs
  have hfirst := hx s hs
  rcases hon : x.on s with ⟨e | a, t⟩
  · rw [hon] at hfirst
    rwa [Exchange.on_bind_error hon]
  · rw [hon] at hfirst
    rw [Exchange.on_bind_ok hon]
    exact hf a t hfirst

theorem map (f : α → β) (hx : Leaves P x Q) : Leaves P (f <$> x) Q := by
  intro s hs
  rw [Exchange.on_map]
  exact hx s hs

theorem tryCatch {g : TransportError → Exchange (Link σ) α} (hx : Leaves P x Q) (hg : ∀ e, Leaves Q (g e) Q) :
    Leaves P (MonadExcept.tryCatch x g) Q := by
  intro s hs
  have hfirst := hx s hs
  rw [Exchange.on_tryCatch]
  rcases hon : x.on s with ⟨e | a, t⟩
  · rw [hon] at hfirst
    exact hg e t hfirst
  · rw [hon] at hfirst
    exact hfirst

end Leaves

variable [Channel σ] {P Q : σ → Prop} {x : Exchange (Link σ) α}

/-! ## One invocation -/

omit [Channel σ] in
theorem refuse_leaves (op : Operation) (failure : Failure) :
    Leaves Q (refuse op failure : Exchange (Link σ) α) Q := by
  unfold refuse noteCollapse
  refine Leaves.bind ?_ fun _ => Leaves.throw _
  split
  · exact (Leaves.tally _).bind fun _ => Leaves.note _ _
  · exact Leaves.pure ()

theorem invoke_leaves {op : Operation} {args : Json} (h : ∀ p, P p → Q (Channel.invoke p op.method args).peer) :
    Leaves P (invoke op args) Q := by
  have htransmit : Leaves P (transmit op.method args) Q := fun t ht => h t.state.peer ht
  intro s hs
  unfold invoke
  rw [Exchange.on_bind_ok (on_tally ..), Exchange.on_bind_ok (Exchange.on_note ..)]
  refine htransmit.bind (fun outcome => ?_) _ hs
  cases outcome with
  | ok reply => exact (Leaves.note _ _).bind fun _ => Leaves.pure reply
  | error failure => exact refuse_leaves op failure

/-! ## Chains -/

/-- The property is kept when chunks are asked for and chains are given up. -/
structure Stable (Q : σ → Prop) : Prop where
  fetch : ∀ p id, Q p → Q (fetchOn p id).peer
  release : ∀ p chain, Q p → Q (releaseOn p chain).peer

omit [Channel σ] in
theorem openFrame_leaves (verify : Bool) (frame : Bytes) :
    Leaves Q (openFrame verify frame : Exchange (Link σ) Chunk) Q := by
  unfold openFrame
  split
  · exact Leaves.pure _
  · exact (Leaves.note _ _).bind fun _ => Leaves.throw _

theorem fetchChunk_leaves (h : Stable Q) (verify : Bool) (id : Token) : Leaves Q (fetchChunk verify id) Q := by
  unfold fetchChunk
  refine (Leaves.note _ _).bind fun _ => (invoke_leaves fun p => h.fetch p id).bind fun reply => ?_
  cases reply with
  | fragment frame => exact (openFrame_leaves verify frame).bind fun _ => (Leaves.tally _).bind fun _ => Leaves.pure _
  | unit | chunked | absent => exact Leaves.throw _

theorem releaseChain_leaves (h : Stable Q) (chain : Token) : Leaves Q (releaseChain chain) Q :=
  ((invoke_leaves fun p => h.release p chain).map _).tryCatch fun _ => Leaves.note _ _

/-- Following a chain is one fetch after another, however far it gets. -/
theorem remainder_leaves (h : Stable Q) (verify : Bool) (next : Option Token) : Leaves Q (remainder verify next) Q := by
  intro s hs
  unfold remainder
  rw [Exchange.on_of]
  have hstep (id : Token) (s t : Noted (Link σ)) (answer : Except TransportError Chunk)
      (hon : ((supplier verify).fetch id).on s = (answer, t)) (hs : Q s.state.peer) : Q t.state.peer := by
    have hkept := fetchChunk_leaves h verify id s hs
    change Q (((supplier verify).fetch id).on s).2.state.peer at hkept
    rwa [hon] at hkept
  fun_induction Chunk.follow (supplier verify) next s with
  | case1 s => exact hs
  | case2 s id answer t hon e haccept => exact hstep id s t answer hon hs
  | case3 s id answer t hon chunk haccept bytes u hfollow ih =>
    rw [hfollow] at ih
    exact ih (hstep id s t answer hon hs)
  | case4 s id answer t hon chunk haccept e u hfollow ih =>
    rw [hfollow] at ih
    exact ih (hstep id s t answer hon hs)

theorem reassemble_leaves (h : Stable Q) (verify : Bool) (op : Operation) (frame : Bytes) :
    Leaves Q (reassemble verify op frame) Q := by
  unfold reassemble
  refine (openFrame_leaves verify frame).bind fun first => Leaves.bind ?_ fun payload => ?_
  · refine Leaves.tryCatch ?_ fun e => (releaseChain_leaves h first.id).bind fun _ => Leaves.throw e
    unfold Chunk.decode
    exact (remainder_leaves h verify first.next).bind fun _ => Leaves.pure _
  · exact (Leaves.tally _).bind fun _ => (Leaves.note _ _).bind fun _ => Leaves.pure payload

/-! ## Whole calls -/

theorem readValue_leaves (h : Stable Q) (verify : Bool) (op : Operation) (codec : Json.Codec α) (reply : Reply) :
    Leaves Q (readValue verify op codec reply) Q := by
  unfold readValue
  split
  · split
    · refine (reassemble_leaves h verify op _).bind fun payload => Leaves.map _ ?_
      unfold readPayload
      split
      · exact Leaves.pure _
      · exact Leaves.throw _
    · exact Leaves.throw _
  · split
    · exact Leaves.pure _
    · exact Leaves.throw _
  · exact Leaves.throw _

omit [Channel σ] in
theorem observe_leaves (op : Operation) (hx : Leaves P x Q) : Leaves P (observe op x) Q := by
  refine hx.tryCatch fun e => (Leaves.tally _).bind fun _ => ?_
  split
  · exact (Leaves.tally _).bind fun _ => (Leaves.note _ _).bind fun _ => Leaves.throw e
  · exact (Leaves.note _ _).bind fun _ => Leaves.throw e

section

variable {config : Config} {call : Call} (h : Stable Q) (hfirst : ∀ p, P p → Q (firstOn config call p).peer)

include h hfirst

theorem lookup_leaves (codec : Json.Codec α) : Leaves P (lookup config call codec) Q :=
  observe_leaves _ ((invoke_leaves hfirst).bind fun reply => readValue_leaves h _ _ codec reply)

theorem request_leaves (codec : Json.Codec α) : Leaves P (request config call codec) Q := by
  refine observe_leaves _ ((invoke_leaves hfirst).bind fun reply => ?_)
  refine (readValue_leaves h _ _ codec reply).bind fun found => ?_
  split
  · exact Leaves.pure _
  · exact Leaves.throw _

omit h in
theorem command_leaves : Leaves P (command config call) Q := by
  refine observe_leaves _ ((invoke_leaves hfirst).bind fun reply => ?_)
  split
  · exact Leaves.pure ()
  · exact Leaves.throw _

/-- What holds after the first invocation, and is kept by fetches and releases, holds after the call. -/
theorem perform_leaves : Leaves P (perform config call) Q := by
  cases call with
  | openTable | query | getMetadata | getMetadataIfChanged => exact (request_leaves h hfirst _).map _
  | getRow => exact (lookup_leaves h hfirst _).map _
  | closeTable | putMetadata | deleteMetadata => exact (command_leaves hfirst).map _

end

end RemoteTable.Client
