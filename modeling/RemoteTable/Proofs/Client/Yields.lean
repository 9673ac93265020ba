import RemoteTable.Client
import RemoteTable.Proofs.Fallible

/-!
# What the client yields

Neither counters nor reports influence what the client does. `Yields x p r q` says of an exchange that on a channel
in state `p` it ends with the result `r` and leaves the channel in state `q`, whatever has been counted and reported
before. Exchanges are put together by `Yields.bind_ok`, `Yields.bind_error` and their like, and each function of the
client has its law here, down to the whole calls (`perform_chunked` and its siblings).
-/

namespace RemoteTable

variable {σ α β : Type}

/-! ## Following a chain -/

namespace Chunk

theorem follow_error {supplier : Supplier σ} {id : Token} {s : Noted σ} {e : TransportError}
    (h : accept id ((supplier.fetch id).on s).1 = .error e) :
    follow supplier (some id) s = (.error e, ((supplier.fetch id).on s).2) := by
  rw [follow]
  split
  rename_i answer t hfetch
  rw [hfetch] at h ⊢
  split <;> simp_all

theorem follow_ok {supplier : Supplier σ} {id : Token} {s : Noted σ} {c : Chunk}
    (h : accept id ((supplier.fetch id).on s).1 = .ok c) :
    follow supplier (some id) s =
      ((c.payload ++ ·) <$> (follow supplier c.next ((supplier.fetch id).on s).2).1,
        (follow supplier c.next ((supplier.fetch id).on s).2).2) := by
  rw [follow]
  split
  rename_i answer t hfetch
  rw [hfetch] at h ⊢
  split
  · simp_all
  · rename_i chunk haccept
    obtain rfl : chunk = c := by simp_all
    cases hrest : follow supplier chunk.next t with
    | mk r u => cases r <;> rfl

end Chunk

/-! ## Yielding -/

/-- On a channel in state `p` the exchange has the result `r` and leaves the channel in state `q`. -/
def Yields (x : Exchange (Link σ) α) (p : σ) (r : Except TransportError α) (q : σ) : Prop :=
  ∀ s : Noted (Link σ), s.state.peer = p → (x.on s).1 = r ∧ (x.on s).2.state.peer = q

namespace Yields

variable {x : Exchange (Link σ) α} {f : α → Exchange (Link σ) β} {p q u : σ} {a : α} {e : TransportError}
  {r : Except TransportError β}

theorem pure (a : α) (p : σ) : Yields (Pure.pure a) p (.ok a) p := fun _ hs => ⟨rfl, hs⟩

theorem throw (e : TransportError) (p : σ) : Yields (MonadExcept.throw e : Exchange (Link σ) α) p (.error e) p :=
  fun _ hs => ⟨rfl, hs⟩

theorem note (event : Event) (fields : List (String × String)) (p : σ) : Yields (Exchange.note event fields) p (.ok ()) p :=
  fun _ hs => ⟨rfl, hs⟩

theorem report (records : List Record) (p : σ) : Yields (Exchange.report records) p (.ok ()) p := fun _ hs => ⟨rfl, hs⟩

theorem tally (f : Metrics → Metrics) (p : σ) : Yields (Client.tally f) p (.ok ()) p := fun _ hs => ⟨rfl, hs⟩

theorem bind_ok (h : Yields x p (.ok a) q) (hf : Yields (f a) q r u) : Yields (x >>= f) p r u := by
  intro s hs
  obtain ⟨hresult, hpeer⟩ := h s hs
  rw [Exchange.on_bind_ok (t := (x.on s).2) (Prod.ext hresult rfl)]
  exact hf _ hpeer

theorem bind_error (h : Yields x p (.error e) q) : Yields (x >>= f) p (.error e) q := by
  intro s hs
  obtain ⟨hresult, hpeer⟩ := h s hs
  rw [Exchange.on_bind_error (t := (x.on s).2) (Prod.ext hresult rfl)]
  exact ⟨rfl, hpeer⟩

theorem map {r : Except TransportError α} (h : Yields x p r q) (f : α → β) : Yields (f <$> x) p (f <$> r) q := by
  intro s hs
  obtain ⟨hresult, hpeer⟩ := h s hs
  rw [Exchange.on_map, hresult]
  exact ⟨rfl, hpeer⟩

theorem unique {r r' : Except TransportError α} {q q' : σ} (h : Yields x p r q) (h' : Yields x p r' q') : r = r' := by
  obtain ⟨s, hs⟩ : ∃ s : Noted (Link σ), s.state.peer = p := ⟨.start ⟨p, {}⟩, rfl⟩
  exact (h s hs).1.symm.trans (h' s hs).1

/-- An exchange yields what its image yields. -/
theorem of_map {x : Exchange (Link σ) α} {f : α → β} (hf : ∀ a b, f a = f b → a = b)
    {r : Except TransportError β} (h : Yields (f <$> x) p r q) : ∃ r', r = f <$> r' ∧ Yields x p r' q := by
  have hresult (s : Noted (Link σ)) (hs : s.state.peer = p) : f <$> (x.on s).1 = r := by
    rw [← (h s hs).1, Exchange.on_map]
  obtain ⟨s, hs⟩ : ∃ s : Noted (Link σ), s.state.peer = p := ⟨.start ⟨p, {}⟩, rfl⟩
  refine ⟨(x.on s).1, (hresult s hs).symm, fun t ht => ⟨?_, ?_⟩⟩
  · exact Fallible.map_injective hf ((hresult t ht).trans (hresult s hs).symm)
  · have hpeer := (h t ht).2
    rwa [Exchange.on_map] at hpeer

theorem tryCatch_ok {g : TransportError → Exchange (Link σ) α} (h : Yields x p (.ok a) q) :
    Yields (tryCatch x g) p (.ok a) q := by
  intro s hs
  obtain ⟨hresult, hpeer⟩ := h s hs
  have hon : x.on s = (.ok a, (x.on s).2) := Prod.ext hresult rfl
  rw [Exchange.on_tryCatch, hon]
  exact ⟨rfl, hpeer⟩

theorem tryCatch_error {g : TransportError → Exchange (Link σ) α} {r : Except TransportError α}
    (h : Yields x p (.error e) q) (hg : Yields (g e) q r u) : Yields (tryCatch x g) p r u := by
  intro s hs
  obtain ⟨hresult, hpeer⟩ := h s hs
  have hon : x.on s = (.error e, (x.on s).2) := Prod.ext hresult rfl
  rw [Exchange.on_tryCatch, hon]
  exact hg _ hpeer

end Yields

namespace Client

variable [Channel σ]

/-! ## One invocation -/

theorem refuse_yields {σ : Type} (op : Operation) (failure : Failure) (p : σ) :
    Yields (refuse op failure : Exchange (Link σ) α) p (.error (Tunnel.decode failure op.policy)) p := by
  refine Yields.bind_ok (a := ()) ?_ (Yields.throw _ p)
  unfold noteCollapse
  split
  · exact Yields.bind_ok (Yields.tally _ p) (Yields.note _ _ p)
  · exact Yields.pure () p

theorem transmit_yields (method : String) (args : Json) (p : σ) : Yields (transmit method args) p
    (.ok (Channel.invoke p method args).outcome) (Channel.invoke p method args).peer := by
  rintro s rfl
  exact ⟨rfl, rfl⟩

/-- The result of an invocation as the client reads it. -/
def reading (op : Operation) (outcome : Outcome) : Except TransportError Reply :=
  match outcome with
  | .ok reply => .ok reply
  | .error failure => .error (Tunnel.decode failure op.policy)

theorem invoke_yields (op : Operation) (args : Json) (p : σ) : Yields (invoke op args) p
    (reading op (Channel.invoke p op.method args).outcome) (Channel.invoke p op.method args).peer := by
  refine Yields.bind_ok (Yields.tally _ p) (Yields.bind_ok (Yields.note _ _ p) ?_)
  refine Yields.bind_ok (transmit_yields op.method args p) ?_
  cases (Channel.invoke p op.method args).outcome with
  | ok reply => exact Yields.bind_ok (Yields.note _ _ _) (Yields.pure _ _)
  | error failure => exact refuse_yields op failure _

/-! ## Chains -/

/-- The chunk in a frame, as the client reads it. -/
def opened (verify : Bool) (frame : Bytes) : Except TransportError Chunk :=
  match Frame.decode frame verify with
  | .ok chunk => .ok chunk
  | .error e => .error e.toTransport

theorem openFrame_yields {σ : Type} (verify : Bool) (frame : Bytes) (p : σ) :
    Yields (openFrame verify frame) p (opened verify frame) p := by
  unfold openFrame opened
  cases Frame.decode frame verify with
  | ok chunk => exact Yields.pure chunk p
  | error e => exact Yields.bind_ok (Yields.note _ _ p) (Yields.throw _ p)

def fragmentOf (verify : Bool) : Reply → Except TransportError Chunk
  | .fragment frame => opened verify frame
  | reply => .error (unexpected .fetchChunk reply)

/-- The invocation that asks for a parked chunk. -/
def fetchOn (p : σ) (id : Token) : Delivery σ := Channel.invoke p Operation.fetchChunk.method (FetchArgs.codec.pack ⟨id⟩)

def releaseOn (p : σ) (chain : Token) : Delivery σ :=
  Channel.invoke p Operation.releaseChain.method (ReleaseArgs.codec.pack ⟨chain⟩)

theorem fetchChunk_yields (verify : Bool) (id : Token) (p : σ) : Yields (fetchChunk verify id) p
    (reading .fetchChunk (fetchOn p id).outcome >>= fragmentOf verify) (fetchOn p id).peer := by
  have hinvoke := invoke_yields .fetchChunk (FetchArgs.codec.pack ⟨id⟩) p
  refine Yields.bind_ok (Yields.note _ _ p) ?_
  change Yields _ p (reading .fetchChunk (fetchOn p id).outcome) (fetchOn p id).peer at hinvoke
  cases hread : reading .fetchChunk (fetchOn p id).outcome with
  | error e =>
    rw [hread] at hinvoke
    exact Yields.bind_error hinvoke
  | ok reply =>
    rw [hread] at hinvoke
    refine Yields.bind_ok hinvoke ?_
    cases reply with
    | fragment frame =>
      have hopen := openFrame_yields verify frame (fetchOn p id).peer
      change Yields _ _ (opened verify frame) _
      cases hframe : opened verify frame with
      | error e => exact Yields.bind_error (hframe ▸ hopen)
      | ok chunk => exact Yields.bind_ok (hframe ▸ hopen) (Yields.bind_ok (Yields.tally _ _) (Yields.pure chunk _))
    | unit => exact Yields.throw _ _
    | chunked tag frame => exact Yields.throw _ _
    | absent tag => exact Yields.throw _ _

theorem releaseChain_yields (chain : Token) (p : σ) : Yields (releaseChain chain) p (.ok ()) (releaseOn p chain).peer := by
  have hinvoke := invoke_yields .releaseChain (ReleaseArgs.codec.pack ⟨chain⟩) p
  cases hread : reading .releaseChain (Channel.invoke p Operation.releaseChain.method _).outcome with
  | error e =>
    rw [hread] at hinvoke
    exact Yields.tryCatch_error (hinvoke.map _) (Yields.note _ _ _)
  | ok reply =>
    rw [hread] at hinvoke
    exact Yields.tryCatch_ok (hinvoke.map fun _ => ())

/-- The bytes of the chain that goes on with `next`. -/
def remainder (verify : Bool) (next : Option Token) : Exchange (Link σ) Bytes :=
  Exchange.of (Chunk.follow (supplier verify) next)

theorem remainder_none (verify : Bool) (p : σ) : Yields (remainder verify none) p (.ok []) p := by
  intro s hs
  rw [remainder, Exchange.on_of, Chunk.follow]
  exact ⟨rfl, hs⟩

theorem remainder_error {verify : Bool} {id : Token} {p q : σ} {answer : Except TransportError Chunk}
    {e : TransportError} (hfetch : Yields (fetchChunk verify id) p answer q)
    (haccept : Chunk.accept id answer = .error e) : Yields (remainder verify (some id)) p (.error e) q := by
  intro s hs
  obtain ⟨hresult, hpeer⟩ := hfetch s hs
  have hanswer : Chunk.accept id (((supplier verify).fetch id).on s).1 = .error e := hresult ▸ haccept
  rw [remainder, Exchange.on_of, Chunk.follow_error hanswer]
  exact ⟨rfl, hpeer⟩

theorem remainder_ok {verify : Bool} {p q u : σ} {chunk : Chunk} {r : Except TransportError Bytes}
    (hfetch : Yields (fetchChunk verify chunk.id) p (.ok chunk) q) (hrest : Yields (remainder verify chunk.next) q r u) :
    Yields (remainder verify (some chunk.id)) p ((chunk.payload ++ ·) <$> r) u := by
  intro s hs
  obtain ⟨hresult, hpeer⟩ := hfetch s hs
  have hanswer : Chunk.accept chunk.id (((supplier verify).fetch chunk.id).on s).1 = .ok chunk :=
    Chunk.accept_eq_ok.2 ⟨hresult, rfl⟩
  obtain ⟨hbytes, hlast⟩ := hrest _ hpeer
  rw [remainder, Exchange.on_of, Chunk.follow_ok hanswer]
  exact ⟨congrArg ((chunk.payload ++ ·) <$> ·) hbytes, hlast⟩

theorem reassemble_unreadable {verify : Bool} {frame : Bytes} {e : TransportError} (hopen : opened verify frame = .error e)
    (op : Operation) (p : σ) : Yields (reassemble verify op frame) p (.error e) p :=
  Yields.bind_error (hopen ▸ openFrame_yields verify frame p)

theorem reassemble_broken {verify : Bool} {frame : Bytes} {first : Chunk} {e : TransportError} {p q : σ}
    (hopen : opened verify frame = .ok first) (hrest : Yields (remainder verify first.next) p (.error e) q)
    (op : Operation) : Yields (reassemble verify op frame) p (.error e) (releaseOn q first.id).peer := by
  refine Yields.bind_ok (hopen ▸ openFrame_yields verify frame p) (Yields.bind_error ?_)
  refine Yields.tryCatch_error (Yields.bind_error hrest) ?_
  exact Yields.bind_ok (releaseChain_yields first.id q) (Yields.throw e _)

theorem reassemble_complete {verify : Bool} {frame : Bytes} {first : Chunk} {bytes : Bytes} {p q : σ}
    (hopen : opened verify frame = .ok first) (hrest : Yields (remainder verify first.next) p (.ok bytes) q)
    (op : Operation) : Yields (reassemble verify op frame) p (.ok (first.payload ++ bytes)) q := by
  refine Yields.bind_ok (hopen ▸ openFrame_yields verify frame p)
    (Yields.bind_ok (a := first.payload ++ bytes) (q := q) ?_ ?_)
  · exact Yields.tryCatch_ok (Yields.bind_ok hrest (Yields.pure _ q))
  · exact Yields.bind_ok (Yields.tally _ q) (Yields.bind_ok (Yields.note _ _ q) (Yields.pure _ q))

/-! ## Whole calls -/

def decoded (tag : Tag) (codec : Json.Codec α) (payload : Bytes) : Except TransportError α :=
  match codec.decode payload with
  | .ok a => .ok a
  | .error e => .error ⟨.internal, s!"failed to decode {tag.name} payload: {e.message}"⟩

theorem readPayload_yields {σ : Type} (tag : Tag) (codec : Json.Codec α) (payload : Bytes) (p : σ) :
    Yields (readPayload tag codec payload) p (decoded tag codec payload) p := by
  unfold readPayload decoded
  cases codec.decode payload with
  | ok a => exact Yields.pure a p
  | error e => exact Yields.throw _ p

theorem readValue_chunked {verify : Bool} {op : Operation} {tag : Tag} (htag : op.tag? = some tag)
    (codec : Json.Codec α) {frame : Bytes} {p q : σ} {r : Except TransportError Bytes}
    (hpayload : Yields (reassemble verify op frame) p r q) :
    Yields (readValue verify op codec (.chunked tag frame)) p (some <$> (r >>= decoded tag codec)) q := by
  rw [readValue, if_pos htag]
  cases r with
  | error e => exact Yields.bind_error hpayload
  | ok payload => exact Yields.bind_ok hpayload ((readPayload_yields tag codec payload q).map some)

theorem on_observe {σ : Type} (op : Operation) (x : Exchange (Link σ) α) (s : Noted (Link σ)) :
    ((observe op x).on s).1 = (x.on s).1 ∧ ((observe op x).on s).2.state.peer = (x.on s).2.state.peer := by
  unfold observe
  rw [Exchange.on_tryCatch]
  rcases x.on s with ⟨e | a, t⟩
  · by_cases h : e.requiresReconnect = true
    · simp only [if_pos h]
      exact ⟨rfl, rfl⟩
    · simp only [if_neg h]
      exact ⟨rfl, rfl⟩
  · exact ⟨rfl, rfl⟩

/-- Watching a call changes nothing of what it yields. -/
theorem observe_yields_iff {σ : Type} {op : Operation} {x : Exchange (Link σ) α} {p q : σ}
    {r : Except TransportError α} : Yields (observe op x) p r q ↔ Yields x p r q := by
  refine forall₂_congr fun s _ => ?_
  obtain ⟨hresult, hpeer⟩ := on_observe op x s
  rw [hresult, hpeer]

theorem observe_yields {σ : Type} {op : Operation} {x : Exchange (Link σ) α} {p q : σ} {r : Except TransportError α}
    (h : Yields x p r q) : Yields (observe op x) p r q :=
  observe_yields_iff.2 h

section

variable {config : Config} {call : Call} {p q : σ}

def firstOn (config : Config) (call : Call) (p : σ) : Delivery σ :=
  Channel.invoke p call.operation.method (call.arguments config.principal)

theorem invoke_first {reply : Reply} (hreply : (firstOn config call p).outcome = .ok reply) :
    Yields (invoke call.operation (call.arguments config.principal)) p (.ok reply) (firstOn config call p).peer := by
  have hinvoke := invoke_yields call.operation (call.arguments config.principal) p
  change Yields _ p (reading call.operation (firstOn config call p).outcome) (firstOn config call p).peer at hinvoke
  rwa [hreply] at hinvoke

theorem invoke_refused {failure : Failure} (hfailure : (firstOn config call p).outcome = .error failure) :
    Yields (invoke call.operation (call.arguments config.principal)) p
      (.error (Tunnel.decode failure call.operation.policy)) (firstOn config call p).peer := by
  have hinvoke := invoke_yields call.operation (call.arguments config.principal) p
  change Yields _ p (reading call.operation (firstOn config call p).outcome) (firstOn config call p).peer at hinvoke
  rwa [hfailure] at hinvoke

theorem request_chunked (codec : Json.Codec α) {tag : Tag} {frame : Bytes} {r : Except TransportError Bytes}
    (htag : call.operation.tag? = some tag) (hreply : (firstOn config call p).outcome = .ok (.chunked tag frame))
    (hpayload : Yields (reassemble config.verifyChecksums call.operation frame) (firstOn config call p).peer r q) :
    Yields (request config call codec) p (r >>= decoded tag codec) q := by
  have hvalue := readValue_chunked htag codec hpayload
  refine observe_yields (Yields.bind_ok (invoke_first hreply) ?_)
  cases hr : r >>= decoded tag codec with
  | error e =>
    rw [hr] at hvalue
    exact Yields.bind_error hvalue
  | ok a =>
    rw [hr] at hvalue
    exact Yields.bind_ok (a := some a) hvalue (Yields.pure a q)

theorem lookup_chunked (codec : Json.Codec α) {tag : Tag} {frame : Bytes} {r : Except TransportError Bytes}
    (htag : call.operation.tag? = some tag) (hreply : (firstOn config call p).outcome = .ok (.chunked tag frame))
    (hpayload : Yields (reassemble config.verifyChecksums call.operation frame) (firstOn config call p).peer r q) :
    Yields (lookup config call codec) p (some <$> (r >>= decoded tag codec)) q :=
  observe_yields (Yields.bind_ok (invoke_first hreply) (readValue_chunked htag codec hpayload))

theorem lookup_absent (codec : Json.Codec α) {tag : Tag} (hnullable : call.operation.tag? = some tag ∧ call.operation.isNullable = true)
    (hreply : (firstOn config call p).outcome = .ok (.absent tag)) :
    Yields (lookup config call codec) p (.ok none) (firstOn config call p).peer := by
  refine observe_yields (Yields.bind_ok (invoke_first hreply) ?_)
  rw [readValue, if_pos hnullable]
  exact Yields.pure none _

theorem command_unit (hreply : (firstOn config call p).outcome = .ok .unit) :
    Yields (command config call) p (.ok ()) (firstOn config call p).peer :=
  observe_yields (Yields.bind_ok (invoke_first hreply) (Yields.pure () _))

theorem bind_map (r : Except TransportError Bytes) (f : Bytes → Except TransportError α) (g : α → β) :
    g <$> (r >>= f) = r >>= fun payload => g <$> f payload := by
  cases r <;> rfl

/-- What a call makes of the payload of its value. -/
def interpret (call : Call) (payload : Bytes) : Except TransportError Answer :=
  match call with
  | .openTable _ => .info <$> decoded .tableInfo TableInfo.codec payload
  | .query _ => .rows <$> decoded .queryResult QueryResult.codec payload
  | .getRow .. => (fun row => .row (some row)) <$> decoded .row Row.codec payload
  | .getMetadata _ | .getMetadataIfChanged .. => .metadata <$> decoded .metadataSet MetadataSet.codec payload
  | .closeTable _ | .putMetadata _ | .deleteMetadata .. => .ok .done

/-- A call whose first invocation fails ends with the failure, read under the policy of its operation. -/
theorem perform_refused {failure : Failure} (hfailure : (firstOn config call p).outcome = .error failure) :
    Yields (perform config call) p (.error (Tunnel.decode failure call.operation.policy)) (firstOn config call p).peer := by
  have hinvoke := invoke_refused hfailure
  cases call <;> exact (observe_yields (Yields.bind_error hinvoke)).map _

/-- A call without a value is done when the reply is there. -/
theorem perform_unit (htag : call.operation.tag? = none) (hreply : (firstOn config call p).outcome = .ok .unit) :
    Yields (perform config call) p (.ok .done) (firstOn config call p).peer := by
  cases call with
  | closeTable | putMetadata | deleteMetadata => exact (command_unit hreply).map fun _ => Answer.done
  | openTable | query | getRow | getMetadata | getMetadataIfChanged => cases htag

theorem perform_absent {table row : String}
    (hreply : (firstOn config (.getRow table row) p).outcome = .ok (.absent .row)) :
    Yields (perform config (.getRow table row)) p (.ok (.row none)) (firstOn config (.getRow table row) p).peer :=
  (lookup_absent Row.codec ⟨rfl, rfl⟩ hreply).map Answer.row

/-- A call whose value comes in chunks ends with what it makes of the payload, or with what broke the chain. -/
theorem perform_chunked {tag : Tag} {frame : Bytes} {r : Except TransportError Bytes}
    (htag : call.operation.tag? = some tag) (hreply : (firstOn config call p).outcome = .ok (.chunked tag frame))
    (hpayload : Yields (reassemble config.verifyChecksums call.operation frame) (firstOn config call p).peer r q) :
    Yields (perform config call) p (r >>= interpret call) q := by
  cases call with
  | closeTable | putMetadata | deleteMetadata => cases htag
  | openTable table =>
    cases htag
    exact bind_map r _ _ ▸ (request_chunked _ rfl hreply hpayload).map Answer.info
  | query q =>
    cases htag
    exact bind_map r _ _ ▸ (request_chunked _ rfl hreply hpayload).map Answer.rows
  | getRow table row =>
    cases htag
    have hlookup := (lookup_chunked Row.codec rfl hreply hpayload).map Answer.row
    cases r with
    | error e => exact hlookup
    | ok payload =>
      have hsame : Answer.row <$> some <$> (Except.ok payload >>= decoded .row Row.codec) =
          Except.ok payload >>= interpret (.getRow table row) := by
        change Answer.row <$> some <$> decoded .row Row.codec payload = (fun row => Answer.row (some row)) <$> _
        cases decoded .row Row.codec payload <;> rfl
      exact hsame ▸ hlookup
  | getMetadata table =>
    cases htag
    exact bind_map r _ _ ▸ (request_chunked _ rfl hreply hpayload).map Answer.metadata
  | getMetadataIfChanged table known =>
    cases htag
    exact bind_map r _ _ ▸ (request_chunked _ rfl hreply hpayload).map Answer.metadata

end

end Client

end RemoteTable
