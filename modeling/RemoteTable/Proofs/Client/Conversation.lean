import RemoteTable.Proofs.Client.Yields

/-!
# Conversations

A turn is an invocation together with what came of it, and a conversation is a list of turns. Here it is said, from
the answers alone, which turns a call takes (`Protocol`) and how it ends (`Ending`). Nothing is assumed of who
answers: replies may have any shape, frames any bytes, chunks any id.

The way through a chain is `Fetches`. A call begins with its own method. If the reply has the first chunk of a chain
of the right type, the client asks for one chunk after another, each time by the id that the chunk before it names,
until a chunk names none or a fetch goes wrong; only in the second case, and then once, it gives the chain up.

The answers leave the client no choice (`Protocol.unique`).
-/

namespace RemoteTable

structure Turn where
  invocation : Invocation
  outcome : Outcome

/-! ## Turns on a channel -/

namespace Channel

variable {σ : Type} [Channel σ]

/-- Invoked in this order from the state `p` on, the channel gives these outcomes, and it ends in the state `q`. -/
def Answers : (p : σ) → List Turn → (q : σ) → Prop
  | p, [], q => q = p
  | p, t :: turns, q =>
    (invoke p t.invocation.method t.invocation.args).outcome = t.outcome ∧
      Answers (invoke p t.invocation.method t.invocation.args).peer turns q

/-- The turns that invocations make, one after another from the state `p` on. -/
def turns : (p : σ) → List Invocation → List Turn
  | _, [] => []
  | p, i :: rest => ⟨i, (invoke p i.method i.args).outcome⟩ :: turns (invoke p i.method i.args).peer rest

variable {p q u : σ} {before after : List Turn}

theorem Answers.append (h : Answers p before q) (h' : Answers q after u) : Answers p (before ++ after) u := by
  induction before generalizing p with
  | nil =>
    obtain rfl : q = p := h
    exact h'
  | cons t before ih => exact ⟨h.1, ih h.2⟩

theorem Answers.append_nil (h : Answers p before q) : Answers p (before ++ []) q :=
  (List.append_nil before).symm ▸ h

theorem Answers.split (h : Answers p (before ++ after) u) : ∃ q, Answers p before q ∧ Answers q after u := by
  induction before generalizing p with
  | nil => exact ⟨p, rfl, h⟩
  | cons t before ih =>
    obtain ⟨q, hbefore, hafter⟩ := ih h.2
    exact ⟨q, ⟨h.1, hbefore⟩, hafter⟩

theorem Answers.end_eq {ts : List Turn} (h : Answers p ts q) (h' : Answers p ts u) : q = u := by
  induction ts generalizing p with
  | nil =>
    obtain rfl : q = p := h
    obtain rfl : u = q := h'
    rfl
  | cons t ts ih => exact ih h.2 h'.2

theorem Answers.turns_eq {ts : List Turn} (h : Answers p ts q) : turns p (ts.map Turn.invocation) = ts := by
  induction ts generalizing p with
  | nil => rfl
  | cons t ts ih =>
    obtain ⟨houtcome, hrest⟩ := h
    rw [List.map_cons, turns, houtcome, ih hrest]

theorem Answers.of_recorded {p q : Recorded σ} {ts : List Turn} (h : Answers p ts q) :
    Answers p.peer ts q.peer ∧ q.calls = (ts.map Turn.invocation).reverse ++ p.calls := by
  induction ts generalizing p with
  | nil =>
    obtain rfl : q = p := h
    exact ⟨rfl, rfl⟩
  | cons t ts ih =>
    obtain ⟨houtcome, hrest⟩ := h
    obtain ⟨hpeer, hcalls⟩ := ih hrest
    refine ⟨⟨houtcome, hpeer⟩, ?_⟩
    rw [hcalls, List.map_cons, List.reverse_cons, List.append_assoc]
    rfl

end Channel

/-! ## What the client hears -/

def Outcome.chunk? (verify : Bool) : Outcome → Option Chunk
  | .ok (.fragment frame) => (Frame.decode frame verify).toOption
  | _ => none

/-- The first chunk of a chain, in a reply of the operation's type that can be read. -/
def Outcome.head? (verify : Bool) (op : Operation) : Outcome → Option Chunk
  | .ok (.chunked tag frame) => if op.tag? = some tag then (Frame.decode frame verify).toOption else none
  | _ => none

/-- A reply that the operation can have. -/
def Operation.Expects (op : Operation) : Reply → Prop
  | .unit => op.tag? = none
  | .chunked tag _ => op.tag? = some tag
  | .absent tag => op.tag? = some tag ∧ op.isNullable = true
  | .fragment _ => False

namespace Turn

def opening (config : Config) (call : Call) (outcome : Outcome) : Turn :=
  ⟨⟨call.operation.method, call.arguments config.principal⟩, outcome⟩

def fetch (id : Token) (outcome : Outcome) : Turn :=
  ⟨⟨Operation.fetchChunk.method, FetchArgs.codec.pack ⟨id⟩⟩, outcome⟩

def release (chain : Token) (outcome : Outcome) : Turn :=
  ⟨⟨Operation.releaseChain.method, ReleaseArgs.codec.pack ⟨chain⟩⟩, outcome⟩

/-- In a call of the operation one turn may come before another: the operation's own method is not invoked again,
nothing follows once a chain is given up, and what has failed is not tried again. -/
structure Precedes (op : Operation) (earlier later : Turn) : Prop where
  once : later.invocation.method ≠ op.method
  last : earlier.invocation.method ≠ Operation.releaseChain.method
  untried : earlier.outcome.isOk = false → later.invocation.method ≠ earlier.invocation.method

end Turn

/-! ## The rest of a chain -/

namespace Client

/-- To follow a chain that goes on with `next` takes these turns, and it ends with these bytes or with an error. -/
inductive Fetches (verify : Bool) : (next : Option Token) → List Turn → Except TransportError Bytes → Prop
  | complete : Fetches verify none [] (.ok [])
  /-- The fetch fails, or what comes is no chunk. -/
  | failed {id : Token} {outcome : Outcome} {e : TransportError} (unread : outcome.chunk? verify = none)
    (kind : e.kind = .unavailable) : Fetches verify (some id) [.fetch id outcome] (.error e)
  /-- The chunk is another than the one that was asked for. -/
  | strayed {id : Token} {outcome : Outcome} {chunk : Chunk} {e : TransportError}
    (read : outcome.chunk? verify = some chunk) (other : chunk.id ≠ id) (kind : e.kind = .internal) :
    Fetches verify (some id) [.fetch id outcome] (.error e)
  | more {id : Token} {outcome : Outcome} {chunk : Chunk} {turns : List Turn} {r : Except TransportError Bytes}
    (read : outcome.chunk? verify = some chunk) (same : chunk.id = id) (rest : Fetches verify chunk.next turns r) :
    Fetches verify (some id) (.fetch id outcome :: turns) ((chunk.payload ++ ·) <$> r)

/-- The bytes of the chain that goes on with `next`, if these turns bring all of it. -/
def gathered (verify : Bool) : (next : Option Token) → List Turn → Option Bytes
  | none, _ => some []
  | some _, [] => none
  | some id, t :: turns =>
    match t.outcome.chunk? verify with
    | none => none
    | some chunk => if chunk.id = id then (gathered verify chunk.next turns).map (chunk.payload ++ ·) else none

variable {verify : Bool} {next : Option Token} {turns later : List Turn} {r : Except TransportError Bytes}

theorem Fetches.gathered_eq (h : Fetches verify next turns r) (more : List Turn) :
    gathered verify next (turns ++ more) = r.toOption := by
  induction h with
  | complete => simp [gathered, Except.toOption]
  | failed unread _ =>
    simp only [List.cons_append, gathered, Turn.fetch, unread]
    rfl
  | strayed read other _ =>
    simp only [List.cons_append, gathered, Turn.fetch, read, if_neg other]
    rfl
  | @more _ _ _ _ r read same _ ih =>
    simp only [List.cons_append, gathered, Turn.fetch, read, if_pos same, ih]
    cases r <;> rfl

theorem Fetches.kind (h : Fetches verify next turns r) {e : TransportError} (hr : r = .error e) :
    e.kind = .unavailable ∨ e.kind = .internal := by
  induction h with
  | complete => cases hr
  | failed _ kind => exact .inl (Except.error.inj hr ▸ kind)
  | strayed _ _ kind => exact .inr (Except.error.inj hr ▸ kind)
  | @more _ _ _ _ r _ _ _ ih =>
    cases r with
    | error e' => exact ih (congrArg Except.error (Except.error.inj hr))
    | ok bytes => cases hr

theorem Fetches.method_eq (h : Fetches verify next turns r) {t : Turn} (ht : t ∈ turns) :
    t.invocation.method = Operation.fetchChunk.method := by
  induction h with
  | complete => cases ht
  | failed | strayed => rw [List.mem_singleton.1 ht, Turn.fetch]
  | more _ _ _ ih =>
    rcases List.mem_cons.1 ht with rfl | hlater
    · rfl
    · exact ih hlater

theorem Fetches.methods_eq (h : Fetches verify next turns r) :
    turns.map (·.invocation.method) = List.replicate turns.length Operation.fetchChunk.method := by
  refine List.eq_replicate_iff.2 ⟨List.length_map _, fun method hmethod => ?_⟩
  obtain ⟨t, ht, rfl⟩ := List.mem_map.1 hmethod
  exact h.method_eq ht

theorem Fetches.pairwise (h : Fetches verify next turns r) :
    turns.Pairwise fun earlier _ => ∃ chunk, earlier.outcome.chunk? verify = some chunk := by
  induction h with
  | complete => exact .nil
  | failed | strayed => exact List.pairwise_singleton _ _
  | more read _ _ ih => exact List.pairwise_cons.2 ⟨fun _ _ => ⟨_, read⟩, ih⟩

/-! ## Whole calls -/

/-- To make the call takes these turns. -/
inductive Protocol (config : Config) (call : Call) : List Turn → Prop
  /-- There is no chain to follow. -/
  | alone {outcome : Outcome} (headless : outcome.head? config.verifyChecksums call.operation = none) :
    Protocol config call [.opening config call outcome]
  /-- The chain is fetched to its end. -/
  | complete {outcome : Outcome} {head : Chunk} {fetches : List Turn} {bytes : Bytes}
    (heads : outcome.head? config.verifyChecksums call.operation = some head)
    (follows : Fetches config.verifyChecksums head.next fetches (.ok bytes)) :
    Protocol config call (.opening config call outcome :: fetches)
  /-- A fetch goes wrong, and the chain is given up. -/
  | released {outcome released : Outcome} {head : Chunk} {fetches : List Turn} {e : TransportError}
    (heads : outcome.head? config.verifyChecksums call.operation = some head)
    (follows : Fetches config.verifyChecksums head.next fetches (.error e)) :
    Protocol config call (.opening config call outcome :: (fetches ++ [.release head.id released]))

inductive Ending (config : Config) (call : Call) : List Turn → Except TransportError Answer → Prop
  /-- The failure of the call itself is read under the policy of its operation. -/
  | refused {failure : Failure} : Ending config call [.opening config call (.error failure)]
    (.error (Tunnel.decode failure call.operation.policy))
  | done (untagged : call.operation.tag? = none) : Ending config call [.opening config call (.ok .unit)] (.ok .done)
  | absent {table row : String} (lookup : call = .getRow table row) :
    Ending config call [.opening config call (.ok (.absent .row))] (.ok (.row none))
  /-- The reply has the wrong shape or the wrong tag. -/
  | unexpected {reply : Reply} {e : TransportError} (wrong : ¬call.operation.Expects reply) (kind : e.kind = .internal) :
    Ending config call [.opening config call (.ok reply)] (.error e)
  /-- The first frame cannot be read. -/
  | unreadable {tag : Tag} {frame : Bytes} {fault : FrameError} {e : TransportError}
    (tagged : call.operation.tag? = some tag)
    (unread : Frame.decode frame config.verifyChecksums = .error fault) (kind : e.kind = .internal) :
    Ending config call [.opening config call (.ok (.chunked tag frame))] (.error e)
  /-- A fetch goes wrong. -/
  | broken {tag : Tag} {frame : Bytes} {head : Chunk} {fetches : List Turn} {released : Outcome} {e : TransportError}
    (tagged : call.operation.tag? = some tag) (read : Frame.decode frame config.verifyChecksums = .ok head)
    (follows : Fetches config.verifyChecksums head.next fetches (.error e)) :
    Ending config call (.opening config call (.ok (.chunked tag frame)) :: (fetches ++ [.release head.id released]))
      (.error e)
  /-- The payload is no value of the type. -/
  | unparsed {tag : Tag} {frame : Bytes} {head : Chunk} {fetches : List Turn} {bytes : Bytes} {e : TransportError}
    (tagged : call.operation.tag? = some tag) (read : Frame.decode frame config.verifyChecksums = .ok head)
    (follows : Fetches config.verifyChecksums head.next fetches (.ok bytes))
    (fails : interpret call (head.payload ++ bytes) = .error e) (kind : e.kind = .internal) :
    Ending config call (.opening config call (.ok (.chunked tag frame)) :: fetches) (.error e)
  | value {tag : Tag} {frame : Bytes} {head : Chunk} {fetches : List Turn} {bytes : Bytes} {a : Answer}
    (tagged : call.operation.tag? = some tag) (read : Frame.decode frame config.verifyChecksums = .ok head)
    (follows : Fetches config.verifyChecksums head.next fetches (.ok bytes))
    (parses : interpret call (head.payload ++ bytes) = .ok a) :
    Ending config call (.opening config call (.ok (.chunked tag frame)) :: fetches) (.ok a)

variable {config : Config} {call : Call} {result : Except TransportError Answer}

theorem head?_chunked {tag : Tag} {frame : Bytes} {head : Chunk} {op : Operation} (htag : op.tag? = some tag)
    (hread : Frame.decode frame verify = .ok head) : Outcome.head? verify op (.ok (.chunked tag frame)) = some head := by
  simp only [Outcome.head?, htag, if_true, hread]
  rfl

theorem head?_unexpected {op : Operation} {reply : Reply} (hwrong : ¬op.Expects reply) :
    Outcome.head? verify op (.ok reply) = none := by
  cases reply with
  | chunked tag frame => exact if_neg hwrong
  | unit | absent | fragment => rfl

theorem head?_unreadable {tag : Tag} {frame : Bytes} {fault : FrameError} {op : Operation}
    (hread : Frame.decode frame verify = .error fault) : Outcome.head? verify op (.ok (.chunked tag frame)) = none := by
  simp only [Outcome.head?, hread]
  exact ite_self none

theorem Ending.protocol (h : Ending config call turns result) : Protocol config call turns := by
  cases h with
  | refused | done | absent => exact .alone rfl
  | unexpected wrong => exact .alone (head?_unexpected wrong)
  | unreadable _ unread => exact .alone (head?_unreadable unread)
  | broken tagged read follows => exact .released (head?_chunked tagged read) follows
  | unparsed tagged read follows | value tagged read follows => exact .complete (head?_chunked tagged read) follows

/-! ## The order of the turns -/

theorem isOk_of_chunk? {outcome : Outcome} {chunk : Chunk} (h : outcome.chunk? verify = some chunk) :
    outcome.isOk = true := by
  cases outcome with
  | error failure => cases h
  | ok reply => rfl

theorem method_ne {op op' : Operation} (h : op ≠ op') : op.method ≠ op'.method := by
  intro hmethod
  refine h (Option.some.inj ?_)
  rw [← Operation.ofMethod?_method op, hmethod, Operation.ofMethod?_method]

theorem method_ne_fetch (call : Call) : Operation.fetchChunk.method ≠ call.operation.method :=
  method_ne (by cases call <;> nofun)

theorem method_ne_release (call : Call) : Operation.releaseChain.method ≠ call.operation.method :=
  method_ne (by cases call <;> nofun)

theorem fetch_ne_release : Operation.fetchChunk.method ≠ Operation.releaseChain.method := method_ne nofun

theorem opening_precedes_fetch {outcome : Outcome} {t : Turn}
    (h : t.invocation.method = Operation.fetchChunk.method) :
    Turn.Precedes call.operation (.opening config call outcome) t where
  once := h ▸ method_ne_fetch call
  last := (method_ne_release call).symm
  untried _ := h ▸ method_ne_fetch call

theorem Fetches.ordered (h : Fetches verify next turns r) (call : Call) :
    turns.Pairwise (Turn.Precedes call.operation) := by
  refine h.pairwise.imp_of_mem fun hearlier hlater ⟨chunk, hchunk⟩ => ⟨?_, ?_, ?_⟩
  · exact h.method_eq hlater ▸ method_ne_fetch call
  · exact h.method_eq hearlier ▸ fetch_ne_release
  · intro hfails
    cases (isOk_of_chunk? hchunk).symm.trans hfails

/-- Within a call the turns are in order. -/
theorem Protocol.ordered (h : Protocol config call turns) : turns.Pairwise (Turn.Precedes call.operation) := by
  cases h with
  | alone => exact List.pairwise_singleton _ _
  | complete _ follows =>
    exact List.pairwise_cons.2 ⟨fun t ht => opening_precedes_fetch (follows.method_eq ht), follows.ordered call⟩
  | released _ follows =>
    refine List.pairwise_cons.2 ⟨fun t ht => ?_, List.pairwise_append.2 ⟨follows.ordered call,
      List.pairwise_singleton _ _, fun t ht u hu => ?_⟩⟩
    · rcases List.mem_append.1 ht with hfetch | hrelease
      · exact opening_precedes_fetch (follows.method_eq hfetch)
      · obtain rfl := List.mem_singleton.1 hrelease
        exact ⟨method_ne_release call, (method_ne_release call).symm, fun _ => method_ne_release call⟩
    · obtain rfl := List.mem_singleton.1 hu
      have hmethod := follows.method_eq ht
      exact ⟨method_ne_release call, hmethod ▸ fetch_ne_release, fun _ => hmethod ▸ fetch_ne_release.symm⟩

/-- A chain is given up if and only if it has begun and its turns do not bring all of it. -/
theorem Protocol.release_iff (h : Protocol config call turns) :
    (∃ t ∈ turns, t.invocation.method = Operation.releaseChain.method) ↔
      ∃ first rest head, turns = first :: rest ∧
        first.outcome.head? config.verifyChecksums call.operation = some head ∧
        gathered config.verifyChecksums head.next rest = none := by
  cases h with
  | @alone outcome headless =>
    constructor
    · rintro ⟨t, ht, hmethod⟩
      rw [List.mem_singleton.1 ht] at hmethod
      exact absurd hmethod.symm (method_ne_release call)
    · rintro ⟨first, rest, head, hturns, hhead, -⟩
      obtain ⟨rfl, -⟩ := List.cons.inj hturns
      cases headless.symm.trans hhead
  | @complete outcome head fetches bytes heads follows =>
    have hgathered := follows.gathered_eq []
    rw [List.append_nil] at hgathered
    constructor
    · rintro ⟨t, ht, hmethod⟩
      rcases List.mem_cons.1 ht with rfl | hfetch
      · exact absurd hmethod.symm (method_ne_release call)
      · exact absurd ((follows.method_eq hfetch).symm.trans hmethod) fetch_ne_release
    · rintro ⟨first, rest, head', hturns, hhead, hnone⟩
      obtain ⟨rfl, rfl⟩ := List.cons.inj hturns
      cases heads.symm.trans hhead
      cases hgathered.symm.trans hnone
  | @released outcome last head fetches e heads follows =>
    refine iff_of_true ⟨.release head.id last, by simp, rfl⟩ ⟨_, _, head, rfl, heads, ?_⟩
    exact follows.gathered_eq _

theorem Protocol.eq_nil_of_headless {first : Turn} {rest : List Turn} (h : Protocol config call (first :: rest))
    (hhead : first.outcome.head? config.verifyChecksums call.operation = none) : rest = [] := by
  cases h with
  | alone => rfl
  | complete heads | released heads => cases hhead.symm.trans heads

theorem head?_eq_none {op : Operation} {outcome : Outcome}
    (h : op.tag? = none ∨ ∃ tag, outcome = .ok (.absent tag)) : outcome.head? verify op = none := by
  match outcome with
  | .error failure => rfl
  | .ok (.chunked tag frame) =>
    rcases h with htag | ⟨other, habsent⟩
    · simp [Outcome.head?, htag]
    · cases habsent
  | .ok .unit | .ok (.absent _) | .ok (.fragment _) => rfl

/-! ## The answers decide -/

variable {σ : Type} [Channel σ] {p q u : σ}

/-- The fetches of a chain are determined by the answers to them, also when other turns come after. -/
theorem Fetches.unique {later' : List Turn} {r' : Except TransportError Bytes} {turns' : List Turn}
    (h : Fetches verify next turns r) (h' : Fetches verify next turns' r') (hq : Channel.Answers p (turns ++ later) q)
    (hu : Channel.Answers p (turns' ++ later') u) : turns = turns' := by
  induction h generalizing p turns' r' with
  | complete =>
    cases h'
    rfl
  | failed unread _ =>
    cases h' with
    | failed =>
      obtain rfl := hq.1.symm.trans hu.1
      rfl
    | strayed read | more read =>
      obtain rfl := hq.1.symm.trans hu.1
      cases unread.symm.trans read
  | strayed read other _ =>
    cases h' with
    | failed unread =>
      obtain rfl := hq.1.symm.trans hu.1
      cases unread.symm.trans read
    | strayed =>
      obtain rfl := hq.1.symm.trans hu.1
      rfl
    | more read' same =>
      obtain rfl := hq.1.symm.trans hu.1
      cases read.symm.trans read'
      exact absurd same other
  | more read same _ ih =>
    cases h' with
    | failed unread =>
      obtain rfl := hq.1.symm.trans hu.1
      cases unread.symm.trans read
    | strayed read' other =>
      obtain rfl := hq.1.symm.trans hu.1
      cases read.symm.trans read'
      exact absurd same other
    | more read' _ rest' =>
      obtain rfl := hq.1.symm.trans hu.1
      cases read.symm.trans read'
      exact congrArg (_ :: ·) (ih rest' hq.2 hu.2)

/-- A chain that has come to its end has not gone wrong on the same turns. -/
theorem Fetches.ok_ne_error {bytes : Bytes} {e : TransportError} (h : Fetches verify next turns (.ok bytes))
    (h' : Fetches verify next turns (.error e)) : False := by
  have hboth := (h.gathered_eq []).symm.trans (h'.gathered_eq [])
  cases hboth

/-- The turns of a call are determined by the answers to them. -/
theorem Protocol.unique {turns' : List Turn} (h : Protocol config call turns) (h' : Protocol config call turns')
    (hq : Channel.Answers p turns q) (hu : Channel.Answers p turns' u) : turns = turns' := by
  cases h with
  | alone headless =>
    cases h' with
    | alone =>
      obtain rfl := hq.1.symm.trans hu.1
      rfl
    | complete heads | released heads =>
      obtain rfl := hq.1.symm.trans hu.1
      cases headless.symm.trans heads
  | complete heads follows =>
    cases h' with
    | alone headless =>
      obtain rfl := hq.1.symm.trans hu.1
      cases headless.symm.trans heads
    | complete heads' follows' =>
      obtain rfl := hq.1.symm.trans hu.1
      cases heads.symm.trans heads'
      exact congrArg (_ :: ·) (follows.unique follows' hq.2.append_nil hu.2.append_nil)
    | released heads' follows' =>
      obtain rfl := hq.1.symm.trans hu.1
      cases heads.symm.trans heads'
      obtain rfl := follows.unique follows' hq.2.append_nil hu.2
      exact (follows.ok_ne_error follows').elim
  | released heads follows =>
    cases h' with
    | alone headless =>
      obtain rfl := hq.1.symm.trans hu.1
      cases headless.symm.trans heads
    | complete heads' follows' =>
      obtain rfl := hq.1.symm.trans hu.1
      cases heads.symm.trans heads'
      obtain rfl := follows.unique follows' hq.2 hu.2.append_nil
      exact (follows'.ok_ne_error follows).elim
    | released heads' follows' =>
      obtain rfl := hq.1.symm.trans hu.1
      cases heads.symm.trans heads'
      obtain rfl := follows.unique follows' hq.2 hu.2
      obtain ⟨v, hfetches, hlast⟩ := hq.2.split
      obtain ⟨v', hfetches', hlast'⟩ := hu.2.split
      obtain rfl := hfetches.end_eq hfetches'
      obtain rfl := hlast.1.symm.trans hlast'.1
      rfl

end Client

end RemoteTable
