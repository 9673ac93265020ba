import Mathlib.Algebra.Group.Defs
import RemoteTable.Proofs.Client.Course

/-!
# What the counters count

Counts add up, field by field and modulo 2^64. `Counts x p m` says of an exchange that on a channel in state `p` it
adds `m` to the counters, whatever they were. What the channel is asked and answers is counted turn by turn (`heard`);
a payload that has been put together and the error of a call are counted once for the call (`perform_counts`).
-/

namespace RemoteTable

variable {σ α β : Type}

/-! ## Sums of counts -/

namespace Metrics

attribute [ext] Metrics

instance : Zero Metrics := ⟨{}⟩

instance : Add Metrics where
  add m n := {
    callsIssued := m.callsIssued + n.callsIssued
    callsFailed := m.callsFailed + n.callsFailed
    chunksFetched := m.chunksFetched + n.chunksFetched
    payloadBytes := m.payloadBytes + n.payloadBytes
    tunnelCollapses := m.tunnelCollapses + n.tunnelCollapses
    unavailable := m.unavailable + n.unavailable }

instance : AddMonoid Metrics where
  add_assoc _ _ _ := Metrics.ext (UInt64.add_assoc ..) (UInt64.add_assoc ..) (UInt64.add_assoc ..)
    (UInt64.add_assoc ..) (UInt64.add_assoc ..) (UInt64.add_assoc ..)
  zero_add _ := Metrics.ext (UInt64.zero_add _) (UInt64.zero_add _) (UInt64.zero_add _) (UInt64.zero_add _)
    (UInt64.zero_add _) (UInt64.zero_add _)
  add_zero _ := Metrics.ext (UInt64.add_zero _) (UInt64.add_zero _) (UInt64.add_zero _) (UInt64.add_zero _)
    (UInt64.add_zero _) (UInt64.add_zero _)
  nsmul := nsmulRec

@[simp] theorem callsIssued_add (m n : Metrics) : (m + n).callsIssued = m.callsIssued + n.callsIssued := rfl

@[simp] theorem callsFailed_add (m n : Metrics) : (m + n).callsFailed = m.callsFailed + n.callsFailed := rfl

@[simp] theorem chunksFetched_add (m n : Metrics) : (m + n).chunksFetched = m.chunksFetched + n.chunksFetched := rfl

@[simp] theorem payloadBytes_add (m n : Metrics) : (m + n).payloadBytes = m.payloadBytes + n.payloadBytes := rfl

@[simp] theorem tunnelCollapses_add (m n : Metrics) :
    (m + n).tunnelCollapses = m.tunnelCollapses + n.tunnelCollapses := rfl

@[simp] theorem unavailable_add (m n : Metrics) : (m + n).unavailable = m.unavailable + n.unavailable := rfl

/-! Each counter adds its own unit. -/

theorem issued_eq (m : Metrics) : m.issued = m + { callsIssued := 1 } := by ext <;> simp [issued]

theorem failed_eq (m : Metrics) : m.failed = m + { callsFailed := 1 } := by ext <;> simp [failed]

theorem fetched_eq (m : Metrics) : m.fetched = m + { chunksFetched := 1 } := by ext <;> simp [fetched]

theorem received_eq (n : UInt64) (m : Metrics) : m.received n = m + { payloadBytes := n } := by ext <;> simp [received]

theorem collapsed_eq (m : Metrics) : m.collapsed = m + { tunnelCollapses := 1 } := by ext <;> simp [collapsed]

theorem unreachable_eq (m : Metrics) : m.unreachable = m + { unavailable := 1 } := by ext <;> simp [unreachable]

end Metrics

/-! ## Counting -/

/-- On a channel in state `p` the exchange adds `m` to the counters. -/
def Counts (x : Exchange (Link σ) α) (p : σ) (m : Metrics) : Prop :=
  ∀ s : Noted (Link σ), s.state.peer = p → (x.on s).2.state.metrics = s.state.metrics + m

namespace Counts

variable {x : Exchange (Link σ) α} {f : α → Exchange (Link σ) β} {p q : σ} {a : α} {e : TransportError} {m n : Metrics}

theorem pure (a : α) (p : σ) : Counts (Pure.pure a) p 0 := fun s _ => (add_zero s.state.metrics).symm

theorem throw (e : TransportError) (p : σ) : Counts (MonadExcept.throw e : Exchange (Link σ) α) p 0 :=
  fun s _ => (add_zero s.state.metrics).symm

theorem note (event : Event) (fields : List (String × String)) (p : σ) : Counts (Exchange.note event fields) p 0 :=
  fun s _ => (add_zero s.state.metrics).symm

theorem report (records : List Record) (p : σ) : Counts (Exchange.report records) p 0 :=
  fun s _ => (add_zero s.state.metrics).symm

theorem tally {f : Metrics → Metrics} (h : ∀ k, f k = k + m) (p : σ) : Counts (Client.tally f) p m :=
  fun s _ => h s.state.metrics

theorem bind_ok (h : Yields x p (.ok a) q) (hx : Counts x p m) (hf : Counts (f a) q n) :
    Counts (x >>= f) p (m + n) := by
  intro s hs
  obtain ⟨hresult, hpeer⟩ := h s hs
  rw [Exchange.on_bind_ok (t := (x.on s).2) (Prod.ext hresult rfl), hf _ hpeer, hx s hs, add_assoc]

theorem bind_error (h : Yields x p (.error e) q) (hx : Counts x p m) : Counts (x >>= f) p m := by
  intro s hs
  rw [Exchange.on_bind_error (t := (x.on s).2) (Prod.ext (h s hs).1 rfl)]
  exact hx s hs

theorem quiet (h : Yields x p (.ok a) q) (hx : Counts x p 0) (hf : Counts (f a) q n) : Counts (x >>= f) p n :=
  zero_add n ▸ bind_ok h hx hf

theorem bind_quiet (h : Yields x p (.ok a) q) (hx : Counts x p m) (hf : Counts (f a) q 0) : Counts (x >>= f) p m :=
  add_zero m ▸ bind_ok h hx hf

theorem map (f : α → β) (hx : Counts x p m) : Counts (f <$> x) p m := by
  intro s hs
  rw [Exchange.on_map]
  exact hx s hs

theorem of_map {f : α → β} (h : Counts (f <$> x) p m) : Counts x p m := by
  intro s hs
  have hmapped := h s hs
  rwa [Exchange.on_map] at hmapped

theorem tryCatch_ok {g : TransportError → Exchange (Link σ) α} (h : Yields x p (.ok a) q) (hx : Counts x p m) :
    Counts (tryCatch x g) p m := by
  intro s hs
  have hon : x.on s = (.ok a, (x.on s).2) := Prod.ext (h s hs).1 rfl
  rw [Exchange.on_tryCatch, hon]
  exact hx s hs

theorem tryCatch_error {g : TransportError → Exchange (Link σ) α} (h : Yields x p (.error e) q) (hx : Counts x p m)
    (hg : Counts (g e) q n) : Counts (tryCatch x g) p (m + n) := by
  intro s hs
  obtain ⟨hresult, hpeer⟩ := h s hs
  have hon : x.on s = (.error e, (x.on s).2) := Prod.ext hresult rfl
  rw [Exchange.on_tryCatch, hon]
  exact (hg _ hpeer).trans (by rw [hx s hs, add_assoc])

theorem tryCatch_quiet {g : TransportError → Exchange (Link σ) α} (h : Yields x p (.error e) q) (hx : Counts x p m)
    (hg : Counts (g e) q 0) : Counts (tryCatch x g) p m :=
  add_zero m ▸ tryCatch_error h hx hg

end Counts

/-! ## Counts of turns -/

namespace Turn

/-- The outcome is a failure that is read as an internal error. -/
def collapses (t : Turn) : Bool :=
  match t.outcome, Operation.ofMethod? t.invocation.method with
  | .error failure, some op => (Tunnel.decode failure op.policy).kind = .internal
  | _, _ => false

/-- The turn is a fetch that brings a chunk. -/
def brings (verify : Bool) (t : Turn) : Bool :=
  t.invocation.method = Operation.fetchChunk.method ∧ (t.outcome.chunk? verify).isSome

/-- What is counted of an invocation whatever it is for. -/
def noted (t : Turn) : Metrics := { callsIssued := 1, tunnelCollapses := if t.collapses then 1 else 0 }

end Turn

/-- What is counted of turns. -/
def heard (verify : Bool) (turns : List Turn) : Metrics where
  callsIssued := UInt64.ofNat turns.length
  chunksFetched := UInt64.ofNat (turns.countP (Turn.brings verify))
  tunnelCollapses := UInt64.ofNat (turns.countP Turn.collapses)

theorem heard_append (verify : Bool) (before after : List Turn) :
    heard verify (before ++ after) = heard verify before + heard verify after := by
  unfold heard
  rw [List.length_append, List.countP_append, List.countP_append, UInt64.ofNat_add, UInt64.ofNat_add, UInt64.ofNat_add]
  rfl

theorem heard_singleton (verify : Bool) (t : Turn) :
    heard verify [t] = t.noted + if t.brings verify = true then { chunksFetched := 1 } else 0 := by
  unfold heard Turn.noted
  rw [List.countP_singleton, List.countP_singleton]
  cases t.brings verify <;> cases t.collapses <;> rfl

theorem heard_of_ne {verify : Bool} {t : Turn} (h : t.invocation.method ≠ Operation.fetchChunk.method) :
    heard verify [t] = t.noted := by
  rw [heard_singleton, if_neg (by simp [Turn.brings, h]), add_zero]

def drawn (verify : Bool) (outcome : Outcome) : Metrics :=
  match outcome.chunk? verify with
  | some _ => { chunksFetched := 1 }
  | none => 0

theorem heard_fetch (verify : Bool) (id : Token) (outcome : Outcome) :
    heard verify [.fetch id outcome] = (Turn.fetch id outcome).noted + drawn verify outcome := by
  rw [heard_singleton, Turn.brings, drawn]
  cases h : outcome.chunk? verify <;> simp [Turn.fetch, h]

namespace Client

/-- The payload that the turns of a call bring, if they bring all of it. -/
def payload? (verify : Bool) : List Turn → Option Bytes
  | [] => none
  | first :: rest => do
    let op ← Operation.ofMethod? first.invocation.method
    let head ← first.outcome.head? verify op
    let bytes ← gathered verify head.next rest
    return head.payload ++ bytes

def received (verify : Bool) (made : List Turn) : Metrics :=
  match payload? verify made with
  | some payload => { payloadBytes := UInt64.ofNat payload.length }
  | none => 0

def verdict : Except TransportError α → Metrics
  | .ok _ => 0
  | .error e => if e.requiresReconnect then { callsFailed := 1, unavailable := 1 } else { callsFailed := 1 }

/-! ## One invocation -/

def collapse (op : Operation) (failure : Failure) : Metrics :=
  if (Tunnel.decode failure op.policy).kind = .internal then { tunnelCollapses := 1 } else 0

theorem refuse_counts (op : Operation) (failure : Failure) (p : σ) :
    Counts (refuse op failure : Exchange (Link σ) α) p (collapse op failure) := by
  intro s hs
  unfold refuse noteCollapse collapse
  by_cases h : (Tunnel.decode failure op.policy).kind = .internal
  · simp only [if_pos h]
    exact Metrics.collapsed_eq s.state.metrics
  · simp only [if_neg h]
    exact (add_zero s.state.metrics).symm

/-- What is counted of an invocation: that it was made, and its failure. -/
theorem noted_eq (op : Operation) (args : Json) (outcome : Outcome) :
    Turn.noted ⟨⟨op.method, args⟩, outcome⟩ = { callsIssued := 1 } + match outcome with
      | .ok _ => 0
      | .error failure => collapse op failure := by
  cases outcome with
  | ok reply => rfl
  | error failure =>
    unfold Turn.noted collapse
    by_cases h : (Tunnel.decode failure op.policy).kind = .internal
    · simp [Turn.collapses, Operation.ofMethod?_method, h]
      rfl
    · simp [Turn.collapses, Operation.ofMethod?_method, h]

variable [Channel σ]

theorem transmit_counts (method : String) (args : Json) (p : σ) : Counts (transmit method args) p 0 :=
  fun s _ => (add_zero s.state.metrics).symm

theorem invoke_counts (op : Operation) (args : Json) (p : σ) :
    Counts (invoke op args) p (Turn.noted ⟨⟨op.method, args⟩, (Channel.invoke p op.method args).outcome⟩) := by
  rw [noted_eq]
  refine Counts.bind_ok (Yields.tally _ p) (Counts.tally Metrics.issued_eq p) ?_
  refine Counts.quiet (Yields.note _ _ p) (Counts.note _ _ p) ?_
  refine Counts.quiet (transmit_yields op.method args p) (transmit_counts op.method args p) ?_
  cases (Channel.invoke p op.method args).outcome with
  | ok reply => exact Counts.quiet (Yields.note _ _ _) (Counts.note _ _ _) (Counts.pure _ _)
  | error failure => exact refuse_counts op failure _

/-! ## Chains -/

omit [Channel σ] in
theorem openFrame_counts (verify : Bool) (frame : Bytes) (p : σ) : Counts (openFrame verify frame) p 0 := by
  unfold openFrame
  split
  · exact Counts.pure _ p
  · exact Counts.quiet (Yields.note _ _ p) (Counts.note _ _ p) (Counts.throw _ p)

/-- A chunk is counted when it has come and can be read. -/
theorem fetchChunk_counts (verify : Bool) (id : Token) (p : σ) :
    Counts (fetchChunk verify id) p (heard verify [.fetch id (fetchOn p id).outcome]) := by
  have hinvoke := invoke_yields .fetchChunk (FetchArgs.codec.pack ⟨id⟩) p
  have hcounts := invoke_counts .fetchChunk (FetchArgs.codec.pack ⟨id⟩) p
  change Yields _ p (reading .fetchChunk (fetchOn p id).outcome) (fetchOn p id).peer at hinvoke
  change Counts _ p (Turn.fetch id (fetchOn p id).outcome).noted at hcounts
  rw [heard_fetch]
  refine Counts.quiet (Yields.note _ _ p) (Counts.note _ _ p) ?_
  cases houtcome : (fetchOn p id).outcome with
  | error failure =>
    rw [houtcome] at hinvoke hcounts
    exact (add_zero (Turn.fetch id (.error failure)).noted).symm ▸ Counts.bind_error hinvoke hcounts
  | ok reply =>
    rw [houtcome] at hinvoke hcounts
    refine Counts.bind_ok hinvoke hcounts ?_
    cases reply with
    | fragment frame =>
      have hopen := openFrame_yields verify frame (fetchOn p id).peer
      have hquiet := openFrame_counts verify frame (fetchOn p id).peer
      rw [drawn, Outcome.chunk?]
      rw [opened] at hopen
      cases hframe : Frame.decode frame verify with
      | error e =>
        rw [hframe] at hopen
        exact Counts.bind_error hopen hquiet
      | ok chunk =>
        rw [hframe] at hopen
        exact Counts.quiet hopen hquiet
          (Counts.bind_quiet (Yields.tally _ _) (Counts.tally Metrics.fetched_eq _) (Counts.pure _ _))
    | unit | chunked | absent => exact Counts.throw _ _

theorem releaseChain_counts (verify : Bool) (chain : Token) (p : σ) :
    Counts (releaseChain chain) p (heard verify [.release chain (releaseOn p chain).outcome]) := by
  have hinvoke := invoke_yields .releaseChain (ReleaseArgs.codec.pack ⟨chain⟩) p
  have hcounts := invoke_counts .releaseChain (ReleaseArgs.codec.pack ⟨chain⟩) p
  rw [heard_of_ne fetch_ne_release.symm]
  cases hread : reading .releaseChain (Channel.invoke p Operation.releaseChain.method _).outcome with
  | error e =>
    rw [hread] at hinvoke
    exact Counts.tryCatch_quiet (hinvoke.map _) (hcounts.map _) (Counts.note _ _ _)
  | ok reply =>
    rw [hread] at hinvoke
    exact Counts.tryCatch_ok (hinvoke.map fun _ => ()) (hcounts.map _)

theorem remainder_counts_error {verify : Bool} {id : Token} {p q : σ} {answer : Except TransportError Chunk}
    {e : TransportError} {m : Metrics} (hfetch : Yields (fetchChunk verify id) p answer q)
    (haccept : Chunk.accept id answer = .error e) (h : Counts (fetchChunk verify id) p m) :
    Counts (remainder verify (some id)) p m := by
  intro s hs
  have hanswer : Chunk.accept id (((supplier verify).fetch id).on s).1 = .error e := (hfetch s hs).1 ▸ haccept
  rw [remainder, Exchange.on_of, Chunk.follow_error hanswer]
  exact h s hs

theorem remainder_counts_ok {verify : Bool} {p q : σ} {chunk : Chunk} {m n : Metrics}
    (hfetch : Yields (fetchChunk verify chunk.id) p (.ok chunk) q) (h : Counts (fetchChunk verify chunk.id) p m)
    (hrest : Counts (remainder verify chunk.next) q n) : Counts (remainder verify (some chunk.id)) p (m + n) := by
  intro s hs
  obtain ⟨hresult, hpeer⟩ := hfetch s hs
  have hanswer : Chunk.accept chunk.id (((supplier verify).fetch chunk.id).on s).1 = .ok chunk :=
    Chunk.accept_eq_ok.2 ⟨hresult, rfl⟩
  rw [remainder, Exchange.on_of, Chunk.follow_ok hanswer]
  refine (hrest _ hpeer).trans ?_
  rw [← add_assoc]
  exact congrArg (· + n) (h s hs)

theorem remainder_counts {verify : Bool} {next : Option Token} {fetches : List Turn} {r : Except TransportError Bytes}
    {p q : σ} (h : Fetches verify next fetches r) (hanswers : Channel.Answers p fetches q) :
    Counts (remainder verify next) p (heard verify fetches) := by
  induction h generalizing p with
  | complete =>
    intro s _
    rw [remainder, Exchange.on_of, Chunk.follow]
    exact (add_zero s.state.metrics).symm
  | @failed id outcome e unread _ =>
    have hfetch := fetchChunk_yields verify id p
    have hcounts := fetchChunk_counts verify id p
    obtain rfl : (fetchOn p id).outcome = outcome := hanswers.1
    cases haccept : Chunk.accept id (reading .fetchChunk (fetchOn p id).outcome >>= fragmentOf verify) with
    | error e => exact remainder_counts_error hfetch haccept hcounts
    | ok c => cases unread.symm.trans (reading_eq_ok.1 (Chunk.accept_eq_ok.1 haccept).1)
  | @strayed id outcome chunk e read other _ =>
    have hfetch := fetchChunk_yields verify id p
    have hcounts := fetchChunk_counts verify id p
    obtain rfl : (fetchOn p id).outcome = outcome := hanswers.1
    cases haccept : Chunk.accept id (reading .fetchChunk (fetchOn p id).outcome >>= fragmentOf verify) with
    | error e => exact remainder_counts_error hfetch haccept hcounts
    | ok c =>
      obtain ⟨hc, hsame⟩ := Chunk.accept_eq_ok.1 haccept
      cases read.symm.trans (reading_eq_ok.1 hc)
      exact absurd hsame other
  | @more id outcome chunk fetches r read same _ ih =>
    subst same
    have hfetch := fetchChunk_yields verify chunk.id p
    have hcounts := fetchChunk_counts verify chunk.id p
    obtain rfl : (fetchOn p chunk.id).outcome = outcome := hanswers.1
    rw [reading_eq_ok.2 read] at hfetch
    rw [← List.singleton_append, heard_append]
    exact remainder_counts_ok hfetch hcounts (ih hanswers.2)

theorem remainder_yields {verify : Bool} {next : Option Token} {fetches : List Turn} {r : Except TransportError Bytes}
    {p q : σ} (h : Fetches verify next fetches r) (hanswers : Channel.Answers p fetches q) :
    ∃ r', r'.toOption = r.toOption ∧ Yields (remainder verify next) p r' q := by
  obtain ⟨fetches', r', q', hanswers', h', hyields⟩ := remainder_fetches verify next p
  obtain rfl := h.unique h' hanswers.append_nil hanswers'.append_nil
  obtain rfl : q = q' := hanswers.end_eq hanswers'
  exact ⟨r', (h'.gathered_eq []).symm.trans (h.gathered_eq []), hyields⟩

theorem reassemble_counts_unreadable {verify : Bool} {frame : Bytes} {fault : FrameError}
    (hread : Frame.decode frame verify = .error fault) (op : Operation) (p : σ) :
    Counts (reassemble verify op frame) p 0 :=
  Counts.bind_error (opened_error hread ▸ openFrame_yields verify frame p) (openFrame_counts verify frame p)

/-- A chain that is given up: its fetches are counted, and its release. -/
theorem reassemble_counts_broken {verify : Bool} {frame : Bytes} {head : Chunk} {fetches : List Turn}
    {e : TransportError} {last : Outcome} {p q u : σ} (hread : Frame.decode frame verify = .ok head)
    (h : Fetches verify head.next fetches (.error e)) (hanswers : Channel.Answers p fetches q)
    (hrelease : Channel.Answers q [.release head.id last] u) (op : Operation) :
    ∃ e', Yields (reassemble verify op frame) p (.error e') (releaseOn q head.id).peer ∧
      Counts (reassemble verify op frame) p (heard verify (fetches ++ [.release head.id last])) := by
  obtain ⟨r', hr', hyields⟩ := remainder_yields h hanswers
  obtain ⟨e', rfl⟩ : ∃ e', r' = .error e' := by
    cases r' with
    | error e' => exact ⟨e', rfl⟩
    | ok bytes => cases hr'
  obtain rfl : (releaseOn q head.id).outcome = last := hrelease.1
  have hopen := opened_eq_ok.2 hread
  have htry : Yields (tryCatch (Chunk.decode (supplier verify) head) fun e => do
      releaseChain head.id
      throw e) p (.error e') (releaseOn q head.id).peer :=
    Yields.tryCatch_error (Yields.bind_error hyields)
      (Yields.bind_ok (releaseChain_yields head.id q) (Yields.throw e' _))
  refine ⟨e', reassemble_broken hopen hyields op, ?_⟩
  rw [heard_append]
  refine Counts.quiet (hopen ▸ openFrame_yields verify frame p) (openFrame_counts verify frame p) ?_
  refine Counts.bind_error htry (Counts.tryCatch_error (Yields.bind_error hyields)
    (Counts.bind_error hyields (remainder_counts h hanswers)) ?_)
  exact Counts.bind_quiet (releaseChain_yields head.id q) (releaseChain_counts verify head.id q) (Counts.throw e' _)

/-- A chain that comes to its end: its fetches are counted, and its bytes. -/
theorem reassemble_counts_complete {verify : Bool} {frame : Bytes} {head : Chunk} {fetches : List Turn} {bytes : Bytes}
    {p q : σ} (hread : Frame.decode frame verify = .ok head) (h : Fetches verify head.next fetches (.ok bytes))
    (hanswers : Channel.Answers p fetches q) (op : Operation) :
    Yields (reassemble verify op frame) p (.ok (head.payload ++ bytes)) q ∧
      Counts (reassemble verify op frame) p
        (heard verify fetches + { payloadBytes := UInt64.ofNat (head.payload ++ bytes).length }) := by
  obtain ⟨r', hr', hyields⟩ := remainder_yields h hanswers
  obtain rfl : r' = .ok bytes := by
    cases r' with
    | error e' => cases hr'
    | ok bytes' => exact congrArg Except.ok (Option.some.inj hr')
  have hopen := opened_eq_ok.2 hread
  have hdecode : Yields (Chunk.decode (supplier verify) head) p (.ok (head.payload ++ bytes)) q :=
    Yields.bind_ok hyields (Yields.pure _ q)
  refine ⟨reassemble_complete hopen hyields op, ?_⟩
  refine Counts.quiet (hopen ▸ openFrame_yields verify frame p) (openFrame_counts verify frame p) ?_
  refine Counts.bind_ok (Yields.tryCatch_ok hdecode) (Counts.tryCatch_ok hdecode ?_) ?_
  · exact Counts.bind_quiet hyields (remainder_counts h hanswers) (Counts.pure _ q)
  · exact Counts.bind_quiet (Yields.tally _ q) (Counts.tally (Metrics.received_eq _) q)
      (Counts.quiet (Yields.note _ _ q) (Counts.note _ _ q) (Counts.pure _ q))

/-! ## Whole calls -/

omit [Channel σ] in
theorem observe_counts {op : Operation} {x : Exchange (Link σ) α} {p q : σ} {r : Except TransportError α} {m : Metrics}
    (h : Yields x p r q) (hx : Counts x p m) : Counts (observe op x) p (m + verdict r) := by
  cases r with
  | ok a => exact (add_zero m).symm ▸ Counts.tryCatch_ok h hx
  | error e =>
    refine Counts.tryCatch_error h hx ?_
    unfold verdict
    by_cases hreconnect : e.requiresReconnect = true
    · simp only [if_pos hreconnect]
      have hboth : ({ callsFailed := 1, unavailable := 1 } : Metrics) = { callsFailed := 1 } + { unavailable := 1 } := rfl
      rw [hboth]
      refine Counts.bind_ok (Yields.tally _ q) (Counts.tally Metrics.failed_eq q) ?_
      refine Counts.bind_quiet (Yields.tally _ q) (Counts.tally Metrics.unreachable_eq q) ?_
      exact Counts.quiet (Yields.note _ _ q) (Counts.note _ _ q) (Counts.throw e q)
    · simp only [if_neg hreconnect]
      refine Counts.bind_quiet (Yields.tally _ q) (Counts.tally Metrics.failed_eq q) ?_
      exact Counts.quiet (Yields.note _ _ q) (Counts.note _ _ q) (Counts.throw e q)

omit [Channel σ] in
theorem ofExcept_counts (r : Except TransportError α) (p : σ) : Counts (ofExcept r) p 0 := by
  cases r with
  | error e => exact Counts.throw e p
  | ok a => exact Counts.pure a p

theorem opening_counts {config : Config} {call : Call} {p : σ} {outcome : Outcome}
    (h : (firstOn config call p).outcome = outcome) :
    Counts (invoke call.operation (call.arguments config.principal)) p
      (heard config.verifyChecksums [.opening config call outcome]) := by
  have hcounts := invoke_counts call.operation (call.arguments config.principal) p
  change Counts _ p (Turn.opening config call (firstOn config call p).outcome).noted at hcounts
  rw [heard_of_ne (method_ne_fetch call).symm]
  rwa [h] at hcounts

section

variable {config : Config} {call : Call} {outcome : Outcome} {head : Chunk} {rest : List Turn}

omit [Channel σ] in
theorem payload?_opening (verify : Bool) : payload? verify (.opening config call outcome :: rest) = (do
    let head ← outcome.head? verify call.operation
    let bytes ← gathered verify head.next rest
    return head.payload ++ bytes) := by
  rw [payload?]
  change (Operation.ofMethod? call.operation.method >>= _) = _
  rw [Operation.ofMethod?_method]
  rfl

theorem received_headless {verify : Bool} (h : outcome.head? verify call.operation = none) :
    received verify (.opening config call outcome :: rest) = 0 := by
  rw [received, payload?_opening, h]
  rfl

theorem received_broken {verify : Bool} (h : outcome.head? verify call.operation = some head)
    (hrest : gathered verify head.next rest = none) : received verify (.opening config call outcome :: rest) = 0 := by
  rw [received, payload?_opening, h, Option.bind_eq_bind, Option.bind_some, hrest]
  rfl

theorem received_complete {verify : Bool} {bytes : Bytes} (h : outcome.head? verify call.operation = some head)
    (hrest : gathered verify head.next rest = some bytes) : received verify (.opening config call outcome :: rest) =
      { payloadBytes := UInt64.ofNat (head.payload ++ bytes).length } := by
  rw [received, payload?_opening, h, Option.bind_eq_bind, Option.bind_some, hrest]
  rfl

end

theorem counts_alone {config : Config} {call : Call} {p : σ} {outcome : Outcome}
    (hfirst : (firstOn config call p).outcome = outcome)
    (hhead : outcome.head? config.verifyChecksums call.operation = none)
    (hsettle : ∀ reply, outcome = .ok reply → Counts (settle config call reply) (firstOn config call p).peer 0) :
    Counts (invoke call.operation (call.arguments config.principal) >>= settle config call) p
      (heard config.verifyChecksums [.opening config call outcome] +
        received config.verifyChecksums [.opening config call outcome]) := by
  rw [received_headless hhead, add_zero]
  cases outcome with
  | error failure => exact Counts.bind_error (invoke_refused hfirst) (opening_counts hfirst)
  | ok reply => exact Counts.bind_quiet (invoke_first hfirst) (opening_counts hfirst) (hsettle reply rfl)

theorem settle_counts_chunked {config : Config} {call : Call} {tag : Tag} {frame : Bytes}
    {r : Except TransportError Bytes} {m : Metrics} {p q : σ} (htag : call.operation.tag? = some tag)
    (hyields : Yields (reassemble config.verifyChecksums call.operation frame) p r q)
    (hcounts : Counts (reassemble config.verifyChecksums call.operation frame) p m) :
    Counts (settle config call (.chunked tag frame)) p m := by
  rw [settle, if_pos htag]
  cases r with
  | error e => exact Counts.bind_error hyields hcounts
  | ok payload => exact Counts.bind_quiet hyields hcounts (ofExcept_counts _ q)

theorem counts_chunked {config : Config} {call : Call} {tag : Tag} {frame : Bytes} {m : Metrics} {rest : List Turn} {p : σ}
    (hfirst : (firstOn config call p).outcome = .ok (.chunked tag frame))
    (hsettle : Counts (settle config call (.chunked tag frame)) (firstOn config call p).peer
      (heard config.verifyChecksums rest + m)) :
    Counts (invoke call.operation (call.arguments config.principal) >>= settle config call) p
      (heard config.verifyChecksums (.opening config call (.ok (.chunked tag frame)) :: rest) + m) := by
  rw [← List.singleton_append, heard_append, add_assoc]
  exact Counts.bind_ok (invoke_first hfirst) (opening_counts hfirst) hsettle

/-- A call counts its turns, its payload and its result. -/
theorem perform_counts {config : Config} {call : Call} {made : List Turn} {r : Except TransportError Answer} {p q q' : σ}
    (h : Ending config call made r) (hanswers : Channel.Answers p made q) (hyields : Yields (perform config call) p r q') :
    Counts (perform config call) p
      (heard config.verifyChecksums made + received config.verifyChecksums made + verdict r) := by
  rw [perform_eq] at hyields ⊢
  refine observe_counts (observe_yields_iff.1 hyields) ?_
  cases h with
  | refused => exact counts_alone hanswers.1 rfl nofun
  | done untagged =>
    refine counts_alone hanswers.1 rfl fun reply hreply => ?_
    cases hreply
    rw [settle, if_pos untagged]
    exact Counts.pure _ _
  | absent lookup =>
    subst lookup
    refine counts_alone hanswers.1 rfl fun reply hreply => ?_
    cases hreply
    exact Counts.pure _ _
  | unexpected wrong =>
    refine counts_alone hanswers.1 (head?_unexpected wrong) fun reply hreply => ?_
    cases hreply
    rw [settle_unexpected wrong]
    exact Counts.throw _ _
  | unreadable tagged unread =>
    refine counts_alone hanswers.1 (head?_unreadable unread) fun reply hreply => ?_
    cases hreply
    exact settle_counts_chunked tagged (reassemble_unreadable (opened_error unread) _ _)
      (reassemble_counts_unreadable unread _ _)
  | broken tagged read follows =>
    obtain ⟨u, hfetches, hrelease⟩ := hanswers.2.split
    obtain ⟨_, hreassemble, hcounts⟩ := reassemble_counts_broken read follows hfetches hrelease call.operation
    rw [received_broken (head?_chunked tagged read) (follows.gathered_eq _)]
    exact counts_chunked hanswers.1 (settle_counts_chunked tagged hreassemble ((add_zero (_ : Metrics)).symm ▸ hcounts))
  | @unparsed _ _ _ fetches _ _ tagged read follows | @value _ _ _ fetches _ _ tagged read follows =>
    obtain ⟨hreassemble, hcounts⟩ := reassemble_counts_complete read follows hanswers.2 call.operation
    have hgathered := follows.gathered_eq []
    rw [List.append_nil] at hgathered
    rw [received_complete (head?_chunked tagged read) hgathered]
    exact counts_chunked hanswers.1 (settle_counts_chunked tagged hreassemble hcounts)

end Client

end RemoteTable
