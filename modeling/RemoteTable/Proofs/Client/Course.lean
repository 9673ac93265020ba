import RemoteTable.Proofs.Client.Conversation
import RemoteTable.Proofs.Tunnel

/-!
# The course of a call

Every call of the client is one invocation, after which the reply is settled, and whatever goes wrong is noted once
(`perform_eq`). From this it follows for every channel which turns a call takes (`perform_protocol`) and how it ends
(`perform_ends`). The induction is over the chain, along the channel's credit (`remainder_fetches`).

`turns` are the turns that a call takes on a channel: the invocations that the channel is seen to get, with its answers.
-/

namespace RemoteTable

namespace Client

variable {σ α β : Type}

/-! ## One form for all calls -/

theorem map_observe (op : Operation) (f : α → β) (x : Exchange (Link σ) α) :
    f <$> observe op x = observe op (f <$> x) := by
  refine Exchange.ext fun s => ?_
  unfold observe
  rw [Exchange.on_map, Exchange.on_tryCatch, Exchange.on_tryCatch, Exchange.on_map]
  rcases x.on s with ⟨e | a, t⟩
  · change _ = Exchange.on _ t
    by_cases h : e.requiresReconnect = true
    · simp only [if_pos h]
      rfl
    · simp only [if_neg h]
      rfl
  · rfl

variable [Channel σ]

/-- What a call makes of the reply to its own invocation. -/
def settle (config : Config) (call : Call) (reply : Reply) : Exchange (Link σ) Answer :=
  match reply with
  | .unit => if call.operation.tag? = none then return .done else throw (unexpected call.operation reply)
  | .absent tag =>
    if call.operation.tag? = some tag ∧ call.operation.isNullable then return .row none
    else throw (unexpected call.operation reply)
  | .chunked tag frame =>
    if call.operation.tag? = some tag then do
      let payload ← reassemble config.verifyChecksums call.operation frame
      ofExcept (interpret call payload)
    else throw (unexpected call.operation reply)
  | .fragment _ => throw (unexpected call.operation reply)

theorem readPayload_eq {σ : Type} (tag : Tag) (codec : Json.Codec α) (payload : Bytes) :
    (readPayload tag codec payload : Exchange σ α) = ofExcept (decoded tag codec payload) := by
  unfold readPayload decoded
  cases codec.decode payload <;> rfl

theorem command_eq (config : Config) {call : Call} (h : call.operation.tag? = none) :
    (fun _ => Answer.done) <$> (command config call : Exchange (Link σ) Unit) =
      observe call.operation (invoke call.operation (call.arguments config.principal) >>= settle config call) := by
  unfold command
  rw [map_observe, map_bind]
  congr 2
  funext reply
  unfold settle
  cases reply with
  | unit =>
    rw [if_pos h]
    rfl
  | absent tag =>
    simp only [h, reduceCtorEq, false_and, if_false]
    rfl
  | chunked tag frame =>
    simp only [h, reduceCtorEq, if_false]
    rfl
  | fragment frame => rfl

/-- To read a value and go on with it settles the reply, if this is what the call makes of its payload. -/
theorem readValue_settle {config : Config} {call : Call} {tag : Tag} {codec : Json.Codec α}
    {go : Option α → Exchange (Link σ) Answer} (htag : call.operation.tag? = some tag)
    (habsent : call.operation.isNullable = true → go none = pure (.row none))
    (hvalue : ∀ payload, (ofExcept (decoded tag codec payload) >>= fun a => go (some a)) = ofExcept (interpret call payload))
    (reply : Reply) : readValue config.verifyChecksums call.operation codec reply >>= go = settle config call reply := by
  unfold settle readValue
  cases reply with
  | unit | fragment =>
    simp only [htag, reduceCtorEq, if_false]
    rfl
  | absent other =>
    by_cases h : call.operation.tag? = some other ∧ call.operation.isNullable = true
    · simp only [if_pos h, pure_bind, habsent h.2]
    · simp only [if_neg h]
      rfl
  | chunked other frame =>
    by_cases h : call.operation.tag? = some other
    · obtain rfl : tag = other := Option.some.inj (htag.symm.trans h)
      simp only [if_pos h, bind_assoc, readPayload_eq, map_eq_pure_bind, pure_bind, hvalue]
    · simp only [if_neg h]
      rfl

theorem request_eq (config : Config) {call : Call} {tag : Tag} {codec : Json.Codec α} {f : α → Answer}
    (htag : call.operation.tag? = some tag) (hpresent : call.operation.isNullable = false)
    (hvalue : ∀ payload, interpret call payload = f <$> decoded tag codec payload) :
    f <$> (request config call codec : Exchange (Link σ) α) =
      observe call.operation (invoke call.operation (call.arguments config.principal) >>= settle config call) := by
  unfold request
  rw [map_observe, map_bind]
  congr 2
  funext reply
  rw [map_bind]
  refine readValue_settle htag (fun h => nomatch hpresent.symm.trans h) (fun payload => ?_) reply
  rw [hvalue]
  cases decoded tag codec payload <;> rfl

theorem lookup_eq (config : Config) {call : Call} {tag : Tag} {codec : Json.Codec α} {f : Option α → Answer}
    (htag : call.operation.tag? = some tag) (habsent : f none = .row none)
    (hvalue : ∀ payload, interpret call payload = (fun a => f (some a)) <$> decoded tag codec payload) :
    f <$> (lookup config call codec : Exchange (Link σ) (Option α)) =
      observe call.operation (invoke call.operation (call.arguments config.principal) >>= settle config call) := by
  unfold lookup
  rw [map_observe, map_bind]
  congr 2
  funext reply
  rw [map_eq_pure_bind]
  refine readValue_settle htag (fun _ => congrArg pure habsent) (fun payload => ?_) reply
  rw [hvalue]
  cases decoded tag codec payload <;> rfl

theorem perform_eq (config : Config) (call : Call) : (perform config call : Exchange (Link σ) Answer) =
    observe call.operation (invoke call.operation (call.arguments config.principal) >>= settle config call) := by
  cases call with
  | closeTable | putMetadata | deleteMetadata => exact command_eq config rfl
  | openTable | query | getMetadata | getMetadataIfChanged => exact request_eq config rfl rfl fun _ => rfl
  | getRow => exact lookup_eq config rfl rfl fun _ => rfl

theorem settle_unexpected {config : Config} {call : Call} {reply : Reply} (hwrong : ¬call.operation.Expects reply) :
    (settle config call reply : Exchange (Link σ) Answer) = throw (unexpected call.operation reply) := by
  cases reply with
  | unit | chunked | absent => exact if_neg hwrong
  | fragment => rfl

theorem perform_unexpected {config : Config} {call : Call} {p : σ} {reply : Reply}
    (hreply : (firstOn config call p).outcome = .ok reply) (hwrong : ¬call.operation.Expects reply) :
    Yields (perform config call) p (.error (unexpected call.operation reply)) (firstOn config call p).peer := by
  rw [perform_eq]
  refine observe_yields (Yields.bind_ok (invoke_first hreply) ?_)
  rw [settle_unexpected hwrong]
  exact Yields.throw _ _

/-! ## Following a chain -/

theorem opened_eq_ok {verify : Bool} {frame : Bytes} {chunk : Chunk} :
    opened verify frame = .ok chunk ↔ Frame.decode frame verify = .ok chunk := by
  unfold opened
  cases Frame.decode frame verify <;> simp

theorem opened_error {verify : Bool} {frame : Bytes} {fault : FrameError} (h : Frame.decode frame verify = .error fault) :
    opened verify frame = .error fault.toTransport := by
  rw [opened, h]

theorem reading_eq_ok {verify : Bool} {outcome : Outcome} {chunk : Chunk} :
    (reading .fetchChunk outcome >>= fragmentOf verify) = .ok chunk ↔ outcome.chunk? verify = some chunk := by
  match outcome with
  | .error failure => simp [reading, Outcome.chunk?]
  | .ok .unit | .ok (.chunked ..) | .ok (.absent _) => simp [reading, fragmentOf, Outcome.chunk?]
  | .ok (.fragment frame) =>
    simp only [reading, Fallible.ok_bind, fragmentOf, opened_eq_ok, Outcome.chunk?]
    cases Frame.decode frame verify <;> simp [Except.toOption]

theorem Fetches.of_error {verify : Bool} {id : Token} {outcome : Outcome} {e : TransportError}
    (h : Chunk.accept id (reading .fetchChunk outcome >>= fragmentOf verify) = .error e) :
    Fetches verify (some id) [.fetch id outcome] (.error e) := by
  cases hread : reading .fetchChunk outcome >>= fragmentOf verify with
  | error fault =>
    rw [hread] at h
    obtain rfl := Except.error.inj h
    refine .failed (Option.eq_none_iff_forall_ne_some.2 fun chunk hchunk => ?_) rfl
    cases hread.symm.trans (reading_eq_ok.2 hchunk)
  | ok chunk =>
    rw [hread, Chunk.accept] at h
    split at h
    · cases h
    · rename_i hother
      obtain rfl := Except.error.inj h
      exact .strayed (reading_eq_ok.1 hread) hother rfl

/-- Every chunk lowers the channel's credit. -/
theorem spends_of_chunk? {verify : Bool} {p : σ} {id : Token} {chunk : Chunk}
    (h : (fetchOn p id).outcome.chunk? verify = some chunk) :
    Channel.credit (fetchOn p id).peer < Channel.credit p := by
  cases houtcome : (fetchOn p id).outcome with
  | error failure =>
    rw [houtcome] at h
    cases h
  | ok reply =>
    rw [houtcome] at h
    cases reply with
    | fragment frame => exact Channel.spends _ _ _ frame houtcome
    | unit | chunked | absent => cases h

/-- The rest of a chain is fetched as `Fetches` says, over every channel. -/
theorem remainder_fetches (verify : Bool) (next : Option Token) (p : σ) : ∃ turns r q, Channel.Answers p turns q ∧
    Fetches verify next turns r ∧ Yields (remainder verify next) p r q := by
  cases next with
  | none => exact ⟨[], .ok [], p, rfl, .complete, remainder_none verify p⟩
  | some id =>
    have hfetch := fetchChunk_yields verify id p
    cases haccept : Chunk.accept id (reading .fetchChunk (fetchOn p id).outcome >>= fragmentOf verify) with
    | error e =>
      exact ⟨[.fetch id (fetchOn p id).outcome], .error e, (fetchOn p id).peer, ⟨rfl, rfl⟩, .of_error haccept,
        remainder_error hfetch haccept⟩
    | ok chunk =>
      obtain ⟨hread, rfl⟩ := Chunk.accept_eq_ok.1 haccept
      have hchunk := reading_eq_ok.1 hread
      obtain ⟨turns, r, q, hanswers, hfetches, hyields⟩ := remainder_fetches verify chunk.next (fetchOn p chunk.id).peer
      rw [hread] at hfetch
      exact ⟨.fetch chunk.id (fetchOn p chunk.id).outcome :: turns, (chunk.payload ++ ·) <$> r, q, ⟨rfl, hanswers⟩,
        .more hchunk rfl hfetches, remainder_ok hfetch hyields⟩
termination_by Channel.credit p
decreasing_by exact spends_of_chunk? hchunk

/-! ## Whole calls -/

theorem kind_of_decoded {tag : Tag} {codec : Json.Codec α} {payload : Bytes} {e : TransportError}
    (h : decoded tag codec payload = .error e) : e.kind = .internal := by
  unfold decoded at h
  split at h
  · cases h
  · exact Except.error.inj h ▸ rfl

theorem kind_of_interpret {call : Call} {payload : Bytes} {e : TransportError} (h : interpret call payload = .error e) :
    e.kind = .internal := by
  have hmap {β : Type} {f : β → Answer} {x : Except TransportError β} (h : f <$> x = .error e) : x = .error e := by
    cases x with
    | error e' => exact congrArg Except.error (Except.error.inj h)
    | ok b => cases h
  cases call with
  | openTable | query | getRow | getMetadata | getMetadataIfChanged => exact kind_of_decoded (hmap h)
  | closeTable | putMetadata | deleteMetadata => cases h

theorem getRow_of_isNullable {call : Call} (h : call.operation.isNullable = true) :
    ∃ table row, call = .getRow table row := by
  cases call with
  | getRow table row => exact ⟨table, row, rfl⟩
  | openTable | closeTable | query | getMetadata | getMetadataIfChanged | putMetadata | deleteMetadata => cases h

theorem answers_opening {config : Config} {call : Call} {p : σ} {outcome : Outcome}
    (h : (firstOn config call p).outcome = outcome) :
    Channel.Answers p [.opening config call outcome] (firstOn config call p).peer :=
  ⟨h, rfl⟩

theorem course_chunked {config : Config} {call : Call} {p : σ} {tag : Tag} {frame : Bytes}
    (hreply : (firstOn config call p).outcome = .ok (.chunked tag frame)) (htag : call.operation.tag? = some tag) :
    ∃ turns r q, Channel.Answers p turns q ∧ Ending config call turns r ∧ Yields (perform config call) p r q := by
  cases hread : Frame.decode frame config.verifyChecksums with
  | error fault =>
    exact ⟨_, _, _, answers_opening hreply, .unreadable htag hread rfl,
      perform_chunked htag hreply (reassemble_unreadable (opened_error hread) _ _)⟩
  | ok head =>
    have hopen := opened_eq_ok.2 hread
    obtain ⟨fetches, r, q, hanswers, hfetches, hyields⟩ :=
      remainder_fetches config.verifyChecksums head.next (firstOn config call p).peer
    cases r with
    | error e =>
      have hrelease : Channel.Answers q [.release head.id (releaseOn q head.id).outcome] (releaseOn q head.id).peer :=
        ⟨rfl, rfl⟩
      exact ⟨.opening config call (.ok (.chunked tag frame)) :: (fetches ++ [.release head.id _]), .error e, _,
        ⟨hreply, hanswers.append hrelease⟩, .broken htag hread hfetches,
        perform_chunked htag hreply (reassemble_broken hopen hyields _)⟩
    | ok bytes =>
      have hperform := perform_chunked htag hreply (reassemble_complete hopen hyields _)
      refine ⟨.opening config call (.ok (.chunked tag frame)) :: fetches, _, q, ⟨hreply, hanswers⟩, ?_, hperform⟩
      rw [Fallible.ok_bind]
      cases hvalue : interpret call (head.payload ++ bytes) with
      | error e => exact .unparsed htag hread hfetches hvalue (kind_of_interpret hvalue)
      | ok a => exact .value htag hread hfetches hvalue

/-- Over every channel a call takes turns as `Ending` says. -/
theorem perform_course (config : Config) (call : Call) (p : σ) :
    ∃ turns r q, Channel.Answers p turns q ∧ Ending config call turns r ∧ Yields (perform config call) p r q := by
  cases hfirst : (firstOn config call p).outcome with
  | error failure => exact ⟨_, _, _, answers_opening hfirst, .refused, perform_refused hfirst⟩
  | ok reply =>
    by_cases hexpected : call.operation.Expects reply
    · cases reply with
      | unit => exact ⟨_, _, _, answers_opening hfirst, .done hexpected, perform_unit hexpected hfirst⟩
      | chunked tag frame => exact course_chunked hfirst hexpected
      | absent tag =>
        obtain ⟨table, row, rfl⟩ := getRow_of_isNullable hexpected.2
        obtain rfl : tag = .row := (Option.some.inj hexpected.1).symm
        exact ⟨_, _, _, answers_opening hfirst, .absent rfl, perform_absent hfirst⟩
      | fragment frame => exact hexpected.elim
    · exact ⟨_, _, _, answers_opening hfirst, .unexpected hexpected rfl, perform_unexpected hfirst hexpected⟩

def turns (config : Config) (call : Call) (p : σ) : List Turn :=
  let s := ((perform config call).on (.start ⟨(⟨p, []⟩ : Recorded σ), {}⟩)).2
  Channel.turns p s.state.peer.calls.reverse

theorem turns_course (config : Config) (call : Call) (p : σ) : ∃ r q, Channel.Answers p (turns config call p) q ∧
    Ending config call (turns config call p) r ∧ Yields (perform config call) p r q := by
  obtain ⟨ts, r, q, hanswers, hending, hyields⟩ := perform_course config call p
  obtain ⟨seen, r', q', hseen, hending', hyields'⟩ := perform_course config call (⟨p, []⟩ : Recorded σ)
  obtain ⟨hpeer, hcalls⟩ := hseen.of_recorded
  obtain ⟨-, hleft⟩ := hyields' (.start ⟨⟨p, []⟩, {}⟩) rfl
  have hturns : turns config call p = ts := by
    rw [turns, hleft, hcalls, List.append_nil, List.reverse_reverse, hpeer.turns_eq]
    exact hending'.protocol.unique hending.protocol hpeer hanswers
  exact ⟨r, q, hturns ▸ hanswers, hturns ▸ hending, hyields⟩

/-- A kind that only a failed call can have. -/
theorem Ending.refused_of_kind {config : Config} {call : Call} {made : List Turn} {e : TransportError}
    (h : Ending config call made (.error e)) (hinternal : e.kind ≠ .internal) (hunavailable : e.kind ≠ .unavailable) :
    ∃ failure, made = [.opening config call (.error failure)] ∧ e = Tunnel.decode failure call.operation.policy := by
  cases h with
  | refused => exact ⟨_, rfl, rfl⟩
  | unexpected _ kind | unreadable _ _ kind | unparsed _ _ _ _ kind => exact absurd kind hinternal
  | broken _ _ follows => exact ((follows.kind rfl).elim hunavailable hinternal).elim

theorem privileged_of_notAuthorized {op : Operation} (h : op.policy.allows .notAuthorized = true) :
    op = .putMetadata ∨ op = .deleteMetadata := by
  cases op with
  | putMetadata => exact .inl rfl
  | deleteMetadata => exact .inr rfl
  | openTable | closeTable | query | getRow | getMetadata | getMetadataIfChanged | fetchChunk | releaseChain =>
    revert h
    decide

/-- Over every channel a call invokes its own method once, then fetches from one chunk to the id that it names, and
releases exactly if the chain has begun and was not brought whole. -/
theorem perform_protocol (config : Config) (call : Call) (s : Noted (Link (Recorded σ))) :
    let before := s.state.peer
    let after := ((perform config call).on s).2.state.peer
    let made := turns config call before.peer
    after.calls = (made.map Turn.invocation).reverse ++ before.calls ∧
      Channel.Answers before.peer made after.peer ∧
      Protocol config call made ∧
      made.Pairwise (Turn.Precedes call.operation) ∧
      ((∃ t ∈ made, t.invocation.method = Operation.releaseChain.method) ↔
        ∃ first rest head, made = first :: rest ∧
          first.outcome.head? config.verifyChecksums call.operation = some head ∧
          gathered config.verifyChecksums head.next rest = none) ∧
      ∀ first rest, made = first :: rest →
        call.operation.tag? = none ∨ (∃ tag, first.outcome = .ok (.absent tag)) → rest = [] := by
  intro before after made
  obtain ⟨r, q, hanswers, hending, -⟩ := turns_course config call before.peer
  obtain ⟨seen, r', q', hseen, hending', hyields⟩ := perform_course config call before
  obtain ⟨hpeer, hcalls⟩ := hseen.of_recorded
  have hafter : after = q' := (hyields s rfl).2
  have hmade : seen = made := hending'.protocol.unique hending.protocol hpeer hanswers
  have hprotocol : Protocol config call made := hending.protocol
  rw [hmade] at hcalls hpeer
  rw [hafter]
  refine ⟨hcalls, hpeer, hprotocol, hprotocol.ordered, hprotocol.release_iff, fun first rest hfirst halone => ?_⟩
  rw [hfirst] at hprotocol
  exact hprotocol.eq_nil_of_headless (head?_eq_none halone)

/-- Over every channel a call ends as its turns say (`Ending`). Only its own invocation can make it end with an error
that is neither unavailable nor internal. -/
theorem perform_ends (config : Config) (call : Call) (s : Noted (Link σ)) :
    let made := turns config call s.state.peer
    let result := ((perform config call).on s).1
    Ending config call made result ∧
      ∀ e, result = .error e → e.kind = .argument ∨ e.kind = .storage ∨ e.kind = .notAuthorized →
        (∃ failure, made = [.opening config call (.error failure)] ∧ e = Tunnel.decode failure call.operation.policy) ∧
        (e.kind = .notAuthorized → call.operation = .putMetadata ∨ call.operation = .deleteMetadata) := by
  intro made result
  obtain ⟨r, q, -, hending, hyields⟩ := turns_course config call s.state.peer
  obtain rfl : result = r := (hyields s rfl).1
  refine ⟨hending, fun e he hkind => ?_⟩
  rw [he] at hending
  obtain ⟨failure, hmade, rfl⟩ := hending.refused_of_kind (by rcases hkind with h | h | h <;> simp [h])
    (by rcases hkind with h | h | h <;> simp [h])
  refine ⟨⟨failure, hmade, rfl⟩, fun hauthorized => privileged_of_notAuthorized ?_⟩
  rcases Tunnel.kind_decode failure call.operation.policy with hinternal | hallows
  · cases hinternal.symm.trans hauthorized
  · rwa [hauthorized] at hallows

end Client

end RemoteTable
