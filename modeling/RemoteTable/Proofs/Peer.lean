import RemoteTable.Peer
import RemoteTable.Proofs.Chunk.Parking
import RemoteTable.Proofs.Client.Yields
import RemoteTable.Proofs.Drawn
import RemoteTable.Proofs.Messages
import RemoteTable.Proofs.Store
import RemoteTable.Proofs.Tunnel

/-!
# What the serving side makes of an invocation

The arguments that the client sends make the call that they were made from (`Request.read_arguments`), and a call
on a connected peer is the call on its store, its value sent or its refusal tunneled (`invoke_call`). Whatever the
method and the arguments are, an invocation fails and changes nothing but its count, or it is a call that the store
answers, a fetch or a release (`Peer.ended`). So there are four ways in which the peer can meet a call (`Peer.Met`).
-/

namespace RemoteTable

/-! ## Arguments -/

/-- A filter's cell is a well-formed value. -/
def Call.WellFormed : Call → Prop
  | .query q => ∀ f ∈ q.filter, f.equals.WellFormed
  | _ => True

/-- On whose behalf a call is made: only writes say so. -/
def Call.speaker (principal : Option String) : Call → Option String
  | .putMetadata _ | .deleteMetadata .. => principal
  | _ => none

theorem Store.answer_speaker (s : Store) (principal : Option String) (call : Call) (supply : Supply) :
    s.answer (call.speaker principal) call supply = s.answer principal call supply := by
  cases call <;> rfl

theorem Call.operation_ne (call : Call) : call.operation ≠ .fetchChunk ∧ call.operation ≠ .releaseChain := by
  cases call <;> exact ⟨nofun, nofun⟩

namespace Request

/-- The arguments of a call are read as the call. -/
theorem read_arguments {call : Call} (h : call.WellFormed) (principal : Option String) :
    read call.operation (call.arguments principal) = .ok (.call (call.speaker principal) call) := by
  cases call with
  | openTable table =>
    have hargs := (TableArgs.keeps ⟨table⟩).unpacks
    exact congrArg (· >>= _) hargs
  | closeTable table =>
    have hargs := (TableArgs.keeps ⟨table⟩).unpacks
    exact congrArg (· >>= _) hargs
  | query q =>
    have hargs := Query.unpacks h
    exact congrArg (· >>= _) hargs
  | getRow table row =>
    have hargs := (RowArgs.keeps ⟨table, row⟩).unpacks
    exact congrArg (· >>= _) hargs
  | getMetadata table =>
    have hargs := (TableArgs.keeps ⟨table⟩).unpacks
    exact congrArg (· >>= _) hargs
  | getMetadataIfChanged table known =>
    have hargs := (RevisionArgs.keeps ⟨table, known⟩).unpacks
    exact congrArg (· >>= _) hargs
  | putMetadata entry =>
    have hargs := PutArgs.unpacks ⟨principal, entry⟩
    exact congrArg (· >>= _) hargs
  | deleteMetadata table slot =>
    have hargs := (DeleteArgs.keeps ⟨principal, table, slot⟩).unpacks
    exact congrArg (· >>= _) hargs

theorem read_fetch (id : Token) : read .fetchChunk (FetchArgs.codec.pack ⟨id⟩) = .ok (.fetch id) := by
  have hargs := (FetchArgs.keeps ⟨id⟩).unpacks
  exact congrArg (· >>= _) hargs

theorem read_release (chain : Token) : read .releaseChain (ReleaseArgs.codec.pack ⟨chain⟩) = .ok (.release chain) := by
  have hargs := (ReleaseArgs.keeps ⟨chain⟩).unpacks
  exact congrArg (· >>= _) hargs

theorem operation_of_call {op : Operation} {args : Json} {principal : Option String} {call : Call}
    (h : read op args = .ok (.call principal call)) : call.operation = op := by
  cases op with
  | fetchChunk | releaseChain =>
    obtain ⟨_, -, hcall⟩ := Fallible.bind_eq_ok.1 h
    cases hcall
  | openTable | closeTable | query | getRow | getMetadata | getMetadataIfChanged | putMetadata | deleteMetadata =>
    obtain ⟨_, -, hcall⟩ := Fallible.bind_eq_ok.1 h
    cases hcall
    rfl

theorem read_eq_fetch {op : Operation} {args : Json} {id : Token} (h : read op args = .ok (.fetch id)) :
    op = .fetchChunk ∧ FetchArgs.codec.ofJson args = .ok ⟨id⟩ := by
  cases op with
  | fetchChunk =>
    obtain ⟨_, hargs, hfetch⟩ := Fallible.bind_eq_ok.1 h
    cases hfetch
    exact ⟨rfl, hargs⟩
  | _ =>
    obtain ⟨_, -, hfetch⟩ := Fallible.bind_eq_ok.1 h
    cases hfetch

theorem read_eq_release {op : Operation} {args : Json} {chain : Token} (h : read op args = .ok (.release chain)) :
    op = .releaseChain ∧ ReleaseArgs.codec.ofJson args = .ok ⟨chain⟩ := by
  cases op with
  | releaseChain =>
    obtain ⟨_, hargs, hrelease⟩ := Fallible.bind_eq_ok.1 h
    cases hrelease
    exact ⟨rfl, hargs⟩
  | _ =>
    obtain ⟨_, -, hrelease⟩ := Fallible.bind_eq_ok.1 h
    cases hrelease

end Request

/-! ## Values -/

namespace Answer

/-- The payload of an answer that is sent in chunks. -/
def payload? : Answer → Option (Tag × Bytes)
  | .done | .row none => none
  | .info i => some (.tableInfo, TableInfo.codec.encode i)
  | .rows result => some (.queryResult, QueryResult.codec.encode result)
  | .row (some r) => some (.row, Row.codec.encode r)
  | .metadata set => some (.metadataSet, MetadataSet.codec.encode set)

/-- The answer as it is read again from its payload. -/
def reread : Answer → Except TransportError Answer
  | .done => .ok .done
  | .row none => .ok (.row none)
  | .info i => .info <$> Client.decoded .tableInfo TableInfo.codec (TableInfo.codec.encode i)
  | .rows result => .rows <$> Client.decoded .queryResult QueryResult.codec (QueryResult.codec.encode result)
  | .row (some r) => (fun r => .row (some r)) <$> Client.decoded .row Row.codec (Row.codec.encode r)
  | .metadata set => .metadata <$> Client.decoded .metadataSet MetadataSet.codec (MetadataSet.codec.encode set)

/-- The answer has the form that the call's answers have. -/
def Fits : Call → Answer → Prop
  | .openTable _, .info _ => True
  | .query _, .rows _ => True
  | .getRow .., .row _ => True
  | .getMetadata _, .metadata _ | .getMetadataIfChanged .., .metadata _ => True
  | .closeTable _, .done | .putMetadata _, .done | .deleteMetadata .., .done => True
  | _, _ => False

/-- A value that fits a call comes under the tag of its operation, and the call makes of the payload what is read. -/
theorem Fits.payload {call : Call} {a : Answer} {tag : Tag} {payload : Bytes} (h : Fits call a)
    (hpayload : a.payload? = some (tag, payload)) :
    call.operation.tag? = some tag ∧ Client.interpret call payload = a.reread := by
  cases a with
  | done => cases hpayload
  | row row =>
    cases row with
    | none => cases hpayload
    | some row =>
      cases hpayload
      cases call <;> cases h
      exact ⟨rfl, rfl⟩
  | info i =>
    cases hpayload
    cases call <;> cases h
    exact ⟨rfl, rfl⟩
  | rows result =>
    cases hpayload
    cases call <;> cases h
    exact ⟨rfl, rfl⟩
  | metadata set =>
    cases hpayload
    -- the two reads of metadata
    cases call <;> cases h
    · exact ⟨rfl, rfl⟩
    · exact ⟨rfl, rfl⟩

theorem Fits.bare {call : Call} {a : Answer} (h : Fits call a) (hpayload : a.payload? = none) :
    a = .done ∧ call.operation.tag? = none ∨ a = .row none ∧ ∃ table row, call = .getRow table row := by
  cases a with
  | done => cases call <;> cases h <;> exact .inl ⟨rfl, rfl⟩
  | row row =>
    cases row with
    | none =>
      cases call <;> cases h
      exact .inr ⟨rfl, _, _, rfl⟩
    | some row => cases hpayload
  | info i => cases hpayload
  | rows result => cases hpayload
  | metadata set => cases hpayload

end Answer

theorem Store.answer_fits {s t : Store} {principal : Option String} {call : Call} {supply later : Supply} {a : Answer}
    (h : s.answer principal call supply = .ok (a, t, later)) : Answer.Fits call a := by
  cases call <;>
  · obtain ⟨_, -, hok⟩ := Fallible.bind_eq_ok.1 h
    cases hok
    trivial

/-! ## Invocations -/

namespace Peer

variable {p q : Peer} {op : Operation} {args : Json} {request : Request}

theorem reply_payload {a : Answer} {tag : Tag} {payload : Bytes} (h : a.payload? = some (tag, payload)) :
    p.reply a = p.send tag payload := by
  cases a with
  | done => cases h
  | row row =>
    cases row with
    | none => cases h
    | some row =>
      cases h
      rfl
  | info i | rows result | metadata set =>
    cases h
    rfl

theorem dispatch_of_read (hread : Request.read op args = .ok request) :
    p.dispatch op.method args = p.serve request := by
  rw [dispatch, Operation.ofMethod?_method]
  simp only [hread]

theorem invoke_served (hconnected : p.connected = true) (hread : Request.read op args = .ok request) {reply : Reply}
    (hserve : p.counted.serve request = .ok (reply, q)) :
    (p.invoke op.method args).outcome = .ok reply ∧ (p.invoke op.method args).peer = q := by
  rw [invoke, if_pos hconnected, attend, dispatch_of_read hread, hserve]
  exact ⟨rfl, rfl⟩

theorem invoke_refused (hconnected : p.connected = true) (hread : Request.read op args = .ok request)
    {e : TransportError} (hserve : p.counted.serve request = .error e) :
    (p.invoke op.method args).outcome = .error (Tunnel.encode e) ∧ (p.invoke op.method args).peer = p.counted := by
  rw [invoke, if_pos hconnected, attend, dispatch_of_read hread, hserve]
  exact ⟨rfl, rfl⟩

theorem invoke_unread {e : Json.ReadError} (hread : Request.read op args = .error e) :
    (∃ f, (p.invoke op.method args).outcome = .error f) ∧ (p.invoke op.method args).peer = p.counted := by
  have hdispatch : p.counted.dispatch op.method args = .error ⟨.argument, s!"invalid arguments: {e.message}"⟩ := by
    rw [dispatch, Operation.ofMethod?_method]
    simp only [hread]
  rw [invoke]
  split
  · rw [attend, hdispatch]
    exact ⟨⟨_, rfl⟩, rfl⟩
  · exact ⟨⟨_, rfl⟩, rfl⟩

theorem invoke_disconnected (hconnected : p.connected = false) (method : String) (args : Json) :
    (p.invoke method args).outcome = .error (.platform "remote process is not reachable") ∧
      (p.invoke method args).peer = p.counted := by
  rw [invoke, hconnected]
  exact ⟨rfl, rfl⟩

/-! ## Parked chunks -/

theorem fetchOn_some (hconnected : p.connected = true) {id : Token} {chunk : Chunk} {depot : Depot}
    (htake : p.depot.take? id = some (chunk, depot)) :
    (Client.fetchOn p id).outcome = .ok (.fragment (Frame.encode chunk)) ∧
      (Client.fetchOn p id).peer = { p.counted with depot } := by
  have hserve : p.counted.serve (.fetch id) = .ok (.fragment (Frame.encode chunk), { p.counted with depot }) := by
    have hcounted : p.counted.depot.take? id = some (chunk, depot) := htake
    rw [serve, hcounted]
  exact invoke_served hconnected (Request.read_fetch id) hserve

theorem fetchOn_none {id : Token} (hnone : p.connected = false ∨ p.depot.take? id = none) :
    (∃ f, (Client.fetchOn p id).outcome = .error f) ∧ (Client.fetchOn p id).peer = p.counted := by
  by_cases hconnected : p.connected = true
  · have htake : p.counted.depot.take? id = none := hnone.resolve_left (by rw [hconnected]; decide)
    have hserve : p.counted.serve (.fetch id) = .error ⟨.argument, s!"unknown chunk id: {id.render}"⟩ := by
      rw [serve, htake]
    obtain ⟨houtcome, hpeer⟩ := invoke_refused hconnected (Request.read_fetch id) hserve
    exact ⟨⟨_, houtcome⟩, hpeer⟩
  · obtain ⟨houtcome, hpeer⟩ := invoke_disconnected (Bool.eq_false_iff.2 hconnected) Operation.fetchChunk.method
      (FetchArgs.codec.pack ⟨id⟩)
    exact ⟨⟨_, houtcome⟩, hpeer⟩

/-- A peer that has at most lost parked chunks and its connection. -/
structure Drains (p q : Peer) : Prop where
  store : q.store = p.store
  supply : q.supply = p.supply
  parked : q.depot.parked.Sublist p.depot.parked

theorem Drains.refl (p : Peer) : Drains p p := ⟨rfl, rfl, .refl _⟩

theorem Drains.trans {p q r : Peer} (h : Drains p q) (h' : Drains q r) : Drains p r :=
  ⟨h'.store.trans h.store, h'.supply.trans h.supply, h'.parked.trans h.parked⟩

theorem drains_counted (p : Peer) : Drains p p.counted := ⟨rfl, rfl, .refl _⟩

theorem drains_taken {id : Token} {chunk : Chunk} {depot : Depot} (h : p.depot.take? id = some (chunk, depot)) :
    Drains p { p with depot } := by
  obtain ⟨before, k, after, hparked, -, -, rfl⟩ := Depot.take?_eq_some h
  refine ⟨rfl, rfl, ?_⟩
  rw [hparked]
  exact (List.sublist_cons_self k after).append_left before

theorem drains_released (p : Peer) (chain : Token) : Drains p { p with depot := (p.depot.release chain).2 } :=
  ⟨rfl, rfl, List.filter_sublist⟩

/-- A fragment comes from the chunk that is parked under the id asked for. -/
theorem fetchOn_drains (p : Peer) (id : Token) : Drains p (Client.fetchOn p id).peer ∧
    ∀ reply, (Client.fetchOn p id).outcome = .ok reply →
      ∃ k ∈ p.depot.parked, k.chunk.id = id ∧ reply = .fragment (Frame.encode k.chunk) := by
  by_cases hnone : p.connected = false ∨ p.depot.take? id = none
  · obtain ⟨⟨f, houtcome⟩, hpeer⟩ := fetchOn_none hnone
    rw [hpeer, houtcome]
    exact ⟨drains_counted p, fun reply h => nomatch h⟩
  · obtain ⟨hconnected, htake⟩ := not_or.1 hnone
    obtain ⟨⟨chunk, depot⟩, htake⟩ := Option.ne_none_iff_exists'.1 htake
    obtain ⟨houtcome, hpeer⟩ := fetchOn_some (Bool.not_eq_false _ ▸ hconnected) htake
    rw [hpeer, houtcome]
    refine ⟨(drains_counted p).trans (drains_taken htake), fun reply h => ?_⟩
    obtain ⟨before, k, after, hparked, rfl, hid, -⟩ := Depot.take?_eq_some htake
    cases h
    exact ⟨k, hparked ▸ List.mem_append_right _ List.mem_cons_self, hid, rfl⟩

theorem releaseOn_drains (p : Peer) (chain : Token) : Drains p (Client.releaseOn p chain).peer := by
  by_cases hconnected : p.connected = true
  · have hserve : p.counted.serve (.release chain) =
        .ok (.unit, { p.counted with depot := (p.counted.depot.release chain).2 }) := rfl
    have hpeer := (invoke_served hconnected (Request.read_release chain) hserve).2
    change Drains p (p.invoke Operation.releaseChain.method _).peer
    rw [hpeer]
    exact (drains_counted p).trans (drains_released p.counted chain)
  · have hpeer := (invoke_disconnected (Bool.eq_false_iff.2 hconnected) Operation.releaseChain.method
      (ReleaseArgs.codec.pack ⟨chain⟩)).2
    change Drains p (p.invoke Operation.releaseChain.method _).peer
    rw [hpeer]
    exact drains_counted p

/-! ## Calls -/

/-- A call on a connected peer is the call on its store. -/
theorem invoke_call (hconnected : p.connected = true) (hread : Request.read op args = .ok request)
    {principal : Option String} {call : Call} (hrequest : request = .call principal call) :
    match p.store.answer principal call p.supply with
    | .error e => (p.invoke op.method args).outcome = .error (Tunnel.encode e.toTransport) ∧
      (p.invoke op.method args).peer = p.counted
    | .ok (a, store, supply) =>
      (p.invoke op.method args).outcome = .ok ({ p.counted with store, supply }.reply a).1 ∧
      (p.invoke op.method args).peer = ({ p.counted with store, supply }.reply a).2 := by
  subst hrequest
  have hcounted : p.counted.store.answer principal call p.counted.supply = p.store.answer principal call p.supply := rfl
  cases hanswer : p.store.answer principal call p.supply with
  | error e =>
    refine invoke_refused hconnected hread ?_
    rw [serve, hcounted, hanswer]
    rfl
  | ok answered =>
    obtain ⟨a, store, supply⟩ := answered
    refine invoke_served hconnected hread ?_
    rw [serve, hcounted, hanswer]
    rfl

/-! ## Any method and any arguments -/

/-- The ways in which an invocation can end. -/
inductive Ended (p : Peer) (method : String) (args : Json) (d : Delivery Peer) : Prop where
  | failed (f : Failure) (outcome : d.outcome = .error f) (peer : d.peer = p.counted)
  | answered (principal : Option String) (call : Call) (a : Answer) (store : Store) (supply : Supply)
    (connected : p.connected = true) (named : method = call.operation.method)
    (read : Request.read call.operation args = .ok (.call principal call))
    (answer : p.store.answer principal call p.supply = .ok (a, store, supply))
    (outcome : d.outcome = .ok ({ p.counted with store, supply }.reply a).1)
    (peer : d.peer = ({ p.counted with store, supply }.reply a).2)
  | fetched (id : Token) (chunk : Chunk) (depot : Depot) (named : method = Operation.fetchChunk.method)
    (read : FetchArgs.codec.ofJson args = .ok ⟨id⟩) (taken : p.depot.take? id = some (chunk, depot))
    (outcome : d.outcome = .ok (.fragment (Frame.encode chunk))) (peer : d.peer = { p.counted with depot })
  | released (chain : Token) (named : method = Operation.releaseChain.method)
    (read : ReleaseArgs.codec.ofJson args = .ok ⟨chain⟩) (outcome : d.outcome = .ok .unit)
    (peer : d.peer = { p.counted with depot := (p.depot.release chain).2 })

/-- An invocation fails and is counted, or one of the three kinds of request is met. -/
theorem ended (p : Peer) (method : String) (args : Json) : Ended p method args (p.invoke method args) := by
  by_cases hconnected : p.connected = true
  · cases hop : Operation.ofMethod? method with
    | none =>
      have hdispatch : p.counted.dispatch method args = .error ⟨.argument, s!"unknown method: {method}"⟩ := by
        rw [dispatch, hop]
      rw [invoke, if_pos hconnected, attend, hdispatch]
      exact .failed _ rfl rfl
    | some op =>
      obtain rfl := Operation.method_of_ofMethod? hop
      cases hread : Request.read op args with
      | error e =>
        obtain ⟨⟨f, houtcome⟩, hpeer⟩ := invoke_unread (p := p) hread
        exact .failed f houtcome hpeer
      | ok request =>
        cases request with
        | call principal call =>
          obtain rfl := Request.operation_of_call hread
          have hinvoke := invoke_call hconnected hread rfl
          cases hanswer : p.store.answer principal call p.supply with
          | error e =>
            rw [hanswer] at hinvoke
            exact .failed _ hinvoke.1 hinvoke.2
          | ok answered =>
            rw [hanswer] at hinvoke
            exact .answered principal call _ _ _ hconnected rfl hread hanswer hinvoke.1 hinvoke.2
        | fetch id =>
          obtain ⟨rfl, hargs⟩ := Request.read_eq_fetch hread
          cases htake : p.counted.depot.take? id with
          | none =>
            have hserve : p.counted.serve (.fetch id) = .error ⟨.argument, s!"unknown chunk id: {id.render}"⟩ := by
              rw [serve, htake]
            obtain ⟨houtcome, hpeer⟩ := invoke_refused hconnected hread hserve
            exact .failed _ houtcome hpeer
          | some taken =>
            have hserve : p.counted.serve (.fetch id) =
                .ok (.fragment (Frame.encode taken.1), { p.counted with depot := taken.2 }) := by rw [serve, htake]
            obtain ⟨houtcome, hpeer⟩ := invoke_served hconnected hread hserve
            exact .fetched id taken.1 taken.2 rfl hargs htake houtcome hpeer
        | release chain =>
          obtain ⟨rfl, hargs⟩ := Request.read_eq_release hread
          obtain ⟨houtcome, hpeer⟩ := invoke_served (p := p) hconnected hread rfl
          exact .released chain rfl hargs houtcome hpeer
  · obtain ⟨houtcome, hpeer⟩ := invoke_disconnected (Bool.eq_false_iff.2 hconnected) method args
    exact .failed _ houtcome hpeer

/-! ## Calls with any arguments -/

/-- What an invocation of a store operation can come to. -/
inductive Met (p : Peer) (op : Operation) (d : Delivery Peer) : Prop where
  | refused (f : Failure) (outcome : d.outcome = .error f)
  | unit (untagged : op.tag? = none) (outcome : d.outcome = .ok .unit)
  | absent (nullable : op = .getRow) (outcome : d.outcome = .ok (.absent .row))
  | sent (store : Store) (supply : Supply) (tag : Tag) (payload : Bytes) (connected : p.connected = true)
    (tagged : op.tag? = some tag) (follows : p.supply.Follows supply)
    (outcome : d.outcome = .ok (Peer.send { p.counted with store, supply } tag payload).1)
    (peer : d.peer = (Peer.send { p.counted with store, supply } tag payload).2)

/-- Whatever the arguments are, the peer meets a call in one of four ways. -/
theorem met (p : Peer) (call : Call) (args : Json) :
    Met p call.operation (p.invoke call.operation.method args) := by
  cases ended p call.operation.method args with
  | failed f outcome => exact .refused f outcome
  | fetched id chunk depot named => exact absurd (Operation.method_injective named) call.operation_ne.1
  | released chain named => exact absurd (Operation.method_injective named) call.operation_ne.2
  | answered principal read a store supply connected named _ answer outcome peer =>
    have hop : call.operation = read.operation := Operation.method_injective named
    have hfits := Store.answer_fits answer
    cases hpayload : a.payload? with
    | none =>
      rcases hfits.bare hpayload with ⟨rfl, htag⟩ | ⟨rfl, table, row, rfl⟩
      · exact .unit (hop ▸ htag) outcome
      · exact .absent hop outcome
    | some sent =>
      obtain ⟨tag, payload⟩ := sent
      rw [reply_payload hpayload] at outcome peer
      exact .sent store supply tag payload connected (hop ▸ (hfits.payload hpayload).1) (Store.follows_answer answer)
        outcome peer

end Peer

end RemoteTable
