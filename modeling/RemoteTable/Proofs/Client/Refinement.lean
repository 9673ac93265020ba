import RemoteTable.Proofs.Client.SoundLine
import RemoteTable.Proofs.Store

/-!
# A remote call is a call on the store

Over a sound line a call ends as it ends on the store itself: a refusal comes back with its kind, its message on one
line; a value comes back as it is read again from its JSON text; the store is left as the call itself leaves it, and
the chunks that were parked before, and no others, are parked after it (`perform_refines`).

A value read again is the value (`reread_of_legible`), but for two limits of the reader: cells that are nested too
deep, and doubles whose text is read as another double. The double nearest to 10⁻²⁴ as the reader makes it is one of
those (`perform_alters_double`).
-/

namespace RemoteTable

/-! ## Values that survive -/

/-- The rows of an answer are within the limits of the reader. -/
def Answer.Legible : Answer → Prop
  | .rows result => ∀ row ∈ result.rows, row.Legible 124
  | .row (some r) => r.Legible 126
  | _ => True

def Answer.Tidy : Answer → Prop
  | .rows result => ∀ row ∈ result.rows, row.WellFormed
  | .row (some r) => r.WellFormed
  | _ => True

theorem Store.answer_tidy {s t : Store} {principal : Option String} {call : Call} {supply later : Supply} {a : Answer}
    (htidy : s.Tidy) (h : s.answer principal call supply = .ok (a, t, later)) : a.Tidy := by
  cases call with
  | query q =>
    obtain ⟨result, hquery, hok⟩ := Fallible.bind_eq_ok.1 h
    cases hok
    exact rows_of_query htidy hquery
  | getRow name row =>
    obtain ⟨found, hrow, hok⟩ := Fallible.bind_eq_ok.1 h
    cases hok
    cases found with
    | none => trivial
    | some found => exact row_of_getRow htidy hrow
  | openTable | closeTable | getMetadata | getMetadataIfChanged | putMetadata | deleteMetadata =>
    obtain ⟨_, -, hok⟩ := Fallible.bind_eq_ok.1 h
    cases hok
    trivial

theorem decoded_encode {α : Type} {codec : Json.Codec α} {depth : Nat} {a : α} (h : codec.ReadsBack depth a)
    (hdepth : depth ≤ Json.maxDepth) (tag : Tag) : Client.decoded tag codec (codec.encode a) = .ok a := by
  rw [Client.decoded, h.decode_encode hdepth]

theorem Answer.reread_of_legible {a : Answer} (htidy : a.Tidy) (hlegible : a.Legible) : a.reread = .ok a := by
  cases a with
  | done => rfl
  | info i => rw [reread, decoded_encode (TableInfo.keeps i).readsBack (by decide)]; rfl
  | rows result =>
    rw [reread, decoded_encode (QueryResult.keeps htidy hlegible).readsBack (by decide)]
    rfl
  | row found =>
    cases found with
    | none => rfl
    | some r =>
      rw [reread, decoded_encode (Row.keeps htidy hlegible).readsBack (by decide)]
      rfl
  | metadata set => rw [reread, decoded_encode (MetadataSet.keeps set).readsBack (by decide)]; rfl

/-! ## The refinement -/

namespace Client

variable {config : Config} {call : Call} {p : Peer}

theorem firstOn_eq (config : Config) (hconnected : p.connected = true) (hcall : call.WellFormed) :
    match p.store.answer config.principal call p.supply with
    | .error e => (firstOn config call p).outcome = .error (Tunnel.encode e.toTransport) ∧
      (firstOn config call p).peer = p.counted
    | .ok (a, store, supply) => (firstOn config call p).outcome = .ok ({ p.counted with store, supply }.reply a).1 ∧
      (firstOn config call p).peer = ({ p.counted with store, supply }.reply a).2 := by
  have hmet := Peer.invoke_call hconnected (Request.read_arguments hcall config.principal) rfl
  rwa [Store.answer_speaker] at hmet

/-- What the store refuses comes back with its kind, and nothing has changed. -/
theorem perform_error (hconnected : p.connected = true) (hcall : call.WellFormed) {e : StoreError}
    (hanswer : p.store.answer config.principal call p.supply = .error e) :
    Yields (perform config call) p (.error ⟨e.kind, Tunnel.flatten e.message⟩) p.counted := by
  have hfirst := firstOn_eq config hconnected hcall
  rw [hanswer] at hfirst
  obtain ⟨houtcome, hpeer⟩ := hfirst
  have hrefused := perform_refused houtcome
  rw [hpeer] at hrefused
  have hread : Tunnel.decode (Tunnel.encode e.toTransport) call.operation.policy =
      ⟨e.kind, Tunnel.flatten e.message⟩ := Tunnel.decode_encode (Store.allows_of_answer hanswer)
  rwa [hread] at hrefused

/-- What the store answers comes back as it is read again, and what was parked before is parked still. -/
theorem perform_ok (hconnected : p.connected = true) (hcall : call.WellFormed) {a : Answer} {store : Store}
    {supply : Supply}
    (hanswer : p.store.answer config.principal call p.supply = .ok (a, store, supply))
    (hunmet : p.supply.Unmet (firstOn config call p).peer.supply (parkedIds p)) :
    ∃ q, Yields (perform config call) p a.reread q ∧ q.store = store ∧ q.depot = p.depot := by
  have hfirst := firstOn_eq config hconnected hcall
  rw [hanswer] at hfirst
  obtain ⟨houtcome, hpeer⟩ := hfirst
  have hfits := Store.answer_fits hanswer
  cases hpayload : a.payload? with
  | none =>
    rcases hfits.bare hpayload with ⟨rfl, htag⟩ | ⟨rfl, table, row, rfl⟩
    · have hdone := perform_unit htag houtcome
      rw [hpeer] at hdone
      exact ⟨_, hdone, rfl, rfl⟩
    · have habsent := perform_absent houtcome
      rw [hpeer] at habsent
      exact ⟨_, habsent, rfl, rfl⟩
  | some sent =>
    obtain ⟨tag, payload⟩ := sent
    -- the value travels: its first chunk with the reply, the rest by fetches
    obtain ⟨htag, hinterpret⟩ := hfits.payload hpayload
    rw [Peer.reply_payload hpayload] at houtcome hpeer
    have hlater : supply.Follows (Peer.send { p.counted with store, supply } tag payload).2.supply := by
      rw [send_eq]
      exact ⟨rfl, Nat.le_add_right ..⟩
    rw [hpeer] at hunmet
    obtain ⟨q, hwhole, hstore, -, hdepot⟩ := reassemble_send config.verifyChecksums call.operation tag payload
      (p := { p.counted with store, supply }) hconnected (hunmet.later (Store.follows_answer hanswer) hlater)
    rw [send_reply] at houtcome
    rw [← hpeer] at hwhole
    have hchunked := perform_chunked htag houtcome hwhole
    refine ⟨q, ?_, hstore, hdepot⟩
    rw [Fallible.ok_bind, hinterpret] at hchunked
    exact hchunked

/-! ## A value that does not survive -/

/-- What is read for 10⁻²⁴. Its own shortest text is read as the double below it. -/
def strayDouble : Double := .div (.ofNat 1) (.tenPow 24)

def strayRow : Row := ⟨"r", [("c", .number (.double strayDouble))]⟩

def strayPeer : Peer where
  store := ⟨⟨[("t", ⟨["c"], [strayRow], true, ⟨"t", some ⟨0⟩, []⟩⟩)], by decide⟩, []⟩
  depot := ⟨⟨16, by decide⟩, by decide, []⟩
  connected := true
  invocations := 0
  supply := ⟨fun n => ⟨BitVec.ofNat 128 n⟩, 1⟩

def doubleIn (column : String) : Except TransportError Answer → Option Double
  | .ok (.row (some r)) =>
    match r.cell? column with
    | some (.number (.double d)) => some d
    | _ => none
  | _ => none

theorem strayPeer_reachable : strayPeer.store.Reachable := by
  have hcreate : Store.empty.createTable "t" ["c"] (.fresh strayPeer.supply.draw) =
      .ok (⟨⟨[("t", ⟨["c"], [], false, ⟨"t", some ⟨0⟩, []⟩⟩)], by decide⟩, []⟩, strayPeer.supply) := rfl
  have hinsert : Store.insertRow ⟨⟨[("t", ⟨["c"], [], false, ⟨"t", some ⟨0⟩, []⟩⟩)], by decide⟩, []⟩ "t" strayRow =
      .ok ⟨⟨[("t", ⟨["c"], [strayRow], false, ⟨"t", some ⟨0⟩, []⟩⟩)], by decide⟩, []⟩ := rfl
  have hopen : Store.answer ⟨⟨[("t", ⟨["c"], [strayRow], false, ⟨"t", some ⟨0⟩, []⟩⟩)], by decide⟩, []⟩ none
      (.openTable "t") strayPeer.supply = .ok (.info ⟨"t", ["c"], 1⟩, strayPeer.store, strayPeer.supply) := rfl
  have hrow : strayRow.WellFormed := ⟨List.pairwise_singleton .., trivial, trivial⟩
  exact .answer (.insertRow (.createTable .empty hcreate) hrow hinsert) hopen

/-- The store answers with the row, the client with another. -/
theorem perform_alters_double :
    strayPeer.store.Reachable ∧ strayPeer.connected = true ∧ strayPeer.depot.parked = [] ∧
      (strayPeer.store.answer none (.getRow "t" "r") strayPeer.supply).map (·.1) = .ok (.row (some strayRow)) ∧
      ((perform {} (.getRow "t" "r")).on (.start ⟨strayPeer, {}⟩)).1 ≠ .ok (.row (some strayRow)) := by
  have hanswer : strayPeer.store.answer (Config.principal {}) (.getRow "t" "r") strayPeer.supply =
      .ok (.row (some strayRow), strayPeer.store, strayPeer.supply) := rfl
  have hunmet : strayPeer.supply.Unmet (firstOn {} (.getRow "t" "r") strayPeer).peer.supply (parkedIds strayPeer) :=
    ⟨by decide +kernel, fun x _ => List.not_mem_nil⟩
  have hcall : (Call.getRow "t" "r").WellFormed := trivial
  refine ⟨strayPeer_reachable, rfl, rfl, rfl, fun heq => ?_⟩
  obtain ⟨q, hyields, -⟩ := perform_ok rfl hcall hanswer hunmet
  have hreread : Answer.reread (.row (some strayRow)) = .ok (.row (some strayRow)) := (hyields _ rfl).1.symm.trans heq
  have hsame : doubleIn "c" (Answer.reread (.row (some strayRow))) = some strayDouble := by
    rw [hreread]
    rfl
  exact absurd hsame (by decide +kernel)

/-! ## Any call -/

/-- A remote call over a sound line is the call on the store. -/
theorem perform_refines {s : Noted (Link Peer)} (hreachable : s.state.peer.store.Reachable)
    (hconnected : s.state.peer.connected = true) (hcall : call.WellFormed)
    (hunmet : s.state.peer.supply.Unmet (firstOn config call s.state.peer).peer.supply (parkedIds s.state.peer)) :
    let before := s.state.peer
    let result := ((perform config call).on s).1
    let after := ((perform config call).on s).2.state.peer
    (match before.store.answer config.principal call before.supply with
      | .ok (a, store, _) => result = a.reread ∧ (a.Legible → result = .ok a) ∧ after.store = store
      | .error e => result = .error ⟨e.kind, Tunnel.flatten e.message⟩ ∧ after.store = before.store) ∧
    after.depot = before.depot := by
  intro before result after
  cases hanswer : before.store.answer config.principal call before.supply with
  | error e =>
    obtain ⟨hresult, hpeer⟩ := perform_error hconnected hcall hanswer s rfl
    refine ⟨⟨hresult, ?_⟩, ?_⟩
    · exact (congrArg Peer.store hpeer).trans rfl
    · exact (congrArg Peer.depot hpeer).trans rfl
  | ok answered =>
    obtain ⟨a, store, supply⟩ := answered
    obtain ⟨q, hyields, hstore, hdepot⟩ := perform_ok hconnected hcall hanswer hunmet
    obtain ⟨hresult, hpeer⟩ := hyields s rfl
    have htidy : a.Tidy := Store.answer_tidy hreachable.tidy hanswer
    refine ⟨⟨hresult, fun hlegible => ?_, ?_⟩, ?_⟩
    · exact hresult.trans (Answer.reread_of_legible htidy hlegible)
    · exact (congrArg Peer.store hpeer).trans hstore
    · exact (congrArg Peer.depot hpeer).trans hdepot

/-- A table is opened over a line on which somebody else's chunk is parked. -/
theorem perform_refines_open :
    let parked : List Parked := [⟨⟨99⟩, ⟨[1], ⟨99⟩, none⟩⟩]
    let p : Peer := { strayPeer with depot := { strayPeer.depot with parked } }
    let done := (perform {} (.openTable "t")).on (.start ⟨p, {}⟩)
    p.supply.Unmet (firstOn {} (.openTable "t") p).peer.supply (parkedIds p) ∧
      done.1 = .ok (.info ⟨"t", ["c"], 1⟩) ∧ done.2.state.peer.depot.parked = parked := by
  intro parked p done
  have hunmet : p.supply.Unmet (firstOn {} (.openTable "t") p).peer.supply (parkedIds p) :=
    ⟨by decide +kernel, by decide +kernel⟩
  have hcall : (Call.openTable "t").WellFormed := trivial
  have hanswer : p.store.answer none (.openTable "t") p.supply = .ok (.info ⟨"t", ["c"], 1⟩, p.store, p.supply) := rfl
  have hreachable : p.store.Reachable := strayPeer_reachable
  have hconnected : p.connected = true := rfl
  have hparked : p.depot.parked = parked := rfl
  clear_value p
  have hrefines := perform_refines (s := .start ⟨p, {}⟩) hreachable hconnected hcall hunmet
  dsimp only [Noted.start] at hrefines
  rw [hanswer] at hrefines
  obtain ⟨⟨-, hresult, -⟩, hdepot⟩ := hrefines
  exact ⟨hunmet, hresult trivial, (congrArg Depot.parked hdepot).trans hparked⟩

end Client

end RemoteTable
