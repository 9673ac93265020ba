import RemoteTable.Proofs.Client.Cost
import RemoteTable.Proofs.Coherence
import RemoteTable.Proofs.Mirror

/-!
# A call on two peers

Two connected peers are twins if their stores mirror each other; what they have parked, and the sizes of their chunks,
may be what they like (`Peer.Twins`). The same call on twins comes to the same result but for the revisions in it, costs
the same but for the fetches (`Metrics.Agrees`), and leaves twins (`Client.perform_twins`). The payloads of the two
answers are equally long, since every token is written with as many bytes (`Token.length_quoted_render`).

The two stores give a changed table the revisions that they draw next. These were not drawn before, so they can be paired
with each other, and the revisions in pairs stay one to one (`Grows.pairing`).
-/

namespace RemoteTable

open Fallible (Both)

variable {R R' : Option Token → Option Token → Prop}

/-! ## Payloads of one length -/

namespace Token

theorem mem_group {sizes : List Nat} {ds : List Char} {c : Char} (h : c ∈ group sizes ds) : c = '-' ∨ c ∈ ds := by
  induction sizes generalizing ds with
  | nil => cases h
  | cons n sizes ih =>
    cases sizes with
    | nil => exact .inr (List.mem_of_mem_take h)
    | cons m sizes =>
      rcases List.mem_append.1 h with h | h
      · exact .inr (List.mem_of_mem_take h)
      · rcases List.mem_cons.1 h with rfl | h
        · exact .inl rfl
        · exact (ih h).imp_right List.mem_of_mem_drop

theorem hexDigit_plain : ∀ n < 16, Json.escape (Bytes.hexDigit n) = [Bytes.hexDigit n] ∧
    (Bytes.hexDigit n).toNat < 128 := by decide

/-- What a token is written with stands for itself in a string. -/
theorem render_plain {t : Token} {c : Char} (h : c ∈ t.render.toList) : Json.escape c = [c] ∧ c.toNat < 128 := by
  rw [render, String.toList_ofList] at h
  rcases mem_group h with rfl | h
  · exact ⟨rfl, by decide⟩
  · have hdigit (n : Nat) : Json.escape (Bytes.hexDigit n) = [Bytes.hexDigit n] ∧ (Bytes.hexDigit n).toNat < 128 := by
      rw [hexDigit_mod]
      exact hexDigit_plain _ (Nat.mod_lt _ (by decide))
    obtain ⟨b, -, hc⟩ := List.mem_flatMap.1 h
    simp only [List.mem_cons, List.not_mem_nil, or_false] at hc
    rcases hc with rfl | rfl
    · exact hdigit _
    · exact hdigit _

theorem length_quoted_render (t : Token) : (Json.utf8 (Json.quoted t.render)).length = 38 := by
  have hself : t.render.toList.flatMap Json.escape = t.render.toList := by
    rw [List.flatMap_congr fun c hc => (render_plain hc).1, List.flatMap_singleton']
  have hlength : t.render.toList.length = 36 := by
    rw [render, String.toList_ofList]
    exact length_group (by rw [length_hexDigits, length_toBytes])
  rw [Json.utf8_quoted, hself, Json.utf8_of_ascii fun c hc => (render_plain hc).2]
  simp [hlength]

end Token

theorem Json.length_encode_nullable_token {r r' : Option Token} (h : r = none ↔ r' = none) :
    (Json.Codec.token.nullable.toJson r).encode.length = (Json.Codec.token.nullable.toJson r').encode.length := by
  cases r with
  | none =>
    rw [h.1 rfl]
  | some t =>
    cases r' with
    | none => cases h.2 rfl
    | some t' =>
      show (Json.utf8 (Json.quoted t.render)).length = (Json.utf8 (Json.quoted t'.render)).length
      rw [Token.length_quoted_render, Token.length_quoted_render]

/-- A revision, if there is one, takes up the same room whatever it is. -/
theorem MetadataSet.Mirrors.length_encode {a b : MetadataSet} (h : a.Mirrors R b)
    (hrevision : a.revision = none ↔ b.revision = none) : (codec.encode a).length = (codec.encode b).length := by
  obtain ⟨table, revision, entries⟩ := a
  obtain ⟨table', revision', entries'⟩ := b
  obtain ⟨rfl, -, rfl⟩ := h
  have hlength := Json.length_encode_nullable_token hrevision
  unfold codec
  show (Json.Codec.encode (Json.Fields.codec _) (table, revision, entries, ())).length =
    (Json.Codec.encode (Json.Fields.codec _) (table, revision', entries, ())).length
  rw [Json.Fields.encode_codec, Json.Fields.encode_codec]
  simp only [Json.Fields.members, Json.memberText, Json.commas, List.map_cons, List.map_nil, List.flatMap_cons,
    List.flatMap_nil, List.length_cons, List.length_append, hlength]


/-- Two answers that mirror each other are the same, or two sets that do. -/
theorem Answer.Mirrors.cases {a b : Answer} (h : a.Mirrors R b) :
    a = b ∧ (∀ set, a ≠ .metadata set) ∨ ∃ set set', a = .metadata set ∧ b = .metadata set' ∧ set.Mirrors R set' := by
  cases a with
  | metadata set =>
    cases b with
    | metadata set' => exact .inr ⟨set, set', rfl, rfl, h⟩
    | done | info | rows | row => cases h
  | done | info | rows | row => exact .inl ⟨h, fun set hset => by cases hset⟩

theorem Answer.Mirrors.mono {a b : Answer} (h : a.Mirrors R b) (hR : ∀ a b, R a b → R' a b) : a.Mirrors R' b := by
  rcases h.cases with ⟨rfl, hother⟩ | ⟨set, set', rfl, rfl, hset⟩
  · cases a with
    | metadata set => exact absurd rfl (hother set)
    | done | info | rows | row => rfl
  · exact hset.mono hR

/-! ## Pairings -/

/-- Revisions that two runs have drawn, in pairs: each with one of the other run, and none with none. -/
structure Pairing (R : Option Token → Option Token → Prop) (met met' : List Token) : Prop where
  absent : R none none
  oneToOne : ∀ a a' b b', R a a' → R b b' → (a = b ↔ a' = b')
  left : ∀ x b, R (some x) b → x ∈ met
  right : ∀ a x, R a (some x) → x ∈ met'

namespace Pairing

variable {met met' : List Token}

theorem none_iff (h : Pairing R met met') {a b : Option Token} (hab : R a b) : a = none ↔ b = none :=
  h.oneToOne a b none none hab h.absent

theorem mono {more more' : List Token} (h : Pairing R met met') (hmore : met ⊆ more) (hmore' : met' ⊆ more') :
    Pairing R more more' :=
  ⟨h.absent, h.oneToOne, fun x b hx => hmore (h.left x b hx), fun a x hx => hmore' (h.right a x hx)⟩

theorem insert (h : Pairing R met met') {x x' : Token} (hx : x ∉ met) (hx' : x' ∉ met') :
    Pairing (fun a b => R a b ∨ a = some x ∧ b = some x') (x :: met) (x' :: met') where
  absent := .inl h.absent
  oneToOne := by
    have hleft (b : Option Token) (hR : R (some x) b) : False := hx (h.left x b hR)
    have hright (a : Option Token) (hR : R a (some x')) : False := hx' (h.right a x' hR)
    rintro a a' b b' (ha | ⟨rfl, rfl⟩) (hb | ⟨rfl, rfl⟩)
    · exact h.oneToOne a a' b b' ha hb
    · exact ⟨fun hab => (hleft a' (hab ▸ ha)).elim, fun hab => (hright a (hab ▸ ha)).elim⟩
    · exact ⟨fun hab => (hleft b' (hab ▸ hb)).elim, fun hab => (hright b (hab ▸ hb)).elim⟩
    · exact ⟨fun _ => rfl, fun _ => rfl⟩
  left := by
    rintro y b (hy | ⟨hy, -⟩)
    · exact List.mem_cons_of_mem x (h.left y b hy)
    · exact Option.some.inj hy ▸ List.mem_cons_self
  right := by
    rintro a y (hy | ⟨-, hy⟩)
    · exact List.mem_cons_of_mem x' (h.right a y hy)
    · exact Option.some.inj hy ▸ List.mem_cons_self

end Pairing

/-- A revision that both runs have drawn is paired with itself. -/
def Shared (met met' : List Token) (a b : Option Token) : Prop := a = b ∧ ∀ x ∈ a, x ∈ met ∧ x ∈ met'

theorem Pairing.shared (met met' : List Token) : Pairing (Shared met met') met met' where
  absent := ⟨rfl, fun x hx => by cases hx⟩
  oneToOne a a' b b' ha hb := by rw [ha.1, hb.1]
  left x b hx := (hx.2 x rfl).1
  right a x hx := (hx.2 x hx.1).2

theorem Shared.of_mem {met met' : List Token} {a : Option Token} (h : ∃ x ∈ met, a = some x)
    (h' : ∃ x ∈ met', a = some x) : Shared met met' a a := by
  obtain ⟨x, hx, rfl⟩ := h
  obtain ⟨y, hy, hxy⟩ := h'
  cases hxy
  refine ⟨rfl, fun z hz => ?_⟩
  obtain rfl : x = z := Option.some.inj hz
  exact ⟨hx, hy⟩

theorem Store.Dated.mirrors {s : Store} {met met' : List Token} (h : s.Dated met) (h' : s.Dated met') :
    s.Mirrors (Shared met met') s := by
  refine ⟨rfl, fun name => ?_⟩
  cases ht : s.tables.get? name with
  | none => exact .none
  | some t => exact .some ⟨rfl, rfl, rfl, rfl, .of_mem (h name t ht) (h' name t ht), rfl⟩

/-- What is drawn next differs from what was drawn before. -/
theorem Supply.next_not_mem {origin supply : Supply} (hfollows : origin.Follows supply)
    (hdistinct : supply.next.2.Distinct) : supply.next.1 ∉ origin.drawnUntil supply :=
  (hdistinct.unmet hfollows ⟨rfl, Nat.le_succ _⟩).unmet _ (Store.mem_drawnUntil_next supply)

theorem Supply.drawnUntil_subset {origin supply later : Supply} (hfollows : origin.Follows supply)
    (hlater : supply.Follows later) : origin.drawnUntil supply ⊆ origin.drawnUntil later := by
  rw [drawnUntil_append hfollows hlater]
  exact List.subset_append_left _ _

/-- A pairing of what was drawn grows to one of what is drawn then. -/
theorem Grows.pairing {origin origin' supply supply' later later' : Supply} (h : Grows R supply supply' R' later later')
    (hpairing : Pairing R (origin.drawnUntil supply) (origin'.drawnUntil supply')) (hfollows : origin.Follows supply)
    (hfollows' : origin'.Follows supply') (hdistinct : later.Distinct) (hdistinct' : later'.Distinct) :
    Pairing R' (origin.drawnUntil later) (origin'.drawnUntil later') := by
  cases h with
  | same => exact hpairing
  | drawn =>
    have hnext (s : Supply) : s.Follows s.next.2 := ⟨rfl, Nat.le_succ _⟩
    have hwider {origin s : Supply} (h : origin.Follows s) :
        s.next.1 :: origin.drawnUntil s ⊆ origin.drawnUntil s.next.2 := by
      intro x hx
      rcases List.mem_cons.1 hx with rfl | hx
      · rw [Supply.drawnUntil_append h (hnext s)]
        exact List.mem_append_right _ (Store.mem_drawnUntil_next s)
      · exact Supply.drawnUntil_subset h (hnext s) hx
    exact (hpairing.insert (Supply.next_not_mem hfollows hdistinct) (Supply.next_not_mem hfollows' hdistinct')).mono
      (hwider hfollows) (hwider hfollows')


/-! ## What a call comes to -/

namespace Peer

variable {p q : Peer}

theorem connected_reply (p : Peer) (a : Answer) : (p.reply a).2.connected = p.connected := by
  rcases reply_cases p a with ⟨hsame, -⟩ | ⟨tag, payload, hsent⟩
  · rw [hsame]
  · rw [hsent, Client.send_eq]

theorem connected_invoke (p : Peer) (method : String) (args : Json) :
    (p.invoke method args).peer.connected = p.connected := by
  cases ended p method args with
  | failed f _ peer => rw [peer, counted]
  | answered principal call a store supply _ _ _ _ _ peer => rw [peer, connected_reply, counted]
  | fetched id chunk depot _ _ _ _ peer => rw [peer, counted]
  | released chain _ _ _ peer => rw [peer, counted]

theorem stable_linked (base : Peer) : Client.Stable fun q : Peer => Drains base q ∧ q.connected = base.connected where
  fetch q id h := ⟨h.1.trans (fetchOn_drains q id).1, (connected_invoke q _ _).trans h.2⟩
  release q chain h := ⟨h.1.trans (releaseOn_drains q chain), (connected_invoke q _ _).trans h.2⟩

end Peer

/-- What a call costs that the store answers. -/
def Answer.cost (size : ChunkSize) (a : Answer) : Metrics :=
  match a.payload? with
  | none => { callsIssued := 1 }
  | some (_, payload) => .ofRead (Chunk.count payload.length size) payload.length

namespace Client

variable {config : Config} {call : Call} {p q : Peer} {r : Except TransportError Answer}

theorem perform_linked (h : Yields (perform config call) p r q) : (firstOn config call p).peer.Drains q ∧
    q.connected = p.connected := by
  have hfirst : ∀ u, u = p → (firstOn config call p).peer.Drains (firstOn config call u).peer ∧
      (firstOn config call u).peer.connected = (firstOn config call p).peer.connected := by
    rintro _ rfl
    exact ⟨.refl _, rfl⟩
  have hleft := perform_leaves (Peer.stable_linked (firstOn config call p).peer) hfirst (.start ⟨p, {}⟩) rfl
  rw [(h (.start ⟨p, {}⟩) rfl).2] at hleft
  exact ⟨hleft.1, hleft.2.trans (Peer.connected_invoke p _ _)⟩

/-- A call on a peer comes to a result, costs so much, and leaves a peer that has drawn at least so far. -/
structure Comes (config : Config) (call : Call) (p : Peer) (r : Except TransportError Answer) (cost : Metrics)
    (later : Supply) (q : Peer) : Prop where
  yields : Yields (perform config call) p r q
  counts : Counts (perform config call) p (cost + verdict r)
  evolves : p.Evolves q
  connected : q.connected = p.connected
  later : later.Follows q.supply

/-- What is done by a call after its first invocation draws nothing. -/
theorem Comes.of_first {cost : Metrics} {later : Supply} (hyields : Yields (perform config call) p r q)
    (hcounts : Counts (perform config call) p (cost + verdict r))
    (hlater : later.Follows (firstOn config call p).peer.supply) : Comes config call p r cost later q := by
  obtain ⟨hdrains, hconnected⟩ := perform_linked hyields
  refine ⟨hyields, hcounts, (Peer.evolves_invoke p _ _).trans hdrains.evolves, hconnected, ?_⟩
  rw [hdrains.supply]
  exact hlater

theorem heard_opening (outcome : Outcome) : heard config.verifyChecksums [.opening config call outcome] =
    { callsIssued := 1 } + match outcome with
      | .ok _ => 0
      | .error failure => collapse call.operation failure := by
  rw [heard_of_ne (method_ne_fetch call).symm]
  exact noted_eq call.operation _ outcome

section

variable (hconnected : p.connected = true) (hcall : call.WellFormed)
include hconnected hcall

theorem comes_error {e : StoreError} (hanswer : p.store.answer config.principal call p.supply = .error e) :
    Comes config call p (.error ⟨e.kind, Tunnel.flatten e.message⟩)
      ({ callsIssued := 1 } + collapse call.operation (Tunnel.encode e.toTransport)) p.supply p.counted := by
  have hfirst := firstOn_eq config hconnected hcall
  rw [hanswer] at hfirst
  obtain ⟨houtcome, hpeer⟩ := hfirst
  have hyields := perform_error hconnected hcall hanswer
  obtain ⟨-, hcounts⟩ := counts_headless houtcome rfl hyields
  rw [heard_opening] at hcounts
  refine .of_first hyields hcounts ?_
  rw [hpeer]
  exact .refl p.supply

/-- What the store answers costs one invocation, or one for each chunk of the value. -/
theorem comes_ok {a : Answer} {store : Store} {supply : Supply}
    (hanswer : p.store.answer config.principal call p.supply = .ok (a, store, supply))
    (hunmet : p.supply.Unmet (firstOn config call p).peer.supply (parkedIds p)) :
    ∃ q, Comes config call p a.reread (a.cost p.depot.size) supply q ∧ q.store = store := by
  obtain ⟨q, hyields, hstore, -⟩ := perform_ok hconnected hcall hanswer hunmet
  have hfirst := firstOn_eq config hconnected hcall
  rw [hanswer] at hfirst
  obtain ⟨houtcome, hpeer⟩ := hfirst
  refine ⟨q, .of_first hyields ?_ ?_, hstore⟩
  · unfold Answer.cost
    cases hpayload : a.payload? with
    | some sent => exact counts_sent hconnected hcall hanswer hpayload hunmet
    | none =>
      obtain ⟨reply, hreply, hhead⟩ : ∃ reply, ({ p.counted with store, supply }.reply a).1 = reply ∧
          Outcome.head? config.verifyChecksums call.operation (.ok reply) = none := by
        rcases (Store.answer_fits hanswer).bare hpayload with ⟨rfl, -⟩ | ⟨rfl, -⟩
        · exact ⟨.unit, rfl, rfl⟩
        · exact ⟨.absent .row, rfl, rfl⟩
      rw [hreply] at houtcome
      obtain ⟨-, hcounts⟩ := counts_headless houtcome hhead hyields
      rwa [heard_opening] at hcounts
  · rw [hpeer]
    exact (Peer.evolves_reply { p.counted with store, supply } a).supply

end

end Client


/-! ## Costs that differ in the chunks -/

/-- The same counts, but for the invocations that fetch chunks. -/
structure Metrics.Agrees (m n : Metrics) : Prop where
  callsFailed : m.callsFailed = n.callsFailed
  payloadBytes : m.payloadBytes = n.payloadBytes
  tunnelCollapses : m.tunnelCollapses = n.tunnelCollapses
  unavailable : m.unavailable = n.unavailable
  unfetched : m.callsIssued - m.chunksFetched = n.callsIssued - n.chunksFetched

namespace Metrics

theorem Agrees.refl (m : Metrics) : m.Agrees m := ⟨rfl, rfl, rfl, rfl, rfl⟩

theorem Agrees.add {m n m' n' : Metrics} (h : m.Agrees n) (h' : m'.Agrees n') : (m + m').Agrees (n + n') where
  callsFailed := congrArg₂ (· + ·) h.callsFailed h'.callsFailed
  payloadBytes := congrArg₂ (· + ·) h.payloadBytes h'.payloadBytes
  tunnelCollapses := congrArg₂ (· + ·) h.tunnelCollapses h'.tunnelCollapses
  unavailable := congrArg₂ (· + ·) h.unavailable h'.unavailable
  unfetched := by
    have hsplit (a b c d : UInt64) : a + b - (c + d) = a - c + (b - d) := by grind
    rw [callsIssued_add, chunksFetched_add, callsIssued_add, chunksFetched_add, hsplit, hsplit, h.unfetched,
      h'.unfetched]

/-- The call itself is the one invocation that brings its chunk without a fetch. -/
theorem agrees_ofRead {n n' : Nat} (hn : 1 ≤ n) (hn' : 1 ≤ n') (bytes : Nat) :
    (ofRead n bytes).Agrees (ofRead n' bytes) := by
  have hone {n : Nat} (hn : 1 ≤ n) : UInt64.ofNat n - UInt64.ofNat (n - 1) = 1 := by
    obtain ⟨k, rfl⟩ := Nat.exists_eq_add_of_le' hn
    rw [Nat.add_sub_cancel, UInt64.ofNat_add]
    grind
  exact ⟨rfl, rfl, rfl, rfl, (hone hn).trans (hone hn').symm⟩

end Metrics

namespace Answer.Mirrors

variable {a b : Answer} (h : a.Mirrors R b) (hnone : ∀ r r', R r r' → (r = none ↔ r' = none))
include h

include hnone in
theorem cost (size size' : ChunkSize) : (a.cost size).Agrees (b.cost size') := by
  rcases h.cases with ⟨rfl, -⟩ | ⟨set, set', rfl, rfl, hset⟩
  · unfold Answer.cost
    split
    · exact .refl _
    · exact Metrics.agrees_ofRead (Chunk.count_pos _ _) (Chunk.count_pos _ _) _
  · have hlength := hset.length_encode (hnone _ _ hset.revision)
    unfold Answer.cost payload?
    dsimp only
    rw [hlength]
    exact Metrics.agrees_ofRead (Chunk.count_pos _ _) (Chunk.count_pos _ _) _

theorem reread : Both (Answer.Mirrors R) a.reread b.reread := by
  rcases h.cases with ⟨rfl, hother⟩ | ⟨set, set', rfl, rfl, hset⟩
  · have hsame {α : Type} {f : α → Answer} (x : Except TransportError α) (hf : ∀ v, (f v).Mirrors R (f v)) :
        Both (Answer.Mirrors R) (f <$> x) (f <$> x) := .bind_same x fun v => .ok (hf v)
    cases a with
    | metadata set => exact absurd rfl (hother set)
    | done => exact .ok rfl
    | info i => exact hsame _ fun _ => rfl
    | rows result => exact hsame _ fun _ => rfl
    | row found =>
      cases found with
      | none => exact .ok rfl
      | some row => exact hsame _ fun _ => rfl
  · rw [Answer.reread_of_legible (a := .metadata set) trivial trivial,
      Answer.reread_of_legible (a := .metadata set') trivial trivial]
    exact .ok hset

end Answer.Mirrors

/-! ## Twins -/

/-- Two connected peers whose stores mirror each other. Whatever is in either of them was drawn since some time. -/
structure Peer.Twins (R : Option Token → Option Token → Prop) (origin origin' : Supply) (p p' : Peer) : Prop where
  store : p.store.Mirrors R p'.store
  pairing : Pairing R (origin.drawnUntil p.supply) (origin'.drawnUntil p'.supply)
  left : p.Dated origin
  right : p'.Dated origin'
  connected : p.connected = true
  connected' : p'.connected = true

namespace Client

variable {config : Config} {call call' : Call} {p p' : Peer} {origin origin' : Supply}

theorem verdict_both {r r' : Except TransportError Answer} {q : Answer → Answer → Prop} (h : Both q r r') :
    verdict r = verdict r' := by
  cases h <;> rfl

/-- What two calls have left are twins: what is drawn after the answers is no revision. -/
theorem Comes.twins {r r' : Except TransportError Answer} {cost cost' : Metrics} {later later' : Supply} {q q' : Peer}
    (hcomes : Comes config call p r cost later q) (hcomes' : Comes config call' p' r' cost' later' q')
    (h : p.Twins R origin origin' p') (hgrows : Grows R p.supply p'.supply R' later later')
    (hstore : q.store.Mirrors R' q'.store) (hfollows : p.supply.Follows later) (hfollows' : p'.supply.Follows later')
    (hdistinct : q.supply.Distinct) (hdistinct' : q'.supply.Distinct) : q.Twins R' origin origin' q' where
  store := hstore
  pairing := by
    have hpairing := hgrows.pairing h.pairing h.left.follows h.right.follows (hdistinct.of_follows hcomes.later)
      (hdistinct'.of_follows hcomes'.later)
    exact hpairing.mono (Supply.drawnUntil_subset (h.left.follows.trans hfollows) hcomes.later)
      (Supply.drawnUntil_subset (h.right.follows.trans hfollows') hcomes'.later)
  left := h.left.evolves hcomes.evolves
  right := h.right.evolves hcomes'.evolves
  connected := hcomes.connected.trans h.connected
  connected' := hcomes'.connected.trans h.connected'

theorem Comes.distinct {r : Except TransportError Answer} {cost : Metrics} {later : Supply} {q : Peer}
    (hcomes : Comes config call p r cost later q) (hdistinct : (firstOn config call p).peer.supply.Distinct) :
    q.supply.Distinct := (perform_linked hcomes.yields).1.supply ▸ hdistinct

/-- A call on twins comes to the same but for the revisions, costs the same but for the fetches, and leaves twins. -/
theorem perform_twins (h : p.Twins R origin origin' p') (hmatches : Store.Matches p.store p'.store call call')
    (hcall : call.WellFormed) (hdistinct : (firstOn config call p).peer.supply.Distinct)
    (hdistinct' : (firstOn config call' p').peer.supply.Distinct) :
    ∃ R' r r' q q' m m', (∀ a b, R a b → R' a b) ∧ Both (Answer.Mirrors R') r r' ∧ q.Twins R' origin origin' q' ∧
      m.Agrees m' ∧ Yields (perform config call) p r q ∧ Yields (perform config call') p' r' q' ∧
      Counts (perform config call) p m ∧ Counts (perform config call') p' m' := by
  have hcall' : call'.WellFormed := by cases hmatches <;> trivial
  have hop : call.operation = call'.operation := by cases hmatches <;> rfl
  have hanswers := h.store.answer hmatches config.principal p.supply p'.supply
  generalize hanswer : p.store.answer config.principal call p.supply = answer at hanswers
  generalize hanswer' : p'.store.answer config.principal call' p'.supply = answer' at hanswers
  cases hanswers with
  | error e =>
    have hcomes := comes_error h.connected hcall hanswer
    have hcomes' := comes_error h.connected' hcall' hanswer'
    rw [← hop] at hcomes'
    have htwins := hcomes.twins hcomes' h .same h.store (.refl _) (.refl _) (hcomes.distinct hdistinct)
      (hcomes'.distinct hdistinct')
    exact ⟨R, _, _, _, _, _, _, fun a b hab => hab, .error _, htwins, .refl _, hcomes.yields, hcomes'.yields,
      hcomes.counts, hcomes'.counts⟩
  | @ok answered answered' echoes =>
    obtain ⟨a, store, supply⟩ := answered
    obtain ⟨a', store', supply'⟩ := answered'
    obtain ⟨R', hgrows, hmirrors, hstores⟩ := echoes
    have hunmet := h.left.unmet (Peer.evolves_invoke p _ _).supply hdistinct
    have hunmet' := h.right.unmet (Peer.evolves_invoke p' _ _).supply hdistinct'
    obtain ⟨q, hcomes, rfl⟩ := comes_ok h.connected hcall hanswer hunmet
    obtain ⟨q', hcomes', rfl⟩ := comes_ok h.connected' hcall' hanswer' hunmet'
    have htwins := hcomes.twins hcomes' h hgrows hstores (Store.follows_answer hanswer) (Store.follows_answer hanswer')
      (hcomes.distinct hdistinct) (hcomes'.distinct hdistinct')
    have hreread := hmirrors.reread
    have hcost := hmirrors.cost (fun _ _ => htwins.pairing.none_iff) p.depot.size p'.depot.size
    have hcounts : (a.cost p.depot.size + verdict a.reread).Agrees (a'.cost p'.depot.size + verdict a'.reread) := by
      rw [verdict_both hreread]
      exact hcost.add (.refl _)
    exact ⟨R', _, _, q, q', _, _, fun a b => hgrows.mono, hreread, htwins, hcounts, hcomes.yields, hcomes'.yields,
      hcomes.counts, hcomes'.counts⟩

end Client

end RemoteTable
