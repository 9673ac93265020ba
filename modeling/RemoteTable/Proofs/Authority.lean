import RemoteTable.Proofs.Accounts
import RemoteTable.Proofs.Evolution

/-!
# Who changes metadata

Whatever is invoked on a peer, no table comes or goes, no row or column changes and nobody is granted anything. The
metadata of a table changes only by a write to it on behalf of a principal who is granted, and its open flag only when
it is opened or closed (`Peer.alters_invoke`, and over many invocations `Peer.alters_after`).

A principal who is not granted is refused before anything is looked up, so the refusal tells nothing about the store
(`Peer.invoke_refused_write`). A session receives it as what it is (`Session.perform_refused_write`).
-/

namespace RemoteTable

/-! ## Invocations -/

inductive Invocation.Write (i : Invocation) : (principal : Option String) → (table : String) → Prop where
  | put {a : PutArgs} (named : i.method = Operation.putMetadata.method) (read : PutArgs.codec.ofJson i.args = .ok a) :
    Write i a.principal a.entry.table
  | delete {a : DeleteArgs} (named : i.method = Operation.deleteMetadata.method)
    (read : DeleteArgs.codec.ofJson i.args = .ok a) : Write i a.principal a.table

inductive Invocation.Toggle (i : Invocation) : (table : String) → Prop where
  | opens {a : TableArgs} (named : i.method = Operation.openTable.method)
    (read : TableArgs.codec.ofJson i.args = .ok a) : Toggle i a.table
  | closes {a : TableArgs} (named : i.method = Operation.closeTable.method)
    (read : TableArgs.codec.ofJson i.args = .ok a) : Toggle i a.table

def Invocation.WriteBy (i : Invocation) (writers : List String) (table : String) : Prop :=
  ∃ w ∈ writers, i.Write (some w) table

/-! ## What a step leaves alone -/

/-- Tables and principals are those that there were, with their columns and rows. Only these tables may have other
metadata, and only those another open flag. -/
structure Store.Alters (s t : Store) (written toggled : String → Prop) : Prop where
  writers : t.writers = s.writers
  absent : ∀ name, s.tables.get? name = none → t.tables.get? name = none
  present : ∀ name a, s.tables.get? name = some a → ∃ b, t.tables.get? name = some b ∧ b.columns = a.columns ∧
    b.rows = a.rows ∧ (b.metadata ≠ a.metadata → written name) ∧ (b.isOpen ≠ a.isOpen → toggled name)

namespace Store

variable {s t u : Store} {written toggled written' toggled' : String → Prop}

theorem Alters.refl (s : Store) (written toggled : String → Prop) : s.Alters s written toggled where
  writers := rfl
  absent _ hnone := hnone
  present _ a ha := ⟨a, ha, rfl, rfl, fun h => absurd rfl h, fun h => absurd rfl h⟩

theorem Alters.mono (h : s.Alters t written toggled) (hwritten : ∀ name, written name → written' name)
    (htoggled : ∀ name, toggled name → toggled' name) : s.Alters t written' toggled' := by
  refine ⟨h.writers, h.absent, fun name a ha => ?_⟩
  obtain ⟨b, hb, hcolumns, hrows, hmetadata, hopen⟩ := h.present name a ha
  exact ⟨b, hb, hcolumns, hrows, fun hne => hwritten name (hmetadata hne), fun hne => htoggled name (hopen hne)⟩

theorem Alters.trans (h : s.Alters t written toggled) (h' : t.Alters u written toggled) :
    s.Alters u written toggled := by
  refine ⟨h'.writers.trans h.writers, fun name hnone => h'.absent name (h.absent name hnone), fun name a ha => ?_⟩
  obtain ⟨b, hb, hcolumns, hrows, hmetadata, hopen⟩ := h.present name a ha
  obtain ⟨c, hc, hcolumns', hrows', hmetadata', hopen'⟩ := h'.present name b hb
  refine ⟨c, hc, hcolumns'.trans hcolumns, hrows'.trans hrows, fun hne => ?_, fun hne => ?_⟩
  · by_cases hsame : b.metadata = a.metadata
    · exact hmetadata' fun h => hne (h.trans hsame)
    · exact hmetadata hsame
  · by_cases hsame : b.isOpen = a.isOpen
    · exact hopen' fun h => hne (h.trans hsame)
    · exact hopen hsame

/-- One table is replaced by another with the same columns and rows. -/
theorem Alters.withTable {name : String} {a b : Table} (ha : s.tables.get? name = some a)
    (hcolumns : b.columns = a.columns) (hrows : b.rows = a.rows) (hmetadata : b.metadata ≠ a.metadata → written name)
    (hopen : b.isOpen ≠ a.isOpen → toggled name) : s.Alters (s.withTable name b) written toggled := by
  have hget k : (s.withTable name b).tables.get? k = if k = name then some b else s.tables.get? k :=
    Dict.get?_insert ..
  refine ⟨rfl, fun k hnone => ?_, fun k c hc => ?_⟩
  · rw [hget, if_neg, hnone]
    rintro rfl
    cases hnone.symm.trans ha
  · rw [hget]
    by_cases hk : k = name
    · subst hk
      cases hc.symm.trans ha
      exact ⟨b, if_pos rfl, hcolumns, hrows, hmetadata, hopen⟩
    · exact ⟨c, (if_neg hk).trans hc, rfl, rfl, fun h => absurd rfl h, fun h => absurd rfl h⟩

theorem Rewrites.alters {supply later : Supply} {name : String} {a : Table} {entries : List MetadataEntry}
    (h : Rewrites s supply name a entries t later) (ha : s.tables.get? name = some a) (hwritten : written name) :
    s.Alters t written toggled := by
  cases h with
  | same => exact .refl s written toggled
  | revised => exact Alters.withTable ha rfl rfl (fun _ => hwritten) fun h => absurd rfl h

/-! ## Permission -/

def refusal : Option String → StoreError
  | some p => .notGranted p
  | none => .noPrincipal

theorem kind_refusal (principal : Option String) : (refusal principal).kind = .notAuthorized := by
  cases principal <;> rfl

theorem authorize_eq_ok {principal : Option String} (h : s.authorize principal = .ok ()) :
    ∃ w ∈ s.writers, principal = some w := by
  cases principal with
  | none => cases h
  | some w =>
    by_cases hmem : s.writers.contains w = true
    · exact ⟨w, by simpa using hmem, rfl⟩
    · rw [authorize, if_neg hmem] at h
      cases h

theorem authorize_refused {principal : Option String} (h : ∀ w ∈ s.writers, principal ≠ some w) :
    s.authorize principal = .error (refusal principal) := by
  cases principal with
  | none => rfl
  | some w =>
    have hnot : ¬s.writers.contains w = true := fun hmem => h w (by simpa using hmem) rfl
    rw [authorize, if_neg hnot, refusal]

/-- Whatever the store holds, and whatever is to be written. -/
theorem answer_refused {principal : Option String} {call : Call} (h : ∀ w ∈ s.writers, principal ≠ some w)
    (hwrite : call.operation = .putMetadata ∨ call.operation = .deleteMetadata) (supply : Supply) :
    s.answer principal call supply = .error (refusal principal) := by
  have hrefused := authorize_refused h
  cases call with
  | putMetadata entry => rw [answer, putMetadata, hrefused, Fallible.error_bind, Fallible.error_bind]
  | deleteMetadata name slot => rw [answer, deleteMetadata, hrefused, Fallible.error_bind, Fallible.error_bind]
  | openTable | closeTable | query | getRow | getMetadata | getMetadataIfChanged =>
    rcases hwrite with hput | hdelete
    · cases hput
    · cases hdelete

end Store

/-! ## Runs of invocations -/

namespace Peer

def after (p : Peer) (invocations : List Invocation) : Peer :=
  invocations.foldl (fun p i => (p.invoke i.method i.args).peer) p

theorem alters_invoke (p : Peer) (i : Invocation) : p.store.Alters (p.invoke i.method i.args).peer.store
    (i.WriteBy p.store.writers) i.Toggle := by
  cases ended p i.method i.args with
  | failed f _ peer => rw [peer]; exact .refl p.store _ _
  | fetched id chunk depot _ _ _ _ peer => rw [peer]; exact .refl p.store _ _
  | released chain _ _ _ peer => rw [peer]; exact .refl p.store _ _
  | answered principal call a store supply _ named read answer _ peer =>
    rw [peer, store_reply]
    cases Store.answer_eq_ok answer with
    | read => exact .refl p.store _ _
    | opened there =>
      obtain ⟨args, hargs, hcall⟩ := Fallible.bind_eq_ok.1 read
      cases hcall
      exact Store.Alters.withTable there rfl rfl (fun h => absurd rfl h) fun _ => .opens named hargs
    | closed there =>
      obtain ⟨args, hargs, hcall⟩ := Fallible.bind_eq_ok.1 read
      cases hcall
      exact Store.Alters.withTable there rfl rfl (fun h => absurd rfl h) fun _ => .closes named hargs
    | put granted there rewrites =>
      obtain ⟨args, hargs, hcall⟩ := Fallible.bind_eq_ok.1 read
      cases hcall
      obtain ⟨w, hw, hprincipal⟩ := Store.authorize_eq_ok granted
      exact rewrites.alters there ⟨w, hw, hprincipal ▸ .put named hargs⟩
    | deleted granted there rewrites =>
      obtain ⟨args, hargs, hcall⟩ := Fallible.bind_eq_ok.1 read
      cases hcall
      obtain ⟨w, hw, hprincipal⟩ := Store.authorize_eq_ok granted
      exact rewrites.alters there ⟨w, hw, hprincipal ▸ .delete named hargs⟩

theorem alters_after (p : Peer) (invocations : List Invocation) : p.store.Alters (p.after invocations).store
    (fun name => ∃ i ∈ invocations, i.WriteBy p.store.writers name) fun name => ∃ i ∈ invocations, i.Toggle name := by
  induction invocations generalizing p with
  | nil => exact .refl p.store _ _
  | cons i rest ih =>
    have hstep := alters_invoke p i
    have hrest := ih (p.invoke i.method i.args).peer
    rw [hstep.writers] at hrest
    refine (hstep.mono ?_ ?_).trans (hrest.mono ?_ ?_)
    · exact fun name hwritten => ⟨i, List.mem_cons_self, hwritten⟩
    · exact fun name htoggled => ⟨i, List.mem_cons_self, htoggled⟩
    · rintro name ⟨j, hj, hwritten⟩
      exact ⟨j, List.mem_cons_of_mem i hj, hwritten⟩
    · rintro name ⟨j, hj, htoggled⟩
      exact ⟨j, List.mem_cons_of_mem i hj, htoggled⟩

/-- A write by somebody who is not granted fails in one way, whatever is to be written and wherever. -/
theorem invoke_refused_write {p : Peer} (hconnected : p.connected = true) {principal : Option String}
    (h : ∀ w ∈ p.store.writers, principal ≠ some w) {i : Invocation} {table : String}
    (hwrite : i.Write principal table) :
    (p.invoke i.method i.args).outcome = .error (Tunnel.encode (Store.refusal principal).toTransport) := by
  obtain ⟨call, hop, hnamed, hread⟩ : ∃ call : Call,
      (call.operation = .putMetadata ∨ call.operation = .deleteMetadata) ∧ i.method = call.operation.method ∧
        Request.read call.operation i.args = .ok (.call principal call) := by
    cases hwrite with
    | @put a named read => exact ⟨.putMetadata a.entry, .inl rfl, named, congrArg (· >>= _) read⟩
    | @delete a named read => exact ⟨.deleteMetadata a.table a.slot, .inr rfl, named, congrArg (· >>= _) read⟩
  have hinvoke := invoke_call hconnected hread rfl
  rw [Store.answer_refused h hop] at hinvoke
  rw [hnamed]
  exact hinvoke.1

end Peer

/-! ## Sessions -/

/-- A session that writes for somebody who is not granted is told so, and counts no collapse. -/
theorem Session.perform_refused_write {p : Peer} (hconnected : p.connected = true) {s : Session} {call : Call}
    (hwrite : call.operation = .putMetadata ∨ call.operation = .deleteMetadata)
    (h : ∀ w ∈ p.store.writers, s.config.principal ≠ some w) :
    (s.perform (.direct call) p).result =
        .error ⟨.notAuthorized, Tunnel.flatten (Store.refusal s.config.principal).message⟩ ∧
      (s.perform (.direct call) p).session.metrics.tunnelCollapses = s.metrics.tunnelCollapses := by
  have hcall : call.WellFormed := by
    cases call with
    | query q => rcases hwrite with hput | hdelete <;> contradiction
    | _ => trivial
  obtain ⟨failure, hfailure⟩ : ∃ f, f = Tunnel.encode (Store.refusal s.config.principal).toTransport := ⟨_, rfl⟩
  have hanswer := Store.answer_refused h hwrite p.supply
  have hread : Tunnel.decode failure call.operation.policy =
      ⟨.notAuthorized, Tunnel.flatten (Store.refusal s.config.principal).message⟩ := by
    rw [hfailure, Tunnel.decode_encode (Store.allows_of_answer hanswer)]
    exact congrArg (TransportError.mk · _) (Store.kind_refusal s.config.principal)
  have hfirst := Client.firstOn_eq s.config hconnected hcall
  rw [hanswer] at hfirst
  have houtcome : (Client.firstOn s.config call p).outcome = .error failure := hfailure ▸ hfirst.1
  have hyields := Client.perform_refused houtcome
  have hcounts := Client.perform_counts .refused (Client.answers_opening houtcome) hyields
  rw [hread] at hyields hcounts
  have hremote : Yields (Client.perform s.config (s.remote (.direct call))) p _ _ := hyields
  refine ⟨(perform_yields hremote).1, ?_⟩
  -- the one turn of the call does not collapse
  have hquiet : (Turn.opening s.config call (.error failure)).collapses = false := by
    simp [Turn.collapses, Turn.opening, Operation.ofMethod?_method, hread]
  have hheard : (heard s.config.verifyChecksums [.opening s.config call (.error failure)]).tunnelCollapses = 0 := by
    simp [heard, hquiet]
  have hverdict (message : String) :
      (Client.verdict (α := Answer) (.error ⟨.notAuthorized, message⟩)).tunnelCollapses = 0 := rfl
  rw [metrics_of_counts hremote hcounts, Client.received_headless rfl, add_zero,
    Metrics.tunnelCollapses_add, Metrics.tunnelCollapses_add, hheard, hverdict, UInt64.add_zero, UInt64.add_zero]

/-! ## Together -/

/-- Whatever is invoked on a peer, metadata changes only by granted writes to the table and open flags only by opening
or closing it; all else stays. Whoever may not write is refused alike by all stores with the same writers, and a session
passes this on and counts no collapse. -/
theorem Peer.only_granted_write (p : Peer) (invocations : List Invocation) :
    p.store.Alters (p.after invocations).store (fun name => ∃ i ∈ invocations, i.WriteBy p.store.writers name)
      (fun name => ∃ i ∈ invocations, i.Toggle name) ∧
    (∀ before i later, invocations = before ++ i :: later → (p.after before).store.Alters
      ((p.after before).invoke i.method i.args).peer.store (i.WriteBy p.store.writers) i.Toggle) ∧
    (∀ (q : Peer) principal, (∀ w, w ∈ q.store.writers ↔ w ∈ p.store.writers) →
      (∀ w ∈ p.store.writers, principal ≠ some w) → ∃ e : StoreError, e.kind = .notAuthorized ∧
        (∀ call supply, call.operation = .putMetadata ∨ call.operation = .deleteMetadata →
          p.store.answer principal call supply = .error e ∧ q.store.answer principal call supply = .error e) ∧
        ∀ (i : Invocation) table, i.Write principal table → p.connected = true → q.connected = true →
          (p.invoke i.method i.args).outcome = .error (Tunnel.encode ⟨.notAuthorized, e.message⟩) ∧
          (q.invoke i.method i.args).outcome = .error (Tunnel.encode ⟨.notAuthorized, e.message⟩)) ∧
    (∀ (s : Session) call, p.connected = true →
      call.operation = .putMetadata ∨ call.operation = .deleteMetadata →
      (∀ w ∈ p.store.writers, s.config.principal ≠ some w) →
        (∃ message, (s.perform (.direct call) p).result = .error ⟨.notAuthorized, message⟩) ∧
        (s.perform (.direct call) p).session.metrics.tunnelCollapses = s.metrics.tunnelCollapses) := by
  refine ⟨alters_after p invocations, fun before i later _ => ?_, ?_, ?_⟩
  · -- the writers are still those of the beginning
    have hstep := alters_invoke (p.after before) i
    rwa [(alters_after p before).writers] at hstep
  · intro q principal hsame hnot
    have hnot' : ∀ w ∈ q.store.writers, principal ≠ some w := fun w hw => hnot w ((hsame w).1 hw)
    refine ⟨Store.refusal principal, Store.kind_refusal principal, fun call supply hwrite => ?_,
      fun i table hwrite hp hq => ?_⟩
    · exact ⟨Store.answer_refused hnot hwrite supply, Store.answer_refused hnot' hwrite supply⟩
    · have htransport : (Store.refusal principal).toTransport = ⟨.notAuthorized, (Store.refusal principal).message⟩ :=
        congrArg (TransportError.mk · _) (Store.kind_refusal principal)
      rw [← htransport]
      exact ⟨invoke_refused_write hp hnot hwrite, invoke_refused_write hq hnot' hwrite⟩
  · intro s call hconnected hwrite hnot
    obtain ⟨hresult, hcollapses⟩ := Session.perform_refused_write hconnected hwrite hnot
    exact ⟨⟨_, hresult⟩, hcollapses⟩

/-- A stranger writes to a table that is there and to one that is not, and a session writes for nobody. -/
theorem Peer.only_granted_write_of_stranger :
    let peer (s : Store) : Peer := ⟨s, ⟨⟨16, by decide⟩, by decide, []⟩, true, 0, .fresh fun n => ⟨BitVec.ofNat 128 n⟩⟩
    let p := peer ⟨.empty, ["w"]⟩
    let q := peer ((⟨.empty, ["w"]⟩ : Store).withTable "t" ⟨["c"], [], true, ⟨"t", some ⟨7⟩, []⟩⟩)
    let entry : MetadataEntry := ⟨"t", "p", "a", "k", "string", "v"⟩
    let i : Invocation := ⟨Operation.putMetadata.method, PutArgs.codec.pack ⟨some "x", entry⟩⟩
    (q.after [i]).store.writers = ["w"] ∧
    (∃ f, (p.invoke i.method i.args).outcome = .error f ∧ (q.invoke i.method i.args).outcome = .error f) ∧
    ∃ message,
      ((Session.new {}).perform (.direct (.putMetadata entry)) q).result = .error ⟨.notAuthorized, message⟩ := by
  intro peer p q entry i
  obtain ⟨hrun, -, htwo, hsession⟩ := only_granted_write q [i]
  have hread : PutArgs.codec.ofJson i.args = .ok ⟨some "x", entry⟩ := PutArgs.unpacks ⟨some "x", entry⟩
  have hwrite : i.Write (some "x") "t" := .put rfl hread
  have hnot : ∀ w ∈ q.store.writers, some "x" ≠ some w := by decide
  obtain ⟨e, -, -, hsame⟩ := htwo p (some "x") (fun w => Iff.rfl) hnot
  obtain ⟨hq, hp⟩ := hsame i "t" hwrite rfl rfl
  exact ⟨hrun.writers, ⟨_, hp, hq⟩, (hsession (.new {}) (.putMetadata entry) rfl (.inl rfl) nofun).1⟩

end RemoteTable
