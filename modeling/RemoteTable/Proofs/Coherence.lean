import RemoteTable.Deployment
import RemoteTable.Proofs.Evolution
import RemoteTable.Proofs.Session

/-!
# Cached metadata is current

Revisions are drawn from one supply, and metadata changes only with a new revision. So in every deployment that a run
reaches, a cache line at the revision of its table holds the metadata of the table, whoever has written in between and
whatever was lost on the way (`Deployment.Coherent`). A lookup asks with the revision of the line and settles on what
comes back: it returns what the store holds, or an error (`Session.perform_current`).

The tokens drawn in a run are assumed to differ.
-/

namespace RemoteTable

/-! ## Inquiries -/

/-- What the store says to an inquiry. -/
def Store.inform (s : Store) : Inquiry → Except StoreError MetadataSet
  | .fetch table => s.metadata table
  | .ifChanged table known => s.metadataIfChanged table known

theorem Store.answer_inquiry {s t : Store} {principal : Option String} {inquiry : Inquiry} {supply later : Supply}
    {a : Answer} (h : s.answer principal inquiry.call supply = .ok (a, t, later)) :
    ∃ set, a = .metadata set ∧ s.inform inquiry = .ok set := by
  cases inquiry <;>
  · obtain ⟨set, hset, hok⟩ := Fallible.bind_eq_ok.1 h
    cases hok
    exact ⟨set, rfl, hset⟩

/-- What an inquiry brings over a sound line is what the store says. -/
theorem Client.inform_of_yields {config : Config} {p q : Peer} {inquiry : Inquiry} {a : Answer}
    (hunmet : p.supply.Unmet (firstOn config inquiry.call p).peer.supply (parkedIds p))
    (h : Yields (perform config inquiry.call) p (.ok a) q) :
    ∃ set, a = .metadata set ∧ p.store.inform inquiry = .ok set := by
  by_cases hconnected : p.connected = true
  · have hcall : inquiry.call.WellFormed := by cases inquiry <;> trivial
    cases hanswer : p.store.answer config.principal inquiry.call p.supply with
    | error e => cases h.unique (perform_error hconnected hcall hanswer)
    | ok answered =>
      obtain ⟨found, store, supply⟩ := answered
      obtain ⟨set, rfl, hinform⟩ := Store.answer_inquiry hanswer
      obtain ⟨u, hdone, -⟩ := perform_ok hconnected hcall hanswer hunmet
      have hreread : (Answer.metadata set).reread = .ok (.metadata set) := Answer.reread_of_legible trivial trivial
      cases (h.unique hdone).trans hreread
      exact ⟨set, rfl, hinform⟩
  · have hrefused := (Peer.invoke_disconnected (Bool.eq_false_iff.2 hconnected) inquiry.call.operation.method
      (inquiry.call.arguments config.principal)).1
    cases h.unique (perform_refused hrefused)

/-! ## Caches -/

namespace Cache

/-- Every line is at one of these revisions, and a line at the revision of its table is the metadata of the table. -/
structure Coherent (c : Cache) (s : Store) (dates : List Token) : Prop where
  dated : ∀ table line, c.lines.get? table = some line → ∃ x ∈ dates, line.revision = some x
  current : ∀ table line t, c.lines.get? table = some line → s.tables.get? table = some t →
    t.metadata.revision = line.revision → t.metadata = line

variable {c : Cache} {s : Store} {dates : List Token} {table : String}

theorem coherent_empty (s : Store) (dates : List Token) : empty.Coherent s dates where
  dated _ _ hline := nomatch hline
  current _ _ _ hline := nomatch hline

theorem Coherent.insert (h : c.Coherent s dates) (hs : s.Dated dates) {t : Table}
    (hget : s.tables.get? table = some t) (stats : CacheStats) :
    (Cache.mk (c.lines.insert table t.metadata) stats).Coherent s dates := by
  refine ⟨fun name line hline => ?_, fun name line u hline hu hsame => ?_⟩ <;> rw [Dict.get?_insert] at hline <;>
    split at hline
  · cases hline
    exact hs table t hget
  · exact h.dated name line hline
  · rename_i hname
    subst hname
    cases hline
    cases hget.symm.trans hu
    rfl
  · exact h.current name line u hline hu hsame

/-- Settled on what the store says, the line is what the store holds. -/
theorem Coherent.settle (h : c.Coherent s dates) (hs : s.Dated dates) {set : MetadataSet}
    (hinform : s.inform (c.inquiry table) = .ok set) :
    s.metadata table = .ok (c.lineAfter table set) ∧ (c.settle table set).1.Coherent s dates := by
  unfold inquiry at hinform
  unfold lineAfter Cache.settle
  cases hline : c.lines.get? table with
  | none =>
    rw [hline] at hinform
    have hfetched : s.metadata table = .ok set := hinform
    obtain ⟨t, hget, rfl⟩ := Store.metadata_eq_ok hfetched
    exact ⟨hfetched, h.insert hs hget _⟩
  | some line =>
    rw [hline] at hinform
    obtain ⟨current, hcurrent, hset⟩ := Fallible.bind_eq_ok.1 hinform
    obtain ⟨t, hget, rfl⟩ := Store.metadata_eq_ok hcurrent
    by_cases hsame : t.metadata.revision = line.revision
    · -- the table is still at the revision of the line
      rw [if_pos hsame] at hset
      cases hset
      dsimp only
      rw [if_pos hsame, if_pos hsame, ← h.current table line t hline hget hsame]
      exact ⟨hcurrent, h.dated, h.current⟩
    · rw [if_neg hsame] at hset
      cases hset
      dsimp only
      rw [if_neg hsame, if_neg hsame]
      exact ⟨hcurrent, h.insert hs hget _⟩

end Cache

/-! ## Peers -/

namespace Peer

/-- The revisions of the tables and the ids of the parked chunks were drawn from the supply since some time, and each
parked chunk has an id of its own. -/
structure Dated (origin : Supply) (p : Peer) : Prop where
  follows : origin.Follows p.supply
  store : p.store.Dated (origin.drawnUntil p.supply)
  parked : ∀ k ∈ p.depot.parked, ∀ x ∈ k.ids, x ∈ origin.drawnUntil p.supply
  parkedIds : (Client.parkedIds p).Sublist (origin.drawnUntil p.supply)

variable {origin : Supply} {p q : Peer}

theorem Dated.evolves (h : Dated origin p) (hpq : Evolves p q) : Dated origin q := by
  have hdrawn := Supply.drawnUntil_append h.follows hpq.supply
  refine ⟨h.follows.trans hpq.supply, h.store.revised hpq.metadata h.follows hpq.supply, fun k hk => ?_, ?_⟩
  · rw [hdrawn]
    rcases hpq.parked k hk with hp | hnew
    · exact fun x hx => List.mem_append_left _ (h.parked k hp x hx)
    · exact fun x hx => List.mem_append_right _ (hnew x hx)
  · rw [hdrawn]
    exact hpq.parkedIds.trans (h.parkedIds.append_right _)

theorem Dated.nodup (h : Dated origin p) (hdistinct : p.supply.Distinct) : (Client.parkedIds p).Nodup :=
  h.parkedIds.nodup (hdistinct.unmet (.refl origin) h.follows).nodup

/-- The ids that the depot knows are in the way of nothing that is drawn later. -/
theorem Dated.unmet_ids (h : Dated origin p) {later : Supply} (hlater : p.supply.Follows later)
    (hdistinct : later.Distinct) : p.supply.Unmet later p.depot.ids := by
  refine (hdistinct.unmet h.follows hlater).mono fun x hx => ?_
  obtain ⟨k, hk, hids⟩ := Depot.mem_ids.1 hx
  exact h.parked k hk x hids

/-- The chunks that are parked are in the way of nothing that is drawn later. -/
theorem Dated.unmet (h : Dated origin p) {later : Supply} (hlater : p.supply.Follows later)
    (hdistinct : later.Distinct) : p.supply.Unmet later (Client.parkedIds p) := by
  refine (h.unmet_ids hlater hdistinct).mono fun x hx => ?_
  obtain ⟨k, hk, rfl⟩ := List.mem_map.1 hx
  exact Depot.mem_ids.2 ⟨k, hk, List.mem_cons_of_mem _ List.mem_cons_self⟩

end Peer

/-- A line is not made current by what the peer becomes: a new revision is none of those that lines are at. -/
theorem Cache.Coherent.evolves {c : Cache} {origin : Supply} {p q : Peer}
    (h : c.Coherent p.store (origin.drawnUntil p.supply)) (hfollows : origin.Follows p.supply)
    (hpq : Peer.Evolves p q) (hdistinct : q.supply.Distinct) :
    c.Coherent q.store (origin.drawnUntil q.supply) := by
  have hdrawn := Supply.drawnUntil_append hfollows hpq.supply
  refine ⟨fun table line hline => ?_, fun table line u hline hu hsame => ?_⟩
  · obtain ⟨x, hx, hrevision⟩ := h.dated table line hline
    exact ⟨x, hdrawn ▸ List.mem_append_left _ hx, hrevision⟩
  · obtain ⟨x, hx, hrevision⟩ := h.dated table line hline
    obtain ⟨t, ht, hkept⟩ := hpq.metadata.kept hfollows hpq.supply hdistinct hu hx (hsame.trans hrevision)
    rw [hkept] at hsame ⊢
    exact h.current table line t hline ht hsame

/-! ## Lookups -/

namespace Session

variable {s : Session} {l : Faulty} {origin : Supply}

/-- After the first invocation chunks and the connection get lost at most. -/
theorem perform_drains (s : Session) (call : SessionCall) (l : Faulty) :
    Peer.Drains (Client.firstOn s.config (s.remote call) l).peer.peer (s.perform call l).peer.peer :=
  perform_leaves (Faulty.stable_drains _) (.refl _)

/-- Over a line that loses replies at most an operation fails and keeps the cache, or concludes from the answer that
comes over a sound line. -/
theorem perform_lossy {call : SessionCall} (hpeer : l.peer.Dated origin) (hlosses : l.Within (· = .none))
    (hdistinct : (s.perform call l).peer.peer.supply.Distinct) :
    ((∃ e, (s.perform call l).result = .error e) ∧ (s.perform call l).session.cache = s.cache) ∨
    ∃ a q, Yields (Client.perform s.config (s.remote call)) l.met (.ok a) q ∧
      l.met.supply.Unmet (Client.firstOn s.config (s.remote call) l.met).peer.supply (Client.parkedIds l.met) ∧
      (s.perform call l).result = .ok (s.conclude call a).1 ∧
      (s.perform call l).session.cache = (s.conclude call a).2 := by
  rcases Faulty.invoke_within hlosses rfl (s.remote call).operation.method
    ((s.remote call).arguments s.config.principal) with ⟨f, -, hlost⟩ | ⟨d, rfl, houtcome, hdrains⟩
  · obtain ⟨hresult, hkept, -⟩ := perform_yields (Client.perform_refused hlost)
    exact .inl ⟨⟨_, hresult⟩, hkept⟩
  · -- nothing is drawn after the first invocation
    have hsupply : (s.perform call l).peer.peer.supply =
        (Client.firstOn s.config (s.remote call) l.met).peer.supply := (perform_drains s call l).supply.trans hdrains.supply
    have hdrawn : l.met.supply.Follows (Client.firstOn s.config (s.remote call) l.met).peer.supply :=
      (Peer.evolves_invoke l.met _ _).supply
    have hunmet := (hpeer.evolves (Faulty.drains_met l).evolves).unmet hdrawn (hsupply ▸ hdistinct)
    have hnoticed : l.Within (Damage.Noticed s.config.verifyChecksums) := by
      intro f hf
      refine (hlosses f hf).mono ?_
      rintro _ rfl
      exact Damage.noticed_none _
    obtain ⟨r, q, r', u, hsound, hfaulty, hspared⟩ :=
      Client.perform_passed hnoticed (Damage.noticed_none _) houtcome hdrains hunmet
    obtain ⟨hresult, hkept, -⟩ := perform_yields hfaulty
    cases r' with
    | error e => exact .inl ⟨⟨_, hresult⟩, hkept⟩
    | ok a =>
      have hclean : ¬Client.Garbled s.config (s.remote call) l := by
        intro hgarbled
        obtain ⟨e, he, -⟩ := hspared.internal hgarbled
        cases he
      rcases hspared.otherwise hclean with rfl | ⟨e, he, -⟩
      · exact .inr ⟨a, q, hsound, hunmet, hresult, hkept⟩
      · cases he

/-- A lookup over a line that loses replies at most returns what the store holds and keeps a coherent cache, or fails
and keeps the cache. -/
theorem perform_current {table : String} {filter : MetadataFilter} (hpeer : l.peer.Dated origin)
    (hcache : s.cache.Coherent l.peer.store (origin.drawnUntil l.peer.supply)) (hlosses : l.Within (· = .none))
    (hdistinct : (s.perform (.cached table filter) l).peer.peer.supply.Distinct) :
    let done := s.perform (.cached table filter) l
    ((∃ e, done.result = .error e) ∧ done.session.cache = s.cache) ∨
    ∃ set, l.peer.store.metadata table = .ok set ∧ done.result = .ok (.metadata (set.filtered filter)) ∧
      done.session.cache.Coherent l.peer.store (origin.drawnUntil l.peer.supply) := by
  rcases perform_lossy hpeer hlosses hdistinct with hfailed | ⟨a, q, hsound, hunmet, hresult, hkept⟩
  · exact .inl hfailed
  · obtain ⟨set, rfl, hinform⟩ := Client.inform_of_yields hunmet hsound
    rw [(Faulty.drains_met l).store] at hinform
    obtain ⟨hcurrent, hsettled⟩ := hcache.settle hpeer.store hinform
    exact .inr ⟨_, hcurrent, hresult, hkept ▸ hsettled⟩

end Session

end RemoteTable
