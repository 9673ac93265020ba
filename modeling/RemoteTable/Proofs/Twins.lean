import RemoteTable.Proofs.Client.Twins
import RemoteTable.Proofs.Logging

/-!
# Sessions on two peers

An operation of a session that returns a value takes one invocation for each chunk of the serialized value
(`Session.perform_read`). What the size of the chunks has no influence on is the rest: two sessions mirror each other if
they have counted the same but for the fetches, and hold the same sets in their caches at revisions that correspond. On
peers that are twins the same operation then has the same result but for the revisions, and leaves sessions that mirror
each other (`Session.Mirrors.perform`). The caches ask each with its own revision, and it is current on both sides or on
neither (`Cache.Mirrors.inquiry`).
-/

namespace RemoteTable

open Fallible (Both)

variable {R R' : Option Token → Option Token → Prop} {met met' : List Token} {origin origin' : Supply}

/-! ## Caches -/

theorem MetadataSet.Mirrors.filtered {a b : MetadataSet} (h : a.Mirrors R b) (hR : R none none)
    (filter : MetadataFilter) : (a.filtered filter).Mirrors R (b.filtered filter) := by
  obtain ⟨table, revision, entries⟩ := a
  obtain ⟨rfl, hrevision, rfl⟩ := h
  refine ⟨rfl, ?_, rfl⟩
  unfold MetadataSet.filtered
  dsimp only
  split
  · exact hR
  · exact hrevision

structure Cache.Mirrors (R : Option Token → Option Token → Prop) (c d : Cache) : Prop where
  stats : c.stats = d.stats
  lines : ∀ table, Option.Rel (MetadataSet.Mirrors R) (c.lines.get? table) (d.lines.get? table)

/-- A cache whose lines are at revisions that both runs have drawn mirrors itself. -/
theorem Cache.Coherent.mirrors {c : Cache} {s s' : Store} (h : c.Coherent s met) (h' : c.Coherent s' met') :
    c.Mirrors (Shared met met') c := by
  refine ⟨rfl, fun table => ?_⟩
  cases hline : c.lines.get? table with
  | none => exact .none
  | some line => exact .some ⟨rfl, .of_mem (h.dated table line hline) (h'.dated table line hline), rfl⟩

namespace Cache.Mirrors

variable {c d : Cache} (h : c.Mirrors R d) {table : String} {set set' : MetadataSet}
include h

theorem mono (hR : ∀ a b, R a b → R' a b) : c.Mirrors R' d :=
  ⟨h.stats, fun table => optionRel_mono (h.lines table) fun _ _ hab => hab.mono hR⟩

theorem insert (hset : set.Mirrors R set') (stats : CacheStats) :
    (Cache.mk (c.lines.insert table set) stats).Mirrors R ⟨d.lines.insert table set', stats⟩ := by
  refine ⟨rfl, fun name => ?_⟩
  rw [Dict.get?_insert, Dict.get?_insert]
  split
  · exact .some hset
  · exact h.lines name

/-- Two caches settle alike on sets that mirror each other: a line is current in both or in neither. -/
theorem settle (hpairing : Pairing R met met') (hset : set.Mirrors R set') :
    (c.settle table set).1.Mirrors R (d.settle table set').1 ∧
      (c.lineAfter table set).Mirrors R (d.lineAfter table set') := by
  unfold Cache.settle lineAfter
  rcases optionRel_ways (h.lines table) with ⟨hc, hd⟩ | ⟨line, line', hc, hd, hline⟩
  · rw [hc, hd, h.stats]
    exact ⟨h.insert hset _, hset⟩
  · have hcurrent : set.revision = line.revision ↔ set'.revision = line'.revision :=
      hpairing.oneToOne _ _ _ _ hset.revision hline.revision
    rw [hc, hd, h.stats]
    dsimp only
    by_cases hsame : set.revision = line.revision
    · rw [if_pos hsame, if_pos hsame, if_pos (hcurrent.1 hsame), if_pos (hcurrent.1 hsame)]
      exact ⟨⟨rfl, h.lines⟩, hline⟩
    · rw [if_neg hsame, if_neg hsame, if_neg (mt hcurrent.2 hsame), if_neg (mt hcurrent.2 hsame)]
      exact ⟨h.insert hset _, hset⟩

theorem inquiry (hpairing : Pairing R met met') {s t : Store} (hst : s.Mirrors R t) (table : String) :
    Store.Matches s t (c.inquiry table).call (d.inquiry table).call := by
  rcases optionRel_ways (h.lines table) with ⟨hc, hd⟩ | ⟨line, line', hc, hd, hline⟩
  · rw [inquiry_of_none hc, inquiry_of_none hd]
    exact .same fun name known heq => by cases heq
  · rw [inquiry_of_some hc, inquiry_of_some hd]
    refine .ifChanged fun a b ha hb => ?_
    have hab := hst.tables table
    rw [ha, hb] at hab
    cases hab with
    | some hab => exact hpairing.oneToOne _ _ _ _ hab.metadata.revision hline.revision

end Cache.Mirrors

/-! ## Sessions -/

structure Session.Mirrors (R : Option Token → Option Token → Prop) (s t : Session) : Prop where
  config : s.config = t.config
  metrics : s.metrics.Agrees t.metrics
  cache : s.cache.Mirrors R t.cache

/-- The same call of a session, but that a revision may be brought to either store that is current there alike. -/
inductive SessionCall.Matches (s t : Store) : SessionCall → SessionCall → Prop where
  | direct {call call' : Call} (calls : Store.Matches s t call call') (wellFormed : call.WellFormed) :
    Matches s t (.direct call) (.direct call')
  | cached (table : String) (filter : MetadataFilter) : Matches s t (.cached table filter) (.cached table filter)

namespace Session

variable {s t : Session} {call call' : SessionCall} {p p' : Peer}

theorem mirrors_new (config : Config) : (new config).Mirrors R (new config) :=
  ⟨rfl, .refl _, rfl, fun _ => .none⟩

theorem Mirrors.mono (h : s.Mirrors R t) (hR : ∀ a b, R a b → R' a b) : s.Mirrors R' t :=
  ⟨h.config, h.metrics, h.cache.mono hR⟩

theorem Mirrors.conclude (h : s.Mirrors R t) (hpairing : Pairing R met met') {st st' : Store}
    (hcalls : SessionCall.Matches st st' call call') {a b : Answer} (hab : a.Mirrors R b) :
    (s.conclude call a).1.Mirrors R (t.conclude call' b).1 ∧
      (s.conclude call a).2.Mirrors R (t.conclude call' b).2 := by
  cases hcalls with
  | direct => exact ⟨hab, h.cache⟩
  | cached table filter =>
    rcases hab.cases with ⟨rfl, hother⟩ | ⟨set, set', rfl, rfl, hset⟩
    · cases a with
      | metadata set => exact absurd rfl (hother set)
      | done | info | rows | row => exact ⟨hab, h.cache⟩
    · obtain ⟨hsettled, hline⟩ := h.cache.settle hpairing hset
      exact ⟨hline.filtered hpairing.absent filter, hsettled⟩

theorem Mirrors.remote (h : s.Mirrors R t) (hpeers : p.Twins R origin origin' p')
    (hcalls : SessionCall.Matches p.store p'.store call call') :
    Store.Matches p.store p'.store (s.remote call) (t.remote call') ∧ (s.remote call).WellFormed := by
  cases hcalls with
  | direct calls wellFormed => exact ⟨calls, wellFormed⟩
  | cached table filter =>
    refine ⟨h.cache.inquiry hpeers.pairing hpeers.store table, ?_⟩
    show (s.cache.inquiry table).call.WellFormed
    cases s.cache.inquiry table <;> trivial

theorem supply_perform (s : Session) (call : SessionCall) (p : Peer) :
    (s.perform call p).peer.supply = (Client.firstOn s.config (s.remote call) p).peer.supply := by
  obtain ⟨r, q, -, -, hyields⟩ := Client.turns_course s.config (s.remote call) p
  rw [(perform_yields hyields).2.2]
  exact (Client.perform_linked hyields).1.supply

/-- An operation of two sessions that mirror each other, on twins, has the same result but for the revisions, and leaves
sessions that mirror each other on twins. -/
theorem Mirrors.perform (h : s.Mirrors R t) (hpeers : p.Twins R origin origin' p')
    (hcalls : SessionCall.Matches p.store p'.store call call') (hdistinct : (s.perform call p).peer.supply.Distinct)
    (hdistinct' : (t.perform call' p').peer.supply.Distinct) :
    ∃ R', (∀ a b, R a b → R' a b) ∧ Both (Answer.Mirrors R') (s.perform call p).result (t.perform call' p').result ∧
      (s.perform call p).session.Mirrors R' (t.perform call' p').session ∧
      (s.perform call p).peer.Twins R' origin origin' (t.perform call' p').peer := by
  obtain ⟨hremote, hwellFormed⟩ := h.remote hpeers hcalls
  rw [supply_perform, h.config] at hdistinct
  rw [supply_perform] at hdistinct'
  obtain ⟨R', r, r', q, q', m, m', hR, hresults, htwins, hagrees, hyields, hyields', hcounts, hcounts'⟩ :=
    Client.perform_twins hpeers hremote hwellFormed hdistinct hdistinct'
  rw [← h.config] at hyields hcounts
  obtain ⟨hresult, hcache, rfl⟩ := perform_yields hyields
  obtain ⟨hresult', hcache', rfl⟩ := perform_yields hyields'
  have hlater := h.mono hR
  have hconclude {a b : Answer} (hab : a.Mirrors R' b) := hlater.conclude htwins.pairing hcalls hab
  refine ⟨R', hR, ?_, ⟨h.config, ?_, ?_⟩, htwins⟩
  · rw [hresult, hresult']
    exact hresults.map fun a b hab => (hconclude hab).1
  · rw [metrics_of_counts hyields hcounts, metrics_of_counts hyields' hcounts']
    exact h.metrics.add hagrees
  · rw [hcache, hcache']
    cases hresults with
    | ok hab => exact (hconclude hab).2
    | error e => exact hlater.cache

end Session

/-! ## The cost of a read -/

namespace Session

/-- An operation that returns a value over a sound line takes one invocation for each chunk of it, and the counters grow
by that and by its length only. -/
theorem perform_read {s : Session} {call : SessionCall} {p : Peer} {r : Answer} (hdated : p.Dated origin)
    (hconnected : p.connected = true) (hcall : (s.remote call).WellFormed)
    (hdistinct : (s.perform call p).peer.supply.Distinct) (hresult : (s.perform call p).result = .ok r)
    (hpresent : r.payload? ≠ none) :
    ∃ a store supply tag payload,
      p.store.answer s.config.principal (s.remote call) p.supply = .ok (a, store, supply) ∧
      a.payload? = some (tag, payload) ∧ .ok r = (fun b => (s.conclude call b).1) <$> a.reread ∧
      (s.turns call p).map (·.invocation.method) = (s.remote call).operation.method ::
        List.replicate (Chunk.count payload.length p.depot.size - 1) Operation.fetchChunk.method ∧
      (s.perform call p).session.metrics =
        s.metrics + .ofRead (Chunk.count payload.length p.depot.size) payload.length := by
  have hunmet := hdated.unmet (Peer.evolves_invoke p _ _).supply (supply_perform s call p ▸ hdistinct)
  cases hanswer : p.store.answer s.config.principal (s.remote call) p.supply with
  | error e =>
    obtain ⟨hfailed, -⟩ := perform_yields (Client.perform_error hconnected hcall hanswer)
    cases hresult.symm.trans hfailed
  | ok answered =>
    obtain ⟨a, store, supply⟩ := answered
    obtain ⟨q, hyields, -⟩ := Client.perform_ok hconnected hcall hanswer hunmet
    have hreread := hresult.symm.trans (perform_yields hyields).1
    cases hpayload : a.payload? with
    | none =>
      -- nothing, or no row, is no value
      have hbare : r = a := by
        rcases (Store.answer_fits hanswer).bare hpayload with ⟨rfl, -⟩ | ⟨rfl, -⟩ <;>
        · cases call <;> exact Except.ok.inj hreread
      exact absurd (hbare ▸ hpayload) hpresent
    | some sent =>
      obtain ⟨tag, payload⟩ := sent
      obtain ⟨outcome, fetches, bytes, head, hturns, -, hfetches, -, hcount⟩ :=
        Client.turns_sent hconnected hcall hanswer hpayload hunmet
      refine ⟨a, store, supply, tag, payload, rfl, hpayload, hreread, ?_, ?_⟩
      · rw [turns_eq, hturns, List.map_cons, hfetches.methods_eq, ← hcount, Nat.add_sub_cancel]
        rfl
      · have hverdict : Client.verdict a.reread = 0 := by
          cases hread : a.reread with
          | ok b => rfl
          | error e =>
            rw [hread] at hreread
            cases hreread
        have hcounts := Client.counts_sent hconnected hcall hanswer hpayload hunmet
        rw [hverdict, add_zero] at hcounts
        exact metrics_of_counts hyields hcounts

end Session

end RemoteTable
