import RemoteTable.Proofs.Coherence

/-!
# Runs of a deployment

A run is a list of steps, taken one after another: operations of the sessions, of the store itself and of the
connection, faults to come, and invocations from elsewhere. Whatever the step, the peer evolves (`evolves_step`), so
what is parked has ids drawn in the run, and those drawn later are others (`unmet_run`). A run in which replies are
lost at most keeps the deployment coherent (`Coherent.run`), and no session ever reads metadata that is not the
store's (`run_never_stale`).
-/

namespace RemoteTable

/-- The faults that the step puts ahead lose replies at most. -/
def Step.Lossy : Step → Prop
  | .expect faults => ∀ f ∈ faults, f.Within (· = .none)
  | _ => True

namespace Deployment

def run (d : Deployment) (steps : List Step) : Deployment := steps.foldl (fun d step => (d.step step).deployment) d

theorem run_append (d : Deployment) (before after : List Step) : d.run (before ++ after) = (d.run before).run after :=
  List.foldl_append

/-! ## Every step evolves the peer -/

theorem evolves_onStore {d : Deployment} {r : Except StoreError (Answer × Store × Supply)}
    (h : ∀ a store supply, r = .ok (a, store, supply) →
      d.peer.supply.Follows supply ∧ d.peer.store.Revised d.peer.supply store supply) :
    Peer.Evolves d.peer (d.onStore r).deployment.peer := by
  match r with
  | .error e => exact (Peer.Drains.refl d.peer).evolves
  | .ok (a, store, supply) =>
    obtain ⟨hfollows, hrevised⟩ := h a store supply rfl
    exact ⟨hfollows, hrevised, fun k hk => .inl hk, List.sublist_append_left _ _⟩

theorem step_session {d : Deployment} {index : Nat} {s : Session} (hs : d.session? index = some s)
    (call : SessionCall) : d.step (.session index call) =
      ⟨.performed (s.perform call d.line).result (s.perform call d.line).session,
        { d with line := (s.perform call d.line).peer }.withSession index (s.perform call d.line).session,
        (s.perform call d.line).records⟩ := by
  simp only [step, hs]

theorem step_noSession {d : Deployment} {index : Nat} (hs : d.session? index = none) (call : SessionCall) :
    d.step (.session index call) = ⟨.noSession, d, []⟩ := by
  simp only [step, hs]

theorem evolves_step (d : Deployment) (step : Step) : Peer.Evolves d.peer (d.step step).deployment.peer := by
  have hrefl := (Peer.Drains.refl d.peer).evolves
  cases step with
  | session index call =>
    cases hs : d.session? index with
    | none =>
      rw [step_noSession hs]
      exact hrefl
    | some s =>
      rw [step_session hs]
      exact (Faulty.evolves_invoke d.line _ _).trans (Session.perform_drains s call d.line).evolves
  | createTable table columns =>
    refine evolves_onStore fun a store supply hr => ?_
    cases hmade : d.peer.store.createTable table columns d.peer.supply with
    | error e =>
      rw [hmade] at hr
      cases hr
    | ok made =>
      rw [hmade] at hr
      cases hr
      have hamends := Store.amends_createTable hmade
      exact ⟨hamends.follows, hamends.revised⟩
  | insertRow table row =>
    refine evolves_onStore fun a store supply hr => ?_
    cases hmade : d.peer.store.insertRow table row with
    | error e =>
      rw [hmade] at hr
      cases hr
    | ok made =>
      rw [hmade] at hr
      cases hr
      exact ⟨.refl _, (Store.amends_insertRow hmade _).revised⟩
  | grantWrite principal =>
    refine evolves_onStore fun a store supply hr => ?_
    cases hr
    exact ⟨.refl _, (Store.amends_grantWrite d.peer.store principal _).revised⟩
  | direct principal call =>
    exact evolves_onStore fun a store supply hr => ⟨Store.follows_answer hr, (Store.amends_answer hr).revised⟩
  | disconnect => exact (Faulty.drains_switch d.peer (some .down)).evolves
  | reconnect => exact (Faulty.drains_switch d.peer (some .up)).evolves
  | closeSession index =>
    simp only [Deployment.step]
    split <;> exact hrefl
  | openSession index =>
    simp only [Deployment.step]
    split <;> exact hrefl
  | expect faults => exact hrefl
  | invoke method args => exact Peer.evolves_invoke d.peer method args

theorem evolves_run (d : Deployment) (steps : List Step) : Peer.Evolves d.peer (d.run steps).peer := by
  induction steps generalizing d with
  | nil => exact (Peer.Drains.refl d.peer).evolves
  | cons step steps ih => exact (evolves_step d step).trans (ih _)

/-! ## Sessions -/

theorem session?_withSession (d : Deployment) (i j : Nat) (session : Option Session) {s : Session}
    (h : (d.withSession i session).session? j = some s) : session = some s ∨ d.session? j = some s := by
  unfold session? withSession at h
  rw [List.getElem?_modify] at h
  cases hplace : d.places[j]? with
  | none =>
    rw [hplace] at h
    cases h
  | some place =>
    rw [hplace] at h
    change (if i = j then { place with session } else place).session = some s at h
    by_cases hij : i = j
    · rw [if_pos hij] at h
      exact .inl h
    · rw [if_neg hij] at h
      refine .inr ?_
      unfold session?
      rw [hplace]
      exact h

/-! ## Coherence -/

/-- The peer holds nothing that was not drawn since some time, replies are lost at most, and every session has a
coherent cache. -/
structure Coherent (origin : Supply) (d : Deployment) : Prop where
  peer : d.peer.Dated origin
  losses : d.line.Within (· = .none)
  caches : ∀ index s, d.session? index = some s →
    s.cache.Coherent d.peer.store (origin.drawnUntil d.peer.supply)

variable {origin : Supply} {d e : Deployment}

/-- A deployment whose peer has evolved is coherent if the caches of its sessions were so before. -/
theorem Coherent.evolves (h : Coherent origin d) (hevolves : Peer.Evolves d.peer e.peer)
    (hdistinct : e.peer.supply.Distinct) (hlosses : e.line.Within (· = .none))
    (hcaches : ∀ index s, e.session? index = some s →
      s.cache.Coherent d.peer.store (origin.drawnUntil d.peer.supply)) : Coherent origin e where
  peer := h.peer.evolves hevolves
  losses := hlosses
  caches index s hs := (hcaches index s hs).evolves h.peer.follows hevolves hdistinct

theorem Coherent.onStore (h : Coherent origin d) {r : Except StoreError (Answer × Store × Supply)}
    (hevolves : Peer.Evolves d.peer (d.onStore r).deployment.peer)
    (hdistinct : (d.onStore r).deployment.peer.supply.Distinct) : Coherent origin (d.onStore r).deployment := by
  match r with
  | .error _ => exact h
  | .ok _ => exact h.evolves hevolves hdistinct h.losses h.caches

/-- What a session keeps after an operation is coherent with the store before it. -/
theorem Coherent.session (h : Coherent origin d) {index : Nat} {s : Session} (hs : d.session? index = some s)
    (call : SessionCall) (hdistinct : (s.perform call d.line).peer.peer.supply.Distinct) :
    (s.perform call d.line).session.cache.Coherent d.peer.store (origin.drawnUntil d.peer.supply) := by
  have hcache := h.caches index s hs
  cases call with
  | direct call =>
    rw [(Session.perform_direct s call d.line).2.1]
    exact hcache
  | cached table filter =>
    rcases Session.perform_current h.peer hcache h.losses hdistinct with ⟨-, hkept⟩ | ⟨_, -, -, hsettled⟩
    · rw [hkept]
      exact hcache
    · exact hsettled

theorem Coherent.step (h : Coherent origin d) {step : Step} (hlossy : step.Lossy)
    (hdistinct : (d.step step).deployment.peer.supply.Distinct) : Coherent origin (d.step step).deployment := by
  have hevolves := evolves_step d step
  cases step with
  | session index call =>
    cases hs : d.session? index with
    | none =>
      rw [step_noSession hs]
      exact h
    | some s =>
      rw [step_session hs] at hevolves hdistinct ⊢
      refine h.evolves hevolves hdistinct ?_ fun j t ht => ?_
      -- the faults that are left were among those ahead
      · exact Session.perform_leaves (Faulty.stable_within _) (Faulty.within_invoke h.losses _ _)
      · rcases session?_withSession _ index j _ ht with hnew | hold
        · cases hnew
          exact h.session hs call hdistinct
        · exact h.caches j t hold
  | createTable | insertRow | grantWrite | direct => exact h.onStore hevolves hdistinct
  | disconnect | reconnect | invoke => exact h.evolves hevolves hdistinct h.losses h.caches
  | closeSession index =>
    refine h.evolves hevolves hdistinct ?_ fun j t ht => ?_
    · simp only [Deployment.step]
      split <;> exact h.losses
    · simp only [Deployment.step] at ht
      split at ht
      · exact h.caches j t ht
      · rcases session?_withSession _ index j _ ht with hnew | hold
        · cases hnew
        · exact h.caches j t hold
  | openSession index =>
    refine h.evolves hevolves hdistinct ?_ fun j t ht => ?_
    · simp only [Deployment.step]
      split <;> exact h.losses
    · simp only [Deployment.step] at ht
      split at ht
      · exact h.caches j t ht
      · rcases session?_withSession _ index j _ ht with hnew | hold
        · cases hnew
          exact Cache.coherent_empty _ _
        · exact h.caches j t hold
  | expect faults => exact h.evolves hevolves hdistinct hlossy h.caches

theorem Coherent.run (h : Coherent origin d) {steps : List Step} (hlossy : ∀ step ∈ steps, step.Lossy)
    (hdistinct : (d.run steps).peer.supply.Distinct) : Coherent origin (d.run steps) := by
  induction steps generalizing d with
  | nil => exact h
  | cons step steps ih =>
    -- distinctness is given for the end of the run and holds at each step of it
    have hnow := hdistinct.of_follows (evolves_run (d.step step).deployment steps).supply
    exact ih (h.step (hlossy step List.mem_cons_self) hnow) (fun t ht => hlossy t (List.mem_cons_of_mem _ ht)) hdistinct

theorem parked_new {n : Nat} {depot : Depot} (h : Depot.new n = .ok depot) : depot.parked = [] := by
  obtain ⟨size, -, hmade⟩ := Fallible.bind_eq_ok.1 h
  split at hmade <;> cases hmade
  rfl

/-- At the start nothing was drawn, nothing is parked and every cache is empty. -/
theorem coherent_start {chunkSize : Nat} {configs : List Config} {supply : Supply} {records : List Record}
    (h : start chunkSize configs supply = .ok (d, records)) : Coherent supply d := by
  obtain ⟨depot, hdepot, hok⟩ := Fallible.bind_eq_ok.1 h
  cases hok
  have hparked : (Peer.new depot supply).depot.parked = [] := parked_new hdepot
  refine ⟨⟨.refl supply, nofun, ?_, ?_⟩, nofun, fun index s hs => ?_⟩
  · intro k hk
    have hk : k ∈ (Peer.new depot supply).depot.parked := hk
    rw [hparked] at hk
    cases hk
  · show (Client.parkedIds (Peer.new depot supply)).Sublist _
    rw [Client.parkedIds, hparked]
    exact List.nil_sublist _
  · unfold session? at hs
    rw [List.getElem?_map] at hs
    cases hconfig : configs[index]? with
    | none =>
      rw [hconfig] at hs
      cases hs
    | some config =>
      rw [hconfig] at hs
      cases hs
      exact Cache.coherent_empty _ _

/-- In every deployment that a run reaches, the ids that the depot knows are in the way of nothing that is drawn later,
if no token is drawn twice. -/
theorem unmet_run {chunkSize : Nat} {configs : List Config} {supply later : Supply} {records : List Record}
    (hstart : start chunkSize configs supply = .ok (d, records)) (steps : List Step)
    (hlater : (d.run steps).peer.supply.Follows later) (hdistinct : later.Distinct) :
    (d.run steps).peer.supply.Unmet later (d.run steps).peer.depot.ids :=
  ((coherent_start hstart).peer.evolves (evolves_run d steps)).unmet_ids hlater hdistinct

theorem Coherent.lookup (h : Coherent origin d) {index : Nat} {table : String} {filter : MetadataFilter}
    (hdistinct : (d.step (.session index (.cached table filter))).deployment.peer.supply.Distinct) {a : Answer}
    {session : Session} (hok : (d.step (.session index (.cached table filter))).result = .performed (.ok a) session) :
    (d.step (.session index (.cached table filter))).deployment.peer.store = d.peer.store ∧
      ∃ set, d.peer.store.metadata table = .ok set ∧ a = .metadata (set.filtered filter) := by
  cases hs : d.session? index with
  | none =>
    rw [step_noSession hs] at hok
    cases hok
  | some s =>
    rw [step_session hs] at hdistinct hok ⊢
    obtain ⟨hresult, -⟩ := StepResult.performed.inj hok
    have hread : (s.remote (.cached table filter)).operation.IsRead := by
      show (s.cache.inquiry table).call.operation.IsRead
      cases s.cache.inquiry table <;> trivial
    refine ⟨(Session.perform_drains s _ d.line).store.trans (Faulty.store_invoke hread d.line _), ?_⟩
    rcases Session.perform_current h.peer (h.caches index s hs) h.losses hdistinct with
      ⟨⟨e, he⟩, -⟩ | ⟨set, hset, hfound, -⟩
    · cases hresult.symm.trans he
    · cases hresult.symm.trans hfound
      exact ⟨set, hset, rfl⟩

/-- In every deployment that a run reaches a cache line at the revision of its table is the metadata of the table, and
every lookup that returned anything returned what the store held then. -/
theorem run_never_stale {chunkSize : Nat} {configs : List Config} {supply : Supply} {records : List Record}
    (hstart : start chunkSize configs supply = .ok (d, records)) {steps : List Step}
    (hlossy : ∀ step ∈ steps, step.Lossy) (hdistinct : (d.run steps).peer.supply.Distinct) :
    (∀ index s table line t, (d.run steps).session? index = some s → s.cache.lines.get? table = some line →
      (d.run steps).peer.store.tables.get? table = some t → line.revision = t.metadata.revision →
        line = t.metadata) ∧
    ∀ before after index table filter a session, steps = before ++ .session index (.cached table filter) :: after →
      ((d.run before).step (.session index (.cached table filter))).result = .performed (.ok a) session →
        ((d.run before).step (.session index (.cached table filter))).deployment.peer.store =
          (d.run before).peer.store ∧
        ∃ set, (d.run before).peer.store.metadata table = .ok set ∧ a = .metadata (set.filtered filter) := by
  have hcoherent := coherent_start hstart
  refine ⟨fun index s table line t hs hline ht hsame => ?_, ?_⟩
  · exact (((hcoherent.run hlossy hdistinct).caches index s hs).current table line t hline ht hsame.symm).symm
  · rintro before after index table filter a session rfl hok
    rw [run_append] at hdistinct
    have hnow := hdistinct.of_follows
      (evolves_run ((d.run before).step (.session index (.cached table filter))).deployment after).supply
    have hbefore := hnow.of_follows (evolves_step (d.run before) (.session index (.cached table filter))).supply
    have hreached := hcoherent.run (fun step hstep => hlossy step (List.mem_append_left _ hstep)) hbefore
    exact hreached.lookup hnow hok

/-- A session reads, another writes, a reply is lost, and the first session reads what the other has written. -/
theorem run_never_stale_of_write :
    let entry : MetadataEntry := ⟨"t", "p", "a", "k", "string", "v"⟩
    let configs : List Config := [{ principal := some "w" }, {}]
    let supply : Supply := .fresh fun n => ⟨BitVec.ofNat 128 n⟩
    let d : Deployment := ⟨⟨.new ⟨⟨128, by decide⟩, by decide, []⟩ supply, []⟩, configs.map fun c => ⟨c, some (.new c)⟩⟩
    let before : List Step := [.createTable "t" ["c"], .grantWrite "w", .session 1 (.cached "t" .all),
      .session 0 (.direct (.putMetadata entry)), .expect [.answer (.error (.platform "down"))],
      .session 1 (.cached "t" .all)]
    ∃ a session, ((d.run before).step (.session 1 (.cached "t" .all))).result = .performed (.ok a) session ∧
      ∃ set, (d.run before).peer.store.metadata "t" = .ok set ∧ a = .metadata (set.filtered .all) ∧
        set.entries = [entry] := by
  intro entry configs supply d before
  have hstart : start 128 configs supply = .ok (d, configs.flatMap Session.opening) := rfl
  have hlossy : ∀ step ∈ before ++ [.session 1 (.cached "t" .all)], step.Lossy := by
    simp [before, Step.Lossy, Fault.Within, Tunnel.Unmarked]
  have hdistinct : (d.run (before ++ [.session 1 (.cached "t" .all)])).peer.supply.Distinct := by decide +kernel
  have hentries : ((d.run before).peer.store.metadata "t").map (·.entries) = .ok [entry] := by decide +kernel
  obtain ⟨-, hlookups⟩ := run_never_stale hstart hlossy hdistinct
  have hread : (match ((d.run before).step (.session 1 (.cached "t" .all))).result with
      | .performed r _ => r.isOk
      | _ => false) = true := by decide +kernel
  cases hresult : ((d.run before).step (.session 1 (.cached "t" .all))).result with
  | performed r session =>
    rw [hresult] at hread
    cases r with
    | error e => cases hread
    | ok a =>
      obtain ⟨-, set, hset, ha⟩ := hlookups before [] 1 "t" .all a session rfl hresult
      rw [hset] at hentries
      exact ⟨a, session, rfl, set, hset, ha, Except.ok.inj hentries⟩
  | result | invoked | changed | noSession =>
    rw [hresult] at hread
    cases hread

end Deployment

end RemoteTable
