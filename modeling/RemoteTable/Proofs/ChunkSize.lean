import Mathlib.Data.List.Forall2
import RemoteTable.Proofs.Deployment
import RemoteTable.Proofs.Twins

/-!
# The size of the chunks

The peers of two deployments may cut values into chunks of different sizes. If their stores are equal and so are their
sessions, they go through the same steps alike (`Deployment.Twins.step`): every step has the same result but for the
revisions, and the sessions count the same but for the fetches. For runs this follows by induction (`Twins.run`), with
the cost of a single read beside it (`read_costs`).

A step that brings a revision to the store brings each deployment its own. All that is asked of the two is that they are
current alike (`Step.Matches`); steps that bring none match themselves (`InStep.refl`).
-/

namespace RemoteTable

open Fallible (Both)

variable {R R' : Option Token → Option Token → Prop} {origin origin' : Supply}

/-! ## Lines without faults -/

/-- A line to a peer on which nothing goes wrong. -/
def Faulty.sound (p : Peer) : Faulty := ⟨p, []⟩

theorem Faulty.sound_eq {l : Faulty} (h : l.faults = []) : l = sound l.peer := by
  obtain ⟨p, faults⟩ := l
  obtain rfl := h
  rfl

/-- It does what the peer does. -/
theorem Faulty.forwards_sound : Channel.Forwards sound := by
  have hpass (p : Peer) (method : String) (args : Json) :
      pass p {} method args = p.invoke method args := by
    have hswitch (q : Peer) : Switch.apply q none = (q, []) := rfl
    rcases hinvoke : p.invoke method args with ⟨outcome, q, records⟩
    unfold pass
    cases outcome with
    | error failure => simp only [hswitch, hinvoke, Option.getD_none, List.nil_append]
    | ok reply =>
      have hreply : reply.damaged Damage.none = reply := by
        cases reply <;> simp only [Reply.damaged, Damage.apply_none]
      simp only [hswitch, hinvoke, hreply, List.nil_append, List.append_nil]
  refine ⟨fun p method args => ?_, fun p method args => ?_, fun p method args => ?_⟩
  · exact congrArg Delivery.outcome (hpass p method args)
  · exact congrArg (fun d => sound d.peer) (hpass p method args)
  · exact congrArg Delivery.records (hpass p method args)

/-! ## Deployments -/

structure Place.Mirrors (R : Option Token → Option Token → Prop) (a b : Place) : Prop where
  config : a.config = b.config
  session : Option.Rel (Session.Mirrors R) a.session b.session

theorem Place.Mirrors.mono {a b : Place} (h : a.Mirrors R b) (hR : ∀ a b, R a b → R' a b) : a.Mirrors R' b :=
  ⟨h.config, optionRel_mono h.session fun _ _ hab => hab.mono hR⟩

/-- Results that are the same but for the revisions in them and for the fetches that the sessions have counted. -/
def StepResult.Mirrors (R : Option Token → Option Token → Prop) : StepResult → StepResult → Prop
  | .result r, .result r' => Both (Answer.Mirrors R) r r'
  | .performed r s, .performed r' s' => Both (Answer.Mirrors R) r r' ∧ s.Mirrors R s'
  | .changed, .changed | .noSession, .noSession => True
  | _, _ => False

theorem StepResult.Mirrors.mono {a b : StepResult} (h : a.Mirrors R b) (hR : ∀ a b, R a b → R' a b) :
    a.Mirrors R' b := by
  have hanswers {r r' : Except TransportError Answer} (hr : Both (Answer.Mirrors R) r r') :
      Both (Answer.Mirrors R') r r' := Both.mono hr fun _ _ hab => hab.mono hR
  cases a <;> cases b <;> try exact h
  · exact hanswers h
  · exact ⟨hanswers h.1, h.2.mono hR⟩

/-- The same step on two deployments, but that a revision may be brought to either store that is current there alike.
Nothing is done to the lines or past the sessions. -/
inductive Step.Matches (d d' : Deployment) : Step → Step → Prop where
  | session {index : Nat} {call call' : SessionCall}
    (calls : SessionCall.Matches d.peer.store d'.peer.store call call') :
    Matches d d' (.session index call) (.session index call')
  | createTable (table : String) (columns : List String) :
    Matches d d' (.createTable table columns) (.createTable table columns)
  | insertRow (table : String) (row : Row) : Matches d d' (.insertRow table row) (.insertRow table row)
  | grantWrite (principal : String) : Matches d d' (.grantWrite principal) (.grantWrite principal)
  | direct {principal : Option String} {call call' : Call}
    (calls : Store.Matches d.peer.store d'.peer.store call call') :
    Matches d d' (.direct principal call) (.direct principal call')
  | closeSession (index : Nat) : Matches d d' (.closeSession index) (.closeSession index)
  | openSession (index : Nat) : Matches d d' (.openSession index) (.openSession index)

/-- The step brings no revision, and does nothing to the line or past the sessions. -/
def Step.Portable : Step → Prop
  | .session _ (.direct call) => (∀ table known, call ≠ .getMetadataIfChanged table known) ∧ call.WellFormed
  | .direct _ call => ∀ table known, call ≠ .getMetadataIfChanged table known
  | .session .. | .createTable .. | .insertRow .. | .grantWrite _ | .closeSession _ | .openSession _ => True
  | .disconnect | .reconnect | .expect _ | .invoke .. => False

namespace Deployment

/-- Deployments of which the peers are twins, on sound lines, and the sessions mirror each other. -/
structure Twins (R : Option Token → Option Token → Prop) (origin origin' : Supply) (d d' : Deployment) : Prop where
  peer : d.peer.Twins R origin origin' d'.peer
  sound : d.line.faults = []
  sound' : d'.line.faults = []
  places : ∀ index : Nat, Option.Rel (Place.Mirrors R) d.places[index]? d'.places[index]?

variable {d d' : Deployment}

theorem Twins.session? (h : Twins R origin origin' d d') (index : Nat) :
    Option.Rel (Session.Mirrors R) (d.session? index) (d'.session? index) := by
  unfold Deployment.session?
  rcases optionRel_ways (h.places index) with ⟨hd, hd'⟩ | ⟨place, place', hd, hd', hplace⟩
  · rw [hd, hd']
    exact .none
  · rw [hd, hd']
    exact hplace.session

theorem Twins.withPeer (h : Twins R origin origin' d d') (hR : ∀ a b, R a b → R' a b) {p p' : Peer}
    (hpeer : p.Twins R' origin origin' p') : Twins R' origin origin' (d.withPeer p) (d'.withPeer p') :=
  ⟨hpeer, h.sound, h.sound', fun index => optionRel_mono (h.places index) fun _ _ hab => hab.mono hR⟩

theorem Twins.withSession (h : Twins R origin origin' d d') (index : Nat) {s s' : Option Session}
    (hs : Option.Rel (Session.Mirrors R) s s') :
    Twins R origin origin' (d.withSession index s) (d'.withSession index s') := by
  refine ⟨h.peer, h.sound, h.sound', fun i => ?_⟩
  unfold Deployment.withSession
  rw [List.getElem?_modify, List.getElem?_modify]
  rcases optionRel_ways (h.places i) with ⟨hd, hd'⟩ | ⟨place, place', hd, hd', hplace⟩
  · rw [hd, hd']
    exact .none
  · rw [hd, hd']
    refine .some ?_
    split
    · exact ⟨hplace.config, hs⟩
    · exact hplace

/-- What two steps of deployments that were alike have come to. -/
def Parallel (R : Option Token → Option Token → Prop) (origin origin' : Supply) (x x' : Stepped) : Prop :=
  ∃ R', (∀ a b, R a b → R' a b) ∧ x.result.Mirrors R' x'.result ∧ Twins R' origin origin' x.deployment x'.deployment

theorem Twins.onStore (h : Twins R origin origin' d d') {r r' : Except StoreError (Answer × Store × Supply)}
    (hr : Both (Store.Echoes R d.peer.supply d'.peer.supply) r r')
    (hevolves : Peer.Evolves d.peer (d.onStore r).deployment.peer)
    (hevolves' : Peer.Evolves d'.peer (d'.onStore r').deployment.peer)
    (hdistinct : (d.onStore r).deployment.peer.supply.Distinct)
    (hdistinct' : (d'.onStore r').deployment.peer.supply.Distinct) :
    Parallel R origin origin' (d.onStore r) (d'.onStore r') := by
  cases hr with
  | error e => exact ⟨R, fun a b hab => hab, .error _, h⟩
  | @ok x x' echoes =>
    obtain ⟨R', hgrows, hanswers, hstores⟩ := echoes
    refine ⟨R', fun a b => hgrows.mono, .ok hanswers, h.withPeer (fun a b => hgrows.mono) ⟨hstores, ?_, ?_, ?_, ?_, ?_⟩⟩
    · exact hgrows.pairing h.peer.pairing h.peer.left.follows h.peer.right.follows hdistinct hdistinct'
    · exact h.peer.left.evolves hevolves
    · exact h.peer.right.evolves hevolves'
    · exact h.peer.connected
    · exact h.peer.connected'

/-- On a sound line a session does what it does on the peer. -/
theorem step_sound (hsound : d.line.faults = []) {index : Nat} {s : Session} (hs : d.session? index = some s)
    (call : SessionCall) : (d.step (.session index call)).result =
        .performed (s.perform call d.peer).result (s.perform call d.peer).session ∧
      (d.step (.session index call)).deployment =
        (d.withPeer (s.perform call d.peer).peer).withSession index (s.perform call d.peer).session := by
  obtain ⟨hresult, hsession, hpeer, -⟩ := Session.perform_through Faulty.forwards_sound s call d.peer
  have hline : Faulty.sound d.peer = d.line := (Faulty.sound_eq hsound).symm
  rw [hline] at hresult hsession hpeer
  have hwith : { d with line := Faulty.sound (s.perform call d.peer).peer } = d.withPeer (s.perform call d.peer).peer :=
    congrArg (fun faults => { d with line := ⟨(s.perform call d.peer).peer, faults⟩ }) hsound.symm
  rw [step_session hs, hresult, hsession, hpeer, hwith]
  exact ⟨rfl, rfl⟩

theorem Twins.session (h : Twins R origin origin' d d') {index : Nat} {call call' : SessionCall}
    (hcalls : SessionCall.Matches d.peer.store d'.peer.store call call')
    (hdistinct : (d.step (.session index call)).deployment.peer.supply.Distinct)
    (hdistinct' : (d'.step (.session index call')).deployment.peer.supply.Distinct) :
    Parallel R origin origin' (d.step (.session index call)) (d'.step (.session index call')) := by
  rcases optionRel_ways (h.session? index) with ⟨hs, hs'⟩ | ⟨s, s', hs, hs', hmirrors⟩
  · rw [step_noSession hs, step_noSession hs']
    exact ⟨R, fun a b hab => hab, trivial, h⟩
  · obtain ⟨hresult, hdeployment⟩ := step_sound h.sound hs call
    obtain ⟨hresult', hdeployment'⟩ := step_sound h.sound' hs' call'
    rw [hdeployment] at hdistinct
    rw [hdeployment'] at hdistinct'
    obtain ⟨R', hR, hresults, hsessions, hpeers⟩ := hmirrors.perform h.peer hcalls hdistinct hdistinct'
    refine ⟨R', hR, ?_, ?_⟩
    · rw [hresult, hresult']
      exact ⟨hresults, hsessions⟩
    · rw [hdeployment, hdeployment']
      exact (h.withPeer hR hpeers).withSession index (.some hsessions)

theorem Twins.step (h : Twins R origin origin' d d') {step step' : Step} (hmatches : Step.Matches d d' step step')
    (hdistinct : (d.step step).deployment.peer.supply.Distinct)
    (hdistinct' : (d'.step step').deployment.peer.supply.Distinct) :
    Parallel R origin origin' (d.step step) (d'.step step') := by
  have hevolves := evolves_step d step
  have hevolves' := evolves_step d' step'
  have hstore := h.peer.store
  cases hmatches with
  | session calls => exact h.session calls hdistinct hdistinct'
  | createTable table columns =>
    refine h.onStore ?_ hevolves hevolves' hdistinct hdistinct'
    refine (hstore.createTable table columns d.peer.supply d'.peer.supply).map fun x x' hx => ?_
    obtain ⟨R', hgrows, hmirrors⟩ := hx
    exact ⟨R', hgrows, rfl, hmirrors⟩
  | insertRow table row =>
    refine h.onStore ?_ hevolves hevolves' hdistinct hdistinct'
    exact (hstore.insertRow table row).map fun x x' hx => ⟨R, .same, rfl, hx⟩
  | grantWrite principal =>
    exact h.onStore (.ok ⟨R, .same, rfl, hstore.grantWrite principal⟩) hevolves hevolves' hdistinct hdistinct'
  | direct calls => exact h.onStore (hstore.answer calls _ _ _) hevolves hevolves' hdistinct hdistinct'
  | closeSession index =>
    refine ⟨R, fun a b hab => hab, ?_⟩
    simp only [Deployment.step]
    rcases optionRel_ways (h.session? index) with ⟨hs, hs'⟩ | ⟨s, s', hs, hs', -⟩
    · rw [hs, hs']
      exact ⟨trivial, h⟩
    · rw [hs, hs']
      exact ⟨trivial, h.withSession index .none⟩
  | openSession index =>
    refine ⟨R, fun a b hab => hab, ?_⟩
    simp only [Deployment.step]
    rcases optionRel_ways (h.places index) with ⟨hd, hd'⟩ | ⟨place, place', hd, hd', hplace⟩
    · rw [hd, hd']
      exact ⟨trivial, h⟩
    · have hnew : (Session.new place.config).Mirrors R (.new place'.config) :=
        hplace.config ▸ Session.mirrors_new place.config
      rw [hd, hd']
      exact ⟨trivial, h.withSession index (.some hnew)⟩

/-! ## Runs -/

/-- The steps of two runs match one by one. -/
inductive InStep : Deployment → Deployment → List Step → List Step → Prop where
  | nil (d d' : Deployment) : InStep d d' [] []
  | cons {d d' : Deployment} {step step' : Step} {steps steps' : List Step} (first : step.Matches d d' step')
    (later : InStep (d.step step).deployment (d'.step step').deployment steps steps') :
    InStep d d' (step :: steps) (step' :: steps')

theorem InStep.refl {steps : List Step} (h : ∀ step ∈ steps, step.Portable) (d d' : Deployment) :
    InStep d d' steps steps := by
  induction steps generalizing d d' with
  | nil => exact .nil d d'
  | cons step steps ih =>
    have hfirst : step.Matches d d' step := by
      have hportable := h step List.mem_cons_self
      cases step with
      | session index call =>
        cases call with
        | direct call => exact .session (.direct (.same hportable.1) hportable.2)
        | cached table filter => exact .session (.cached table filter)
      | createTable table columns => exact .createTable table columns
      | insertRow table row => exact .insertRow table row
      | grantWrite principal => exact .grantWrite principal
      | direct principal call => exact .direct (.same hportable)
      | closeSession index => exact .closeSession index
      | openSession index => exact .openSession index
      | disconnect | reconnect | expect | invoke => exact hportable.elim
    exact .cons hfirst (ih (fun later hlater => h later (List.mem_cons_of_mem step hlater)) _ _)

def results (d : Deployment) : List Step → List StepResult
  | [] => []
  | step :: steps => (d.step step).result :: (d.step step).deployment.results steps

/-- Runs whose steps match have the same results but for the revisions, and end alike. -/
theorem Twins.run (h : Twins R origin origin' d d') {steps steps' : List Step} (hsteps : InStep d d' steps steps')
    (hdistinct : (d.run steps).peer.supply.Distinct) (hdistinct' : (d'.run steps').peer.supply.Distinct) :
    ∃ R', (∀ a b, R a b → R' a b) ∧ List.Forall₂ (StepResult.Mirrors R') (d.results steps) (d'.results steps') ∧
      Twins R' origin origin' (d.run steps) (d'.run steps') := by
  induction hsteps generalizing R with
  | nil d d' => exact ⟨R, fun a b hab => hab, .nil, h⟩
  | @cons d d' step step' steps steps' first later ih =>
    have hnow := hdistinct.of_follows (evolves_run (d.step step).deployment steps).supply
    have hnow' := hdistinct'.of_follows (evolves_run (d'.step step').deployment steps').supply
    obtain ⟨Q, hQ, hresult, htwins⟩ := h.step first hnow hnow'
    obtain ⟨R', hR, hresults, hend⟩ := ih htwins hdistinct hdistinct'
    exact ⟨R', fun a b hab => hR a b (hQ a b hab), .cons (hresult.mono hR) hresults, hend⟩

/-- A deployment on a connected line on which nothing goes wrong, as a run without losses leaves it. -/
structure Sound (origin : Supply) (d : Deployment) : Prop where
  coherent : Coherent origin d
  connected : d.peer.connected = true
  faultless : d.line.faults = []

theorem Sound.twins (h : Sound origin d) (h' : Sound origin' d') (hstore : d.peer.store = d'.peer.store)
    (hplaces : d.places = d'.places) :
    Twins (Shared (origin.drawnUntil d.peer.supply) (origin'.drawnUntil d'.peer.supply)) origin origin' d d' := by
  have hdated := h'.coherent.peer.store
  rw [← hstore] at hdated
  have hstores := h.coherent.peer.store.mirrors hdated
  refine ⟨⟨hstore ▸ hstores, .shared _ _, h.coherent.peer, h'.coherent.peer, h.connected, h'.connected⟩, h.faultless,
    h'.faultless, fun index => ?_⟩
  rw [← hplaces]
  cases hplace : d.places[index]? with
  | none => exact .none
  | some place =>
    refine .some ⟨rfl, ?_⟩
    cases hs : place.session with
    | none => exact .none
    | some s =>
      have hsession : d.session? index = some s := by rw [Deployment.session?, hplace, Option.bind_some, hs]
      have hsession' : d'.session? index = some s := by
        rw [Deployment.session?, ← hplaces, hplace, Option.bind_some, hs]
      have hcache := (h.coherent.caches index s hsession).mirrors (h'.coherent.caches index s hsession')
      exact .some ⟨rfl, .refl _, hcache⟩

theorem Sound.run_alike (h : Sound origin d) (h' : Sound origin' d') (hstore : d.peer.store = d'.peer.store)
    (hplaces : d.places = d'.places) {steps steps' : List Step} (hsteps : InStep d d' steps steps')
    (hdistinct : (d.run steps).peer.supply.Distinct) (hdistinct' : (d'.run steps').peer.supply.Distinct) :
    ∃ R, Pairing R (origin.drawnUntil (d.run steps).peer.supply) (origin'.drawnUntil (d'.run steps').peer.supply) ∧
      List.Forall₂ (StepResult.Mirrors R) (d.results steps) (d'.results steps') ∧
      (d.run steps).peer.store.Mirrors R (d'.run steps').peer.store ∧
      ∀ index, Option.Rel (Session.Mirrors R) ((d.run steps).session? index) ((d'.run steps').session? index) := by
  obtain ⟨R', -, hresults, hend⟩ := (h.twins h' hstore hplaces).run hsteps hdistinct hdistinct'
  exact ⟨R', hend.peer.pairing, hresults, hend.peer.store, hend.session?⟩

end Deployment

open Deployment (Sound InStep)

/-- An operation of a session that returns a value over a sound line takes one invocation for each chunk of it.
Deployments with equal stores and sessions that go through the same steps, with chunks of any sizes, have the same
results but for revisions, and count the same but for fetches. -/
theorem read_costs (origin origin' : Supply) :
    (∀ (s : Session) (call : SessionCall) (p : Peer) (r : Answer), p.Dated origin → p.connected = true →
      (s.remote call).WellFormed → (s.perform call p).peer.supply.Distinct → (s.perform call p).result = .ok r →
      r.payload? ≠ none →
      ∃ a store supply tag payload,
        p.store.answer s.config.principal (s.remote call) p.supply = .ok (a, store, supply) ∧
        a.payload? = some (tag, payload) ∧ .ok r = (fun b => (s.conclude call b).1) <$> a.reread ∧
        (s.turns call p).map (·.invocation.method) = (s.remote call).operation.method ::
          List.replicate (Chunk.count payload.length p.depot.size - 1) Operation.fetchChunk.method ∧
        (s.perform call p).session.metrics =
          s.metrics + .ofRead (Chunk.count payload.length p.depot.size) payload.length) ∧
    ∀ (d d' : Deployment) (steps steps' : List Step), Sound origin d → Sound origin' d' →
      d.peer.store = d'.peer.store → d.places = d'.places → InStep d d' steps steps' →
      (d.run steps).peer.supply.Distinct → (d'.run steps').peer.supply.Distinct →
      ∃ R, Pairing R (origin.drawnUntil (d.run steps).peer.supply) (origin'.drawnUntil (d'.run steps').peer.supply) ∧
        List.Forall₂ (StepResult.Mirrors R) (d.results steps) (d'.results steps') ∧
        (d.run steps).peer.store.Mirrors R (d'.run steps').peer.store ∧
        ∀ index, Option.Rel (Session.Mirrors R) ((d.run steps).session? index) ((d'.run steps').session? index) := by
  refine ⟨fun s call p r hdated hconnected hcall hdistinct hresult hpresent => ?_, ?_⟩
  · exact Session.perform_read hdated hconnected hcall hdistinct hresult hpresent
  · intro d d' steps steps' hsound hsound' hstore hplaces hsteps hdistinct hdistinct'
    exact hsound.run_alike hsound' hstore hplaces hsteps hdistinct hdistinct'

/-- A session reads metadata, once in two chunks and once in a single one. -/
theorem read_costs_of_sizes :
    let configs : List Config := [{}]
    let supply : Supply := .fresh fun n => ⟨BitVec.ofNat 128 n⟩
    let places : List Place := configs.map fun c => ⟨c, some (.new c)⟩
    let d : Deployment := ⟨⟨.new ⟨⟨64, by decide⟩, by decide, []⟩ supply, []⟩, places⟩
    let d' : Deployment := ⟨⟨.new ⟨⟨128, by decide⟩, by decide, []⟩ supply, []⟩, places⟩
    let before : List Step := [.createTable "t" ["c"]]
    let steps : List Step := before ++ [.session 0 (.cached "t" .all)]
    let p := (d.run before).peer
    (∃ payload : Bytes, ((Session.new {}).turns (.cached "t" .all) p).map (·.invocation.method) =
      Operation.getMetadata.method ::
        List.replicate (Chunk.count payload.length p.depot.size - 1) Operation.fetchChunk.method) ∧
    ∃ s s', (d.run steps).session? 0 = some s ∧ (d'.run steps).session? 0 = some s' ∧ s.metrics.Agrees s'.metrics ∧
      s.cache.stats = s'.cache.stats ∧ s.metrics.chunksFetched = 1 ∧ s'.metrics.chunksFetched = 0 := by
  intro configs supply places d d' before steps p
  have hstart : Deployment.start 64 configs supply = .ok (d, configs.flatMap Session.opening) := rfl
  have hstart' : Deployment.start 128 configs supply = .ok (d', configs.flatMap Session.opening) := rfl
  have hsound : Sound supply d := ⟨Deployment.coherent_start hstart, rfl, rfl⟩
  have hsound' : Sound supply d' := ⟨Deployment.coherent_start hstart', rfl, rfl⟩
  obtain ⟨hread, hruns⟩ := read_costs supply supply
  constructor
  · have hdated : p.Dated supply := hsound.coherent.peer.evolves (Deployment.evolves_run d before)
    have hdistinct : ((Session.new {}).perform (.cached "t" .all) p).peer.supply.Distinct := by decide +kernel
    have hvalue : (((Session.new {}).perform (.cached "t" .all) p).result.toOption.bind Answer.payload?).isSome = true := by
      decide +kernel
    cases hresult : ((Session.new {}).perform (.cached "t" .all) p).result with
    | error e =>
      rw [hresult] at hvalue
      cases hvalue
    | ok r =>
      have hpresent : r.payload? ≠ none := by
        rw [hresult] at hvalue
        exact Option.isSome_iff_ne_none.1 hvalue
      have hcall : ((Session.new {}).remote (.cached "t" .all)).WellFormed := trivial
      obtain ⟨-, -, -, -, payload, -, -, -, hturns, -⟩ :=
        hread (.new {}) (.cached "t" .all) p r hdated rfl hcall hdistinct hresult hpresent
      exact ⟨payload, hturns⟩
  · have hportable : ∀ step ∈ steps, step.Portable := by
      simp [steps, before, Step.Portable]
    obtain ⟨R, -, -, -, hsessions⟩ := hruns d d' steps steps hsound hsound' rfl rfl (.refl hportable d d')
      (by decide +kernel) (by decide +kernel)
    have hfetched : ((d.run steps).session? 0).map (·.metrics.chunksFetched) = some 1 := by decide +kernel
    have hfetched' : ((d'.run steps).session? 0).map (·.metrics.chunksFetched) = some 0 := by decide +kernel
    rcases optionRel_ways (hsessions 0) with ⟨hs, -⟩ | ⟨s, s', hs, hs', hmirrors⟩
    · rw [hs] at hfetched
      cases hfetched
    · rw [hs] at hfetched
      rw [hs'] at hfetched'
      exact ⟨s, s', hs, hs', hmirrors.metrics, hmirrors.cache.stats, Option.some.inj hfetched, Option.some.inj hfetched'⟩

end RemoteTable
