import RemoteTable.Proofs.Accounts
import RemoteTable.Proofs.Deployment
import RemoteTable.Proofs.Log.Live

/-!
# Logging changes nothing

A logger sees the reports of a session in the middle of its work: of the cache, of the client on every way out of a call,
of the chunks fetched on the way, and of the other side of the line. None of them looks at what was reported before
(`Session.answer_alike`), so a session that is carried out under a logger that writes at once does what it does without
one (`Session.live_determined`), and so does every step of a deployment (`Deployment.live_determined`). Whole runs, of a
session on any channel and of a deployment, end the same way under every logger, down to the invocations of the channel;
a threshold hides the lines below it and no others, and the urgent lines are those on the error stream (`logging_inert`).
-/

namespace RemoteTable

open Exchange (Does)

variable {σ τ α : Type}

/-! ## Sessions -/

/-- A session's end of the line behind a channel. -/
def Seat.through (f : σ → τ) (s : Seat σ) : Seat τ := ⟨s.link.through f, s.cache⟩

namespace Session

variable {f : σ → τ}

theorem atLink_alike {x : Exchange (Link σ) α} {y : Exchange (Link τ) α} (h : Alike (Link.through f) x y) :
    Alike (Seat.through f) (atLink x) (atLink y) := by
  intro s
  obtain ⟨r, t, records, hleft, hright⟩ := h s.link
  refine ⟨r, ⟨t, s.cache⟩, records, fun j => ?_, fun j => ?_⟩
  · exact on_atLink (s := ⟨s, j⟩) (hleft j)
  · exact on_atLink (s := ⟨s.through f, j⟩) (hright j)

/-- A lookup in the cache is the same on both lines if its inquiry is. -/
theorem get_alike {ask : Inquiry → Exchange (Link σ) MetadataSet} {ask' : Inquiry → Exchange (Link τ) MetadataSet}
    (h : ∀ inquiry, Alike (Link.through f) (ask inquiry) (ask' inquiry)) (c : Cache) (table : String)
    (filter : MetadataFilter) : Alike (Link.through f) (c.get ask table filter) (c.get ask' table filter) := by
  unfold Cache.get
  refine (Alike.report _).bind fun _ => (h _).bind fun set => ?_
  exact (Alike.report _).bind fun _ => Alike.pure _

variable [Channel σ] [Channel τ] (hf : Channel.Forwards f)

include hf

theorem inquire_alike (config : Config) (inquiry : Inquiry) :
    Alike (Link.through f) (inquire config inquiry) (inquire config inquiry) := by
  cases inquiry with
  | fetch table => exact Client.request_alike hf config _ _
  | ifChanged table known => exact Client.request_alike hf config _ _

/-- An operation of a session comes to the same and reports the same on either line. -/
theorem answer_alike (config : Config) (call : SessionCall) :
    Alike (Seat.through f) (answer config call) (answer config call) := by
  cases call with
  | direct call => exact atLink_alike (Client.perform_alike hf config call)
  | cached table filter =>
    intro s
    obtain ⟨r, t, records, hleft, hright⟩ := get_alike (inquire_alike hf config) s.cache table filter s.link
    cases r with
    | ok found =>
      refine ⟨.ok (.metadata found.1), ⟨t, found.2⟩, records, fun j => ?_, fun j => ?_⟩
      · exact on_metadata_ok (s := ⟨s, j⟩) (hleft j)
      · exact on_metadata_ok (s := ⟨s.through f, j⟩) (hright j)
    | error e =>
      refine ⟨.error e, ⟨t, s.cache⟩, records, fun j => ?_, fun j => ?_⟩
      · exact on_metadata_error (s := ⟨s, j⟩) (hleft j)
      · exact on_metadata_error (s := ⟨s.through f, j⟩) (hright j)

omit hf

omit [Channel τ] in
theorem perform_of_does {s : Session} {call : SessionCall} {p : σ} {r : Except TransportError Answer} {t : Seat σ}
    {records : List Record} (h : Does (answer s.config call) ⟨⟨p, s.metrics⟩, s.cache⟩ r t records) :
    s.perform call p = ⟨r, ⟨s.config, t.link.metrics, t.cache⟩, t.link.peer, records⟩ := by
  have hdone : (answer s.config call).on (.start ⟨⟨p, s.metrics⟩, s.cache⟩) = _ := h []
  unfold perform
  rw [hdone]
  simp only [Noted.records, List.append_nil, List.reverse_reverse]

include hf

/-- It makes no difference on which of the lines an operation is carried out. -/
theorem perform_through (s : Session) (call : SessionCall) (p : σ) :
    (s.perform call (f p)).result = (s.perform call p).result ∧
      (s.perform call (f p)).session = (s.perform call p).session ∧
      (s.perform call (f p)).peer = f (s.perform call p).peer ∧
      (s.perform call (f p)).records = (s.perform call p).records := by
  obtain ⟨r, t, records, hleft, hright⟩ := answer_alike hf s.config call ⟨⟨p, s.metrics⟩, s.cache⟩
  rw [perform_of_does hleft, perform_of_does (p := f p) hright]
  exact ⟨rfl, rfl, rfl, rfl⟩

end Session

/-! ## Sessions at work -/

namespace Session

variable [Channel σ]

/-- An operation of a session on a channel under a logger that writes at once. -/
def Live (l : Logger) (call : SessionCall) (w : Watched (Session × σ)) (r : Except TransportError Answer)
    (u : Watched (Session × σ)) : Prop :=
  ∃ t, Exchange.Live l (answer w.state.1.config call) ⟨⟨⟨w.state.2, w.state.1.metrics⟩, w.state.1.cache⟩, w.console⟩ r
      ⟨t, u.console⟩ ∧
    u.state = (⟨w.state.1.config, t.link.metrics, t.cache⟩, t.link.peer)

def done (call : SessionCall) (s : Session × σ) : Done (Except TransportError Answer) (Session × σ) :=
  let d := s.1.perform call s.2
  ⟨d.result, (d.session, d.peer), d.records⟩

theorem live_determined : Determined (Live (σ := σ)) done := by
  intro l call s c r u
  obtain ⟨r', t, records, hdoes, -⟩ :=
    answer_alike Channel.forwards_id s.1.config call ⟨⟨s.2, s.1.metrics⟩, s.1.cache⟩
  rw [done, perform_of_does hdoes]
  constructor
  · rintro ⟨t', hlive, hstate⟩
    obtain ⟨rfl, hw⟩ := hdoes.live_iff.1 hlive
    obtain ⟨rfl, hconsole⟩ := Watched.mk.inj hw
    obtain ⟨state, console⟩ := u
    cases hstate
    exact ⟨rfl, congrArg (Watched.mk _) hconsole⟩
  · rintro ⟨rfl, rfl⟩
    exact ⟨t, hdoes.live l c, rfl⟩

/-- The life of a session on a channel. -/
def lived (config : Config) (p : σ) (calls : List SessionCall) :
    Logger → List (Except TransportError Answer) → Watched (Session × σ) → Prop :=
  Lived Live (opening config) (fun s => closing s.1.cache) (new config, p) calls

theorem state_run (s : Session) (calls : List SessionCall) (p : σ) :
    (Done.run done calls (s, p)).state = s.run calls p := by
  induction calls generalizing s p with
  | nil => rfl
  | cons call rest ih => exact ih _ _

/-- It makes no difference to a session whether its invocations are kept. -/
theorem run_recorded (s : Session) (calls : List SessionCall) (p : Recorded σ) :
    s.run calls p.peer = ((s.run calls p).1, (s.run calls p).2.peer) := by
  induction calls generalizing s p with
  | nil => rfl
  | cons call rest ih =>
    obtain ⟨-, hsession, hpeer, -⟩ := perform_through Recorded.forwards s call p
    rw [run, hsession, hpeer]
    exact ih _ _

end Session

/-! ## Deployments at work -/

/-- What comes of a step, and the invocations that a session made in it. -/
structure Account where
  result : StepResult
  calls : List Invocation

namespace Deployment

/-- A step under a logger that writes at once. The invocations of a session are kept. -/
inductive Live (l : Logger) : Step → Watched Deployment → Account → Watched Deployment → Prop where
  | session {d : Deployment} {index : Nat} {s : Session} {call : SessionCall} {c c' : Console}
    {r : Except TransportError Answer} {after : Session × Recorded Faulty} (there : d.session? index = some s)
    (live : Session.Live l call ⟨(s, ⟨d.line, []⟩), c⟩ r ⟨after, c'⟩) :
    Live l (.session index call) ⟨d, c⟩ ⟨.performed r after.1, after.2.calls.reverse⟩
      ⟨{ d with line := after.2.peer }.withSession index after.1, c'⟩
  | noSession {d : Deployment} {index : Nat} {call : SessionCall} {c : Console} (gone : d.session? index = none) :
    Live l (.session index call) ⟨d, c⟩ ⟨.noSession, []⟩ ⟨d, c⟩
  | other {d : Deployment} {step : Step} {c : Console} (other : ∀ index call, step ≠ .session index call) :
    Live l step ⟨d, c⟩ ⟨(d.step step).result, []⟩ ⟨(d.step step).deployment, l.logAll c (d.step step).records⟩

/-- The invocations that a session makes on the line in a step. -/
def calls (d : Deployment) : Step → List Invocation
  | .session index call =>
    (d.session? index).elim [] fun s => (s.perform call (⟨d.line, []⟩ : Recorded Faulty)).peer.calls.reverse
  | _ => []

def done (step : Step) (d : Deployment) : Done Account Deployment :=
  ⟨⟨(d.step step).result, d.calls step⟩, (d.step step).deployment, (d.step step).records⟩

theorem done_session {d : Deployment} {index : Nat} {s : Session} (hs : d.session? index = some s) (call : SessionCall) :
    done (.session index call) d =
      let after := Session.done call (s, (⟨d.line, []⟩ : Recorded Faulty))
      ⟨⟨.performed after.output after.state.1, after.state.2.calls.reverse⟩,
        { d with line := after.state.2.peer }.withSession index after.state.1, after.records⟩ := by
  obtain ⟨hresult, hsession, hpeer, hrecords⟩ :=
    Session.perform_through Recorded.forwards s call (⟨d.line, []⟩ : Recorded Faulty)
  change (s.perform call d.line).result = _ at hresult
  change (s.perform call d.line).session = _ at hsession
  change (s.perform call d.line).peer = _ at hpeer
  change (s.perform call d.line).records = _ at hrecords
  rw [done, step_session hs, calls, hs, hresult, hsession, hpeer, hrecords]
  rfl

theorem done_noSession {d : Deployment} {index : Nat} (hs : d.session? index = none) (call : SessionCall) :
    done (.session index call) d = ⟨⟨.noSession, []⟩, d, []⟩ := by
  rw [done, step_noSession hs, calls, hs]
  rfl

theorem calls_other {d : Deployment} {step : Step} (h : ∀ index call, step ≠ .session index call) : d.calls step = [] := by
  cases step with
  | session index call => exact absurd rfl (h index call)
  | _ => rfl

theorem live_determined : Determined Live done := by
  intro l step d c o u
  constructor
  · intro h
    cases h with
    | session there live =>
      obtain ⟨rfl, hafter⟩ := (Session.live_determined _ _ _ _ _ _).1 live
      obtain ⟨rfl, rfl⟩ := Watched.mk.inj hafter
      rw [done_session there]
      exact ⟨rfl, rfl⟩
    | noSession gone =>
      rw [done_noSession gone]
      exact ⟨rfl, rfl⟩
    | other other =>
      rw [done, calls_other other]
      exact ⟨rfl, rfl⟩
  · rintro ⟨rfl, rfl⟩
    by_cases hsession : ∃ index call, step = .session index call
    · obtain ⟨index, call, rfl⟩ := hsession
      cases hs : d.session? index with
      | none =>
        rw [done_noSession hs]
        exact .noSession hs
      | some s =>
        rw [done_session hs]
        exact .session hs ((Session.live_determined _ _ _ _ _ _).2 ⟨rfl, rfl⟩)
    · have hother : ∀ index call, step ≠ .session index call := fun index call h => hsession ⟨index, call, h⟩
      rw [done, calls_other hother]
      exact .other hother

/-- The life of a deployment, from what was reported when its sessions were opened. -/
def lived (d : Deployment) (opening : List Record) (steps : List Step) :
    Logger → List Account → Watched Deployment → Prop :=
  Lived Live opening closing d steps

theorem state_run (d : Deployment) (steps : List Step) : (Done.run done steps d).state = d.run steps := by
  induction steps generalizing d with
  | nil => rfl
  | cons step rest ih => exact ih _

end Deployment

/-! ## Runs under loggers -/

/-- The life of a session on any channel, and that of a deployment, is the same under every logger. What a logger writes
are the lines of the logger without a threshold that reach its level, on either stream and in their order. -/
theorem logging_inert :
    (∀ (σ : Type) [Channel σ] (config : Config) (p : Recorded σ) (calls : List SessionCall),
      Indifferent (Session.lived config p calls) ∧
      ∀ l results w, Session.lived config p calls l results w →
        results = (Done.run Session.done calls (.new config, p)).output ∧
        w.state = (Session.new config).run calls p ∧
        (w.state.1, w.state.2.peer) = (Session.new config).run calls p.peer ∧
        w.console.written = l.write (Session.opening config ++
          (Done.run Session.done calls (.new config, p)).records ++ Session.closing w.state.1.cache)) ∧
    (∀ (d : Deployment) (opening : List Record) (steps : List Step),
      Indifferent (d.lived opening steps) ∧
      ∀ l accounts w, d.lived opening steps l accounts w →
        accounts = (Done.run Deployment.done steps d).output ∧
        w.state = d.run steps ∧
        w.console.written = l.write (opening ++ (Done.run Deployment.done steps d).records ++ w.state.closing)) := by
  refine ⟨fun σ _ config p calls => ⟨?_, fun l results w hw => ?_⟩, fun d opening steps => ⟨?_, fun l accounts w hw => ?_⟩⟩
  · exact Session.live_determined.indifferent _ _ _ _
  · obtain ⟨hresults, hstate, hwritten⟩ := Lived.eq Session.live_determined hw
    rw [Session.state_run] at hstate
    refine ⟨hresults, hstate, ?_, hwritten⟩
    rw [hstate, Session.run_recorded]
  · exact Deployment.live_determined.indifferent _ _ _ _
  · obtain ⟨haccounts, hstate, hwritten⟩ := Lived.eq Deployment.live_determined hw
    exact ⟨haccounts, hstate.trans (Deployment.state_run d steps), hwritten⟩

/-- A call on a dead line. Of its lines, the default logger writes the one on the error stream. -/
theorem logging_inert_of_dead_line :
    let run := Session.lived {} (⟨⟨[]⟩, []⟩ : Recorded Script) [.direct (.closeTable "t")]
    ∃ results w results' w', run .default results w ∧ run .trace results' w' ∧ results' = results ∧ w'.state = w.state ∧
      w'.console.out.map Record.event = ["SESSION_OPEN", "REMOTE_CALL_START", "SESSION_CLOSE"] ∧
      w'.console.err.map Record.event = ["REMOTE_UNAVAILABLE"] ∧
      w.console.out = [] ∧ w.console.err = w'.console.err := by
  intro run
  obtain ⟨hindifferent, -⟩ := logging_inert.1 Script {} ⟨⟨[]⟩, []⟩ [.direct (.closeTable "t")]
  obtain ⟨results, w, hw⟩ := hindifferent.ends .default
  obtain ⟨results', w', hw'⟩ := hindifferent.ends .trace
  obtain ⟨hresults, hstate⟩ := hindifferent.same hw hw'
  have hkeeps := hindifferent.keeps hw hw'
  obtain ⟨-, hloud⟩ := (lived_iff Session.live_determined).1 hw'
  refine ⟨results, w, results', w', hw, hw', hresults, hstate, ?_⟩
  rw [hkeeps, hloud]
  decide +kernel

end RemoteTable
