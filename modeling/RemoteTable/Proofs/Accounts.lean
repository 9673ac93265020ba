import Mathlib.Algebra.Ring.Nat
import RemoteTable.Proofs.Client.Counts
import RemoteTable.Proofs.Session

/-!
# The accounts of a session

A session's counters are compared with what has happened to it. Each of its operations is an episode: the turns it took
on the channel, and its result. `Metrics.ofEpisodes` counts episodes from outside, and the session has counted the same
after any operations on any channel (`metrics_run`), because one operation adds what its episode counts
(`metrics_perform`).
-/

namespace RemoteTable

/-- One operation of a session: the turns that it took on the channel, and its result. -/
structure Episode where
  turns : List Turn
  result : Except TransportError Answer

namespace Episode

def failed (e : Episode) : Bool :=
  match e.result with
  | .ok _ => false
  | .error _ => true

def unavailable (e : Episode) : Bool :=
  match e.result with
  | .ok _ => false
  | .error error => error.kind = .unavailable

end Episode

/-- The counts of episodes, modulo 2^64. -/
def Metrics.ofEpisodes (verify : Bool) (es : List Episode) : Metrics where
  callsIssued := UInt64.ofNat (es.flatMap Episode.turns).length
  callsFailed := UInt64.ofNat (es.countP Episode.failed)
  chunksFetched := UInt64.ofNat ((es.flatMap Episode.turns).countP (Turn.brings verify))
  payloadBytes := UInt64.ofNat ((es.filterMap fun e => Client.payload? verify e.turns).map List.length).sum
  tunnelCollapses := UInt64.ofNat ((es.flatMap Episode.turns).countP Turn.collapses)
  unavailable := UInt64.ofNat (es.countP Episode.unavailable)

def Episode.counts (verify : Bool) (e : Episode) : Metrics :=
  heard verify e.turns + Client.received verify e.turns + Client.verdict e.result

theorem Metrics.ofEpisodes_append (verify : Bool) (before after : List Episode) :
    ofEpisodes verify (before ++ after) = ofEpisodes verify before + ofEpisodes verify after := by
  unfold ofEpisodes
  simp only [List.flatMap_append, List.length_append, List.countP_append, List.filterMap_append, List.map_append,
    List.sum_append, UInt64.ofNat_add]
  rfl

theorem Episode.verdict_eq (e : Episode) : Client.verdict e.result =
    { callsFailed := if e.failed then 1 else 0, unavailable := if e.unavailable then 1 else 0 } := by
  unfold Client.verdict failed unavailable
  cases e.result with
  | ok a => rfl
  | error error => cases h : error.kind <;> simp [TransportError.requiresReconnect, h]

theorem Episode.received_eq (verify : Bool) (e : Episode) : Client.received verify e.turns =
    { payloadBytes := UInt64.ofNat (([e].filterMap fun e => Client.payload? verify e.turns).map List.length).sum } := by
  unfold Client.received
  cases h : Client.payload? verify e.turns with
  | none =>
    have hnone : [e].filterMap (fun e => Client.payload? verify e.turns) = [] := by simp [h]
    rw [hnone]
    rfl
  | some payload => simp [h]

theorem Metrics.ofEpisodes_singleton (verify : Bool) (e : Episode) : ofEpisodes verify [e] = e.counts verify := by
  rw [Episode.counts, e.received_eq, e.verdict_eq, ofEpisodes, List.flatMap_singleton, heard]
  refine Metrics.ext ?_ ?_ ?_ ?_ ?_ ?_ <;> simp [List.countP_singleton, apply_ite UInt64.ofNat]

namespace Session

variable {σ : Type} [Channel σ]

/-- The turns that an operation takes on a channel: what the channel is asked, and what it answers. -/
def turns (s : Session) (call : SessionCall) (p : σ) : List Turn :=
  Channel.turns p (s.perform call (⟨p, []⟩ : Recorded σ)).peer.calls.reverse

def run (s : Session) : List SessionCall → (p : σ) → Session × σ
  | [], p => (s, p)
  | call :: rest, p => (s.perform call p).session.run rest (s.perform call p).peer

def episodes (s : Session) : List SessionCall → (p : σ) → List Episode
  | [], _ => []
  | call :: rest, p =>
    ⟨s.turns call p, (s.perform call p).result⟩ :: (s.perform call p).session.episodes rest (s.perform call p).peer

variable (s : Session) (call : SessionCall) (p : σ)

theorem turns_eq : s.turns call p = Client.turns s.config (s.remote call) p := by
  obtain ⟨seen, r, q, -, -, hyields⟩ := Client.perform_course s.config (s.remote call) (⟨p, []⟩ : Recorded σ)
  obtain ⟨-, -, hpeer⟩ := perform_yields hyields
  obtain ⟨-, hleft⟩ := hyields (.start ⟨⟨p, []⟩, {}⟩) rfl
  rw [turns, Client.turns, hpeer, hleft]

theorem metrics_of_answer {s : Session} {call : SessionCall} {p : σ} {r : Except TransportError Answer} {t : Noted (Seat σ)}
    (h : (answer s.config call).on (.start ⟨⟨p, s.metrics⟩, s.cache⟩) = (r, t)) :
    (s.perform call p).session.metrics = t.state.link.metrics := by
  unfold perform
  rw [h]

omit [Channel σ] in
theorem get_counts {c : Cache} {ask : Inquiry → Exchange (Link σ) MetadataSet} {table : String} {p q : σ}
    {r : Except TransportError MetadataSet} {m : Metrics} (h : Yields (ask (c.inquiry table)) p r q)
    (hcounts : Counts (ask (c.inquiry table)) p m) (filter : MetadataFilter) : Counts (c.get ask table filter) p m := by
  refine Counts.quiet (Yields.report _ p) (Counts.report _ p) ?_
  cases r with
  | error e => exact Counts.bind_error h hcounts
  | ok set =>
    refine Counts.bind_quiet h hcounts ?_
    exact Counts.quiet (Yields.report _ q) (Counts.report _ q) (Counts.pure _ q)

theorem inquire_counts {config : Config} {inquiry : Inquiry} {p : σ} {m : Metrics}
    (h : Counts (Client.perform config inquiry.call) p m) : Counts (inquire config inquiry) p m := by
  cases inquiry <;> exact h.of_map

theorem metrics_of_counts {s : Session} {call : SessionCall} {p q : σ} {r : Except TransportError Answer} {m : Metrics}
    (h : Yields (Client.perform s.config (s.remote call)) p r q)
    (hcounts : Counts (Client.perform s.config (s.remote call)) p m) :
    (s.perform call p).session.metrics = s.metrics + m := by
  cases call with
  | direct call =>
    have hanswer := on_atLink (x := Client.perform s.config call) (s := .start ⟨⟨p, s.metrics⟩, s.cache⟩) rfl
    have hmetrics : (s.perform (.direct call) p).session.metrics = _ := metrics_of_answer hanswer
    exact hmetrics.trans (hcounts (.start ⟨p, s.metrics⟩) rfl)
  | cached table filter =>
    obtain ⟨r, rfl, hinquire⟩ := inquire_yields h
    have hget := get_counts hinquire (inquire_counts hcounts) filter (.start ⟨p, s.metrics⟩) rfl
    rcases hdone : (s.cache.get (inquire s.config) table filter).on (.start ⟨p, s.metrics⟩) with ⟨e | ⟨set, cache⟩, t⟩
    · rw [hdone] at hget
      have hanswer := on_metadata_error (s := .start ⟨⟨p, s.metrics⟩, s.cache⟩) hdone
      exact (metrics_of_answer hanswer).trans hget
    · rw [hdone] at hget
      have hanswer := on_metadata_ok (s := .start ⟨⟨p, s.metrics⟩, s.cache⟩) hdone
      exact (metrics_of_answer hanswer).trans hget

theorem metrics_perform : (s.perform call p).session.metrics =
    s.metrics + Episode.counts s.config.verifyChecksums ⟨s.turns call p, (s.perform call p).result⟩ := by
  obtain ⟨r, q, hanswers, hending, hyields⟩ := Client.turns_course s.config (s.remote call) p
  obtain ⟨hresult, -, -⟩ := perform_yields hyields
  have hverdict : Client.verdict (s.perform call p).result = Client.verdict r := by
    rw [hresult]
    cases r <;> rfl
  rw [metrics_of_counts hyields (Client.perform_counts hending hanswers hyields), Episode.counts, hverdict, turns_eq]

theorem answers_run (calls : List SessionCall) :
    Channel.Answers p ((s.episodes calls p).flatMap Episode.turns) (s.run calls p).2 := by
  induction calls generalizing s p with
  | nil => rfl
  | cons call rest ih =>
    obtain ⟨r, q, hanswers, -, hyields⟩ := Client.turns_course s.config (s.remote call) p
    obtain ⟨-, -, rfl⟩ := perform_yields hyields
    rw [← turns_eq] at hanswers
    exact hanswers.append (ih _ _)

/-- The counters of a session after any operations on any channel are the counts of its episodes. -/
theorem metrics_run (config : Config) (calls : List SessionCall) (p : σ) :
    let done := (new config).run calls p
    let happened := (new config).episodes calls p
    Channel.Answers p (happened.flatMap Episode.turns) done.2 ∧
      done.1.metrics = .ofEpisodes config.verifyChecksums happened := by
  have hrun (s : Session) (p : σ) : (s.run calls p).1.metrics =
      s.metrics + .ofEpisodes s.config.verifyChecksums (s.episodes calls p) := by
    induction calls generalizing s p with
    | nil => exact (add_zero s.metrics).symm
    | cons call rest ih =>
      rw [run, episodes, ← List.singleton_append, Metrics.ofEpisodes_append, Metrics.ofEpisodes_singleton, ← add_assoc,
        ← metrics_perform]
      exact ih _ _
  exact ⟨answers_run _ p calls, (hrun _ p).trans (zero_add _)⟩

end Session

end RemoteTable
