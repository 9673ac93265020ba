import RemoteTable.Proofs.Client.Likeness
import RemoteTable.Proofs.Log.Console

/-!
# Logging at once

An exchange collects its reports, and a logger sees them in the end. `Exchange.Live l` carries an exchange out with a
logger that sees each report when it is made, in the middle of the work, and writes its line or drops it: what an exchange
does besides reporting must not look at the reports (`Live.silent`), a report goes to the logger (`Live.note`,
`Live.report`), and the parts of a whole follow each other, also on the way of an error. Both come to the same
(`Live.does`, `Exchange.Does.live`), so an exchange that takes no notice of its reports ends in one way only under every
logger (`Exchange.Does.live_iff`).

A run of steps has a beginning and an end that are reported too (`Lived`). If each step ends in one way only
(`Determined`), so does the run (`lived_iff`), and it is the same under every logger but for the lines that are hidden
(`Indifferent`).
-/

namespace RemoteTable

/-- A state, and the streams that a logger writes to. -/
structure Watched (σ : Type) where
  state : σ
  console : Console

variable {σ α : Type}

/-- The exchange is carried out under a logger that decides on each report when it is made. -/
inductive Exchange.Live (l : Logger) :
    {α : Type} → Exchange σ α → Watched σ → Except TransportError α → Watched σ → Prop where
  | silent {α : Type} {x : Exchange σ α} {s t : σ} {r : Except TransportError α} {c : Console}
    (h : ∀ journal, x.on ⟨s, journal⟩ = (r, ⟨t, journal⟩)) : Live l x ⟨s, c⟩ r ⟨t, c⟩
  | note {event : Event} {fields : List (String × String)} {s : σ} {c : Console} :
    Live l (Exchange.note event fields) ⟨s, c⟩ (.ok ()) ⟨s, l.log c (event.record fields)⟩
  | report {records : List Record} {s : σ} {c : Console} :
    Live l (Exchange.report records) ⟨s, c⟩ (.ok ()) ⟨s, l.logAll c records⟩
  | bind_ok {α β : Type} {x : Exchange σ α} {f : α → Exchange σ β} {w u v : Watched σ} {a : α}
    {r : Except TransportError β} (hx : Live l x w (.ok a) u) (hf : Live l (f a) u r v) : Live l (x >>= f) w r v
  | bind_error {α β : Type} {x : Exchange σ α} {f : α → Exchange σ β} {w u : Watched σ} {e : TransportError}
    (hx : Live l x w (.error e) u) : Live l (x >>= f) w (.error e) u
  | tryCatch_ok {α : Type} {x : Exchange σ α} {f : TransportError → Exchange σ α} {w u : Watched σ} {a : α}
    (hx : Live l x w (.ok a) u) : Live l (tryCatch x f) w (.ok a) u
  | tryCatch_error {α : Type} {x : Exchange σ α} {f : TransportError → Exchange σ α} {w u v : Watched σ}
    {e : TransportError} {r : Except TransportError α} (hx : Live l x w (.error e) u) (hf : Live l (f e) u r v) :
    Live l (tryCatch x f) w r v

namespace Exchange

variable {l : Logger} {x : Exchange σ α} {w u : Watched σ} {s t : σ} {c : Console} {r : Except TransportError α}
  {records : List Record}

/-- What comes of an exchange at once is what comes of it, and the logger has seen its reports in their order. -/
theorem Live.does (h : Live l x w r u) :
    ∃ records, Does x w.state r u.state records ∧ u.console = l.logAll w.console records := by
  induction h with
  | silent h => exact ⟨[], h, rfl⟩
  | note => exact ⟨[_], Does.note _ _ _, rfl⟩
  | report => exact ⟨_, Does.report _ _, rfl⟩
  | bind_ok _ _ ihx ihf =>
    obtain ⟨first, hx, hfirst⟩ := ihx
    obtain ⟨second, hf, hsecond⟩ := ihf
    exact ⟨first ++ second, hx.bind_ok hf, by rw [hsecond, hfirst, Logger.logAll_append]⟩
  | bind_error _ ihx =>
    obtain ⟨records, hx, hconsole⟩ := ihx
    exact ⟨records, hx.bind_error, hconsole⟩
  | tryCatch_ok _ ihx =>
    obtain ⟨records, hx, hconsole⟩ := ihx
    exact ⟨records, hx.tryCatch_ok, hconsole⟩
  | tryCatch_error _ _ ihx ihf =>
    obtain ⟨first, hx, hfirst⟩ := ihx
    obtain ⟨second, hf, hsecond⟩ := ihf
    exact ⟨first ++ second, hx.tryCatch_error hf, by rw [hsecond, hfirst, Logger.logAll_append]⟩

open Classical in
/-- What is done whatever was reported can be done first and reported then. -/
theorem Does.live (h : Does x s r t records) (l : Logger) (c : Console) :
    Live l x ⟨s, c⟩ r ⟨t, l.logAll c records⟩ := by
  -- the state is changed without a report in the state at hand, and everything is left to `x` in all others
  let change : Exchange σ Bool := .of fun n => if n.state = s then (.ok true, ⟨t, n.journal⟩) else (.ok false, n)
  let conclude : Exchange σ α := .of fun n => (r, n)
  let rest : Bool → Exchange σ α := fun changed => if changed then do Exchange.report records; conclude else x
  have hchange (j : List Record) : change.on ⟨s, j⟩ = (.ok true, ⟨t, j⟩) := if_pos rfl
  have hrest (n : Noted σ) : (rest true).on n = (r, ⟨n.state, records.reverse ++ n.journal⟩) :=
    on_bind_ok (on_report records n) _
  have hwhole : x = change >>= rest := by
    refine ext fun n => ?_
    by_cases hs : n.state = s
    · obtain ⟨state, journal⟩ := n
      subst hs
      rw [on_bind_ok (hchange journal), hrest]
      exact h journal
    · have hnone : change.on n = (.ok false, n) := if_neg hs
      rw [on_bind_ok hnone]
      rfl
  rw [hwhole]
  exact .bind_ok (.silent hchange) (.bind_ok .report (.silent fun _ => rfl))

theorem Does.unique {r' : Except TransportError α} {t' : σ} {records' : List Record} (h : Does x s r t records)
    (h' : Does x s r' t' records') : r' = r ∧ t' = t ∧ records' = records := by
  have hsame := (h' []).symm.trans (h [])
  obtain ⟨hresult, hnoted⟩ := Prod.mk.inj hsame
  obtain ⟨hstate, hrecords⟩ := Noted.mk.inj hnoted
  rw [List.append_nil, List.append_nil] at hrecords
  exact ⟨hresult, hstate, List.reverse_inj.1 hrecords⟩

/-- Under every logger, what is done whatever was reported comes to the same, and the streams hold what it reports. -/
theorem Does.live_iff {r' : Except TransportError α} (h : Does x s r t records) :
    Live l x ⟨s, c⟩ r' u ↔ r' = r ∧ u = ⟨t, l.logAll c records⟩ := by
  constructor
  · intro hlive
    obtain ⟨records', hdoes, hconsole⟩ := hlive.does
    obtain ⟨rfl, hstate, rfl⟩ := h.unique hdoes
    obtain ⟨state, console⟩ := u
    cases hstate
    cases hconsole
    exact ⟨rfl, rfl⟩
  · rintro ⟨rfl, rfl⟩
    exact h.live l c

end Exchange

/-! ## Runs -/

variable {ι ο S : Type}

inductive Chained (step : ι → S → ο → S → Prop) : List ι → S → List ο → S → Prop where
  | nil {s : S} : Chained step [] s [] s
  | cons {i : ι} {rest : List ι} {s t u : S} {o : ο} {os : List ο} (first : step i s o t)
    (after : Chained step rest t os u) : Chained step (i :: rest) s (o :: os) u

/-- A run under a logger: the reports of its beginning, the steps, and the reports of its end. -/
def Lived (step : Logger → ι → Watched S → ο → Watched S → Prop) (opening : List Record) (closing : S → List Record)
    (start : S) (steps : List ι) (l : Logger) (outputs : List ο) (w : Watched S) : Prop :=
  ∃ c, Chained (step l) steps ⟨start, l.logAll .empty opening⟩ outputs ⟨w.state, c⟩ ∧
    w.console = l.logAll c (closing w.state)

/-- A run comes to the same under every logger, and what a logger hides are the lines below its level, no others. -/
structure Indifferent (run : Logger → List ο → Watched S → Prop) : Prop where
  ends : ∀ l, ∃ os w, run l os w
  same : ∀ {l l' os os' w w'}, run l os w → run l' os' w' → os' = os ∧ w'.state = w.state
  keeps : ∀ {l os os' w w'}, run l os w → run .trace os' w' → w.console = w'.console.above l
  hides : ∀ {l l' os os' w w'}, run l os w → run l' os' w' → l.minimum ≤ l'.minimum →
    w'.console = w.console.above l'
  sorted : ∀ {l os w}, run l os w → w.console.Sorted

/-- What comes of a step, the state after it, and what is reported. -/
structure Done (ο S : Type) where
  output : ο
  state : S
  records : List Record

def Done.run (f : ι → S → Done ο S) : List ι → S → Done (List ο) S
  | [], s => ⟨[], s, []⟩
  | i :: rest, s =>
    let after := run f rest (f i s).state
    ⟨(f i s).output :: after.output, after.state, (f i s).records ++ after.records⟩

/-- Under every logger, a step ends in what comes of it and in no other way, and the logger has seen its reports. -/
def Determined (step : Logger → ι → Watched S → ο → Watched S → Prop) (f : ι → S → Done ο S) : Prop :=
  ∀ l i s c o w, step l i ⟨s, c⟩ o w ↔ o = (f i s).output ∧ w = ⟨(f i s).state, l.logAll c (f i s).records⟩

section

variable {step : Logger → ι → Watched S → ο → Watched S → Prop} {f : ι → S → Done ο S} (h : Determined step f)

include h

theorem chained_iff {l : Logger} {steps : List ι} {s : S} {c : Console} {os : List ο} {w : Watched S} :
    Chained (step l) steps ⟨s, c⟩ os w ↔
      os = (Done.run f steps s).output ∧
        w = ⟨(Done.run f steps s).state, l.logAll c (Done.run f steps s).records⟩ := by
  induction steps generalizing s c os with
  | nil =>
    constructor
    · intro hrun
      cases hrun
      exact ⟨rfl, rfl⟩
    · rintro ⟨rfl, rfl⟩
      exact .nil
  | cons i rest ih =>
    have hlater : l.logAll (l.logAll c (f i s).records) (Done.run f rest (f i s).state).records =
        l.logAll c (Done.run f (i :: rest) s).records := (Logger.logAll_append _ _).symm
    constructor
    · intro hrun
      cases hrun with
      | cons first after =>
        obtain ⟨rfl, rfl⟩ := (h l i s c _ _).1 first
        obtain ⟨rfl, rfl⟩ := ih.1 after
        exact ⟨rfl, congrArg (Watched.mk _) hlater⟩
    · rintro ⟨rfl, rfl⟩
      refine .cons ((h l i s c _ _).2 ⟨rfl, rfl⟩) (ih.2 ⟨rfl, ?_⟩)
      exact congrArg (Watched.mk _) hlater.symm

/-- A run whose steps end in one way only does so too. -/
theorem lived_iff {opening : List Record} {closing : S → List Record} {start : S} {steps : List ι} {l : Logger}
    {os : List ο} {w : Watched S} : Lived step opening closing start steps l os w ↔
      os = (Done.run f steps start).output ∧
        w = ⟨(Done.run f steps start).state, l.logAll .empty (opening ++ (Done.run f steps start).records ++
          closing (Done.run f steps start).state)⟩ := by
  rw [Logger.logAll_append, Logger.logAll_append]
  constructor
  · rintro ⟨c, hsteps, hconsole⟩
    obtain ⟨rfl, hw⟩ := (chained_iff h).1 hsteps
    obtain ⟨hstate, rfl⟩ := Watched.mk.inj hw
    obtain ⟨state, console⟩ := w
    cases hstate
    exact ⟨rfl, congrArg (Watched.mk _) hconsole⟩
  · rintro ⟨rfl, rfl⟩
    exact ⟨_, (chained_iff h).2 ⟨rfl, rfl⟩, rfl⟩

theorem Determined.indifferent (opening : List Record) (closing : S → List Record) (start : S) (steps : List ι) :
    Indifferent (Lived step opening closing start steps) := by
  have hkeeps {l : Logger} {os os' : List ο} {w w' : Watched S} (hw : Lived step opening closing start steps l os w)
      (hw' : Lived step opening closing start steps .trace os' w') : w.console = w'.console.above l := by
    obtain ⟨rfl, rfl⟩ := (lived_iff h).1 hw
    obtain ⟨rfl, rfl⟩ := (lived_iff h).1 hw'
    exact (Logger.logAll_above (c := .empty) _).symm
  have hends (l : Logger) : ∃ os w, Lived step opening closing start steps l os w :=
    ⟨_, _, (lived_iff h).2 ⟨rfl, rfl⟩⟩
  refine ⟨hends, fun hw hw' => ?_, hkeeps, fun hw hw' hle => ?_, fun hw => ?_⟩
  · obtain ⟨rfl, rfl⟩ := (lived_iff h).1 hw
    obtain ⟨rfl, rfl⟩ := (lived_iff h).1 hw'
    exact ⟨rfl, rfl⟩
  · obtain ⟨os, w, hall⟩ := hends .trace
    rw [hkeeps hw hall, hkeeps hw' hall, Logger.above_above hle]
  · obtain ⟨rfl, rfl⟩ := (lived_iff h).1 hw
    exact Logger.sorted_logAll Console.sorted_empty _

/-- In the end the streams hold what the logger writes of all reports together. -/
theorem Lived.eq {opening : List Record} {closing : S → List Record} {start : S} {steps : List ι} {l : Logger}
    {os : List ο} {w : Watched S} (hw : Lived step opening closing start steps l os w) :
    os = (Done.run f steps start).output ∧ w.state = (Done.run f steps start).state ∧
      w.console.written = l.write (opening ++ (Done.run f steps start).records ++ closing w.state) := by
  obtain ⟨rfl, rfl⟩ := (lived_iff h).1 hw
  exact ⟨rfl, rfl, Logger.written_logAll l _⟩

end

end RemoteTable
