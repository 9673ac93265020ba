import RemoteTable.Log.Record
import RemoteTable.TransportError

/-!
# Exchanges

An exchange is a computation that changes a state, reports what happens, and ends in a value or in a transport
error. State and reports survive an error.
-/

namespace RemoteTable

/-- A state, and what has been reported so far, newest first. -/
structure Noted (σ : Type) where
  state : σ
  journal : List Record

def Noted.start (state : σ) : Noted σ := ⟨state, []⟩

/-- What has been reported, oldest first. -/
def Noted.records (s : Noted σ) : List Record := s.journal.reverse

/-- A computation that may fail with a transport error. -/
abbrev Exchange (σ α : Type) := ExceptT TransportError (StateM (Noted σ)) α

namespace Exchange

def on (x : Exchange σ α) (s : Noted σ) : Except TransportError α × Noted σ := x.run.run s

def of (f : Noted σ → Except TransportError α × Noted σ) : Exchange σ α := ExceptT.mk (StateT.mk f)

def note (e : Event) (fields : List (String × String)) : Exchange σ Unit :=
  modify fun s => { s with journal := e.record fields :: s.journal }

/-- Passes on records, oldest first. -/
def report (records : List Record) : Exchange σ Unit :=
  modify fun s => { s with journal := records.reverse ++ s.journal }

def update (f : σ → σ) : Exchange σ Unit := modify fun s => { s with state := f s.state }

/-! ## What each step does -/

/-- Exchanges that do the same are the same. -/
theorem ext {x y : Exchange σ α} (h : ∀ s, x.on s = y.on s) : x = y := funext h

@[simp] theorem on_of (f : Noted σ → Except TransportError α × Noted σ) (s : Noted σ) : (of f).on s = f s := rfl

@[simp] theorem on_pure (a : α) (s : Noted σ) : (pure a : Exchange σ α).on s = (.ok a, s) := rfl

@[simp] theorem on_throw (e : TransportError) (s : Noted σ) : (throw e : Exchange σ α).on s = (.error e, s) := rfl

@[simp] theorem on_note (e : Event) (fields : List (String × String)) (s : Noted σ) :
    (note e fields).on s = (.ok (), { s with journal := e.record fields :: s.journal }) := rfl

@[simp] theorem on_report (records : List Record) (s : Noted σ) :
    (report records).on s = (.ok (), { s with journal := records.reverse ++ s.journal }) := rfl

@[simp] theorem on_update (f : σ → σ) (s : Noted σ) :
    (update f).on s = (.ok (), { s with state := f s.state }) := rfl

theorem on_bind (x : Exchange σ α) (f : α → Exchange σ β) (s : Noted σ) :
    (x >>= f).on s = match x.on s with
      | (.ok a, t) => (f a).on t
      | (.error e, t) => (.error e, t) := by
  change (StateT.run (ExceptT.run (x >>= f)) s).run = _
  simp only [ExceptT.run_bind, StateT.run_bind, Id.run_bind]
  rcases h : x.on s with ⟨_ | a, t⟩ <;>
    · rw [on] at h
      rw [h]
      rfl

theorem on_bind_ok {x : Exchange σ α} {s t : Noted σ} {a : α} (h : x.on s = (.ok a, t)) (f : α → Exchange σ β) :
    (x >>= f).on s = (f a).on t := by
  rw [on_bind, h]

theorem on_bind_error {x : Exchange σ α} {s t : Noted σ} {e : TransportError} (h : x.on s = (.error e, t))
    (f : α → Exchange σ β) : (x >>= f).on s = (.error e, t) := by
  rw [on_bind, h]

theorem on_map (f : α → β) (x : Exchange σ α) (s : Noted σ) : (f <$> x).on s = (f <$> (x.on s).1, (x.on s).2) := by
  have hmap : f <$> x = x >>= fun a => pure (f a) := (bind_pure_comp f x).symm
  rw [hmap, on_bind]
  rcases x.on s with ⟨_ | a, t⟩ <;> rfl

theorem on_tryCatch (x : Exchange σ α) (f : TransportError → Exchange σ α) (s : Noted σ) :
    (tryCatch x f).on s = match x.on s with
      | (.ok a, t) => (.ok a, t)
      | (.error e, t) => (f e).on t := by
  change (StateT.run (ExceptT.run (ExceptT.tryCatch x f)) s).run = _
  simp only [ExceptT.tryCatch, ExceptT.run_mk, StateT.run_bind, Id.run_bind]
  rcases h : x.on s with ⟨_ | a, t⟩
  · have h' : (StateT.run x s).run = (.error _, t) := h
    rw [h']
    rfl
  · have h' : (StateT.run x s).run = (.ok a, t) := h
    rw [h']
    rfl

end Exchange

end RemoteTable
