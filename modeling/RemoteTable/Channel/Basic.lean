import RemoteTable.Bytes
import RemoteTable.Channel.Failure
import RemoteTable.Json.Basic
import RemoteTable.Log.Record

/-!
# Channels

A channel takes a method name and a JSON value to the other side and brings back a reply or a failure. What
the other side does is its own affair: a channel is any type of states with such a step. One thing is asked of
it, that it cannot hand out fragments for ever: it has a credit, which falls with every fragment.

Two channels serve to look at one side alone. `Script` answers from a list. `Recorded` passes every invocation
on and keeps it.
-/

namespace RemoteTable

/-- The type of a payload, named with it. -/
inductive Tag where
  | tableInfo | queryResult | row | metadataSet
  deriving DecidableEq, Repr

namespace Tag

def name : Tag → String
  | tableInfo => "TABLE_INFO"
  | queryResult => "QUERY_RESULT"
  | row => "ROW"
  | metadataSet => "METADATA_SET"

def ofName? (s : String) : Option Tag := [tableInfo, queryResult, row, metadataSet].find? (·.name == s)

end Tag

/-- What a channel brings back. -/
inductive Reply where
  /-- The operation is done and has no value. -/
  | unit
  /-- A value of the named type; its first chunk is in the frame. -/
  | chunked (tag : Tag) (frame : Bytes)
  /-- The operation found no value of the named type. -/
  | absent (tag : Tag)
  /-- One more chunk, in the frame. -/
  | fragment (frame : Bytes)
  deriving DecidableEq

def Reply.shape : Reply → String
  | unit => "unit"
  | chunked .. => "chunked"
  | absent _ => "absent"
  | fragment _ => "fragment"

abbrev Outcome := Except Failure Reply

/-- What an invocation leads to: its outcome, the channel after it, and what the other side reports. -/
structure Delivery (σ : Type) where
  outcome : Outcome
  peer : σ
  records : List Record := []

class Channel (σ : Type) where
  invoke : σ → (method : String) → (args : Json) → Delivery σ
  /-- Bounds the number of fragments that can still come. -/
  credit : σ → Nat
  /-- Every fragment lowers the credit. -/
  spends : ∀ s method args frame,
    (invoke s method args).outcome = .ok (.fragment frame) → credit (invoke s method args).peer < credit s

/-! ## Scripts -/

/-- Answers that are still to be given. -/
structure Script where
  answers : List Outcome

namespace Script

/-- Gives the next answer, whatever is asked; the line fails when there is none. -/
def invoke (s : Script) : Delivery Script :=
  match s.answers with
  | [] => ⟨.error (.platform "script exhausted"), s, []⟩
  | a :: rest => ⟨a, ⟨rest⟩, []⟩

instance : Channel Script where
  invoke s _ _ := s.invoke
  credit s := s.answers.length
  spends s _ _ _ h := by
    cases hs : s.answers with
    | nil => simp [invoke, hs] at h
    | cons a rest => simp [invoke, hs]

end Script

/-! ## Records of invocations -/

structure Invocation where
  method : String
  args : Json

/-- A channel, and the invocations made on it, newest first. -/
structure Recorded (σ : Type) where
  peer : σ
  calls : List Invocation

namespace Recorded

def invoke [Channel σ] (s : Recorded σ) (method : String) (args : Json) : Delivery (Recorded σ) :=
  let d := Channel.invoke s.peer method args
  ⟨d.outcome, ⟨d.peer, ⟨method, args⟩ :: s.calls⟩, d.records⟩

instance [Channel σ] : Channel (Recorded σ) where
  invoke := invoke
  credit s := Channel.credit s.peer
  spends _ _ _ _ h := Channel.spends _ _ _ _ h

end Recorded

end RemoteTable
