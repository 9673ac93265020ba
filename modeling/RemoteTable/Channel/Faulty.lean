import RemoteTable.Chunk.Damage
import RemoteTable.Peer

/-!
# Faulty lines

A line to a peer on which each invocation meets the next of a list of faults. A fault may answer in the peer's
place. Or it lets the invocation through, and then the connection may drop or come back before it, the frame
of the reply may be damaged, the reply may be lost, and the connection may drop after it. When the list is
used up the line is sound.
-/

namespace RemoteTable

inductive Switch where
  | down | up
  deriving DecidableEq, Repr

def Switch.apply (p : Peer) : Option Switch → Peer × List Record
  | none => (p, [])
  | some .down => p.disconnect
  | some .up => (p.reconnect, [])

/-- What happens around an invocation that reaches the peer. -/
structure Relay where
  before : Option Switch := none
  damage : Damage := .none
  /-- What the client sees instead of what the peer has answered. -/
  lost : Option Failure := none
  after : Option Switch := none

inductive Fault where
  /-- It does not reach the peer and is answered in its place. -/
  | answer (outcome : Outcome)
  /-- It reaches the peer. -/
  | relay (r : Relay)

/-- A line to a peer, and the faults ahead. -/
structure Faulty where
  peer : Peer
  faults : List Fault

def Reply.damaged (d : Damage) : Reply → Reply
  | .chunked tag frame => .chunked tag (d.apply frame)
  | .fragment frame => .fragment (d.apply frame)
  | reply => reply

namespace Faulty

/-- Lets an invocation through. Damage and a later drop befall replies only; a failure may be lost like a reply. -/
def pass (p : Peer) (r : Relay) (method : String) (args : Json) : Delivery Peer :=
  let (p, early) := Switch.apply p r.before
  let d := p.invoke method args
  match d.outcome with
  | .error failure => ⟨.error (r.lost.getD failure), d.peer, early ++ d.records⟩
  | .ok reply =>
    let (p, late) := Switch.apply d.peer r.after
    let outcome := match r.lost with
      | some failure => .error failure
      | none => .ok (reply.damaged r.damage)
    ⟨outcome, p, early ++ d.records ++ late⟩

def invoke (l : Faulty) (method : String) (args : Json) : Delivery Faulty :=
  match l.faults with
  | [] =>
    let d := pass l.peer {} method args
    ⟨d.outcome, ⟨d.peer, []⟩, d.records⟩
  | .answer outcome :: faults => ⟨outcome, ⟨l.peer, faults⟩, []⟩
  | .relay r :: faults =>
    let d := pass l.peer r method args
    ⟨d.outcome, ⟨d.peer, faults⟩, d.records⟩

theorem pending_switch_le (p : Peer) (s : Option Switch) : (Switch.apply p s).1.depot.pending ≤ p.depot.pending := by
  match s with
  | none => exact Nat.le_refl _
  | some .down => exact Nat.zero_le _
  | some .up => exact Nat.le_refl _

theorem damaged_eq_fragment {d : Damage} {reply : Reply} {frame : Bytes}
    (h : reply.damaged d = .fragment frame) : ∃ sent, reply = .fragment sent := by
  cases reply <;> simp [Reply.damaged] at h ⊢

theorem pending_pass {p : Peer} {r : Relay} {method : String} {args : Json} {frame : Bytes}
    (h : (pass p r method args).outcome = .ok (.fragment frame)) :
    (pass p r method args).peer.depot.pending < p.depot.pending := by
  unfold pass at h ⊢
  cases houtcome : ((Switch.apply p r.before).1.invoke method args).outcome with
  | error failure => simp [houtcome] at h
  | ok reply =>
    simp only [houtcome] at h ⊢
    cases hlost : r.lost with
    | some failure => simp [hlost] at h
    | none =>
      simp only [hlost, Except.ok.injEq] at h
      obtain ⟨sent, rfl⟩ := damaged_eq_fragment h
      have hfetch := Peer.pending_invoke houtcome
      have hbefore := pending_switch_le p r.before
      have hafter := pending_switch_le ((Switch.apply p r.before).1.invoke method args).peer r.after
      omega

instance : Channel Faulty where
  invoke := invoke
  credit l := l.peer.depot.pending + l.faults.length
  spends l method args frame h := by
    unfold invoke at h ⊢
    split at h
    · have := pending_pass h
      simp_all
    · simp_all
    · have := pending_pass h
      simp_all
      omega

end Faulty

end RemoteTable
