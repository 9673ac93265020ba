import RemoteTable.Log.Record

/-!
# What a logger writes

A logger decides on each record when it is reported: it writes the record's line on one of two streams or drops it
(`Logger.log`). What it leaves on the streams is what a logger without a threshold leaves there, less the lines below its
level (`Logger.logAll_above`). Urgent lines stand on the error stream only and all others on the output stream only
(`Console.Sorted`).
-/

namespace RemoteTable

/-- The records whose lines stand on the two streams, oldest first. -/
structure Console where
  out : List Record
  err : List Record

namespace Console

def empty : Console := ⟨[], []⟩

/-- The lines that a logger keeps. -/
def above (c : Console) (l : Logger) : Console :=
  ⟨c.out.filter fun r => l.enabled r.severity, c.err.filter fun r => l.enabled r.severity⟩

def written (c : Console) : Written := ⟨c.out.map Record.line, c.err.map Record.line⟩

/-- The two highest levels stand on the error stream, and only they do. -/
structure Sorted (c : Console) : Prop where
  out : ∀ r ∈ c.out, r.severity ≠ .error ∧ r.severity ≠ .fatal
  err : ∀ r ∈ c.err, r.severity = .error ∨ r.severity = .fatal

theorem sorted_empty : empty.Sorted :=
  ⟨fun _ h => absurd h List.not_mem_nil, fun _ h => absurd h List.not_mem_nil⟩

end Console

theorem Severity.isUrgent_iff {s : Severity} : s.isUrgent = true ↔ s = .error ∨ s = .fatal := by
  cases s <;> decide

namespace Logger

/-- The logger that keeps everything. -/
def trace : Logger := ⟨.trace⟩

/-- Writes the line of a record on its stream, or drops it. -/
def log (l : Logger) (c : Console) (r : Record) : Console :=
  if l.enabled r.severity then
    if r.severity.isUrgent then { c with err := c.err ++ [r] } else { c with out := c.out ++ [r] }
  else c

/-- Reports come one after another. -/
def logAll (l : Logger) (c : Console) (records : List Record) : Console := records.foldl l.log c

variable {l : Logger} {c : Console}

theorem logAll_append (before after : List Record) :
    l.logAll c (before ++ after) = l.logAll (l.logAll c before) after :=
  List.foldl_append

theorem enabled_trace (s : Severity) : trace.enabled s = true := by
  cases s <;> decide

theorem enabled_mono {l l' : Logger} (h : l.minimum ≤ l'.minimum) {s : Severity} (hs : l'.enabled s = true) :
    l.enabled s = true := by
  have hkept : l'.minimum.rank ≤ s.rank := of_decide_eq_true hs
  exact decide_eq_true (Nat.le_trans (show l.minimum.rank ≤ l'.minimum.rank from h) hkept)

/-! ## Thresholds -/

/-- A logger writes a line where one without a threshold writes it. -/
theorem log_above (r : Record) : (trace.log c r).above l = l.log (c.above l) r := by
  unfold log
  rw [if_pos (enabled_trace _)]
  by_cases hkept : l.enabled r.severity = true
  · rw [if_pos hkept]
    split <;> simp [Console.above, hkept]
  · rw [if_neg hkept]
    split <;> simp [Console.above, hkept]

theorem logAll_above (records : List Record) : (trace.logAll c records).above l = l.logAll (c.above l) records := by
  induction records generalizing c with
  | nil => rfl
  | cons r records ih =>
    calc (trace.logAll (trace.log c r) records).above l
      _ = l.logAll ((trace.log c r).above l) records := ih
      _ = l.logAll (l.log (c.above l) r) records := by rw [log_above]

theorem above_above {l l' : Logger} (h : l.minimum ≤ l'.minimum) (c : Console) : (c.above l).above l' = c.above l' := by
  have hkept (records : List Record) : (records.filter fun r => l.enabled r.severity).filter
      (fun r => l'.enabled r.severity) = records.filter fun r => l'.enabled r.severity := by
    rw [List.filter_filter]
    refine List.filter_congr fun r _ => ?_
    cases hr : l'.enabled r.severity with
    | false => rfl
    | true => rw [enabled_mono h hr, Bool.true_and]
  rw [Console.above, Console.above, hkept, hkept, Console.above]

/-! ## Streams -/

theorem sorted_log (h : c.Sorted) (r : Record) : (l.log c r).Sorted := by
  unfold log
  split
  · split
    · rename_i hurgent
      refine ⟨h.out, fun r' hr' => ?_⟩
      rcases List.mem_append.1 hr' with hold | hnew
      · exact h.err r' hold
      · rw [List.mem_singleton.1 hnew]
        exact Severity.isUrgent_iff.1 hurgent
    · rename_i hurgent
      refine ⟨fun r' hr' => ?_, h.err⟩
      rcases List.mem_append.1 hr' with hold | hnew
      · exact h.out r' hold
      · rw [List.mem_singleton.1 hnew]
        exact not_or.1 (mt Severity.isUrgent_iff.2 hurgent)
  · exact h

theorem sorted_logAll (h : c.Sorted) (records : List Record) : (l.logAll c records).Sorted := by
  induction records generalizing c with
  | nil => exact h
  | cons r records ih => exact ih (sorted_log h r)

/-- What stands on the streams in the end is what is written if all records are passed to the logger at once. -/
theorem written_logAll (l : Logger) (records : List Record) : (l.logAll .empty records).written = l.write records := by
  have hwritten (c : Console) : (l.logAll c records).written =
      ⟨c.written.out ++ (l.write records).out, c.written.err ++ (l.write records).err⟩ := by
    induction records generalizing c with
    | nil => simp [logAll, write]
    | cons r records ih =>
      have hfirst : l.logAll c (r :: records) = l.logAll (l.log c r) records := rfl
      rw [hfirst, ih]
      unfold log write
      by_cases hkept : l.enabled r.severity = true
      · by_cases hurgent : r.severity.isUrgent = true
        · simp [hkept, hurgent, Console.written]
        · simp [hkept, hurgent, Console.written]
      · simp [hkept, Console.written]
  exact hwritten .empty

end Logger

end RemoteTable
