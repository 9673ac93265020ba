import RemoteTable.Dict
import RemoteTable.Exchange
import RemoteTable.Metadata.Basic

/-!
# The metadata cache of a session

The cache has one line for each table that has been read. The first read of a table fetches its metadata;
every later one asks with the revision of the line, and replaces the line when the revision that comes back is
another. Nothing is evicted. A line without a revision is compared like any other: no revision equals no
revision.

A lookup makes one inquiry (`Cache.inquiry`) and settles on the answer (`Cache.settle`); if the inquiry fails,
the cache stays as it was.
-/

namespace RemoteTable

/-- How the lookups that succeeded were settled: exact counts, those of 64-bit words below 2 ^ 64 lookups. -/
structure CacheStats where
  /-- The table had no line. -/
  misses : Nat := 0
  /-- The line was current. -/
  hits : Nat := 0
  /-- The line was replaced. -/
  refreshes : Nat := 0
  deriving DecidableEq, Repr

def CacheStats.toJson (s : CacheStats) : Json :=
  .object [("misses", .int s.misses), ("hits", .int s.hits), ("refreshes", .int s.refreshes)]

inductive Inquiry where
  /-- For the metadata of a table. -/
  | fetch (table : String)
  /-- For the metadata of a table of which a copy at this revision is held. -/
  | ifChanged (table : String) (known : Option Token)
  deriving DecidableEq

structure Cache where
  lines : Dict MetadataSet
  stats : CacheStats

namespace Cache

def empty : Cache := ⟨.empty, {}⟩

def revision (c : Cache) (table : String) : Option Token := (c.lines.get? table).bind (·.revision)

def inquiry (c : Cache) (table : String) : Inquiry :=
  match c.lines.get? table with
  | none => .fetch table
  | some line => .ifChanged table line.revision

/-- What is reported before a lookup asks. -/
def announcement (c : Cache) (table : String) : List Record :=
  match c.lines.get? table with
  | none => [Event.metadataCacheMiss.record [("table_id", table)]]
  | some _ => []

/-- The line of a table once a set has come back for it. -/
def lineAfter (c : Cache) (table : String) (fetched : MetadataSet) : MetadataSet :=
  match c.lines.get? table with
  | none => fetched
  | some line => if fetched.revision = line.revision then line else fetched

/-- The cache after a set has come back for a table, and what is reported. -/
def settle (c : Cache) (table : String) (fetched : MetadataSet) : Cache × List Record :=
  match c.lines.get? table with
  | none => (⟨c.lines.insert table fetched, { c.stats with misses := c.stats.misses + 1 }⟩, [])
  | some line =>
    if fetched.revision = line.revision then (⟨c.lines, { c.stats with hits := c.stats.hits + 1 }⟩, [])
    else
      (⟨c.lines.insert table fetched, { c.stats with refreshes := c.stats.refreshes + 1 }⟩,
        [Event.metadataCacheRefresh.record [("table_id", table)]])

/-- Looks up the metadata of a table that passes a filter, with one inquiry; also gives the cache after it. -/
def get (c : Cache) (ask : Inquiry → Exchange σ MetadataSet) (table : String) (filter : MetadataFilter) :
    Exchange σ (MetadataSet × Cache) := do
  Exchange.report (c.announcement table)
  let fetched ← ask (c.inquiry table)
  let (after, records) := c.settle table fetched
  Exchange.report records
  return ((c.lineAfter table fetched).filtered filter, after)

/-! ## The ways of a lookup -/

/-- A table has no line, one at the revision of the set, or one at another revision. -/
theorem ways (c : Cache) (table : String) (set : MetadataSet) : c.lines.get? table = none ∨
    (∃ line, c.lines.get? table = some line ∧ set.revision = line.revision) ∨
      ∃ line, c.lines.get? table = some line ∧ set.revision ≠ line.revision := by
  cases c.lines.get? table with
  | none => exact .inl rfl
  | some line =>
    by_cases hsame : set.revision = line.revision
    · exact .inr (.inl ⟨line, rfl, hsame⟩)
    · exact .inr (.inr ⟨line, rfl, hsame⟩)

variable {c : Cache} {table : String} {set line : MetadataSet}

theorem inquiry_of_none (h : c.lines.get? table = none) : c.inquiry table = .fetch table := by
  rw [inquiry, h]

theorem inquiry_of_some (h : c.lines.get? table = some line) :
    c.inquiry table = .ifChanged table line.revision := by
  rw [inquiry, h]

theorem settle_missing (h : c.lines.get? table = none) : c.settle table set =
    (⟨c.lines.insert table set, { c.stats with misses := c.stats.misses + 1 }⟩, []) := by
  rw [settle, h]

theorem settle_current (h : c.lines.get? table = some line) (hsame : set.revision = line.revision) :
    c.settle table set = (⟨c.lines, { c.stats with hits := c.stats.hits + 1 }⟩, []) := by
  simp only [settle, h, if_pos hsame]

theorem settle_changed (h : c.lines.get? table = some line) (hother : set.revision ≠ line.revision) :
    c.settle table set = (⟨c.lines.insert table set, { c.stats with refreshes := c.stats.refreshes + 1 }⟩,
      [Event.metadataCacheRefresh.record [("table_id", table)]]) := by
  simp only [settle, h, if_neg hother]

theorem lineAfter_missing (h : c.lines.get? table = none) : c.lineAfter table set = set := by
  rw [lineAfter, h]

theorem lineAfter_current (h : c.lines.get? table = some line) (hsame : set.revision = line.revision) :
    c.lineAfter table set = line := by
  simp only [lineAfter, h, if_pos hsame]

theorem lineAfter_changed (h : c.lines.get? table = some line) (hother : set.revision ≠ line.revision) :
    c.lineAfter table set = set := by
  simp only [lineAfter, h, if_neg hother]

end Cache

/-! ## Sources that answer from a list -/

/-- Sets that are still to be given, and the inquiries made, newest first. -/
structure ScriptedSets where
  answers : List (Except TransportError MetadataSet)
  asked : List Inquiry := []

/-- Gives the next set, whatever is asked; fails when there is none. -/
def ScriptedSets.answer (inquiry : Inquiry) : Exchange ScriptedSets MetadataSet := .of fun s =>
  match s.state.answers with
  | [] => (.error ⟨.storage, "no more replies"⟩, { s with state := ⟨[], inquiry :: s.state.asked⟩ })
  | a :: rest => (a, { s with state := ⟨rest, inquiry :: s.state.asked⟩ })

end RemoteTable
