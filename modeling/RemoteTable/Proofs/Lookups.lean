import RemoteTable.Session

/-!
# Lookups in a cache

A cache is asked for the metadata of tables, and asks a source in turn, which may reply with any set or error and may change
its state as it likes (`Desk.look`). One lookup asks once, with the revision of the line if there is one. An error changes
nothing; a set is counted as a miss, a hit or a refresh, and only the line of its table may be another afterwards
(`Desk.Looked`). Over any lookups the misses keep up with the lines, and the three counts together with the lookups that
succeeded (`Desk.Tally`, `Desk.lookups_settle`).

A lookup gives a cache back and leaves it to its caller to keep it. To carry it out in place, first the inquiry, then the
count, then the line, comes to the same (`Desk.on_lookInPlace`), and so do the metadata reads of a session
(`Session.on_metadata`).
-/

namespace RemoteTable

/-- The state of a source, and what it was asked, newest first. -/
structure Asked (σ : Type) where
  source : σ
  inquiries : List Inquiry := []

def Asked.ask (answer : Inquiry → Exchange σ MetadataSet) (inquiry : Inquiry) : Exchange (Asked σ) MetadataSet :=
  .of fun s =>
    let (r, t) := (answer inquiry).on ⟨s.state.source, s.journal⟩
    (r, ⟨⟨t.state, inquiry :: s.state.inquiries⟩, t.journal⟩)

structure Lookup where
  table : String
  filter : MetadataFilter

/-- A cache, and the source that it asks. -/
structure Desk (σ : Type) where
  cache : Cache
  asked : Asked σ

namespace Desk

variable (answer : Inquiry → Exchange σ MetadataSet)

/-- Looks something up. If the inquiry fails, the cache stays as it was. -/
def look (l : Lookup) : Exchange (Desk σ) MetadataSet := .of fun s =>
  let (r, t) := (s.state.cache.get (Asked.ask answer) l.table l.filter).on ⟨s.state.asked, s.journal⟩
  match r with
  | .ok (set, cache) => (.ok set, ⟨⟨cache, t.state⟩, t.journal⟩)
  | .error e => (.error e, ⟨{ s.state with asked := t.state }, t.journal⟩)

def run : List Lookup → Noted (Desk σ) → List (Except TransportError MetadataSet) × Noted (Desk σ)
  | [], s => ([], s)
  | l :: ls, s =>
    let (r, s) := (look answer l).on s
    let (rs, s) := run ls s
    (r :: rs, s)

/-! ## In place -/

def line (table : String) : Exchange (Desk σ) (Option MetadataSet) := .of fun s =>
  (.ok (s.state.cache.lines.get? table), s)

def inquire (inquiry : Inquiry) : Exchange (Desk σ) MetadataSet := .of fun s =>
  let (r, t) := (Asked.ask answer inquiry).on ⟨s.state.asked, s.journal⟩
  (r, ⟨{ s.state with asked := t.state }, t.journal⟩)

def count (f : CacheStats → CacheStats) : Exchange (Desk σ) Unit :=
  .update fun d => { d with cache := { d.cache with stats := f d.cache.stats } }

def store (table : String) (set : MetadataSet) : Exchange (Desk σ) Unit :=
  .update fun d => { d with cache := { d.cache with lines := d.cache.lines.insert table set } }

/-- Brings the line of a table up to date. -/
def refresh (table : String) : Exchange (Desk σ) Unit := do
  match (← line table).map MetadataSet.revision with
  | none =>
    Exchange.note .metadataCacheMiss [("table_id", table)]
    let fetched ← inquire answer (.fetch table)
    count fun stats => { stats with misses := stats.misses + 1 }
    store table fetched
  | some known =>
    let fetched ← inquire answer (.ifChanged table known)
    if fetched.revision = known then
      count fun stats => { stats with hits := stats.hits + 1 }
    else
      Exchange.note .metadataCacheRefresh [("table_id", table)]
      count fun stats => { stats with refreshes := stats.refreshes + 1 }
      store table fetched

/-- Looks something up statement by statement: first the inquiry, then the statistics, then the line, which is then read. -/
def lookInPlace (l : Lookup) : Exchange (Desk σ) MetadataSet := do
  refresh answer l.table
  return (← line l.table).elim ⟨l.table, none, []⟩ (·.filtered l.filter)

end Desk

/-! ## One lookup -/

namespace Cache

variable {c : Cache} {ask : Inquiry → Exchange σ MetadataSet} {table : String} {s t : Noted σ}

theorem on_get_ok {set : MetadataSet}
    (h : (ask (c.inquiry table)).on ⟨s.state, (c.announcement table).reverse ++ s.journal⟩ = (.ok set, t))
    (filter : MetadataFilter) : (c.get ask table filter).on s =
      (.ok ((c.lineAfter table set).filtered filter, (c.settle table set).1),
        { t with journal := (c.settle table set).2.reverse ++ t.journal }) := by
  unfold get
  rw [Exchange.on_bind_ok (Exchange.on_report ..), Exchange.on_bind_ok h]
  rfl

theorem on_get_error {e : TransportError}
    (h : (ask (c.inquiry table)).on ⟨s.state, (c.announcement table).reverse ++ s.journal⟩ = (.error e, t))
    (filter : MetadataFilter) : (c.get ask table filter).on s = (.error e, t) := by
  unfold get
  rw [Exchange.on_bind_ok (Exchange.on_report ..), Exchange.on_bind_error h]

/-- Of all lines, only that of the table looked up may have changed. -/
theorem get?_settle (c : Cache) (table name : String) (set : MetadataSet) : (c.settle table set).1.lines.get? name =
    if name = table then some (c.lineAfter table set) else c.lines.get? name := by
  rcases c.ways table set with hline | ⟨line, hline, hsame⟩ | ⟨line, hline, hother⟩
  · rw [settle_missing hline, lineAfter_missing hline, Dict.get?_insert]
  · rw [settle_current hline hsame, lineAfter_current hline hsame]
    split
    · rename_i hname
      rw [hname, hline]
    · rfl
  · rw [settle_changed hline hother, lineAfter_changed hline hother, Dict.get?_insert]

def settled (c : Cache) : Nat := c.stats.misses + c.stats.hits + c.stats.refreshes

theorem settled_settle (c : Cache) (table : String) (set : MetadataSet) :
    (c.settle table set).1.settled = c.settled + 1 := by
  rcases c.ways table set with hline | ⟨line, hline, hsame⟩ | ⟨line, hline, hother⟩
  · rw [settle_missing hline]
    simp only [settled]
    omega
  · rw [settle_current hline hsame]
    simp only [settled]
    omega
  · rw [settle_changed hline hother]
    rfl

/-- A miss comes with a new line, and nothing else does. -/
theorem misses_settle (c : Cache) (table : String) (set : MetadataSet) :
    (c.settle table set).1.stats.misses + c.lines.size = c.stats.misses + (c.settle table set).1.lines.size := by
  rcases c.ways table set with hline | ⟨line, hline, hsame⟩ | ⟨line, hline, hother⟩
  · simp only [settle_missing hline, Dict.size_insert, hline, Option.isSome_none, Bool.false_eq_true, if_false]
    omega
  · rw [settle_current hline hsame]
  · simp only [settle_changed hline hother, Dict.size_insert, hline, Option.isSome_some, if_true]

end Cache

theorem Asked.on_ask {answer : Inquiry → Exchange σ MetadataSet} {inquiry : Inquiry} {s : Noted (Asked σ)}
    {r : Except TransportError MetadataSet} {u : Noted σ} (h : (answer inquiry).on ⟨s.state.source, s.journal⟩ = (r, u)) :
    (ask answer inquiry).on s = (r, ⟨⟨u.state, inquiry :: s.state.inquiries⟩, u.journal⟩) := by
  rw [ask, Exchange.on_of, h]

namespace Desk

/-- What has been reported when the source is asked for a table. -/
def announced (table : String) (s : Noted (Desk σ)) : List Record :=
  (s.state.cache.announcement table).reverse ++ s.journal

/-- The source's reply to the inquiry for a table, and the state it is in then. -/
def Replies (answer : Inquiry → Exchange σ MetadataSet) (table : String) (s : Noted (Desk σ))
    (r : Except TransportError MetadataSet) (u : Noted σ) : Prop :=
  (answer (s.state.cache.inquiry table)).on ⟨s.state.asked.source, announced table s⟩ = (r, u)

/-- The source after that, with the inquiry taken down. -/
def noted (table : String) (s : Noted (Desk σ)) (u : Noted σ) : Asked σ :=
  ⟨u.state, s.state.cache.inquiry table :: s.state.asked.inquiries⟩

variable {answer : Inquiry → Exchange σ MetadataSet} {l : Lookup} {s : Noted (Desk σ)}

theorem exists_replies (answer : Inquiry → Exchange σ MetadataSet) (table : String) (s : Noted (Desk σ)) :
    ∃ r u, Replies answer table s r u := ⟨_, _, rfl⟩

theorem on_line (table : String) (s : Noted (Desk σ)) : (line table).on s = (.ok (s.state.cache.lines.get? table), s) := rfl

theorem on_inquire {inquiry : Inquiry} {r : Except TransportError MetadataSet} {u : Noted σ}
    (h : (answer inquiry).on ⟨s.state.asked.source, s.journal⟩ = (r, u)) : (inquire answer inquiry).on s =
      (r, ⟨⟨s.state.cache, ⟨u.state, inquiry :: s.state.asked.inquiries⟩⟩, u.journal⟩) := by
  rw [inquire, Exchange.on_of, Asked.on_ask (s := ⟨s.state.asked, s.journal⟩) h]

theorem look_error {e : TransportError} {u : Noted σ} (h : Replies answer l.table s (.error e) u) :
    (look answer l).on s = (.error e, ⟨⟨s.state.cache, noted l.table s u⟩, u.journal⟩) := by
  have hask := Asked.on_ask (s := ⟨s.state.asked, announced l.table s⟩) h
  rw [look, Exchange.on_of, Cache.on_get_error (s := ⟨s.state.asked, s.journal⟩) hask]
  rfl

theorem look_ok {set : MetadataSet} {u : Noted σ} (h : Replies answer l.table s (.ok set) u) :
    (look answer l).on s = (.ok ((s.state.cache.lineAfter l.table set).filtered l.filter),
      ⟨⟨(s.state.cache.settle l.table set).1, noted l.table s u⟩,
        (s.state.cache.settle l.table set).2.reverse ++ u.journal⟩) := by
  have hask := Asked.on_ask (s := ⟨s.state.asked, announced l.table s⟩) h
  rw [look, Exchange.on_of, Cache.on_get_ok (s := ⟨s.state.asked, s.journal⟩) hask]
  rfl

/-- The inquiry in place, of a table without a line and of one with a line. -/
theorem Replies.missing {table : String} {r : Except TransportError MetadataSet} {u : Noted σ}
    (h : Replies answer table s r u) (hline : s.state.cache.lines.get? table = none) :
    (inquire answer (.fetch table)).on ⟨s.state, Event.metadataCacheMiss.record [("table_id", table)] :: s.journal⟩ =
      (r, ⟨⟨s.state.cache, noted table s u⟩, u.journal⟩) := by
  unfold Replies announced at h
  unfold noted
  rw [Cache.inquiry_of_none hline, Cache.announcement, hline] at h
  rw [Cache.inquiry_of_none hline]
  exact on_inquire h

theorem Replies.present {table : String} {line : MetadataSet} {r : Except TransportError MetadataSet} {u : Noted σ}
    (h : Replies answer table s r u) (hline : s.state.cache.lines.get? table = some line) :
    (inquire answer (.ifChanged table line.revision)).on s = (r, ⟨⟨s.state.cache, noted table s u⟩, u.journal⟩) := by
  unfold Replies announced at h
  unfold noted
  rw [Cache.inquiry_of_some hline, Cache.announcement, hline] at h
  rw [Cache.inquiry_of_some hline]
  exact on_inquire h

theorem refresh_error {table : String} {e : TransportError} {u : Noted σ} (h : Replies answer table s (.error e) u) :
    (refresh answer table).on s = (.error e, ⟨⟨s.state.cache, noted table s u⟩, u.journal⟩) := by
  unfold refresh
  rw [Exchange.on_bind_ok (on_line table s)]
  cases hline : s.state.cache.lines.get? table with
  | none =>
    simp only [Option.map_none]
    rw [Exchange.on_bind_ok (Exchange.on_note ..), Exchange.on_bind_error (h.missing hline)]
  | some line =>
    simp only [Option.map_some]
    rw [Exchange.on_bind_error (h.present hline)]

theorem refresh_ok {table : String} {set : MetadataSet} {u : Noted σ} (h : Replies answer table s (.ok set) u) :
    (refresh answer table).on s = (.ok (), ⟨⟨(s.state.cache.settle table set).1, noted table s u⟩,
      (s.state.cache.settle table set).2.reverse ++ u.journal⟩) := by
  unfold refresh
  rw [Exchange.on_bind_ok (on_line table s)]
  cases hline : s.state.cache.lines.get? table with
  | none =>
    simp only [Option.map_none]
    rw [Exchange.on_bind_ok (Exchange.on_note ..), Exchange.on_bind_ok (h.missing hline), Cache.settle_missing hline]
    rfl
  | some line =>
    simp only [Option.map_some]
    rw [Exchange.on_bind_ok (h.present hline)]
    by_cases hsame : set.revision = line.revision
    · rw [if_pos hsame, Cache.settle_current hline hsame]
      rfl
    · rw [if_neg hsame, Cache.settle_changed hline hsame]
      rfl

/-- Statement by statement a lookup comes to the same. -/
theorem on_lookInPlace (answer : Inquiry → Exchange σ MetadataSet) (l : Lookup) (s : Noted (Desk σ)) :
    (lookInPlace answer l).on s = (look answer l).on s := by
  unfold lookInPlace
  obtain ⟨r, u, h⟩ := exists_replies answer l.table s
  cases r with
  | error e => rw [Exchange.on_bind_error (refresh_error h), look_error h]
  | ok set =>
    have hline := Cache.get?_settle s.state.cache l.table l.table set
    rw [if_pos rfl] at hline
    rw [Exchange.on_bind_ok (refresh_ok h), Exchange.on_bind_ok (on_line ..), look_ok h, hline]
    rfl

/-- What a lookup does, `inquiry` being what the source is asked and `r` what it replies. -/
structure Looked (answer : Inquiry → Exchange σ MetadataSet) (l : Lookup) (s : Noted (Desk σ)) (inquiry : Inquiry)
    (r result : Except TransportError MetadataSet) (t : Noted (Desk σ)) : Prop where
  /-- A table without a line is asked for, and one with a line is asked for with the revision of the line, if it has any. -/
  unknown : s.state.cache.lines.get? l.table = none → inquiry = .fetch l.table
  known : ∀ line, s.state.cache.lines.get? l.table = some line → inquiry = .ifChanged l.table line.revision
  /-- Nothing else is asked. -/
  once : ∃ u, (answer inquiry).on ⟨s.state.asked.source, announced l.table s⟩ = (r, u) ∧
    t.state.asked = ⟨u.state, inquiry :: s.state.asked.inquiries⟩
  /-- An error is returned, and nothing changes. -/
  failed : ∀ e, r = .error e → result = .error e ∧ t.state.cache = s.state.cache
  /-- A table without a line gets the set as its line. -/
  missed : ∀ set, r = .ok set → s.state.cache.lines.get? l.table = none →
    t.state.cache.lines.get? l.table = some set ∧
      t.state.cache.stats = { s.state.cache.stats with misses := s.state.cache.stats.misses + 1 }
  /-- A line at the revision of the set is left alone. -/
  current : ∀ set line, r = .ok set → s.state.cache.lines.get? l.table = some line → set.revision = line.revision →
    t.state.cache.lines = s.state.cache.lines ∧
      t.state.cache.stats = { s.state.cache.stats with hits := s.state.cache.stats.hits + 1 }
  /-- A line at another revision is replaced by the set. -/
  changed : ∀ set line, r = .ok set → s.state.cache.lines.get? l.table = some line → set.revision ≠ line.revision →
    t.state.cache.lines.get? l.table = some set ∧
      t.state.cache.stats = { s.state.cache.stats with refreshes := s.state.cache.stats.refreshes + 1 }
  /-- What is returned is taken from the line. -/
  returned : ∀ set, r = .ok set → ∃ line, t.state.cache.lines.get? l.table = some line ∧
    result = .ok (line.filtered l.filter)
  others : ∀ table, table ≠ l.table → t.state.cache.lines.get? table = s.state.cache.lines.get? table
  kept : ∀ table, (s.state.cache.lines.get? table).isSome → (t.state.cache.lines.get? table).isSome

theorem looked_error {e : TransportError} {u : Noted σ} (h : Replies answer l.table s (.error e) u) :
    Looked answer l s (s.state.cache.inquiry l.table) (.error e) ((look answer l).on s).1 ((look answer l).on s).2 := by
  rw [look_error h]
  refine ⟨Cache.inquiry_of_none, fun _ => Cache.inquiry_of_some, ⟨u, h, rfl⟩, fun _ hf => ⟨hf, rfl⟩, ?missed, ?current,
    ?changed, ?returned, fun _ _ => rfl, fun _ hline => hline⟩
  case missed | returned =>
    intro _ hset
    cases hset
  case current | changed =>
    intro _ _ hset
    cases hset

theorem looked_ok {set : MetadataSet} {u : Noted σ} (h : Replies answer l.table s (.ok set) u) :
    Looked answer l s (s.state.cache.inquiry l.table) (.ok set) ((look answer l).on s).1 ((look answer l).on s).2 := by
  have hlines (name : String) := Cache.get?_settle s.state.cache l.table name set
  have hown := (hlines l.table).trans (if_pos rfl)
  rw [look_ok h]
  refine ⟨Cache.inquiry_of_none, fun _ => Cache.inquiry_of_some, ⟨u, h, rfl⟩, ?failed, ?missed, ?current, ?changed,
    fun _ _ => ⟨_, hown, rfl⟩, fun name hname => (hlines name).trans (if_neg hname), ?kept⟩
  case failed =>
    intro _ hf
    cases hf
  case missed =>
    rintro _ ⟨⟩ hline
    rw [Cache.settle_missing hline]
    exact ⟨(Dict.get?_insert ..).trans (if_pos rfl), rfl⟩
  case current =>
    rintro _ line ⟨⟩ hline hsame
    rw [Cache.settle_current hline hsame]
    exact ⟨rfl, rfl⟩
  case changed =>
    rintro _ line ⟨⟩ hline hother
    rw [Cache.settle_changed hline hother]
    exact ⟨(Dict.get?_insert ..).trans (if_pos rfl), rfl⟩
  case kept =>
    intro name hline
    rw [hlines]
    split
    · rfl
    · exact hline

theorem looked (answer : Inquiry → Exchange σ MetadataSet) (l : Lookup) (s : Noted (Desk σ)) :
    ∃ inquiry r, Looked answer l s inquiry r ((look answer l).on s).1 ((look answer l).on s).2 := by
  obtain ⟨r, u, h⟩ := exists_replies answer l.table s
  cases r with
  | error e => exact ⟨_, _, looked_error h⟩
  | ok set => exact ⟨_, _, looked_ok h⟩

/-- The filter decides what is returned, and nothing else. -/
theorem look_filter (answer : Inquiry → Exchange σ MetadataSet) (l : Lookup) (filter : MetadataFilter)
    (s : Noted (Desk σ)) : ((look answer { l with filter }).on s).2 = ((look answer l).on s).2 := by
  obtain ⟨r, u, h⟩ := exists_replies answer l.table s
  cases r with
  | error e => rw [look_error h, look_error (l := { l with filter }) h]
  | ok set => rw [look_ok h, look_ok (l := { l with filter }) h]

/-! ## Any number of lookups -/

theorem run_cons (answer : Inquiry → Exchange σ MetadataSet) (l : Lookup) (ls : List Lookup) (s : Noted (Desk σ)) :
    run answer (l :: ls) s = (((look answer l).on s).1 :: (run answer ls ((look answer l).on s).2).1,
      (run answer ls ((look answer l).on s).2).2) := rfl

theorem run_filter (answer : Inquiry → Exchange σ MetadataSet) (ls : List Lookup) (filter : MetadataFilter)
    (s : Noted (Desk σ)) : (run answer (ls.map ({ · with filter })) s).2 = (run answer ls s).2 := by
  induction ls generalizing s with
  | nil => rfl
  | cons l ls ih => rw [List.map_cons, run_cons, run_cons, look_filter, ih]

/-- What the counts of a cache tell about the lookups with these results. -/
structure Tally (ls : List Lookup) (s : Desk σ) (results : List (Except TransportError MetadataSet)) (t : Desk σ) : Prop where
  returned : results.length = ls.length
  asked : t.asked.inquiries.length = s.asked.inquiries.length + ls.length
  settled : t.cache.settled = s.cache.settled + results.countP Except.isOk
  misses : t.cache.stats.misses + s.cache.lines.size = s.cache.stats.misses + t.cache.lines.size

theorem tally_look (answer : Inquiry → Exchange σ MetadataSet) (l : Lookup) (s : Noted (Desk σ)) :
    Tally [l] s.state [((look answer l).on s).1] ((look answer l).on s).2.state := by
  obtain ⟨r, u, h⟩ := exists_replies answer l.table s
  cases r with
  | error e =>
    rw [look_error h]
    exact ⟨rfl, rfl, rfl, rfl⟩
  | ok set =>
    rw [look_ok h]
    exact ⟨rfl, rfl, Cache.settled_settle .., Cache.misses_settle ..⟩

theorem Tally.append {before after : List Lookup} {s t u : Desk σ} {early late : List (Except TransportError MetadataSet)}
    (h : Tally before s early t) (h' : Tally after t late u) : Tally (before ++ after) s (early ++ late) u := by
  obtain ⟨hreturned, hasked, hsettled, hmisses⟩ := h
  obtain ⟨hreturned', hasked', hsettled', hmisses'⟩ := h'
  refine ⟨?_, ?_, ?_, ?_⟩
  · rw [List.length_append, List.length_append, hreturned, hreturned']
  · rw [hasked', hasked, List.length_append, Nat.add_assoc]
  · rw [hsettled', hsettled, List.countP_append, Nat.add_assoc]
  · omega

theorem tally_run (answer : Inquiry → Exchange σ MetadataSet) (ls : List Lookup) (s : Noted (Desk σ)) :
    Tally ls s.state (run answer ls s).1 (run answer ls s).2.state := by
  induction ls generalizing s with
  | nil => exact ⟨rfl, rfl, rfl, rfl⟩
  | cons l ls ih => exact (tally_look answer l s).append (ih ((look answer l).on s).2)

/-- Whatever the source replies, a lookup makes one inquiry and then does as `Looked` tells, in one go as well as
statement by statement; the filter decides only what is returned. From an empty cache on there are as many misses as
lines, and as many counts as lookups that succeeded: those of 64-bit words, below 2 ^ 64 lookups. -/
theorem lookups_settle (answer : Inquiry → Exchange σ MetadataSet) :
    (∀ (l : Lookup) (s : Noted (Desk σ)),
      (∃ inquiry r, Looked answer l s inquiry r ((look answer l).on s).1 ((look answer l).on s).2) ∧
      (lookInPlace answer l).on s = (look answer l).on s ∧
      ∀ filter, ((look answer { l with filter }).on s).2 = ((look answer l).on s).2) ∧
    ∀ (ls : List Lookup) (source : σ),
      let start : Noted (Desk σ) := .start ⟨.empty, { source }⟩
      let done := run answer ls start
      done.1.length = ls.length ∧ done.2.state.asked.inquiries.length = ls.length ∧
      done.2.state.cache.stats.misses = done.2.state.cache.lines.size ∧
      done.2.state.cache.stats.misses + done.2.state.cache.stats.hits + done.2.state.cache.stats.refreshes =
        done.1.countP Except.isOk ∧
      ∀ filter, (run answer (ls.map ({ · with filter })) start).2 = done.2 := by
  refine ⟨fun l s => ⟨looked answer l s, on_lookInPlace answer l s, fun filter => look_filter answer l filter s⟩, ?_⟩
  intro ls source start done
  have htally : Tally ls start.state done.1 done.2.state := tally_run answer ls start
  exact ⟨htally.returned, htally.asked.trans (Nat.zero_add _), htally.misses.trans (Nat.zero_add _),
    htally.settled.trans (Nat.zero_add _), fun filter => run_filter answer ls filter start⟩

/-- A line without a revision is a line: it is hit by a set without a revision, and replaced by one that has one. -/
example :
    let answers := [.ok ⟨"a", none, []⟩, .ok ⟨"a", none, []⟩, .error ⟨.storage, "away"⟩, .ok ⟨"a", some ⟨1⟩, []⟩]
    let done := run ScriptedSets.answer (List.replicate 4 ⟨"a", .all⟩) (.start ⟨.empty, { source := { answers } }⟩)
    done.2.state.cache.stats = ⟨1, 1, 1⟩ ∧ done.2.state.asked.inquiries.reverse =
      [.fetch "a", .ifChanged "a" none, .ifChanged "a" none, .ifChanged "a" none] := by
  decide

end Desk

/-! ## Sessions -/

theorem Session.on_metadata [Channel σ] (config : Config) (l : Lookup) (s : Noted (Seat σ)) (inquiries : List Inquiry) :
    let done := (Desk.look (inquire config) l).on ⟨⟨s.state.cache, ⟨s.state.link, inquiries⟩⟩, s.journal⟩
    (metadata config l.table l.filter).on s =
      (done.1, ⟨⟨done.2.state.asked.source, done.2.state.cache⟩, done.2.journal⟩) := by
  intro done
  obtain ⟨r, u, h⟩ :=
    Desk.exists_replies (inquire config) l.table ⟨⟨s.state.cache, ⟨s.state.link, inquiries⟩⟩, s.journal⟩
  rw [metadata, Exchange.on_of]
  cases r with
  | error e =>
    have hdone : done = _ := Desk.look_error h
    rw [Cache.on_get_error (s := ⟨s.state.link, s.journal⟩) h, hdone]
    rfl
  | ok set =>
    have hdone : done = _ := Desk.look_ok h
    rw [Cache.on_get_ok (s := ⟨s.state.link, s.journal⟩) h, hdone]
    rfl

end RemoteTable
