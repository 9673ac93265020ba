import RemoteTable.Proofs.Drawn
import RemoteTable.Proofs.Fallible
import RemoteTable.Store

/-!
# Reachable stores

What a call makes of the store when it is answered is said once (`answer_eq_ok`): reads leave it as it is, opening and
closing set the flag of the table, and a write that is granted leaves the entries as they are or gives the table others
at a new revision (`Rewrites`).

A store is reachable when its own operations make it from the empty one. What a table holds only comes in through
these operations, so in a reachable store every row is well formed (`Reachable.tidy`).
-/

namespace RemoteTable

/-- The operation does not write to the store. -/
def Operation.IsRead : Operation → Prop
  | openTable | closeTable | putMetadata | deleteMetadata => False
  | _ => True

namespace Store

/-- The stores that the operations make, rows being given with well-formed cells. -/
inductive Reachable : Store → Prop where
  | empty : Reachable empty
  | createTable {s t : Store} {name : String} {columns : List String} {supply later : Supply} (before : Reachable s)
    (made : s.createTable name columns supply = .ok (t, later)) : Reachable t
  | insertRow {s t : Store} {name : String} {row : Row} (before : Reachable s) (row_wf : row.WellFormed)
    (inserted : s.insertRow name row = .ok t) : Reachable t
  | grantWrite {s : Store} (before : Reachable s) (principal : String) : Reachable (s.grantWrite principal)
  | answer {s t : Store} {principal : Option String} {call : Call} {supply later : Supply} {a : Answer}
    (before : Reachable s) (answered : s.answer principal call supply = .ok (a, t, later)) : Reachable t

def Tidy (s : Store) : Prop := ∀ name t, s.tables.get? name = some t → ∀ row ∈ t.rows, row.WellFormed

variable {s : Store} {name : String} {t : Table}

theorem table_eq_ok (h : s.table name = .ok t) : s.tables.get? name = some t := by
  unfold table at h
  split at h <;> cases h
  assumption

theorem openedTable_eq_ok (h : s.openedTable name = .ok t) : s.tables.get? name = some t ∧ t.isOpen = true := by
  obtain ⟨u, htable, hopen⟩ := Fallible.bind_eq_ok.1 h
  split at hopen
  · cases hopen
    exact ⟨table_eq_ok htable, by assumption⟩
  · cases hopen

theorem metadata_eq_ok {set : MetadataSet} (h : s.metadata name = .ok set) :
    ∃ t, s.tables.get? name = some t ∧ set = t.metadata := by
  obtain ⟨t, htable, hset⟩ := Fallible.bind_eq_ok.1 h
  cases hset
  exact ⟨t, table_eq_ok htable, rfl⟩

/-! ## What calls do -/

/-- What a write of these entries makes of a table: if they are those that it has, nothing has changed, and if not, it
has them at a new revision. -/
inductive Rewrites (s : Store) (supply : Supply) (name : String) (t : Table) (entries : List MetadataEntry) :
    Store → Supply → Prop where
  | same (unchanged : entries = t.metadata.entries) : Rewrites s supply name t entries s supply
  | revised (changed : entries ≠ t.metadata.entries) :
    Rewrites s supply name t entries (s.withTable name (reviseEntries t entries supply).1)
      (reviseEntries t entries supply).2

/-- An entry is written where it is already exactly if it is the first in its slot. -/
theorem putEntry_eq_iff {entry : MetadataEntry} {entries : List MetadataEntry} :
    putEntry entry entries = entries ↔ entries.find? (·.slot = entry.slot) = some entry := by
  induction entries with
  | nil => simp [putEntry]
  | cons e rest ih =>
    unfold putEntry
    by_cases hslot : e.slot = entry.slot
    · rw [if_pos hslot, List.find?_cons_of_pos (by simpa using hslot), List.cons.injEq, Option.some.injEq]
      exact ⟨fun h => h.1.symm, fun h => ⟨h.symm, rfl⟩⟩
    · rw [if_neg hslot, List.find?_cons_of_neg (by simpa using hslot), List.cons.injEq, ih]
      exact ⟨fun h => h.2, fun h => ⟨rfl, h⟩⟩

theorem putEntry_of_empty {entry : MetadataEntry} {entries : List MetadataEntry}
    (h : ∀ e ∈ entries, e.slot ≠ entry.slot) : putEntry entry entries = entries ++ [entry] := by
  induction entries with
  | nil => rfl
  | cons e rest ih =>
    rw [putEntry, if_neg (h e (List.mem_cons_self ..)), ih fun d hd => h d (List.mem_cons_of_mem e hd)]
    rfl

/-- What answering a call can make of the store, on whose behalf it is made. -/
inductive Answered (s : Store) (principal : Option String) (supply : Supply) : Call → Store → Supply → Prop where
  | read {call : Call} (reads : call.operation.IsRead) : Answered s principal supply call s supply
  | opened {name : String} {t : Table} (there : s.tables.get? name = some t) :
    Answered s principal supply (.openTable name) (s.withTable name { t with isOpen := true }) supply
  | closed {name : String} {t : Table} (there : s.tables.get? name = some t) :
    Answered s principal supply (.closeTable name) (s.withTable name { t with isOpen := false }) supply
  | put {entry : MetadataEntry} {t : Table} {u : Store} {later : Supply} (granted : s.authorize principal = .ok ())
    (there : s.tables.get? entry.table = some t)
    (rewrites : Rewrites s supply entry.table t (putEntry entry t.metadata.entries) u later) :
    Answered s principal supply (.putMetadata entry) u later
  | deleted {name : String} {slot : Slot} {t : Table} {u : Store} {later : Supply}
    (granted : s.authorize principal = .ok ()) (there : s.tables.get? name = some t)
    (rewrites : Rewrites s supply name t (t.metadata.entries.filter (·.slot ≠ slot)) u later) :
    Answered s principal supply (.deleteMetadata name slot) u later

theorem putMetadata_eq_ok {u : Store} {principal : Option String} {entry : MetadataEntry} {supply later : Supply}
    (h : s.putMetadata principal entry supply = .ok (u, later)) :
    Answered s principal supply (.putMetadata entry) u later := by
  obtain ⟨_, hgranted, hput⟩ := Fallible.bind_eq_ok.1 h
  split at hput
  · cases hput
  · obtain ⟨t, htable, hmade⟩ := Fallible.bind_eq_ok.1 hput
    refine .put hgranted (table_eq_ok htable) ?_
    split at hmade
    · rename_i hthere
      cases hmade
      exact .same (putEntry_eq_iff.2 hthere)
    · rename_i hthere
      cases hmade
      exact .revised fun hsame => hthere (putEntry_eq_iff.1 hsame)

theorem deleteMetadata_eq_ok {u : Store} {principal : Option String} {slot : Slot} {supply later : Supply}
    (h : s.deleteMetadata principal name slot supply = .ok (u, later)) :
    Answered s principal supply (.deleteMetadata name slot) u later := by
  obtain ⟨_, hgranted, hdelete⟩ := Fallible.bind_eq_ok.1 h
  obtain ⟨t, htable, hmade⟩ := Fallible.bind_eq_ok.1 hdelete
  refine .deleted hgranted (table_eq_ok htable) ?_
  dsimp only at hmade
  split at hmade
  · rename_i hnone
    cases hmade
    exact .same (List.filter_eq_self.2 (List.length_filter_eq_length_iff.1 hnone))
  · rename_i hnone
    cases hmade
    exact .revised fun hsame => hnone (congrArg List.length hsame)

/-- A call that is answered opens, closes or rewrites the table that it names, or leaves the store as it is. -/
theorem answer_eq_ok {u : Store} {principal : Option String} {call : Call} {supply later : Supply} {a : Answer}
    (h : s.answer principal call supply = .ok (a, u, later)) : Answered s principal supply call u later := by
  cases call with
  | openTable name =>
    obtain ⟨⟨info, u⟩, hopen, hok⟩ := Fallible.bind_eq_ok.1 h
    obtain ⟨t, htable, hmade⟩ := Fallible.bind_eq_ok.1 hopen
    cases hmade
    cases hok
    exact .opened (table_eq_ok htable)
  | closeTable name =>
    obtain ⟨u, hclose, hok⟩ := Fallible.bind_eq_ok.1 h
    obtain ⟨t, htable, hmade⟩ := Fallible.bind_eq_ok.1 hclose
    cases hmade
    cases hok
    exact .closed (openedTable_eq_ok htable).1
  | query | getRow | getMetadata | getMetadataIfChanged =>
    obtain ⟨_, -, hok⟩ := Fallible.bind_eq_ok.1 h
    cases hok
    exact .read trivial
  | putMetadata entry =>
    obtain ⟨⟨u, later⟩, hput, hok⟩ := Fallible.bind_eq_ok.1 h
    cases hok
    exact putMetadata_eq_ok hput
  | deleteMetadata name slot =>
    obtain ⟨⟨u, later⟩, hdelete, hok⟩ := Fallible.bind_eq_ok.1 h
    cases hok
    exact deleteMetadata_eq_ok hdelete

theorem Tidy.withTable (h : s.Tidy) (hrows : ∀ row ∈ t.rows, row.WellFormed) : (s.withTable name t).Tidy := by
  intro k u hget
  change (s.tables.insert name t).get? k = some u at hget
  rw [Dict.get?_insert] at hget
  split at hget
  · cases hget
    exact hrows
  · exact h k u hget

theorem Rewrites.tidy {supply later : Supply} {entries : List MetadataEntry} {u : Store}
    (h : Rewrites s supply name t entries u later) (htidy : s.Tidy) (hget : s.tables.get? name = some t) : u.Tidy := by
  cases h with
  | same => exact htidy
  | revised => exact htidy.withTable (htidy name t hget)

theorem Rewrites.follows {supply later : Supply} {entries : List MetadataEntry} {u : Store}
    (h : Rewrites s supply name t entries u later) : supply.Follows later := by
  cases h with
  | same => exact .refl supply
  | revised => exact ⟨rfl, Nat.le_succ _⟩

theorem Tidy.answer {u : Store} {principal : Option String} {call : Call} {supply later : Supply} {a : Answer}
    (h : s.Tidy) (hanswer : s.answer principal call supply = .ok (a, u, later)) : u.Tidy := by
  cases answer_eq_ok hanswer with
  | read => exact h
  | opened there | closed there => exact h.withTable fun row hrow => h _ _ there row hrow
  | put _ there rewrites | deleted _ there rewrites => exact rewrites.tidy h there

/-- A call draws tokens at most. -/
theorem follows_answer {u : Store} {principal : Option String} {call : Call} {supply later : Supply} {a : Answer}
    (hanswer : s.answer principal call supply = .ok (a, u, later)) : supply.Follows later := by
  cases answer_eq_ok hanswer with
  | read | opened | closed => exact .refl supply
  | put _ _ rewrites | deleted _ _ rewrites => exact rewrites.follows

theorem createTable_eq_ok {u : Store} {columns : List String} {supply later : Supply}
    (h : s.createTable name columns supply = .ok (u, later)) : s.tables.get? name = none ∧
      u = s.withTable name ⟨columns, [], false, ⟨name, some (supply.draw supply.used), []⟩⟩ ∧
      later = { supply with used := supply.used + 1 } := by
  unfold createTable at h
  split at h
  · cases h
  · split at h
    · cases h
    · rename_i hfree
      cases h
      exact ⟨by simpa using hfree, rfl, rfl⟩

theorem insertRow_eq_ok {u : Store} {row : Row} (h : s.insertRow name row = .ok u) :
    ∃ t, s.tables.get? name = some t ∧ u = s.withTable name { t with rows := t.rows ++ [row] } := by
  obtain ⟨t, htable, hinsert⟩ := Fallible.bind_eq_ok.1 h
  split at hinsert
  · cases hinsert
  · split at hinsert
    · cases hinsert
    · cases hinsert
      exact ⟨t, table_eq_ok htable, rfl⟩

theorem Reachable.tidy {s : Store} (h : s.Reachable) : s.Tidy := by
  induction h with
  | empty =>
    intro name t hget
    cases hget
  | createTable _ made ih =>
    obtain ⟨-, rfl, -⟩ := createTable_eq_ok made
    exact ih.withTable fun row hrow => nomatch hrow
  | insertRow _ row_wf inserted ih =>
    obtain ⟨t, hget, rfl⟩ := insertRow_eq_ok inserted
    refine ih.withTable fun row hrow => ?_
    rcases List.mem_append.1 hrow with hrow | hrow
    · exact ih _ t hget row hrow
    · exact List.mem_singleton.1 hrow ▸ row_wf
  | grantWrite _ principal ih => exact ih
  | answer _ answered ih => exact ih.answer answered

/-! ## Answers of a reachable store -/

theorem mem_rows_of_select {q : Query} {rows : List Row} {row : Row} (h : row ∈ q.select rows) : row ∈ rows := by
  obtain ⟨table, filter, limit⟩ := q
  cases limit with
  | none =>
    cases filter with
    | none => exact h
    | some f => exact (List.mem_filter.1 h).1
  | some n =>
    have h := List.mem_of_mem_take h
    cases filter with
    | none => exact h
    | some f => exact (List.mem_filter.1 h).1

theorem rows_of_query {q : Query} {result : QueryResult} (htidy : s.Tidy) (h : s.query q = .ok result) :
    ∀ row ∈ result.rows, row.WellFormed := by
  obtain ⟨t, htable, hselect⟩ := Fallible.bind_eq_ok.1 h
  split at hselect
  · cases hselect
  · cases hselect
    intro row hrow
    refine htidy q.table t (openedTable_eq_ok htable).1 row ?_
    exact mem_rows_of_select hrow

theorem row_of_getRow {row : String} {found : Row} (htidy : s.Tidy) (h : s.getRow name row = .ok (some found)) :
    found.WellFormed := by
  obtain ⟨t, htable, hfind⟩ := Fallible.bind_eq_ok.1 h
  have hfound : t.rows.find? (·.id == row) = some found := Except.ok.inj hfind
  exact htidy name t (openedTable_eq_ok htable).1 found (List.mem_of_find?_eq_some hfound)

end Store

end RemoteTable
