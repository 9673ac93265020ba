import Mathlib.Data.List.Nodup
import RemoteTable.Proofs.History
import RemoteTable.Proofs.InPlace.Store

/-!
# Rows and the ways to read them

In every state that a run reaches, a table has the rows that were inserted into it in the run, in their order, under
different ids and with declared columns only (`Shelved`, kept by each act). So its rows are found alike on all ways: they
are counted when it is opened, a query without filter and limit lists them, a lookup finds the one with an id, a filter
leaves those that have the cell, and a limit the first of what there would be without it (`Keeper.rows_agree`).
-/

namespace RemoteTable

def rowsOf (name : String) (log : List StoreAct) : List Row := log.filterMap (·.row? name)

theorem rowsOf_concat (name : String) (log : List StoreAct) (act : StoreAct) :
    rowsOf name (log ++ [act]) = rowsOf name log ++ (act.row? name).toList :=
  filterMap_concat _ log act

/-- A table with the rows that a history adds to it, and the columns that it was made with. -/
structure Table.Shelved (name : String) (log : List StoreAct) (t : Table) : Prop where
  made : StoreAct.createTable name t.columns ∈ log
  rows : t.rows = rowsOf name log
  distinct : (t.rows.map (·.id)).Nodup
  declared : ∀ row ∈ t.rows, ∀ cell ∈ row.cells, cell.1 ∈ t.columns

/-! ## What each act keeps -/

/-- The tables have the rows that the history adds to them; a table that is not there has none. -/
structure Shelves (k : Keeper) (log : List StoreAct) : Prop where
  absent : ∀ name, k.store.tables.get? name = none → rowsOf name log = []
  shelved : ∀ name t, k.store.tables.get? name = some t → t.Shelved name log

theorem shelves_new (supply : Supply) : Shelves (.new supply) [] where
  absent _ _ := rfl
  shelved name t hget := by
    have hnone : (none : Option Table) = some t := hget
    cases hnone

variable {k later : Keeper} {log : List StoreAct} {act : StoreAct} {a : Answer} {name : String}

theorem Table.Shelved.concat {t u : Table} (h : t.Shelved name log) (hcolumns : u.columns = t.columns)
    (hrows : u.rows = t.rows) (hquiet : act.row? name = none) : u.Shelved name (log ++ [act]) := by
  refine ⟨?_, ?_, ?_, ?_⟩
  · rw [hcolumns]
    exact List.mem_append_left _ h.made
  · rw [hrows, rowsOf_concat, hquiet, Option.toList_none, List.append_nil]
    exact h.rows
  · rw [hrows]
    exact h.distinct
  · rw [hrows, hcolumns]
    exact h.declared

theorem Table.Shelved.inserted {t : Table} (h : t.Shelved name log) {row : Row}
    (hdeclared : ∀ cell ∈ row.cells, cell.1 ∈ t.columns) (hfresh : ∀ r ∈ t.rows, r.id ≠ row.id) :
    { t with rows := t.rows ++ [row] }.Shelved name (log ++ [StoreAct.insertRow name row]) := by
  refine ⟨List.mem_append_left _ h.made, ?_, ?_, ?_⟩
  · have hrow : (StoreAct.insertRow name row).row? name = some row := if_pos rfl
    rw [rowsOf_concat, hrow, h.rows, Option.toList_some]
  · show ((t.rows ++ [row]).map (·.id)).Nodup
    rw [List.map_append, List.nodup_append]
    refine ⟨h.distinct, List.nodup_singleton _, fun x hx y hy hxy => ?_⟩
    obtain ⟨r, hr, rfl⟩ := List.mem_map.1 hx
    exact hfresh r hr (hxy.trans (List.mem_singleton.1 hy))
  · intro r hr
    rcases List.mem_append.1 hr with hr | hr
    · exact h.declared r hr
    · obtain rfl := List.mem_singleton.1 hr
      exact hdeclared

theorem Shelves.attempt (h : Shelves k log) (hattempt : k.attempt act = .ok (a, later)) :
    Shelves later (log ++ [act]) := by
  refine ⟨fun name hnone => ?_, fun name u hget => ?_⟩
  · have hturns := Keeper.turns_attempt hattempt name
    rw [hnone] at hturns
    -- a table that is not there now was not there before, and the act has not added to it
    obtain ⟨hbefore, htarget⟩ : k.store.tables.get? name = none ∧ act.target? ≠ some name := by
      generalize k.store.tables.get? name = before at hturns ⊢
      cases hturns with
      | apart elsewhere => exact ⟨rfl, elsewhere⟩
    rw [rowsOf_concat, h.absent name hbefore, StoreAct.row?_eq_none htarget]
    rfl
  · have hturns := Keeper.turns_attempt hattempt name
    rw [hget] at hturns
    have habsent := h.absent name
    have hshelved := h.shelved name
    generalize k.store.tables.get? name = before at hturns habsent hshelved
    cases hturns with
    | made =>
      refine ⟨List.mem_append_right _ List.mem_cons_self, ?_, List.nodup_nil, fun row hrow => absurd hrow List.not_mem_nil⟩
      rw [rowsOf_concat, habsent rfl]
      rfl
    | inserted declared fresh => exact (hshelved _ rfl).inserted declared fresh
    | opened | closed | put | deleted => exact (hshelved _ rfl).concat rfl rfl rfl
    | apart elsewhere => exact (hshelved _ rfl).concat rfl rfl (StoreAct.row?_eq_none elsewhere)

theorem shelves_run (supply : Supply) (acts : List StoreAct) :
    Shelves ((Keeper.new supply).run acts) ((Keeper.new supply).done acts) :=
  Keeper.run_induction (shelves_new supply) (fun _ _ _ _ _ h hattempt => h.attempt hattempt) acts

/-! ## Reading -/

namespace Keeper

variable {t : Table} (hget : k.store.tables.get? name = some t) (principal : Option String)
include hget

theorem attempt_openTable : ∃ later, k.attempt (.call principal (.openTable name)) =
    .ok (.info ⟨name, t.columns, UInt64.ofNat t.rows.length⟩, later) := by
  have htable : k.store.table name = .ok t := by rw [Store.table, hget]
  refine ⟨⟨k.store.withTable name { t with isOpen := true }, k.supply⟩, ?_⟩
  rw [attempt, Store.answer, Store.openTable, htable]
  rfl

variable (hopen : t.isOpen = true)
include hopen

theorem openedTable_eq : k.store.openedTable name = .ok t := by
  have htable : k.store.table name = .ok t := by rw [Store.table, hget]
  rw [Store.openedTable, htable, Fallible.ok_bind, if_pos hopen]
  rfl

/-- A query on an open table gives the rows that it selects, unless its filter is on a column that the table does not
have. -/
theorem attempt_query (filter : Option ColumnFilter) (limit : Option UInt64) :
    k.attempt (.call principal (.query ⟨name, filter, limit⟩)) =
      match filter.filter fun f => !t.columns.contains f.column with
      | some f => .error (.unknownColumn f.column name)
      | none => .ok (.rows ⟨name, t.columns, Query.select ⟨name, filter, limit⟩ t.rows⟩, k) := by
  rw [attempt, Store.answer, Store.query, openedTable_eq hget hopen, Fallible.ok_bind]
  dsimp only
  generalize filter.filter (fun f => !t.columns.contains f.column) = undeclared
  cases undeclared <;> rfl

theorem attempt_getRow (id : String) : k.attempt (.call principal (.getRow name id)) =
    .ok (.row (t.rows.find? (·.id == id)), k) := by
  rw [attempt, Store.answer, Store.getRow, openedTable_eq hget hopen]
  rfl

end Keeper

/-- What the ways to read an open table come to, in terms of its rows. -/
structure Keeper.Reads (k : Keeper) (principal : Option String) (name : String) (t : Table) : Prop where
  /-- The query without filter and limit lists the rows. -/
  all : k.attempt (.call principal (.query (.all name))) = .ok (.rows ⟨name, t.columns, t.rows⟩, k)
  /-- A lookup finds the row with the id, and nothing exactly if no row has it. -/
  getRow : ∀ id, ∃ found, k.attempt (.call principal (.getRow name id)) = .ok (.row found, k) ∧
    (∀ row, found = some row ↔ row ∈ t.rows ∧ row.id = id) ∧ (found = none ↔ ∀ row ∈ t.rows, row.id ≠ id)
  /-- A filter leaves the rows that have an equal cell in the column, and leaves them where they are. -/
  filter : ∀ f : ColumnFilter, f.column ∈ t.columns → ∃ rows,
    k.attempt (.call principal (.query ⟨name, some f, none⟩)) = .ok (.rows ⟨name, t.columns, rows⟩, k) ∧
      rows.Sublist t.rows ∧ ∀ row, row ∈ rows ↔ row ∈ t.rows ∧ ∃ cell, row.cell? f.column = some cell ∧ cell.agrees f.equals
  /-- A filter on a column that the table does not have is refused. -/
  undeclared : ∀ (f : ColumnFilter) (limit : Option UInt64), f.column ∉ t.columns →
    k.attempt (.call principal (.query ⟨name, some f, limit⟩)) = .error (.unknownColumn f.column name)
  /-- With a limit come the first rows of those that come without. -/
  limit : ∀ filter rows, k.attempt (.call principal (.query ⟨name, filter, none⟩)) = .ok (.rows ⟨name, t.columns, rows⟩, k) →
    ∀ n : UInt64, k.attempt (.call principal (.query ⟨name, filter, some n⟩)) =
      .ok (.rows ⟨name, t.columns, rows.take (min n.toNat rows.length)⟩, k)

/-- Where no two rows share an id, the first row with an id is the one with it. -/
theorem find?_id {rows : List Row} (h : (rows.map (·.id)).Nodup) (id : String) (row : Row) :
    rows.find? (·.id == id) = some row ↔ row ∈ rows ∧ row.id = id := by
  constructor
  · intro hfind
    exact ⟨List.mem_of_find?_eq_some hfind, by simpa using List.find?_some hfind⟩
  · rintro ⟨hrow, hid⟩
    cases hfind : rows.find? (·.id == id) with
    | none => exact absurd (beq_iff_eq.2 hid) (List.find?_eq_none.1 hfind row hrow)
    | some other =>
      have hother : other.id = id := by simpa using List.find?_some hfind
      rw [List.inj_on_of_nodup_map h (List.mem_of_find?_eq_some hfind) hrow (hother.trans hid.symm)]

theorem ColumnFilter.selects_iff {f : ColumnFilter} {row : Row} :
    f.selects row = true ↔ ∃ cell, row.cell? f.column = some cell ∧ cell.agrees f.equals := by
  rw [selects, Option.any_eq_true]

theorem Table.Shelved.reads {t : Table} (h : t.Shelved name log) (hget : k.store.tables.get? name = some t)
    (hopen : t.isOpen = true) (principal : Option String) : k.Reads principal name t := by
  have hquery := Keeper.attempt_query hget principal hopen
  have hdeclared {f : ColumnFilter} (hf : f.column ∈ t.columns) :
      (some f).filter (fun f => !t.columns.contains f.column) = none := by simp [hf]
  refine ⟨hquery none none, fun id => ?_, fun f hf => ?_, fun f limit hf => ?_, fun filter rows hrows n => ?_⟩
  · refine ⟨_, Keeper.attempt_getRow hget principal hopen id, find?_id h.distinct id, ?_⟩
    simp
  · refine ⟨t.rows.filter f.selects, ?_, List.filter_sublist, fun row => ?_⟩
    · rw [hquery, hdeclared hf]
      rfl
    · rw [List.mem_filter, ColumnFilter.selects_iff]
  · have hundeclared : (some f).filter (fun f => !t.columns.contains f.column) = some f := by simp [hf]
    rw [hquery, hundeclared]
  · rw [hquery] at hrows ⊢
    cases hfilter : filter.filter fun f => !t.columns.contains f.column with
    | some f =>
      rw [hfilter] at hrows
      cases hrows
    | none =>
      rw [hfilter] at hrows
      cases hrows
      have hselect : Query.select ⟨name, filter, some n⟩ t.rows =
          (Query.select ⟨name, filter, none⟩ t.rows).take n.toNat := rfl
      rw [hselect, List.take_eq_take_min]

namespace Keeper

/-- After any run, the rows of a table are those that were inserted, in order, and all ways to read an open table agree
on them. An act that only reads, and one that is refused, leaves everything as it is, also when acts are carried out in
place. -/
theorem rows_agree (supply : Supply) (acts : List StoreAct) :
    let k := (new supply).run acts
    let log := (new supply).done acts
    (∀ name t, k.store.tables.get? name = some t → t.Shelved name log ∧ ∀ principal,
      (∃ later, k.attempt (.call principal (.openTable name)) =
        .ok (.info ⟨name, t.columns, UInt64.ofNat t.rows.length⟩, later)) ∧
      (t.isOpen = true → k.Reads principal name t)) ∧
    (∀ name, k.store.tables.get? name = none → rowsOf name log = []) ∧
    (∀ principal call, call.operation.IsRead → k.step (.call principal call) = k) ∧
    (∀ act e, k.attempt act = .error e → k.step act = k) ∧
    ∀ journal, InPlace.run acts ⟨new supply, journal⟩ = ⟨k, journal⟩ ∧
      ∀ act, (InPlace.attempt act).on ⟨k, journal⟩ = InPlace.settled ⟨k, journal⟩ (k.attempt act) := by
  intro k log
  have hshelves : Shelves k log := shelves_run supply acts
  refine ⟨fun name t hget => ?_, hshelves.absent, fun principal call hread => ?_, fun act e => step_error,
    fun journal => ⟨InPlace.run_eq acts _, fun act => InPlace.on_attempt act _⟩⟩
  · have hshelved := hshelves.shelved name t hget
    exact ⟨hshelved, fun principal => ⟨attempt_openTable hget principal, fun hopen => hshelved.reads hget hopen principal⟩⟩
  · cases hattempt : k.attempt (.call principal call) with
    | error e => exact step_error hattempt
    | ok result =>
      obtain ⟨a, later⟩ := result
      rw [step_ok hattempt]
      obtain ⟨⟨answer, store, supply⟩, hanswer, hok⟩ := Fallible.bind_eq_ok.1 hattempt
      cases hok
      cases Store.answer_eq_ok hanswer with
      | read => rfl
      | opened | closed | put | deleted => exact hread.elim

/-- Two rows, one without a cell in the column and one with a null there: the filter for null selects the second. -/
theorem rows_agree_of_null :
    let made : List StoreAct := [.createTable "t" ["c", "d"], .insertRow "t" ⟨"r", [("d", .bool true)]⟩,
      .insertRow "t" ⟨"s", [("c", .null)]⟩, .insertRow "t" ⟨"r", []⟩, .call none (.openTable "t")]
    let k := (new (.fresh fun n => ⟨BitVec.ofNat 128 n⟩)).run made
    ∃ t, k.store.tables.get? "t" = some t ∧ t.rows.map (·.id) = ["r", "s"] ∧ ∃ rows,
      k.attempt (.call none (.query ⟨"t", some ⟨"c", .null⟩, none⟩)) = .ok (.rows ⟨"t", t.columns, rows⟩, k) ∧
        ∀ row ∈ rows, row.id = "s" := by
  intro made k
  obtain ⟨htables, -⟩ := rows_agree (.fresh fun n => ⟨BitVec.ofNat 128 n⟩) made
  have hids : (k.store.tables.get? "t").map (fun t => (t.rows.map (·.id), t.columns, t.isOpen)) =
      some (["r", "s"], ["c", "d"], true) := by decide +kernel
  obtain ⟨t, hget, hrest⟩ := Option.map_eq_some_iff.1 hids
  obtain ⟨hrows, hcolumns, hopen⟩ : t.rows.map (·.id) = ["r", "s"] ∧ t.columns = ["c", "d"] ∧ t.isOpen = true := by
    simpa using hrest
  obtain ⟨hshelved, hreads⟩ := htables "t" t hget
  obtain ⟨rows, hquery, hsub, hmem⟩ := ((hreads none).2 hopen).filter ⟨"c", .null⟩ (by rw [hcolumns]; decide)
  refine ⟨t, hget, hrows, rows, hquery, fun row hrow => ?_⟩
  obtain ⟨hrow, cell, hcell, -⟩ := (hmem row).1 hrow
  -- only the second row has a cell in the column
  have hcells : ∀ r ∈ rowsOf "t" ((new (.fresh fun n => ⟨BitVec.ofNat 128 n⟩)).done made),
      (r.cell? "c").isSome = true → r.id = "s" := by decide +kernel
  rw [hshelved.rows] at hrow
  exact hcells row hrow (by rw [hcell]; rfl)

end Keeper

end RemoteTable
