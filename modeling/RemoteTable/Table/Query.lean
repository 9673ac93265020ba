import RemoteTable.Table.Row

/-!
# Queries

A query selects the rows of one table, those with a given cell in a column if it has a filter, and the first
of them if it has a limit.
-/

namespace RemoteTable

open Json (Codec Fields)

/-- Selects the rows with a given cell in a column. -/
structure ColumnFilter where
  column : String
  equals : Json

namespace ColumnFilter

/-- Whether a row has the cell. A row without a cell in the column never matches. -/
def selects (f : ColumnFilter) (row : Row) : Bool := (row.cell? f.column).any (·.agrees f.equals)

def codec : Codec ColumnFilter :=
  (Fields.cons ⟨"column", .text, .refused⟩ <| Fields.cons ⟨"equals", .value, .refused⟩ .nil).codec.imap
    (fun (column, equals, _) => ⟨column, equals⟩) fun f => (f.column, f.equals, ())

end ColumnFilter

structure Query where
  table : String
  filter : Option ColumnFilter
  limit : Option UInt64

namespace Query

def all (table : String) : Query := ⟨table, none, none⟩

/-- The selected rows, in their order. -/
def select (q : Query) (rows : List Row) : List Row :=
  let matching := match q.filter with
    | some f => rows.filter f.selects
    | none => rows
  match q.limit with
  | some n => matching.take n.toNat
  | none => matching

def codec : Codec Query :=
  (Fields.cons ⟨"table_id", .text, .refused⟩ <|
    Fields.cons ⟨"filter", .nullable ColumnFilter.codec, .allowed none⟩ <|
    Fields.cons ⟨"limit", .nullable .word, .allowed none⟩ .nil).codec.imap
    (fun (table, filter, limit, _) => ⟨table, filter, limit⟩)
    fun q => (q.table, q.filter, q.limit, ())

end Query

/-- The rows that a query selects, with the table's columns. -/
structure QueryResult where
  table : String
  columns : List String
  rows : List Row

def QueryResult.codec : Codec QueryResult :=
  (Fields.cons ⟨"table_id", .text, .refused⟩ <|
    Fields.cons ⟨"columns", .list .text, .refused⟩ <|
    Fields.cons ⟨"rows", .list Row.codec, .refused⟩ .nil).codec.imap
    (fun (table, columns, rows, _) => ⟨table, columns, rows⟩)
    fun r => (r.table, r.columns, r.rows, ())

end RemoteTable
