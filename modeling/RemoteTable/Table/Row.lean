import RemoteTable.Json.Codec

/-!
# Rows

A row has an id and cells keyed by column. A row need not have a cell in every column of its table.
-/

namespace RemoteTable

open Json (Codec Fields)

/-- A row; the keys of its cells ascend. -/
structure Row where
  id : String
  cells : List (String × Json)

namespace Row

def cell? (row : Row) (column : String) : Option Json := Json.member? column row.cells

def WellFormed (row : Row) : Prop := (Json.object row.cells).WellFormed

def codec : Codec Row :=
  (Fields.cons ⟨"row_id", .text, .refused⟩ <| Fields.cons ⟨"values", .members, .refused⟩ .nil).codec.imap
    (fun (id, cells, _) => ⟨id, cells⟩) fun r => (r.id, r.cells, ())

end Row

/-- What is said of a table when it is opened. -/
structure TableInfo where
  table : String
  columns : List String
  rowCount : UInt64
  deriving DecidableEq, Repr

def TableInfo.codec : Codec TableInfo :=
  (Fields.cons ⟨"table_id", .text, .refused⟩ <|
    Fields.cons ⟨"columns", .list .text, .refused⟩ <|
    Fields.cons ⟨"row_count", .word, .refused⟩ .nil).codec.imap
    (fun (table, columns, rowCount, _) => ⟨table, columns, rowCount⟩)
    fun i => (i.table, i.columns, i.rowCount, ())

end RemoteTable
