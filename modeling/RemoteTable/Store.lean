import RemoteTable.Call.Basic
import RemoteTable.Dict
import RemoteTable.Token.Supply

/-!
# The store

The tables of the serving side with their rows and metadata, and the principals who may write metadata. Every
operation either fails and changes nothing, or gives a value together with the store after it.

A table's revision is drawn from a supply when the table is made and again by each write that changes its
entries. A write of an entry that is already there, and a deletion from an empty slot, change nothing.
-/

namespace RemoteTable

structure Table where
  columns : List String
  rows : List Row
  isOpen : Bool
  metadata : MetadataSet

inductive StoreError where
  | emptyTableName
  | tableExists (table : String)
  | noSuchTable (table : String)
  | notOpen (table : String)
  | unknownColumn (column table : String)
  | repeatedRow (row table : String)
  | emptyKey
  | notGranted (principal : String)
  | noPrincipal
  deriving DecidableEq, Repr

namespace StoreError

/-- The kind of transport error that a refusal becomes. -/
def kind : StoreError → ErrorKind
  | notOpen _ | repeatedRow .. => .storage
  | notGranted _ | noPrincipal => .notAuthorized
  | _ => .argument

def message : StoreError → String
  | emptyTableName => "table id must not be empty"
  | tableExists table => s!"table already exists: {table}"
  | noSuchTable table => s!"no such table: {table}"
  | notOpen table => s!"table not open: {table}"
  | unknownColumn column table => s!"unknown column {column} in table {table}"
  | repeatedRow row table => s!"duplicate row id {row} in table {table}"
  | emptyKey => "metadata key must not be empty"
  | notGranted principal => s!"{principal} may not write metadata"
  | noPrincipal => "metadata writes require a principal"

def toTransport (e : StoreError) : TransportError := ⟨e.kind, e.message⟩

end StoreError

/-- The tables, and the principals who may write metadata. -/
structure Store where
  tables : Dict Table
  writers : List String

namespace Store

def empty : Store := ⟨.empty, []⟩

def table (s : Store) (name : String) : Except StoreError Table :=
  match s.tables.get? name with
  | some t => .ok t
  | none => .error (.noSuchTable name)

/-- The table with this name, which has to be open. -/
def openedTable (s : Store) (name : String) : Except StoreError Table := do
  let t ← s.table name
  if t.isOpen then return t else throw (.notOpen name)

def withTable (s : Store) (name : String) (t : Table) : Store := { s with tables := s.tables.insert name t }

/-! ## Making tables -/

/-- Makes a table, closed and without rows. -/
def createTable (s : Store) (name : String) (columns : List String) (supply : Supply) :
    Except StoreError (Store × Supply) :=
  if name = "" then .error .emptyTableName
  else if (s.tables.get? name).isSome then .error (.tableExists name)
  else
    let (revision, supply) := supply.next
    .ok (s.withTable name ⟨columns, [], false, ⟨name, some revision, []⟩⟩, supply)

/-- Adds a row at the end of a table; each of its columns must be one of the table's, and its id must be new. -/
def insertRow (s : Store) (name : String) (row : Row) : Except StoreError Store := do
  let t ← s.table name
  match row.cells.find? fun cell => !t.columns.contains cell.1 with
  | some (column, _) => throw (.unknownColumn column name)
  | none =>
    if t.rows.any (·.id == row.id) then throw (.repeatedRow row.id name)
    return s.withTable name { t with rows := t.rows ++ [row] }

def grantWrite (s : Store) (principal : String) : Store := { s with writers := s.writers.insert principal }

/-! ## Reading -/

def openTable (s : Store) (name : String) : Except StoreError (TableInfo × Store) := do
  let t ← s.table name
  return (⟨name, t.columns, UInt64.ofNat t.rows.length⟩, s.withTable name { t with isOpen := true })

def closeTable (s : Store) (name : String) : Except StoreError Store := do
  let t ← s.openedTable name
  return s.withTable name { t with isOpen := false }

def query (s : Store) (q : Query) : Except StoreError QueryResult := do
  let t ← s.openedTable q.table
  match q.filter.filter fun f => !t.columns.contains f.column with
  | some f => throw (.unknownColumn f.column q.table)
  | none => return ⟨q.table, t.columns, q.select t.rows⟩

def getRow (s : Store) (name row : String) : Except StoreError (Option Row) := do
  let t ← s.openedTable name
  return t.rows.find? (·.id == row)

def metadata (s : Store) (name : String) : Except StoreError MetadataSet := do
  let t ← s.table name
  return t.metadata

/-- The metadata of a table for a caller who holds a revision: without entries if it is the current one. -/
def metadataIfChanged (s : Store) (name : String) (known : Option Token) : Except StoreError MetadataSet := do
  let current ← s.metadata name
  return if current.revision = known then ⟨name, current.revision, []⟩ else current

/-! ## Writing metadata -/

/-- Fails unless the principal may write metadata. -/
def authorize (s : Store) : Option String → Except StoreError Unit
  | some p => if s.writers.contains p then .ok () else .error (.notGranted p)
  | none => .error .noPrincipal

/-- The entries after a write: the entry takes the place of the one in its slot, or comes last. -/
def putEntry (entry : MetadataEntry) : List MetadataEntry → List MetadataEntry
  | [] => [entry]
  | e :: rest => if e.slot = entry.slot then entry :: rest else e :: putEntry entry rest

/-- The table with other entries, at a new revision. -/
def reviseEntries (t : Table) (entries : List MetadataEntry) (supply : Supply) : Table × Supply :=
  let (revision, supply) := supply.next
  ({ t with metadata := { t.metadata with revision := some revision, entries } }, supply)

/-- Writes an entry to its slot, unless it is there already. -/
def putMetadata (s : Store) (principal : Option String) (entry : MetadataEntry) (supply : Supply) :
    Except StoreError (Store × Supply) := do
  s.authorize principal
  if entry.key = "" then throw .emptyKey
  let t ← s.table entry.table
  if t.metadata.entries.find? (·.slot = entry.slot) = some entry then return (s, supply)
  let (t, supply) := reviseEntries t (putEntry entry t.metadata.entries) supply
  return (s.withTable entry.table t, supply)

/-- Empties a slot, unless it is empty already. -/
def deleteMetadata (s : Store) (principal : Option String) (name : String) (slot : Slot) (supply : Supply) :
    Except StoreError (Store × Supply) := do
  s.authorize principal
  let t ← s.table name
  let kept := t.metadata.entries.filter (·.slot ≠ slot)
  if kept.length = t.metadata.entries.length then return (s, supply)
  let (t, supply) := reviseEntries t kept supply
  return (s.withTable name t, supply)

/-! ## Calls -/

/-- Answers a call made directly, on behalf of a principal. -/
def answer (s : Store) (principal : Option String) (call : Call) (supply : Supply) :
    Except StoreError (Answer × Store × Supply) :=
  match call with
  | .openTable name => do
    let (info, s) ← s.openTable name
    return (.info info, s, supply)
  | .closeTable name => do
    let s ← s.closeTable name
    return (.done, s, supply)
  | .query q => do
    let result ← s.query q
    return (.rows result, s, supply)
  | .getRow name row => do
    let found ← s.getRow name row
    return (.row found, s, supply)
  | .getMetadata name => do
    let set ← s.metadata name
    return (.metadata set, s, supply)
  | .getMetadataIfChanged name known => do
    let set ← s.metadataIfChanged name known
    return (.metadata set, s, supply)
  | .putMetadata entry => do
    let (s, supply) ← s.putMetadata principal entry supply
    return (.done, s, supply)
  | .deleteMetadata name slot => do
    let (s, supply) ← s.deleteMetadata principal name slot supply
    return (.done, s, supply)

end Store

end RemoteTable
