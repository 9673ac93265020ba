import RemoteTable.Metadata.Basic
import RemoteTable.Table.Query

/-!
# Arguments of remote calls

Each operation has one record of arguments, which travels as a JSON value. Queries are their own arguments.
-/

namespace RemoteTable

open Json (Codec Fields)

structure TableArgs where
  table : String
  deriving DecidableEq, Repr

structure RowArgs where
  table : String
  row : String
  deriving DecidableEq, Repr

/-- Names a table and the revision that the caller holds, if its copy has one. -/
structure RevisionArgs where
  table : String
  known : Option Token
  deriving DecidableEq

/-- An entry to write, and on whose behalf. -/
structure PutArgs where
  principal : Option String
  entry : MetadataEntry
  deriving DecidableEq, Repr

structure DeleteArgs where
  principal : Option String
  table : String
  slot : Slot
  deriving DecidableEq, Repr

structure FetchArgs where
  id : Token
  deriving DecidableEq

structure ReleaseArgs where
  chain : Token
  deriving DecidableEq

def TableArgs.codec : Codec TableArgs :=
  (Fields.cons ⟨"table_id", .text, .refused⟩ .nil).codec.imap (fun (table, _) => ⟨table⟩) fun a => (a.table, ())

def RowArgs.codec : Codec RowArgs :=
  (Fields.cons ⟨"table_id", .text, .refused⟩ <| Fields.cons ⟨"row_id", .text, .refused⟩ .nil).codec.imap
    (fun (table, row, _) => ⟨table, row⟩) fun a => (a.table, a.row, ())

def RevisionArgs.codec : Codec RevisionArgs :=
  (Fields.cons ⟨"table_id", .text, .refused⟩ <|
    Fields.cons ⟨"known_revision_id", .nullable .token, .allowed none⟩ .nil).codec.imap
    (fun (table, known, _) => ⟨table, known⟩) fun a => (a.table, a.known, ())

def PutArgs.codec : Codec PutArgs :=
  (Fields.cons ⟨"principal", .nullable .text, .allowed none⟩ <|
    Fields.cons ⟨"entry", MetadataEntry.codec, .refused⟩ .nil).codec.imap
    (fun (principal, entry, _) => ⟨principal, entry⟩) fun a => (a.principal, a.entry, ())

def DeleteArgs.codec : Codec DeleteArgs :=
  (Fields.cons ⟨"principal", .nullable .text, .allowed none⟩ <|
    Fields.cons ⟨"table_id", .text, .refused⟩ <|
    Fields.cons ⟨"partition", .text, .refused⟩ <|
    Fields.cons ⟨"aspect", .text, .refused⟩ <|
    Fields.cons ⟨"key", .text, .refused⟩ .nil).codec.imap
    (fun (principal, table, partition, aspect, key, _) => ⟨principal, table, ⟨partition, aspect, key⟩⟩)
    fun a => (a.principal, a.table, a.slot.partition, a.slot.aspect, a.slot.key, ())

def FetchArgs.codec : Codec FetchArgs :=
  (Fields.cons ⟨"id", .token, .refused⟩ .nil).codec.imap (fun (id, _) => ⟨id⟩) fun a => (a.id, ())

def ReleaseArgs.codec : Codec ReleaseArgs :=
  (Fields.cons ⟨"chain_id", .token, .refused⟩ .nil).codec.imap (fun (chain, _) => ⟨chain⟩) fun a => (a.chain, ())

end RemoteTable
