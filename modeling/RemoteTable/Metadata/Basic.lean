import RemoteTable.Json.Codec

/-!
# Metadata of a table

Metadata is a list of opaque entries, each in its own slot of the table, at one revision. The revision is a
token that changes exactly when the entries change, so a copy can be checked without sending the entries
again.
-/

namespace RemoteTable

open Json (Codec Fields)

structure MetadataEntry where
  table : String
  partition : String
  aspect : String
  key : String
  type : String
  value : String
  deriving DecidableEq, Repr

/-- The place of an entry among those of its table. -/
structure Slot where
  partition : String
  aspect : String
  key : String
  deriving DecidableEq, Repr

namespace MetadataEntry

def slot (e : MetadataEntry) : Slot := ⟨e.partition, e.aspect, e.key⟩

def codec : Codec MetadataEntry :=
  (Fields.cons ⟨"table_id", .text, .refused⟩ <|
    Fields.cons ⟨"partition", .text, .refused⟩ <|
    Fields.cons ⟨"aspect", .text, .refused⟩ <|
    Fields.cons ⟨"key", .text, .refused⟩ <|
    Fields.cons ⟨"type", .text, .refused⟩ <|
    Fields.cons ⟨"value", .text, .refused⟩ .nil).codec.imap
    (fun (table, partition, aspect, key, type, value, _) => ⟨table, partition, aspect, key, type, value⟩)
    fun e => (e.table, e.partition, e.aspect, e.key, e.type, e.value, ())

end MetadataEntry

/-- Restricts entries to those that agree in the given parts of the slot. -/
structure MetadataFilter where
  partition : Option String := none
  aspect : Option String := none
  key : Option String := none
  deriving DecidableEq, Repr

namespace MetadataFilter

def all : MetadataFilter := {}

def selects (f : MetadataFilter) (e : MetadataEntry) : Bool :=
  f.partition.all (· == e.partition) && f.aspect.all (· == e.aspect) && f.key.all (· == e.key)

end MetadataFilter

/-- The metadata of one table at one revision. -/
structure MetadataSet where
  table : String
  revision : Option Token
  entries : List MetadataEntry
  deriving DecidableEq

namespace MetadataSet

/-- A fresh copy with the entries that pass a filter. If none does, the copy has no revision. -/
def filtered (set : MetadataSet) (f : MetadataFilter) : MetadataSet :=
  let entries := set.entries.filter f.selects
  ⟨set.table, if entries.isEmpty then none else set.revision, entries⟩

def codec : Codec MetadataSet :=
  (Fields.cons ⟨"table_id", .text, .refused⟩ <|
    Fields.cons ⟨"revision_id", .nullable .token, .inObjects none⟩ <|
    Fields.cons ⟨"entries", .list MetadataEntry.codec, .refused⟩ .nil).codec.imap
    (fun (table, revision, entries, _) => ⟨table, revision, entries⟩)
    fun s => (s.table, s.revision, s.entries, ())

end MetadataSet

end RemoteTable
