import RemoteTable.Proofs.Config

/-!
# Round trips

Every message comes back from its text and from the JSON value that is passed along for it (`Codec.RoundTrips`). Only
cells set conditions, those in rows and those that filters ask for (`Json.Plain`): the reader follows containers only so
deep, and it reads doubles without exact rounding, which may give another one than was written. A configuration comes
back if it is usable (`round_trips`).
-/

namespace RemoteTable

open Json (Codec)

/-! ## Codecs -/

/-- The value is read again from its text and from its packed form, as the same. -/
structure Json.Codec.RoundTrips {α : Type} (c : Codec α) (a : α) : Prop where
  text : c.decode (c.encode a) = .ok a
  packed : c.ofJson (c.pack a) = .ok a

/-- What a codec keeps comes back whole, if the reader of whole texts goes deep enough. -/
theorem Json.Codec.Keeps.roundTrips {α : Type} {c : Codec α} {depth : Nat} {a : α} (h : c.Keeps depth a)
    (hdepth : depth ≤ maxDepth) : c.RoundTrips a :=
  ⟨h.readsBack.decode_encode hdepth, h.unpacks⟩

/-! ## Cells -/

/-- No number in the value is a double. -/
inductive Json.Integral : Json → Prop where
  | null : Integral .null
  | bool (b : Bool) : Integral (.bool b)
  | int (i : Int) : Integral (.int i)
  | text (s : String) : Integral (.text s)
  | array {items : List Json} (h : ∀ v ∈ items, Integral v) : Integral (.array items)
  | object {members : List (String × Json)} (h : ∀ m ∈ members, Integral m.2) : Integral (.object members)

theorem Json.Integral.legible {v : Json} (h : v.Integral) : v.Legible := by
  induction h with
  | null | bool | int | text => trivial
  | array _ ih => exact legibleItems_iff.2 ih
  | object _ ih => exact legibleMembers_iff.2 ih

/-- A well-formed cell, as every value in memory is, without doubles and not nested too deep: around it there may be a
row, the rows of a result and the result, or a filter and its query. -/
structure Json.Plain (v : Json) : Prop where
  wellFormed : v.WellFormed
  integral : v.Integral
  depth_le : v.depth ≤ 120

/-- All cells are plain, under ascending keys. -/
structure Row.Plain (row : Row) : Prop where
  ascending : (row.cells.map Prod.fst).Pairwise (· < ·)
  cells : ∀ cell ∈ row.cells, cell.2.Plain

theorem Row.Plain.wellFormed {row : Row} (h : row.Plain) : row.WellFormed :=
  ⟨h.ascending, Json.wellFormedMembers_iff.2 fun cell hcell => (h.cells cell hcell).wellFormed⟩

theorem Row.Plain.legible {row : Row} (h : row.Plain) : row.Legible 121 := by
  refine ⟨Json.legibleMembers_iff.2 fun cell hcell => (h.cells cell hcell).integral.legible, ?_⟩
  exact Nat.succ_le_succ (Json.depthMembers_le_iff.2 fun cell hcell => (h.cells cell hcell).depth_le)

/-! ## Messages -/

/-- Answers and arguments come back from both of their forms, if the cells in them are plain; a configuration comes back
from its text if it is usable, and is refused if not. -/
theorem round_trips :
    (∀ info, TableInfo.codec.RoundTrips info) ∧
    (∀ row : Row, row.Plain → Row.codec.RoundTrips row) ∧
    (∀ r : QueryResult, (∀ row ∈ r.rows, row.Plain) → QueryResult.codec.RoundTrips r) ∧
    (∀ set, MetadataSet.codec.RoundTrips set) ∧
    (∀ e, MetadataEntry.codec.RoundTrips e) ∧
    (∀ a, TableArgs.codec.RoundTrips a) ∧
    (∀ a, RowArgs.codec.RoundTrips a) ∧
    (∀ f : ColumnFilter, f.equals.Plain → ColumnFilter.codec.RoundTrips f) ∧
    (∀ q : Query, (∀ f ∈ q.filter, f.equals.Plain) → Query.codec.RoundTrips q) ∧
    (∀ a, RevisionArgs.codec.RoundTrips a) ∧
    (∀ a, PutArgs.codec.RoundTrips a) ∧
    (∀ a, DeleteArgs.codec.RoundTrips a) ∧
    (∀ a, FetchArgs.codec.RoundTrips a) ∧
    (∀ a, ReleaseArgs.codec.RoundTrips a) ∧
    (∀ c : Config, c.validate = .ok () → Config.ofJsonText (Config.codec.encode c) = .ok c) ∧
    (∀ (c : Config) e, c.validate = .error e → Config.ofJsonText (Config.codec.encode c) = .error e ∧ e.IsInvalid) := by
  refine ⟨?_, ?_, ?_, ?_, ?_, ?_, ?_, ?_, ?_, ?_, ?_, ?_, ?_, ?_, ?_, ?_⟩
  · exact fun info => (TableInfo.keeps info).roundTrips (by decide)
  · exact fun row hplain => (Row.keeps hplain.wellFormed hplain.legible).roundTrips (by decide)
  · intro r hplain
    have hwf (row : Row) (hrow : row ∈ r.rows) : row.WellFormed := (hplain row hrow).wellFormed
    have hlegible (row : Row) (hrow : row ∈ r.rows) : row.Legible 121 := (hplain row hrow).legible
    exact (QueryResult.keeps hwf hlegible).roundTrips (by decide)
  · exact fun set => (MetadataSet.keeps set).roundTrips (by decide)
  · exact fun e => (MetadataEntry.keeps e).roundTrips (by decide)
  · exact fun a => (TableArgs.keeps a).roundTrips (by decide)
  · exact fun a => (RowArgs.keeps a).roundTrips (by decide)
  · intro f hplain
    have hdepth : f.equals.depth + 1 ≤ Json.maxDepth := Nat.le_trans (Nat.succ_le_succ hplain.depth_le) (by decide)
    exact (ColumnFilter.keeps hplain.wellFormed hplain.integral.legible).roundTrips hdepth
  · intro q hplain
    have hkeeps (f : ColumnFilter) (hf : f ∈ q.filter) :
        f.equals.WellFormed ∧ f.equals.Legible ∧ f.equals.depth ≤ 120 :=
      ⟨(hplain f hf).wellFormed, (hplain f hf).integral.legible, (hplain f hf).depth_le⟩
    exact (Query.keeps hkeeps).roundTrips (by decide)
  · exact fun a => (RevisionArgs.keeps a).roundTrips (by decide)
  · exact fun a => (PutArgs.keeps a).roundTrips (by decide)
  · exact fun a => (DeleteArgs.keeps a).roundTrips (by decide)
  · exact fun a => (FetchArgs.keeps a).roundTrips (by decide)
  · exact fun a => (ReleaseArgs.keeps a).roundTrips (by decide)
  · intro c hvalid
    rw [Config.ofJsonText_encode, hvalid]
    rfl
  · intro c e hrefused
    rw [Config.ofJsonText_encode, hrefused]
    exact ⟨rfl, Config.isInvalid_of_validate hrefused⟩

/-- A cell with nested containers and characters that are escaped, in a row, in a result and in a filter; a
configuration that is usable and one that is not. -/
theorem round_trips_of_nested :
    let cell : Json := .object [("\"\n", .array [.null, .int (-5), .array []]), ("a", .text "\\\t\u00e9")]
    let row : Row := ⟨"r", [("", .bool true), ("c", cell)]⟩
    row.Plain ∧ Row.codec.RoundTrips row ∧ QueryResult.codec.RoundTrips ⟨"t", ["c"], [row, row]⟩ ∧
      Query.codec.RoundTrips ⟨"t", some ⟨"c", cell⟩, some 3⟩ ∧
      Config.ofJsonText (Config.codec.encode { logLevel := "Fatal" }) = .ok { logLevel := "Fatal" } ∧
      Config.ofJsonText (Config.codec.encode { maxChunkSize := 0 }) = .error .zeroChunkSize := by
  intro cell row
  obtain ⟨-, hrow, hresult, -, -, -, -, -, hquery, -, -, -, -, -, husable, hrefused⟩ := round_trips
  have hcell : cell.Plain := by
    refine ⟨?_, ?_, by decide⟩
    · simp only [cell, Json.WellFormed, Json.WellFormedMembers, Json.WellFormedItems]
      decide +kernel
    · refine .object (List.forall_mem_cons.2 ⟨.array ?_, List.forall_mem_singleton.2 (.text _)⟩)
      have hempty : Json.Integral (.array []) := .array fun v hv => absurd hv List.not_mem_nil
      exact List.forall_mem_cons.2 ⟨.null, List.forall_mem_cons.2 ⟨.int _, List.forall_mem_singleton.2 hempty⟩⟩
  have hplain : row.Plain := by
    refine ⟨by decide +kernel, List.forall_mem_cons.2 ⟨⟨?_, ?_, ?_⟩, List.forall_mem_singleton.2 hcell⟩⟩
    · trivial
    · exact .bool true
    · decide
  have hname : Severity.ofName? "Fatal" = some .fatal := by decide +kernel
  have hvalid : ({ logLevel := "Fatal" } : Config).validate = .ok () := by
    refine Config.validate_eq_ok.2 ⟨by decide, .fatal, ?_⟩
    simp only [Config.severity, hname]
  have hzero : ({ maxChunkSize := 0 } : Config).validate = .error .zeroChunkSize := rfl
  refine ⟨hplain, hrow row hplain, hresult _ ?_, hquery _ ?_, husable _ hvalid, (hrefused _ _ hzero).1⟩
  · simpa using hplain
  · simpa using hcell

end RemoteTable
