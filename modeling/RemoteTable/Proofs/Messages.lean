import RemoteTable.Call.Basic
import RemoteTable.Proofs.Json.Codec

/-!
# Messages read back

Tokens, the values that answers carry and the arguments of calls, each kept by its own codec (`Codec.Keeps`). Only
cells can fail to read back, those of rows and those that queries ask for. The packed form of a query has no such limit
(`Query.unpacks`).
-/

namespace RemoteTable

open Json (Codec Fields)

/-! ## Tokens -/

namespace Token

theorem ungroup?_group {sizes : List Nat} {ds : List Char} (hsizes : sizes ≠ [])
    (hlength : ds.length = sizes.foldr (· + ·) 0) : ungroup? sizes (group sizes ds) = some ds := by
  induction sizes generalizing ds with
  | nil => exact absurd rfl hsizes
  | cons n sizes ih =>
    cases sizes with
    | nil =>
      have hn : ds.length = n := by simpa using hlength
      rw [group, ← hn, List.take_length, ungroup?, if_pos rfl]
    | cons m sizes =>
      rw [List.foldr_cons] at hlength
      have htake : (ds.take n).length = n := by
        rw [List.length_take]
        omega
      have hrest : ungroup? (m :: sizes) (group (m :: sizes) (ds.drop n)) = some (ds.drop n) := by
        refine ih (List.cons_ne_nil m sizes) ?_
        rw [List.length_drop]
        omega
      have hdrop : (ds.take n ++ '-' :: group (m :: sizes) (ds.drop n)).drop n = '-' :: group (m :: sizes) (ds.drop n) :=
        List.drop_left' htake
      have hfront : (ds.take n ++ '-' :: group (m :: sizes) (ds.drop n)).take n = ds.take n := List.take_left' htake
      rw [group, ungroup?, hdrop]
      · simp only [hrest, hfront, Option.map_some, List.take_append_drop]
      · exact List.cons_ne_nil m sizes
      · exact List.cons_ne_nil m sizes

theorem length_hexDigits (bs : Bytes) : (Bytes.hexDigits bs).length = 2 * bs.length := by
  induction bs with
  | nil => rfl
  | cons b bs ih =>
    unfold Bytes.hexDigits at ih ⊢
    rw [List.flatMap_cons, List.length_append, ih, List.length_cons]
    simp only [List.length_cons, List.length_nil]
    omega

theorem ofDigits?_hexDigits (t : Token) : ofDigits? (Bytes.hexDigits t.toBytes) = some t := by
  rw [ofDigits?, length_hexDigits, length_toBytes, if_pos rfl, Bytes.ofHexDigits?_hexDigits, Option.map_some,
    ofBytes_toBytes]

theorem length_group {ds : List Char} (h : ds.length = 32) : (group groups ds).length = 36 := by
  simp only [groups, group, List.length_append, List.length_take, List.length_drop, List.length_cons, h]
  decide

theorem hexDigit_ne : ∀ n < 16, Bytes.hexDigit n ≠ '\x7b' ∧ (Bytes.hexDigit n).toLower ≠ 'u' := by decide

theorem hexDigit_mod (n : Nat) : Bytes.hexDigit n = Bytes.hexDigit (n % 16) := by
  simp [Bytes.hexDigit]

/-- A written token stands neither in braces nor behind a scheme. -/
theorem unwrap_of_head {n : Nat} (cs : List Char) : unwrap (Bytes.hexDigit n :: cs) = Bytes.hexDigit n :: cs := by
  obtain ⟨hbrace, hletter⟩ := hexDigit_ne (n % 16) (Nat.mod_lt _ (by decide))
  rw [← hexDigit_mod] at hbrace hletter
  have hscheme : ((Bytes.hexDigit n :: cs).take scheme.length).map Char.toLower ≠ scheme := by
    intro heq
    have hhead := congrArg List.head? heq
    rw [show scheme.length = 8 + 1 from rfl, List.take_succ_cons, List.map_cons, List.head?_cons] at hhead
    exact hletter (Option.some.inj hhead)
  have hhead : (Bytes.hexDigit n :: cs).head? ≠ some '\x7b' := fun heq => hbrace (Option.some.inj heq)
  rw [unwrap, if_neg (fun h => hhead h.1), if_neg hscheme]

theorem parse?_render (t : Token) : parse? t.render = some t := by
  have hlength : (Bytes.hexDigits t.toBytes).length = 32 := by rw [length_hexDigits, length_toBytes]
  have hbare : ofDigits? (group groups (Bytes.hexDigits t.toBytes)) = none := by
    rw [ofDigits?, length_group hlength, if_neg (by decide)]
  have hwrapped : unwrap (group groups (Bytes.hexDigits t.toBytes)) = group groups (Bytes.hexDigits t.toBytes) := by
    cases hbytes : t.toBytes with
    | nil => exact absurd (hbytes ▸ length_toBytes t) (by decide)
    | cons b bs => exact unwrap_of_head _
  have hungroup : ungroup? groups (group groups (Bytes.hexDigits t.toBytes)) = some (Bytes.hexDigits t.toBytes) :=
    ungroup?_group (by decide) hlength
  rw [parse?, render, String.toList_ofList, hbare, Option.none_or, hwrapped, hungroup, Option.bind_some,
    ofDigits?_hexDigits]

end Token

namespace Json.Codec

theorem ofText_render (t : Token) : token.ofText t.render = .ok t := by
  rw [token.ofText, Token.parse?_render]

theorem token_readsBack (t : Token) : token.ReadsBack 0 t := by
  intro d hd
  refine ⟨(text_readsBack t.render d hd).opens, fun rest hrest => ?_⟩
  have hread := (text_readsBack t.render d hd).read rest hrest
  change (text.read d (text.encode t.render ++ rest) >>= _) = _
  rw [hread, Fallible.ok_bind]
  simp only [ofText_render]
  rfl

theorem token_keeps (t : Token) : token.Keeps 0 t := by
  refine ⟨token_readsBack t, ?_⟩
  have hofJson (s : String) : token.ofJson (.text s) = token.ofText s := rfl
  have hpack : token.pack t = .text t.render := rfl
  rw [Unpacks, hpack, hofJson, ofText_render]

theorem encode_text_head (s : String) : (text.encode s).head? ≠ some 0x6E := by
  rw [encode_text, utf8_quoted, List.head?_cons]
  decide

theorem nullable_text_keeps (s : Option String) : text.nullable.Keeps 0 s :=
  nullable_keeps fun s _ => ⟨text_keeps s, encode_text_head s⟩

theorem nullable_token_keeps (t : Option Token) : token.nullable.Keeps 0 t :=
  nullable_keeps fun t _ => ⟨token_keeps t, encode_text_head t.render⟩

theorem nullable_word_keeps (n : Option UInt64) : word.nullable.Keeps 0 n := by
  refine nullable_keeps fun n _ => ⟨word_keeps n, ?_⟩
  obtain ⟨b, tail, htext, -, hnull⟩ := word_head n
  rw [htext]
  exact fun h => hnull (Option.some.inj h)

theorem list_text_keeps (ss : List String) : text.list.Keeps 1 ss :=
  list_keeps fun s _ => text_keeps s

end Json.Codec

open Json.Codec

/-! ## Values of answers -/

/-- The cells are not nested deeper than `depth`, their own object included, and all doubles in them read back. -/
def Row.Legible (depth : Nat) (row : Row) : Prop :=
  (Json.object row.cells).Legible ∧ (Json.object row.cells).depth ≤ depth

theorem Row.keeps {row : Row} {depth : Nat} (hwf : row.WellFormed) (hlegible : row.Legible depth) :
    Row.codec.Keeps (depth + 1) row := by
  refine Keeps.imap (Fields.codec_keeps (by decide) ⟨?_, ?_, trivial⟩) rfl
  · exact (text_keeps row.id).mono (Nat.zero_le _)
  · exact (members_keeps hwf hlegible.1).mono hlegible.2

theorem TableInfo.keeps (info : TableInfo) : TableInfo.codec.Keeps 2 info := by
  refine Keeps.imap (Fields.codec_keeps (by decide) ⟨?_, ?_, ?_, trivial⟩) rfl
  · exact (text_keeps info.table).mono (by decide)
  · exact list_text_keeps info.columns
  · exact (word_keeps info.rowCount).mono (by decide)

theorem QueryResult.keeps {r : QueryResult} {depth : Nat} (hwf : ∀ row ∈ r.rows, row.WellFormed)
    (hlegible : ∀ row ∈ r.rows, row.Legible depth) : QueryResult.codec.Keeps (depth + 3) r := by
  refine Keeps.imap (Fields.codec_keeps (by decide) ⟨?_, ?_, ?_, trivial⟩) rfl
  · exact (text_keeps r.table).mono (Nat.zero_le _)
  · exact (list_text_keeps r.columns).mono (by omega)
  · exact list_keeps fun row hrow => Row.keeps (hwf row hrow) (hlegible row hrow)

theorem MetadataEntry.keeps (e : MetadataEntry) : MetadataEntry.codec.Keeps 1 e := by
  refine Keeps.imap (Fields.codec_keeps (by decide) ⟨?_, ?_, ?_, ?_, ?_, ?_, trivial⟩) rfl <;> exact text_keeps _

theorem MetadataSet.keeps (set : MetadataSet) : MetadataSet.codec.Keeps 3 set := by
  refine Keeps.imap (Fields.codec_keeps (by decide) ⟨?_, ?_, ?_, trivial⟩) rfl
  · exact (text_keeps set.table).mono (by decide)
  · exact (nullable_token_keeps set.revision).mono (by decide)
  · exact list_keeps fun e _ => MetadataEntry.keeps e

/-! ## Arguments -/

theorem TableArgs.keeps (a : TableArgs) : TableArgs.codec.Keeps 1 a :=
  Keeps.imap (Fields.codec_keeps (by decide) ⟨text_keeps _, trivial⟩) rfl

theorem RowArgs.keeps (a : RowArgs) : RowArgs.codec.Keeps 1 a :=
  Keeps.imap (Fields.codec_keeps (by decide) ⟨text_keeps _, text_keeps _, trivial⟩) rfl

theorem RevisionArgs.keeps (a : RevisionArgs) : RevisionArgs.codec.Keeps 1 a :=
  Keeps.imap (Fields.codec_keeps (by decide) ⟨text_keeps _, nullable_token_keeps _, trivial⟩) rfl

theorem PutArgs.keeps (a : PutArgs) : PutArgs.codec.Keeps 2 a := by
  refine Keeps.imap (Fields.codec_keeps (by decide) ⟨?_, ?_, trivial⟩) rfl
  · exact (nullable_text_keeps a.principal).mono (by decide)
  · exact MetadataEntry.keeps a.entry

theorem PutArgs.unpacks (a : PutArgs) : PutArgs.codec.Unpacks a := (PutArgs.keeps a).unpacks

theorem DeleteArgs.keeps (a : DeleteArgs) : DeleteArgs.codec.Keeps 1 a := by
  refine Keeps.imap (Fields.codec_keeps (by decide) ⟨?_, ?_, ?_, ?_, ?_, trivial⟩) rfl
  · exact nullable_text_keeps a.principal
  · exact text_keeps a.table
  · exact text_keeps a.slot.partition
  · exact text_keeps a.slot.aspect
  · exact text_keeps a.slot.key

theorem FetchArgs.keeps (a : FetchArgs) : FetchArgs.codec.Keeps 1 a :=
  Keeps.imap (Fields.codec_keeps (by decide) ⟨token_keeps _, trivial⟩) rfl

theorem ReleaseArgs.keeps (a : ReleaseArgs) : ReleaseArgs.codec.Keeps 1 a :=
  Keeps.imap (Fields.codec_keeps (by decide) ⟨token_keeps _, trivial⟩) rfl

theorem ColumnFilter.unpacks {f : ColumnFilter} (hwf : f.equals.WellFormed) : ColumnFilter.codec.Unpacks f :=
  Unpacks.imap (Fields.codec_unpacks (by decide) ⟨(text_keeps _).unpacks, value_unpacks hwf, trivial⟩) rfl

theorem ColumnFilter.encode_head (f : ColumnFilter) : (ColumnFilter.codec.encode f).head? ≠ some 0x6E :=
  Fields.encode_codec_head _ (f.column, f.equals, ())

theorem Query.unpacks {q : Query} (hwf : ∀ f ∈ q.filter, f.equals.WellFormed) : Query.codec.Unpacks q := by
  refine Unpacks.imap (Fields.codec_unpacks (by decide) ⟨?_, ?_, ?_, trivial⟩) rfl
  · exact (text_keeps q.table).unpacks
  · cases hfilter : q.filter with
    | none => exact nullable_none_unpacks
    | some f => exact nullable_some_unpacks (ColumnFilter.unpacks (hwf f hfilter)) (pack_ne_null f.encode_head)
  · exact (nullable_word_keeps q.limit).unpacks

theorem ColumnFilter.keeps {f : ColumnFilter} (hwf : f.equals.WellFormed) (hlegible : f.equals.Legible) :
    ColumnFilter.codec.Keeps (f.equals.depth + 1) f := by
  refine Keeps.imap (Fields.codec_keeps (by decide) ⟨?_, ?_, trivial⟩) rfl
  · exact (text_keeps f.column).mono (Nat.zero_le _)
  · exact ⟨value_readsBack hwf hlegible, value_unpacks hwf⟩

theorem Query.keeps {q : Query} {depth : Nat}
    (h : ∀ f ∈ q.filter, f.equals.WellFormed ∧ f.equals.Legible ∧ f.equals.depth ≤ depth) :
    Query.codec.Keeps (depth + 2) q := by
  refine Keeps.imap (Fields.codec_keeps (by decide) ⟨?_, ?_, ?_, trivial⟩) rfl
  · exact (text_keeps q.table).mono (Nat.zero_le _)
  · refine nullable_keeps fun f hf => ⟨?_, f.encode_head⟩
    obtain ⟨hwf, hlegible, hdepth⟩ := h f hf
    exact (ColumnFilter.keeps hwf hlegible).mono (Nat.succ_le_succ hdepth)
  · exact (nullable_word_keeps q.limit).mono (Nat.zero_le _)

end RemoteTable
