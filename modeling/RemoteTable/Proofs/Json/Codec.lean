import RemoteTable.Json.Codec
import RemoteTable.Proofs.Json.Value

/-!
# Codecs

What a codec writes it reads back, from text (`Codec.ReadsBack`) and from the packed value (`Codec.Unpacks`); a codec
keeps a value that it reads back from both (`Codec.Keeps`). All three are stated for one value, since a codec of cells
has values that do not read back, and are put together along the parts of the codec.

A record is the part with an order of its own: its text has the members in the order of the fields, its packed value
has them in the order of their names. In either order each member fills the slot of its field (`Fields.filled`).
-/

namespace RemoteTable.Json

namespace Codec

/-- The value is read back from its text by readers that go so deep or deeper. -/
def ReadsBack {α : Type} (c : Codec α) (depth : Nat) (a : α) : Prop :=
  ∀ d, depth ≤ d → Reads (c.read d) (c.encode a) a

/-- The value is read back from its packed form. -/
def Unpacks {α : Type} (c : Codec α) (a : α) : Prop := c.ofJson (c.pack a) = .ok a

variable {α β : Type} {c : Codec α} {depth : Nat} {a : α}

theorem ReadsBack.mono {d : Nat} (h : c.ReadsBack depth a) (hle : depth ≤ d) : c.ReadsBack d a :=
  fun e he => h e (Nat.le_trans hle he)

theorem ReadsBack.decode_encode (h : c.ReadsBack depth a) (hdepth : depth ≤ maxDepth) :
    c.decode (c.encode a) = .ok a := by
  have hread := (h maxDepth hdepth).read [] delimited_nil
  rw [List.append_nil] at hread
  rw [decode, complete, hread]
  rfl

/-- The value is read back from its text and from its packed form. -/
structure Keeps {α : Type} (c : Codec α) (depth : Nat) (a : α) : Prop where
  readsBack : c.ReadsBack depth a
  unpacks : c.Unpacks a

theorem Keeps.mono {d : Nat} (h : c.Keeps depth a) (hle : depth ≤ d) : c.Keeps d a :=
  ⟨h.readsBack.mono hle, h.unpacks⟩

/-! ## Conversions -/

theorem ReadsBack.imap {make : α → β} {unmake : β → α} {b : β} (h : c.ReadsBack depth (unmake b))
    (hmake : make (unmake b) = b) : (c.imap make unmake).ReadsBack depth b := by
  intro d hd
  refine ⟨(h d hd).opens, fun rest hrest => ?_⟩
  have hread := (h d hd).read rest hrest
  change (c.read d (c.encode (unmake b) ++ rest) >>= _) = _
  rw [hread]
  exact congrArg (fun b => Except.ok (b, rest)) hmake

theorem Unpacks.imap {make : α → β} {unmake : β → α} {b : β} (h : c.Unpacks (unmake b))
    (hmake : make (unmake b) = b) : (c.imap make unmake).Unpacks b := by
  have hunpack : c.ofJson (c.pack (unmake b)) = .ok (unmake b) := h
  change (c.ofJson (c.pack (unmake b)) >>= _) = _
  rw [hunpack]
  exact congrArg Except.ok hmake

theorem Keeps.imap {make : α → β} {unmake : β → α} {b : β} (h : c.Keeps depth (unmake b))
    (hmake : make (unmake b) = b) : (c.imap make unmake).Keeps depth b :=
  ⟨h.readsBack.imap hmake, h.unpacks.imap hmake⟩

/-! ## Plain values -/

theorem encode_text (s : String) : text.encode s = utf8 (quoted s) := by
  change (Json.text s).encode = _
  rw [encode_eq, chars]

theorem reads_text (s : String) : Reads readText (utf8 (quoted s)) s := (escapes_escape.spells s).reads

theorem text_readsBack (s : String) : text.ReadsBack 0 s := by
  intro d _
  rw [encode_text]
  exact reads_text s

theorem text_keeps (s : String) : text.Keeps 0 s := ⟨text_readsBack s, rfl⟩

theorem inRange_word (n : UInt64) : Number.InRange n.toNat := by
  have hlt := n.toNat_lt
  simp only [Number.InRange, UInt64.size] at *
  omega

theorem ofNumber_word (n : UInt64) : word.ofNumber (.int n.toNat) = .ok n := by
  have hrange : (0 : Int) ≤ n.toNat ∧ (n.toNat : Int) < UInt64.size := ⟨by omega, (inRange_word n).2⟩
  rw [word.ofNumber, if_pos hrange, Int.toNat_natCast, UInt64.ofNat_toNat]

theorem encode_word (n : UInt64) : word.encode n = utf8 (intText n.toNat) := by
  change (Json.word n).encode = _
  rw [encode_eq, chars, numberText]

theorem word_head (n : UInt64) : ∃ b tail, word.encode n = b :: tail ∧ Opens b ∧ b ≠ 0x6E := by
  obtain ⟨b, tail, htext, hhead⟩ := readNumber_head (readNumber_int (inRange_word n))
  obtain ⟨hopens, -, -, hn, -⟩ := isDigit_ne hhead
  exact ⟨b, tail, (encode_word n).trans htext, hopens, hn⟩

theorem word_readsBack (n : UInt64) : word.ReadsBack 0 n := by
  intro d _
  obtain ⟨b, tail, htext, hopens, -⟩ := word_head n
  refine ⟨⟨b, tail, htext, hopens⟩, fun rest hrest => ?_⟩
  have hread := readNumber_append hrest (readNumber_int (inRange_word n))
  rw [← encode_word, htext, List.cons_append] at hread
  change (readNumber (skipBlank (word.encode n ++ rest)) >>= _) = _
  rw [htext, List.cons_append, skipBlank_cons hopens.1, hread, Fallible.ok_bind]
  simp only [ofNumber_word]
  rfl

theorem word_keeps (n : UInt64) : word.Keeps 0 n := by
  refine ⟨word_readsBack n, ?_⟩
  have hpack : word.pack n = .word n := sorted_of_wellFormed (v := .word n) (inRange_word n)
  have hofJson (m : Number) : word.ofJson (.number m) = word.ofNumber m := rfl
  rw [Unpacks, hpack, hofJson, ofNumber_word]

theorem flag_keeps (b : Bool) : flag.Keeps 0 b := by
  refine ⟨fun d _ => ?_, rfl⟩
  cases b with
  | false => exact ⟨⟨0x66, _, rfl, by decide⟩, fun rest _ => keyword_append "false" false rest⟩
  | true => exact ⟨⟨0x74, _, rfl, by decide⟩, fun rest _ => keyword_append "true" true rest⟩

theorem value_readsBack {v : Json} (hwf : v.WellFormed) (hlegible : v.Legible) : value.ReadsBack v.depth v :=
  fun _ hd => reads_encode hwf hlegible hd

theorem value_unpacks {v : Json} (h : v.WellFormed) : value.Unpacks v :=
  congrArg Except.ok (sorted_of_wellFormed h)

/-! ## Values that may be null -/

theorem nullable_none_readsBack : c.nullable.ReadsBack 0 none :=
  fun _ _ => ⟨⟨0x6E, _, rfl, by decide⟩, fun rest _ => keyword_append "null" none rest⟩

theorem nullable_none_unpacks : c.nullable.Unpacks none := rfl

theorem nullable_some_readsBack (h : c.ReadsBack depth a) (hnull : (c.encode a).head? ≠ some 0x6E) :
    c.nullable.ReadsBack depth (some a) := by
  intro d hd
  refine ⟨(h d hd).opens, fun rest hrest => ?_⟩
  obtain ⟨b, tail, htext, hopens⟩ := (h d hd).opens
  have hread := (h d hd).read rest hrest
  have hne : b ≠ 0x6E := by
    rintro rfl
    exact hnull (by rw [htext]; rfl)
  have hsame : c.nullable.encode (some a) = c.encode a := rfl
  rw [hsame, htext, List.cons_append] at *
  simp only [nullable, skipBlank_cons hopens.1]
  split
  · simp_all
  · rw [hread]
    rfl

theorem nullable_some_unpacks (h : c.Unpacks a) (hnull : c.pack a ≠ .null) : c.nullable.Unpacks (some a) := by
  have hunpack : c.ofJson (c.pack a) = .ok a := h
  change c.nullable.ofJson (c.pack a) = _
  simp only [nullable]
  rw [hunpack]
  rfl

/-- What is not written as null is not packed as null. -/
theorem pack_ne_null (h : (c.encode a).head? ≠ some 0x6E) : c.pack a ≠ .null := by
  intro hpack
  refine h ?_
  unfold pack at hpack
  unfold encode
  cases hvalue : c.toJson a with
  | null => rfl
  | bool | number | text | array | object =>
    rw [hvalue] at hpack
    cases hpack

theorem nullable_keeps {o : Option α} (h : ∀ a ∈ o, c.Keeps depth a ∧ (c.encode a).head? ≠ some 0x6E) :
    c.nullable.Keeps depth o := by
  cases o with
  | none => exact ⟨nullable_none_readsBack.mono (Nat.zero_le depth), nullable_none_unpacks⟩
  | some a =>
    obtain ⟨hkeeps, hhead⟩ := h a rfl
    exact ⟨nullable_some_readsBack hkeeps.readsBack hhead, nullable_some_unpacks hkeeps.unpacks (pack_ne_null hhead)⟩

/-! ## Containers -/

theorem list_readsBack {as : List α} (h : ∀ a ∈ as, c.ReadsBack depth a) : c.list.ReadsBack (depth + 1) as := by
  intro d hd
  cases d with
  | zero => exact absurd hd (Nat.not_succ_le_zero _)
  | succ d =>
    have hreads (a) (ha : a ∈ as) : Reads (c.read d) (c.encode a) a := h a ha d (Nat.le_of_succ_le_succ hd)
    have htext : c.list.encode as = 0x5B :: (commas (as.map c.encode) ++ [0x5D]) := by
      change (Json.array (as.map c.toJson)).encode = _
      rw [encode_array, List.map_map]
      rfl
    refine ⟨⟨0x5B, _, htext, by decide⟩, fun rest _ => ?_⟩
    rw [htext, List.cons_append, List.append_assoc, List.singleton_append]
    exact readItems_commas hreads rest

theorem list_unpacks {as : List α} (h : ∀ a ∈ as, c.Unpacks a) : c.list.Unpacks as := by
  have hpack : c.list.pack as = .array (as.map c.pack) := by
    change (Json.array (as.map c.toJson)).sorted = _
    rw [sorted, sortedItems_eq, List.map_map]
    rfl
  have hitems : (as.map c.pack).mapM c.ofJson = .ok as := by
    clear hpack
    induction as with
    | nil => rfl
    | cons a as ih =>
      have ha : c.ofJson (c.pack a) = .ok a := h a List.mem_cons_self
      rw [List.map_cons, List.mapM_cons, ha, Fallible.ok_bind, ih fun b hb => h b (List.mem_cons_of_mem a hb)]
      rfl
  rw [Unpacks, hpack]
  exact hitems

theorem list_keeps {as : List α} (h : ∀ a ∈ as, c.Keeps depth a) : c.list.Keeps (depth + 1) as :=
  ⟨list_readsBack fun a ha => (h a ha).readsBack, list_unpacks fun a ha => (h a ha).unpacks⟩

theorem members_readsBack {ms : List (String × Json)} (hwf : (Json.object ms).WellFormed)
    (hlegible : (Json.object ms).Legible) : members.ReadsBack (Json.object ms).depth ms := by
  intro d hd
  cases d with
  | zero => exact absurd hd (Nat.not_succ_le_zero _)
  | succ d =>
    have hvalues := wellFormedMembers_iff.1 hwf.2
    have hlegibles := legibleMembers_iff.1 hlegible
    have hdepths := depthMembers_le_iff.1 (Nat.le_of_succ_le_succ hd)
    have hreads (m) (hm : m ∈ ms) := reads_encode (hvalues m hm) (hlegibles m hm) (hdepths m hm)
    have htext : members.encode ms = _ := encode_object ms
    refine ⟨⟨0x7B, _, htext, by decide⟩, fun rest _ => ?_⟩
    rw [htext, List.cons_append, List.append_assoc, List.singleton_append]
    change (readMembers (readValue d) (commas (ms.map fun m => memberText m.1 m.2.encode) ++ 0x7D :: rest) >>= _) = _
    rw [readMembers_commas hreads]
    exact congrArg (fun ms => Except.ok (ms, rest)) (ascending_of_pairwise hwf.1)

theorem members_keeps {ms : List (String × Json)} (hwf : (Json.object ms).WellFormed)
    (hlegible : (Json.object ms).Legible) : members.Keeps (Json.object ms).depth ms := by
  refine ⟨members_readsBack hwf hlegible, ?_⟩
  have hpack : members.pack ms = .object ms := sorted_of_wellFormed hwf
  rw [Unpacks, hpack]
  rfl

end Codec

/-! ## Records -/

namespace Fields

/-- The values of a record that are read back from text, field by field. -/
def ReadsBack (depth : Nat) : {τ : Type} → Fields τ → τ → Prop
  | _, nil, _ => True
  | _, cons field rest, (a, b) => field.codec.ReadsBack depth a ∧ rest.ReadsBack depth b

/-- The values of a record that are read back from their packed forms, field by field. -/
def Unpacks : {τ : Type} → Fields τ → τ → Prop
  | _, nil, _ => True
  | _, cons field rest, (a, b) => field.codec.Unpacks a ∧ rest.Unpacks b

/-- The values of a record that its codecs keep, field by field. -/
def Keeps (depth : Nat) : {τ : Type} → Fields τ → τ → Prop
  | _, nil, _ => True
  | _, cons field rest, (a, b) => field.codec.Keeps depth a ∧ rest.Keeps depth b

theorem Keeps.readsBack {τ : Type} {fields : Fields τ} {a : τ} {depth : Nat} (h : fields.Keeps depth a) :
    fields.ReadsBack depth a := by
  induction fields with
  | nil => trivial
  | cons field rest ih => exact ⟨h.1.readsBack, ih h.2⟩

theorem Keeps.unpacks {τ : Type} {fields : Fields τ} {a : τ} {depth : Nat} (h : fields.Keeps depth a) :
    fields.Unpacks a := by
  induction fields with
  | nil => trivial
  | cons field rest ih => exact ⟨h.1.unpacks, ih h.2⟩

/-- The slots of a record of which the fields with these names have been read. -/
def filled (keys : List String) : {τ : Type} → (fields : Fields τ) → τ → fields.Slots
  | _, nil, _ => ()
  | _, cons field rest, (a, b) => (if field.name ∈ keys then some a else none, rest.filled keys b)

theorem ReadsBack.mono {τ : Type} {fields : Fields τ} {a : τ} {depth d : Nat} (h : fields.ReadsBack depth a)
    (hle : depth ≤ d) : fields.ReadsBack d a := by
  induction fields with
  | nil => trivial
  | cons field rest ih => exact ⟨h.1.mono hle, ih h.2⟩

theorem filled_nil {τ : Type} (fields : Fields τ) (a : τ) : fields.filled [] a = fields.empty := by
  induction fields with
  | nil => rfl
  | cons field rest ih =>
    obtain ⟨a, b⟩ := a
    simp only [filled, empty, ih, List.not_mem_nil, if_false]
    rfl

theorem filled_cons_of_not_mem {τ : Type} (fields : Fields τ) (a : τ) {key : String} (keys : List String)
    (h : key ∉ fields.names) : fields.filled (key :: keys) a = fields.filled keys a := by
  induction fields with
  | nil => rfl
  | cons field rest ih =>
    obtain ⟨a, b⟩ := a
    obtain ⟨hne, hrest⟩ := not_or.1 (mt List.mem_cons.2 h)
    simp only [filled, ih b hrest, List.mem_cons, Ne.symm hne, false_or]
    rfl

theorem names_members {τ : Type} (fields : Fields τ) (a : τ) : (fields.members a).map Prod.fst = fields.names := by
  induction fields with
  | nil => rfl
  | cons field rest ih =>
    obtain ⟨a, b⟩ := a
    simp [members, names, ih]

theorem finish_filled {τ : Type} (fields : Fields τ) (a : τ) {keys : List String}
    (h : ∀ name ∈ fields.names, name ∈ keys) : fields.finish (fields.filled keys a) = .ok a := by
  induction fields with
  | nil => rfl
  | cons field rest ih =>
    obtain ⟨a, b⟩ := a
    have hrest := ih b fun name hname => h name (List.mem_cons_of_mem _ hname)
    have hfield : field.name ∈ keys := h field.name List.mem_cons_self
    simp [filled, finish, hfield, hrest]

theorem fill?_filled {τ : Type} {fields : Fields τ} {a : τ} {depth : Nat} (hnodup : fields.names.Nodup)
    (hreads : fields.ReadsBack depth a) {key : String} {v : Json} (hmem : (key, v) ∈ fields.members a)
    {keys : List String} (hnew : key ∉ keys) : ∃ fill, fields.fill? key depth = some fill ∧
      Reads (fill (fields.filled keys a)) v.encode (fields.filled (key :: keys) a) := by
  induction fields with
  | nil => cases hmem
  | cons field rest ih =>
    obtain ⟨a, b⟩ := a
    obtain ⟨hfield, hrest⟩ := hreads
    obtain ⟨hfresh, hnodup⟩ := List.nodup_cons.1 hnodup
    rcases List.mem_cons.1 hmem with heq | hmem
    · cases heq
      have hread := hfield depth (Nat.le_refl _)
      refine ⟨_, by rw [fill?, if_pos rfl], ⟨hread.opens, fun more hmore => ?_⟩⟩
      have htext := hread.read more hmore
      have hslots := filled_cons_of_not_mem rest b keys hfresh
      change (field.codec.read depth ((field.codec.toJson a).encode ++ more)) = _ at htext
      simp only [filled, hnew, if_false, List.mem_cons_self, if_true, hslots]
      rw [htext]
      rfl
    · have hne : field.name ≠ key := by
        rintro rfl
        exact hfresh (names_members rest b ▸ List.mem_map_of_mem hmem)
      obtain ⟨fill, hfill, hread⟩ := ih hnodup hrest hmem
      refine ⟨_, by rw [fill?, if_neg hne, hfill]; rfl, ⟨hread.opens, fun more hmore => ?_⟩⟩
      have htext := hread.read more hmore
      simp only [filled, List.mem_cons, hne, false_or]
      rw [htext]
      rfl

theorem set_filled {τ : Type} {fields : Fields τ} {a : τ} (hnodup : fields.names.Nodup) (hunpacks : fields.Unpacks a)
    {key : String} {v : Json} (hmem : (key, v) ∈ fields.members a) {keys : List String} (hnew : key ∉ keys) :
    fields.set key v.sorted (fields.filled keys a) = .ok (fields.filled (key :: keys) a) := by
  induction fields with
  | nil => cases hmem
  | cons field rest ih =>
    obtain ⟨a, b⟩ := a
    obtain ⟨hfield, hrest⟩ := hunpacks
    obtain ⟨hfresh, hnodup⟩ := List.nodup_cons.1 hnodup
    rcases List.mem_cons.1 hmem with heq | hmem
    · cases heq
      have hunpack : field.codec.ofJson (field.codec.toJson a).sorted = .ok a := hfield
      have hslots := filled_cons_of_not_mem rest b keys hfresh
      simp only [filled, set, hnew, if_false, List.mem_cons_self, if_true, hslots]
      rw [hunpack]
      rfl
    · have hne : field.name ≠ key := by
        rintro rfl
        exact hfresh (names_members rest b ▸ List.mem_map_of_mem hmem)
      simp only [filled, set, hne, List.mem_cons, false_or]
      rw [ih hnodup hrest hmem]
      rfl

variable {τ : Type} {fields : Fields τ} {a : τ} {depth : Nat}

/-- What the reader of a record makes of one member. -/
def member (fields : Fields τ) (depth : Nat) (key : String) (slots : fields.Slots) : Reader fields.Slots := fun bs =>
  match fields.fill? key depth with
  | some fill => fill slots bs
  | none => do
    let (_, rest) ← skipValue bs
    return (slots, rest)

theorem nodup_push {key : String} {names keys : List String} (h : (key :: names ++ keys).Nodup) :
    key ∉ keys ∧ (names ++ key :: keys).Nodup := by
  refine ⟨fun hmem => ?_, List.perm_middle.nodup_iff.2 h⟩
  exact (List.nodup_cons.1 h).1 (List.mem_append_right names hmem)

theorem takes_record (hnodup : fields.names.Nodup) (hreads : fields.ReadsBack depth a) {ms : List (String × Json)}
    (hms : ∀ m ∈ ms, m ∈ fields.members a) {keys : List String} (hkeys : (ms.map Prod.fst ++ keys).Nodup) :
    Takes (readMember (fields.member depth)) (fields.filled keys a) (ms.map fun m => memberText m.1 m.2.encode)
      (fields.filled ((ms.map Prod.fst).reverse ++ keys) a) := by
  induction ms generalizing keys with
  | nil => exact .nil _
  | cons m ms ih =>
    obtain ⟨hnew, hkeys⟩ := nodup_push hkeys
    obtain ⟨fill, hfill, hread⟩ := fill?_filled hnodup hreads (hms m List.mem_cons_self) hnew
    refine .cons (t := fields.filled (m.1 :: keys) a) (readMember_text ⟨hread.opens, fun rest hrest => ?_⟩) ?_
    · rw [member, hfill]
      exact hread.read rest hrest
    · have hlater := ih (fun n hn => hms n (List.mem_cons_of_mem m hn)) hkeys
      simpa using hlater

theorem encode_codec (fields : Fields τ) (a : τ) : fields.codec.encode a =
    0x7B :: (commas ((fields.members a).map fun m => memberText m.1 m.2.encode) ++ [0x7D]) :=
  encode_object (fields.members a)

theorem codec_readsBack (hnodup : fields.names.Nodup) (hreads : fields.ReadsBack depth a) :
    fields.codec.ReadsBack (depth + 1) a := by
  intro d hd
  cases d with
  | zero => exact absurd hd (Nat.not_succ_le_zero _)
  | succ d =>
    have hnames := names_members fields a
    have hkeys : ((fields.members a).map Prod.fst ++ []).Nodup := by rwa [List.append_nil, hnames]
    have htakes := takes_record hnodup (hreads.mono (Nat.le_of_succ_le_succ hd)) (fun m hm => hm) hkeys
    rw [filled_nil, List.append_nil, hnames] at htakes
    have hfinish : fields.finish (fields.filled fields.names.reverse a) = .ok a :=
      finish_filled fields a fun name hname => List.mem_reverse.2 hname
    refine ⟨⟨0x7B, _, encode_codec fields a, by decide⟩, fun rest _ => ?_⟩
    rw [encode_codec, List.cons_append, List.append_assoc, List.singleton_append]
    change (enclosed 0x7D (readMember (fields.member d)) fields.empty
      (commas ((fields.members a).map fun m => memberText m.1 m.2.encode) ++ 0x7D :: rest) >>= _) = _
    rw [enclosed_commas (.inr rfl) htakes]
    change (fields.finish (fields.filled fields.names.reverse a) >>= _) = _
    rw [hfinish]
    rfl

theorem foldlM_set (hnodup : fields.names.Nodup) (hunpacks : fields.Unpacks a) {ms : List (String × Json)}
    (hms : ∀ m ∈ ms, m ∈ (fields.members a).map fun m => (m.1, m.2.sorted)) {keys : List String}
    (hkeys : (ms.map Prod.fst ++ keys).Nodup) :
    ms.foldlM (fun slots m => fields.set m.1 m.2 slots) (fields.filled keys a) =
      .ok (fields.filled ((ms.map Prod.fst).reverse ++ keys) a) := by
  induction ms generalizing keys with
  | nil => rfl
  | cons m ms ih =>
    obtain ⟨hnew, hkeys⟩ := nodup_push hkeys
    obtain ⟨n, hmem, heq⟩ := List.mem_map.1 (hms m List.mem_cons_self)
    subst heq
    have hset := set_filled hnodup hunpacks hmem hnew
    have hlater := ih (fun n hn => hms n (List.mem_cons_of_mem _ hn)) hkeys
    rw [List.foldlM_cons, hset, Fallible.ok_bind, hlater]
    simp

theorem insert_perm {key : String} {v : Json} {ms : List (String × Json)} (h : key ∉ ms.map Prod.fst) :
    (Json.insert key v ms).Perm ((key, v) :: ms) := by
  induction ms with
  | nil => exact .refl _
  | cons m ms ih =>
    obtain ⟨hne, hrest⟩ := not_or.1 (mt List.mem_cons.2 h)
    unfold Json.insert
    split
    · exact .refl _
    · exact ((ih hrest).cons m).trans (.swap ..)

/-- Bringing members with different keys into order permutes them. -/
theorem ascending_perm {ms : List (String × Json)} (h : (ms.map Prod.fst).Nodup) : (ascending ms).Perm ms := by
  have hfold (done : List (String × Json)) (hdone : ((done ++ ms).map Prod.fst).Nodup) :
      (ms.foldl (fun sorted m => Json.insert m.1 m.2 sorted) done).Perm (done ++ ms) := by
    clear h
    induction ms generalizing done with
    | nil => simp
    | cons m ms ih =>
      have hmiddle : ((m :: done ++ ms).map Prod.fst).Nodup := (List.perm_middle.map Prod.fst).nodup_iff.1 hdone
      have hnew : m.1 ∉ done.map Prod.fst := by
        intro hmem
        rw [List.cons_append, List.map_cons, List.map_append] at hmiddle
        exact (List.nodup_cons.1 hmiddle).1 (List.mem_append_left _ hmem)
      have hinsert := (insert_perm (v := m.2) hnew).append_right ms
      refine (ih _ ((hinsert.map Prod.fst).nodup_iff.2 hmiddle)).trans (hinsert.trans List.perm_middle.symm)
  exact hfold [] h

theorem codec_unpacks (hnodup : fields.names.Nodup) (hunpacks : fields.Unpacks a) : fields.codec.Unpacks a := by
  obtain ⟨packed, hpacked⟩ : ∃ packed, packed = (fields.members a).map fun m => (m.1, m.2.sorted) := ⟨_, rfl⟩
  have hnames : packed.map Prod.fst = fields.names := by
    rw [hpacked, List.map_map]
    exact names_members fields a
  have hpack : fields.codec.pack a = .object (ascending packed) := by
    change (Json.object (fields.members a)).sorted = _
    rw [sorted, sortedMembers_eq, hpacked]
  have hperm : (ascending packed).Perm packed := ascending_perm (hnames.symm ▸ hnodup)
  have hkeys : ((ascending packed).map Prod.fst).Perm fields.names := hnames ▸ hperm.map Prod.fst
  have hfresh : ((ascending packed).map Prod.fst ++ []).Nodup := by
    rw [List.append_nil]
    exact hkeys.nodup_iff.2 hnodup
  have hset := foldlM_set hnodup hunpacks (fun m hm => hpacked ▸ hperm.mem_iff.1 hm) hfresh
  rw [filled_nil] at hset
  rw [Codec.Unpacks, hpack]
  change (List.foldlM _ fields.empty _ >>= _) = _
  rw [hset, Fallible.ok_bind]
  refine finish_filled fields a fun name hname => ?_
  rw [List.append_nil, List.mem_reverse]
  exact hkeys.mem_iff.2 hname

theorem codec_keeps (hnodup : fields.names.Nodup) (h : fields.Keeps depth a) : fields.codec.Keeps (depth + 1) a :=
  ⟨codec_readsBack hnodup h.readsBack, codec_unpacks hnodup h.unpacks⟩

/-- A record begins with a brace, and so is not null. -/
theorem encode_codec_head (fields : Fields τ) (a : τ) : (fields.codec.encode a).head? ≠ some 0x6E := by
  rw [encode_codec, List.head?_cons]
  decide

end Fields

end RemoteTable.Json
