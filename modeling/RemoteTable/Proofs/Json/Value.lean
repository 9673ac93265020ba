import RemoteTable.Proofs.Json.Items

/-!
# Values read back

A value is read back from its text if it is well formed, is not nested deeper than the reader goes, and all its
doubles read back (`reads_encode`). Well-formedness is what every value in memory has; the other two conditions are
limits of the reader.
-/

namespace RemoteTable.Json

/-! ## Values as trees -/

/-- Induction over a value, its items and the values of its members. -/
@[elab_as_elim]
theorem tree_induction {motive : Json → Prop} (null : motive .null) (bool : ∀ b, motive (.bool b))
    (number : ∀ n, motive (.number n)) (text : ∀ s, motive (.text s))
    (array : ∀ items, (∀ v ∈ items, motive v) → motive (.array items))
    (object : ∀ members, (∀ m ∈ members, motive m.2) → motive (.object members)) (v : Json) : motive v := by
  match v with
  | .null => exact null
  | .bool b => exact bool b
  | .number n => exact number n
  | .text s => exact text s
  | .array items =>
    refine array items fun w hw => ?_
    have := List.sizeOf_lt_of_mem hw
    exact tree_induction null bool number text array object w
  | .object members =>
    refine object members fun m hm => ?_
    have := List.sizeOf_lt_of_mem hm
    exact tree_induction null bool number text array object m.2
termination_by sizeOf v
decreasing_by
  · simp only [Json.array.sizeOf_spec]
    omega
  · obtain ⟨k, w⟩ := m
    simp only [Json.object.sizeOf_spec, Prod.mk.sizeOf_spec] at *
    omega

mutual

def Legible : Json → Prop
  | .number (.double d) => ReadsBack d
  | .array items => LegibleItems items
  | .object members => LegibleMembers members
  | _ => True

def LegibleItems : List Json → Prop
  | [] => True
  | v :: rest => Legible v ∧ LegibleItems rest

def LegibleMembers : List (String × Json) → Prop
  | [] => True
  | (_, v) :: rest => Legible v ∧ LegibleMembers rest

end

theorem legibleItems_iff {items : List Json} : LegibleItems items ↔ ∀ v ∈ items, v.Legible := by
  induction items with
  | nil => simp [LegibleItems]
  | cons v items ih => simp [LegibleItems, ih]

theorem legibleMembers_iff {members : List (String × Json)} : LegibleMembers members ↔ ∀ m ∈ members, m.2.Legible := by
  induction members with
  | nil => simp [LegibleMembers]
  | cons m members ih => simp [LegibleMembers, ih]

theorem wellFormedItems_iff {items : List Json} : WellFormedItems items ↔ ∀ v ∈ items, v.WellFormed := by
  induction items with
  | nil => simp [WellFormedItems]
  | cons v items ih => simp [WellFormedItems, ih]

theorem wellFormedMembers_iff {members : List (String × Json)} :
    WellFormedMembers members ↔ ∀ m ∈ members, m.2.WellFormed := by
  induction members with
  | nil => simp [WellFormedMembers]
  | cons m members ih => simp [WellFormedMembers, ih]

theorem depthItems_le_iff {items : List Json} {d : Nat} : depthItems items ≤ d ↔ ∀ v ∈ items, v.depth ≤ d := by
  induction items with
  | nil => simp [depthItems]
  | cons v items ih => rw [depthItems, Nat.max_le, ih, List.forall_mem_cons]

theorem depthMembers_le_iff {members : List (String × Json)} {d : Nat} :
    depthMembers members ≤ d ↔ ∀ m ∈ members, m.2.depth ≤ d := by
  induction members with
  | nil => simp [depthMembers]
  | cons m members ih => rw [depthMembers, Nat.max_le, ih, List.forall_mem_cons]

theorem sortedItems_eq (items : List Json) : sortedItems items = items.map sorted := by
  induction items with
  | nil => rfl
  | cons v items ih => rw [sortedItems, ih, List.map_cons]

theorem sortedMembers_eq (members : List (String × Json)) :
    sortedMembers members = members.map fun m => (m.1, m.2.sorted) := by
  induction members with
  | nil => rfl
  | cons m members ih => rw [sortedMembers, ih, List.map_cons]

/-! ## Members in order -/

theorem insert_of_forall_lt {key : String} (value : Json) {members : List (String × Json)}
    (h : ∀ m ∈ members, m.1 < key) : insert key value members = members ++ [(key, value)] := by
  induction members with
  | nil => rfl
  | cons m members ih =>
    have hlt := h m List.mem_cons_self
    have hnot : ¬ key < m.1 := String.lt_asymm hlt
    have hne : key ≠ m.1 := fun heq => String.lt_irrefl _ (heq ▸ hlt)
    rw [insert, if_neg hnot, if_neg hne, ih fun n hn => h n (List.mem_cons_of_mem m hn), List.cons_append]

theorem foldl_insert (done : List (String × Json)) {members : List (String × Json)}
    (h : ((done ++ members).map Prod.fst).Pairwise (· < ·)) :
    members.foldl (fun sorted m => insert m.1 m.2 sorted) done = done ++ members := by
  induction members generalizing done with
  | nil => exact (List.append_nil done).symm
  | cons m members ih =>
    have hlt : ∀ n ∈ done, n.1 < m.1 := by
      intro n hn
      rw [List.map_append, List.pairwise_append] at h
      exact h.2.2 _ (List.mem_map_of_mem hn) _ (List.mem_map_of_mem List.mem_cons_self)
    rw [List.foldl_cons, insert_of_forall_lt m.2 hlt, ih _ (by simpa using h)]
    simp

/-- Members that ascend are left as they are. -/
theorem ascending_of_pairwise {members : List (String × Json)} (h : (members.map Prod.fst).Pairwise (· < ·)) :
    ascending members = members := foldl_insert [] h

theorem sorted_of_wellFormed {v : Json} (h : v.WellFormed) : v.sorted = v := by
  induction v using tree_induction with
  | null => rfl
  | bool b => rfl
  | number n => rfl
  | text s => rfl
  | array items ih =>
    have hitems := wellFormedItems_iff.1 h
    rw [sorted, sortedItems_eq, List.map_congr_left fun v hv => ih v hv (hitems v hv), List.map_id']
  | object members ih =>
    obtain ⟨hascend, hvalues⟩ := h
    have hmembers := wellFormedMembers_iff.1 hvalues
    have hsame : members.map (fun m => (m.1, m.2.sorted)) = members := by
      have hpoint : ∀ m ∈ members, (m.1, m.2.sorted) = m := fun m hm => Prod.ext rfl (ih m hm (hmembers m hm))
      rw [List.map_congr_left hpoint, List.map_id']
    rw [sorted, sortedMembers_eq, hsame, ascending_of_pairwise hascend]

/-! ## The text of a value -/

theorem utf8_itemChars (items : List Json) : utf8 (itemChars items) = commas (items.map encode) := by
  induction items with
  | nil => rfl
  | cons v items ih =>
    cases items with
    | nil => exact (List.append_nil v.encode).symm
    | cons w items =>
      rw [itemChars, utf8_append, utf8_cons, ih]
      · rfl
      · exact fun h => nomatch h

theorem utf8_member (key : String) (v : Json) : utf8 (quoted key ++ ':' :: v.chars) = memberText key v.encode := by
  rw [utf8_append, utf8_cons]
  rfl

theorem utf8_memberChars (members : List (String × Json)) :
    utf8 (memberChars members) = commas (members.map fun m => memberText m.1 m.2.encode) := by
  induction members with
  | nil => rfl
  | cons m members ih =>
    obtain ⟨k, v⟩ := m
    cases members with
    | nil =>
      rw [memberChars, utf8_member]
      exact (List.append_nil (memberText k v.encode)).symm
    | cons n members =>
      rw [memberChars, utf8_append, utf8_cons, utf8_member, ih]
      · rfl
      · exact fun h => nomatch h

theorem encode_array (items : List Json) : (array items).encode = 0x5B :: (commas (items.map encode) ++ [0x5D]) := by
  rw [encode_eq, chars, List.cons_append, utf8_cons, utf8_append, utf8_itemChars]
  rfl

theorem encode_object (members : List (String × Json)) :
    (object members).encode = 0x7B :: (commas (members.map fun m => memberText m.1 m.2.encode) ++ [0x7D]) := by
  rw [encode_eq, chars, List.cons_append, utf8_cons, utf8_append, utf8_memberChars]
  rfl

theorem keyword_append (word : String) {α : Type} (a : α) (rest : Bytes) :
    keyword word a (Bytes.ofString word ++ rest) = .ok (a, rest) := by
  rw [keyword, Fallible.isPrefixOf?_append]

/-- What is no container is read the same at every depth. -/
theorem readValue_scalar {b : UInt8} (hopens : Opens b) (harray : b ≠ 0x5B) (hobject : b ≠ 0x7B) (depth : Nat)
    (bs : Bytes) : readValue depth (b :: bs) = readScalar (b :: bs) := by
  cases depth <;> simp only [readValue, skipBlank_cons hopens.1] <;> split <;> simp_all

theorem reads_scalar {v : Json} {text : Bytes} {b : UInt8} {tail : Bytes} (htext : text = b :: tail) (hopens : Opens b)
    (harray : b ≠ 0x5B) (hobject : b ≠ 0x7B)
    (hread : ∀ rest, Delimited rest → readScalar (text ++ rest) = .ok (v, rest)) (depth : Nat) :
    Reads (readValue depth) text v := by
  refine ⟨⟨b, tail, htext, hopens⟩, fun rest hrest => ?_⟩
  rw [← hread rest hrest, htext]
  exact readValue_scalar hopens harray hobject depth _

/-- A text is read as a value from any written form that is read as the text. -/
theorem Escapes.reads_value {esc : Char → List Char} (h : Escapes esc) (s : String) (depth : Nat) :
    Reads (readValue depth) (utf8 (quotedBy esc s)) (text s) := by
  have htext := utf8_quotedBy esc s
  refine reads_scalar htext (by decide) (by decide) (by decide) (fun rest _ => ?_) depth
  have hread := h.readText s rest
  rw [htext, List.cons_append] at hread ⊢
  change (Json.readText (0x22 :: (utf8 (s.toList.flatMap esc) ++ [0x22] ++ rest)) >>= _) = _
  rw [hread]
  rfl

theorem isDigit_ne {b : UInt8} (h : b = 0x2D ∨ isDigit b = true) : Opens b ∧ b ≠ 0x5B ∧ b ≠ 0x7B ∧ b ≠ 0x6E ∧
    b ≠ 0x74 ∧ b ≠ 0x66 ∧ b ≠ 0x22 := by
  rcases h with rfl | hdigit
  · decide
  · have hne {c : UInt8} (hc : isDigit c = false) : b ≠ c := by
      rintro rfl
      rw [hc] at hdigit
      cases hdigit
    have hblank : isBlank b = false := by
      simp [isBlank, hne (c := 0x20) (by decide), hne (c := 0x09) (by decide), hne (c := 0x0A) (by decide),
        hne (c := 0x0D) (by decide)]
    exact ⟨⟨hblank, hne (by decide), hne (by decide), hne (by decide)⟩, hne (by decide), hne (by decide),
      hne (by decide), hne (by decide), hne (by decide), hne (by decide)⟩

theorem reads_number {n : Number} (h : readNumber (utf8 (numberText n)) = .ok (n, [])) (depth : Nat) :
    Reads (readValue depth) (number n).encode (number n) := by
  obtain ⟨b, tail, htext, hhead⟩ := readNumber_head h
  obtain ⟨hopens, harray, hobject, hn, ht, hf, hquote⟩ := isDigit_ne hhead
  have htext' : (number n).encode = b :: tail := by rw [encode_eq, chars, htext]
  refine reads_scalar htext' hopens harray hobject (fun rest hrest => ?_) depth
  have hread := readNumber_append hrest h
  rw [htext] at hread
  rw [htext', List.cons_append]
  unfold readScalar
  split <;> simp_all [Fallible.ok_bind]

/-- A value is read back from its text. -/
theorem reads_encode {v : Json} (hwf : v.WellFormed) (hlegible : v.Legible) {depth : Nat} (hdepth : v.depth ≤ depth) :
    Reads (readValue depth) v.encode v := by
  induction v using tree_induction generalizing depth with
  | null =>
    refine reads_scalar (b := 0x6E) rfl (by decide) (by decide) (by decide) (fun rest _ => ?_) depth
    exact keyword_append "null" Json.null rest
  | bool b =>
    cases b with
    | false =>
      refine reads_scalar (b := 0x66) rfl (by decide) (by decide) (by decide) (fun rest _ => ?_) depth
      exact keyword_append "false" (Json.bool false) rest
    | true =>
      refine reads_scalar (b := 0x74) rfl (by decide) (by decide) (by decide) (fun rest _ => ?_) depth
      exact keyword_append "true" (Json.bool true) rest
  | number n =>
    cases n with
    | int i => exact reads_number (n := .int i) (readNumber_int hwf) depth
    | double d => exact reads_number (n := .double d) (readNumber_double hlegible) depth
  | text s => exact escapes_escape.reads_value s depth
  | array items ih =>
    cases depth with
    | zero => exact absurd hdepth (Nat.not_succ_le_zero _)
    | succ depth =>
      have hitems := wellFormedItems_iff.1 hwf
      have hlegibles := legibleItems_iff.1 hlegible
      have hdepths := depthItems_le_iff.1 (Nat.le_of_succ_le_succ hdepth)
      have hreads (v) (hv : v ∈ items) := ih v hv (hitems v hv) (hlegibles v hv) (hdepths v hv)
      refine ⟨⟨0x5B, _, encode_array items, by decide⟩, fun rest _ => ?_⟩
      rw [encode_array, List.cons_append, List.append_assoc, List.singleton_append]
      change (readItems (readValue depth) (commas (items.map encode) ++ 0x5D :: rest) >>= _) = _
      rw [readItems_commas hreads]
      rfl
  | object members ih =>
    cases depth with
    | zero => exact absurd hdepth (Nat.not_succ_le_zero _)
    | succ depth =>
      have hmembers := wellFormedMembers_iff.1 hwf.2
      have hlegibles := legibleMembers_iff.1 hlegible
      have hdepths := depthMembers_le_iff.1 (Nat.le_of_succ_le_succ hdepth)
      have hreads (m) (hm : m ∈ members) := ih m hm (hmembers m hm) (hlegibles m hm) (hdepths m hm)
      refine ⟨⟨0x7B, _, encode_object members, by decide⟩, fun rest _ => ?_⟩
      rw [encode_object, List.cons_append, List.append_assoc, List.singleton_append]
      change (readMembers (readValue depth)
        (commas (members.map fun m => memberText m.1 m.2.encode) ++ 0x7D :: rest) >>= _) = _
      rw [readMembers_commas hreads]
      exact congrArg (fun ms => Except.ok (object ms, rest)) (ascending_of_pairwise hwf.1)

end RemoteTable.Json
