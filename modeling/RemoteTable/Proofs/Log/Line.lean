import Mathlib.Data.List.Nodup
import RemoteTable.Log.Record
import RemoteTable.Proofs.ByteOrder
import RemoteTable.Proofs.Json.Value

/-!
# Log lines read back

A record's line keeps all of the record. Its escapes are read back as the characters they stand for
(`Record.escapes_escape`) and contain no control character (`Record.not_isControl_escape`), so the line is strict JSON
on one line, and a reader that keeps the members in order and keeps repeated ones takes off it exactly the members that
were written (`Record.readObject_line`). Sorting the fields loses nothing but the order of different keys
(`Record.filter_sortedFields`), and texts of many lines fall apart into these lines only (`Written.splitOn_text`). Hence
the main result: whatever the texts of a record are, no line is forged and no field (`Record.lines_read_back`).
-/

namespace RemoteTable

open Json (Escapes Reads Spells commas readText utf8)

/-- Reads an object as the list of its members, in the order of the text and with repeated keys. -/
def Json.readObject {α : Type} (value : Reader α) : Reader (List (String × α)) := fun bs => do
  readMembers value (← punctuation 0x7B "an object" bs)

theorem Json.readObject_cons {α : Type} (value : Reader α) (bs : Bytes) :
    readObject value (0x7B :: bs) = readMembers value bs := rfl

theorem Json.utf8_intercalate (texts : List (List Char)) :
    utf8 (List.intercalate [','] texts) = commas (texts.map utf8) := by
  induction texts with
  | nil => rfl
  | cons text texts ih =>
    cases texts with
    | nil =>
      rw [List.intercalate_singleton]
      exact (List.append_nil (utf8 text)).symm
    | cons next texts =>
      rw [List.intercalate_cons_cons, Json.utf8_append, Json.utf8_append, ih, List.append_assoc]
      rfl

theorem Severity.name_inj {s t : Severity} (h : s.name = t.name) : s = t := by
  revert h
  cases s <;> cases t <;> decide

namespace Record

/-! ## Characters -/

theorem hex4_eq : ∀ n < 256, hex4 n = ['0', '0', Nat.digitChar (n / 16), Nat.digitChar (n % 16)] := by decide +kernel

theorem lt_of_isControl {c : Char} (h : isControl c = true) : c.toNat < 0xA0 := by
  simp only [isControl, Bool.or_eq_true, Bool.and_eq_true, decide_eq_true_eq] at h
  omega

/-- What is written for a character in a log line is read as the character. -/
theorem escapes_escape : Escapes escape := by
  intro c done rest
  unfold escape
  split
  · rfl
  · rfl
  · rfl
  · rfl
  · rfl
  · rename_i hquote hslash _ _ _
    split
    · rename_i hcontrol
      have hlt : c.toNat < 256 := Nat.lt_trans (lt_of_isControl hcontrol) (by decide)
      rw [hex4_eq _ hlt]
      exact Json.scanText_number hlt done rest
    · rename_i hcontrol
      refine Json.scanText_self (Nat.le_of_not_lt fun hlt => hcontrol ?_) hquote hslash done rest
      simp [isControl, hlt]

theorem any_isControl_hex4 : ∀ n < 0xA0, ('\\' :: 'u' :: hex4 n).any isControl = false := by decide +kernel

theorem any_isControl_escape (c : Char) : (escape c).any isControl = false := by
  unfold escape
  split
  · rfl
  · rfl
  · rfl
  · rfl
  · rfl
  · split
    · rename_i hcontrol
      exact any_isControl_hex4 _ (lt_of_isControl hcontrol)
    · rename_i hcontrol
      rw [List.any_cons, List.any_nil, Bool.or_false]
      exact Bool.eq_false_of_not_eq_true hcontrol

/-- What is written for a character has no control character. -/
theorem not_isControl_escape (c : Char) : ∀ x ∈ escape c, isControl x = false := by
  intro x hx
  exact Bool.eq_false_of_not_eq_true (List.any_eq_false.1 (any_isControl_escape c) x hx)

/-! ## The line -/

def memberChars (m : String × String) : List Char := quoted m.1 ++ ':' :: quoted m.2

theorem toList_line (r : Record) :
    r.line.toList = '\x7b' :: List.intercalate [','] (r.members.map memberChars) ++ ['\x7d'] := String.toList_ofList

theorem utf8_memberChars (m : String × String) :
    utf8 (memberChars m) = utf8 (quoted m.1) ++ 0x3A :: utf8 (quoted m.2) := by
  rw [memberChars, Json.utf8_append, Json.utf8_cons]
  rfl

theorem ofString_line (r : Record) :
    Bytes.ofString r.line =
      0x7B :: (commas (r.members.map fun m => utf8 (quoted m.1) ++ 0x3A :: utf8 (quoted m.2)) ++ [0x7D]) := by
  change utf8 r.line.toList = _
  rw [toList_line, List.cons_append, Json.utf8_cons, Json.utf8_append, Json.utf8_intercalate, List.map_map]
  simp only [Function.comp_def, utf8_memberChars]
  rfl

theorem not_isControl_quoted (s : String) : ∀ c ∈ quoted s, isControl c = false := by
  intro c hc
  simp only [quoted, List.cons_append, List.mem_cons, List.mem_append, List.mem_flatMap, List.not_mem_nil,
    or_false] at hc
  rcases hc with rfl | ⟨d, -, hd⟩ | rfl
  · rfl
  · exact not_isControl_escape d c hd
  · rfl

theorem not_isControl_memberChars (m : String × String) : ∀ c ∈ memberChars m, isControl c = false := by
  intro c hc
  rcases List.mem_append.1 hc with hkey | hrest
  · exact not_isControl_quoted m.1 c hkey
  · rcases List.mem_cons.1 hrest with rfl | hvalue
    · rfl
    · exact not_isControl_quoted m.2 c hvalue

theorem not_isControl_intercalate {texts : List (List Char)} (h : ∀ text ∈ texts, ∀ c ∈ text, isControl c = false) :
    ∀ c ∈ List.intercalate [','] texts, isControl c = false := by
  induction texts with
  | nil => exact fun c hc => absurd hc List.not_mem_nil
  | cons text texts ih =>
    have hfirst := h text List.mem_cons_self
    cases texts with
    | nil =>
      rw [List.intercalate_singleton]
      exact hfirst
    | cons next texts =>
      rw [List.intercalate_cons_cons, List.forall_mem_append, List.forall_mem_append, List.forall_mem_singleton]
      exact ⟨⟨hfirst, rfl⟩, ih fun text htext => h text (List.mem_cons_of_mem _ htext)⟩

/-- A line has no control character, whatever its record's texts are. -/
theorem not_isControl_line (r : Record) : ∀ c ∈ r.line.toList, isControl c = false := by
  rw [toList_line, List.forall_mem_append, List.forall_mem_cons, List.forall_mem_singleton]
  refine ⟨⟨rfl, not_isControl_intercalate fun text htext => ?_⟩, rfl⟩
  obtain ⟨m, -, rfl⟩ := List.mem_map.1 htext
  exact not_isControl_memberChars m

/-! ## Reading -/

theorem spells_quoted (s : String) : Spells (utf8 (quoted s)) s := escapes_escape.spells s

/-- The members of a line are taken off it by any reader of their values. -/
theorem readMembers_line {α : Type} {reader : Json.Reader α} {value : String → α}
    (h : ∀ s, Reads reader (utf8 (quoted s)) (value s)) (r : Record) (rest : Bytes) :
    Json.readMembers reader
        (commas (r.members.map fun m => utf8 (quoted m.1) ++ 0x3A :: utf8 (quoted m.2)) ++ 0x7D :: rest) =
      .ok (r.members.map fun m => (m.1, value m.2), rest) :=
  Json.readMembers_spelled spells_quoted (fun s => utf8 (quoted s)) value (fun m _ => h m.2) rest

/-- A line is one object, and its members are those that were written, in their order and with repeated keys. -/
theorem readObject_line (r : Record) :
    Json.complete (Json.readObject readText) (Bytes.ofString r.line) = .ok r.members := by
  have hread : Json.readObject readText (Bytes.ofString r.line) = .ok (r.members.map fun m => (m.1, m.2), []) := by
    rw [ofString_line, Json.readObject_cons]
    exact readMembers_line (fun s => (spells_quoted s).reads) r []
  have hsame : r.members.map (fun m => (m.1, m.2)) = r.members := List.map_id r.members
  rw [hsame] at hread
  rw [Json.complete, hread]
  rfl

theorem readValue_line (r : Record) (depth : Nat) :
    Json.readValue (depth + 1) (Bytes.ofString r.line) =
      .ok (.ofMembers (r.members.map fun m => (m.1, .text m.2)), []) := by
  rw [ofString_line]
  change (Json.readMembers (Json.readValue depth) _ >>= _) = _
  rw [readMembers_line (fun s => escapes_escape.reads_value s depth) r []]
  rfl

/-- As a value a line is the object of these members, of equal keys the last. -/
theorem parse_line (r : Record) :
    Json.parse (Bytes.ofString r.line) = .ok (.ofMembers (r.members.map fun m => (m.1, .text m.2))) := by
  rw [Json.parse, Json.complete, Json.maxDepth, readValue_line]
  rfl

/-! ## The order of the fields -/

/-- Whether a field may stand before another. -/
def fieldLE (a b : String × String) : Bool := a.1 ≤ b.1

theorem fieldLE_trans (a b c : String × String) (hab : fieldLE a b = true) (hbc : fieldLE b c = true) :
    fieldLE a c = true := by
  simp only [fieldLE, decide_eq_true_eq] at hab hbc ⊢
  exact String.le_trans hab hbc

theorem fieldLE_total (a b : String × String) : (fieldLE a b || fieldLE b a) = true := by
  simp only [fieldLE, Bool.or_eq_true, decide_eq_true_eq]
  exact String.le_total a.1 b.1

variable (r : Record)

theorem sortedFields_perm : r.sortedFields.Perm r.fields := List.mergeSort_perm r.fields fieldLE

theorem pairwise_sortedFields : r.sortedFields.Pairwise fun a b => fieldLE a b = true :=
  List.pairwise_mergeSort fieldLE_trans fieldLE_total r.fields

/-- Fields of one key stand in their given order. -/
theorem filter_sortedFields (key : String) :
    (r.sortedFields.filter fun f => f.1 = key) = r.fields.filter fun f => f.1 = key := by
  have hequal : (r.fields.filter fun f => f.1 = key).Pairwise fun a b => fieldLE a b = true := by
    refine List.pairwise_of_forall_mem_list fun a ha b hb => ?_
    have ha := (List.mem_filter.1 ha).2
    have hb := (List.mem_filter.1 hb).2
    simp only [decide_eq_true_eq] at ha hb
    simp only [fieldLE, ha, hb, decide_eq_true_eq]
    exact String.le_refl key
  -- they are in order already, and sorting keeps the order of what is
  have hsub : (r.fields.filter fun f => f.1 = key).Sublist r.sortedFields :=
    List.sublist_mergeSort fieldLE_trans fieldLE_total hequal List.filter_sublist
  have hkept := hsub.filter fun f => decide (f.1 = key)
  rw [List.filter_filter] at hkept
  simp only [Bool.and_self] at hkept
  exact (hkept.eq_of_length (r.sortedFields_perm.filter _).length_eq.symm).symm

/-- Fields of distinct keys have one order only. -/
theorem sortedFields_congr {r r' : Record} (h : r.fields.Perm r'.fields) (hkeys : (r.fields.map Prod.fst).Nodup) :
    r.sortedFields = r'.sortedFields := by
  have hperm : r.sortedFields.Perm r'.sortedFields :=
    r.sortedFields_perm.trans (h.trans r'.sortedFields_perm.symm)
  refine hperm.eq_of_pairwise (fun a b ha hb hab hba => ?_) r.pairwise_sortedFields r'.pairwise_sortedFields
  simp only [fieldLE, decide_eq_true_eq] at hab hba
  have ha' := r.sortedFields_perm.mem_iff.1 ha
  have hb' := h.symm.mem_iff.1 (r'.sortedFields_perm.mem_iff.1 hb)
  exact List.inj_on_of_nodup_map hkeys ha' hb' (String.le_antisymm hab hba)

/-! ## What a line keeps -/

/-- What is read off the line of a record: its event, its severity, and these fields. -/
structure ReadBack (fields : List (String × String)) : Prop where
  /-- The members are these, in this order and with repeated keys. -/
  members : Json.complete (Json.readObject readText) (Bytes.ofString r.line) =
    .ok (("event", r.event) :: ("severity", r.severity.name) :: fields)
  /-- As a value, where of equal keys the last counts, the line is the object of these members. -/
  value : Json.parse (Bytes.ofString r.line) =
    .ok (.ofMembers (("event", .text r.event) :: ("severity", .text r.severity.name) ::
      fields.map fun f => (f.1, .text f.2)))
  /-- No field is lost and none is added. -/
  same : fields.Perm r.fields
  /-- The keys ascend in the order of their bytes. -/
  ascending : fields.Pairwise fun a b => Bytes.ofString a.1 ≤ Bytes.ofString b.1
  /-- Equal keys have their given order. -/
  stable : ∀ key, (fields.filter fun f => f.1 = key) = r.fields.filter fun f => f.1 = key

theorem readBack_sortedFields : r.ReadBack r.sortedFields where
  members := r.readObject_line
  value := r.parse_line
  same := r.sortedFields_perm
  ascending := by
    refine r.pairwise_sortedFields.imp fun {a b} hab => ?_
    simp only [fieldLE, decide_eq_true_eq] at hab
    exact (le_iff_bytes a.1 b.1).1 hab
  stable := r.filter_sortedFields

/-- Records with one line are the same but for the order of different keys. -/
theorem eq_of_line {r r' : Record} (h : r.line = r'.line) : r.severity = r'.severity ∧ r.event = r'.event ∧
    ∀ key, (r.fields.filter fun f => f.1 = key) = r'.fields.filter fun f => f.1 = key := by
  have hmembers : r.members = r'.members := by
    have hread := r.readObject_line
    rw [h, r'.readObject_line] at hread
    exact (Except.ok.inj hread).symm
  simp only [members, List.cons.injEq, Prod.mk.injEq, true_and] at hmembers
  obtain ⟨hevent, hseverity, hfields⟩ := hmembers
  refine ⟨Severity.name_inj hseverity, hevent, fun key => ?_⟩
  rw [← r.filter_sortedFields, hfields, r'.filter_sortedFields]

/-- The given order of fields of distinct keys is not seen in the line. -/
theorem line_congr {r r' : Record} (hseverity : r.severity = r'.severity) (hevent : r.event = r'.event)
    (hfields : r.fields.Perm r'.fields) (hkeys : (r.fields.map Prod.fst).Nodup) : r.line = r'.line := by
  have hmembers : r.members = r'.members := by
    rw [members, members, hseverity, hevent, sortedFields_congr hfields hkeys]
  rw [line, line, hmembers]

end Record

/-! ## Streams -/

theorem Written.splitOn_text (rs : List Record) :
    (Written.text (rs.map Record.line)).toList.splitOn '\n' = rs.map (fun r => r.line.toList) ++ [[]] := by
  induction rs with
  | nil => rfl
  | cons r rs ih =>
    have hline : '\n' ∉ r.line.toList := fun hmem => Bool.noConfusion (r.not_isControl_line '\n' hmem)
    have htext : (Written.text ((r :: rs).map Record.line)).toList =
        r.line.toList ++ '\n' :: (Written.text (rs.map Record.line)).toList := by
      rw [Written.text, Written.text, String.toList_join, String.toList_join, List.map_cons, List.map_cons,
        List.flatMap_cons, String.toList_append, List.append_assoc]
      rfl
    rw [htext, List.splitOn_append_cons_self, List.splitOn_eq_singleton hline, ih]
    rfl

/-- A kept record is written as its line and a line break, to one of the streams. -/
theorem Logger.text_write (l : Logger) {r : Record} (h : l.enabled r.severity = true) :
    Written.text (l.write [r]).out ++ Written.text (l.write [r]).err = r.line ++ "\n" := by
  have hkept : [r].filter (fun r => l.enabled r.severity) = [r] := by
    rw [List.filter_cons, h]
    rfl
  simp only [write, hkept]
  cases hurgent : r.severity.isUrgent <;>
    simp [hurgent, Written.text]

/-- Whatever the texts of a record are, its line is one line of strict JSON, off which the record is read as it was
written. What a logger writes falls apart into such lines, and of two records with one line only the order of different
keys may differ. -/
theorem Record.lines_read_back :
    (∀ r : Record,
      (∀ l : Logger, l.enabled r.severity = true →
        Written.text (l.write [r]).out ++ Written.text (l.write [r]).err = r.line ++ "\n") ∧
      (∀ c ∈ r.line.toList, ¬ (c.toNat ≤ 0x1F ∨ 0x7F ≤ c.toNat ∧ c.toNat ≤ 0x9F)) ∧
      ∃ fields, r.ReadBack fields) ∧
    (∀ (l : Logger) (rs : List Record),
      (Written.text (l.write rs).out).toList.splitOn '\n' =
        (rs.filter fun r => l.enabled r.severity && !r.severity.isUrgent).map (fun r => r.line.toList) ++ [[]] ∧
      (Written.text (l.write rs).err).toList.splitOn '\n' =
        (rs.filter fun r => l.enabled r.severity && r.severity.isUrgent).map (fun r => r.line.toList) ++ [[]]) ∧
    (∀ r r' : Record, r.line = r'.line → r.severity = r'.severity ∧ r.event = r'.event ∧
      ∀ key, (r.fields.filter fun f => f.1 = key) = r'.fields.filter fun f => f.1 = key) ∧
    ∀ r r' : Record, r.severity = r'.severity → r.event = r'.event → r.fields.Perm r'.fields →
      (r.fields.map Prod.fst).Nodup → r.line = r'.line := by
  refine ⟨fun r => ⟨fun l => l.text_write, fun c hc => ?_, r.sortedFields, r.readBack_sortedFields⟩,
    fun l rs => ⟨?_, ?_⟩, fun r r' => eq_of_line, fun r r' => line_congr⟩
  · have hcontrol := r.not_isControl_line c hc
    simp only [isControl, Bool.or_eq_false_iff, Bool.and_eq_false_iff, decide_eq_false_iff_not] at hcontrol
    omega
  · rw [Logger.write, Written.splitOn_text, List.filter_filter]
    simp only [Bool.and_comm]
  · rw [Logger.write, Written.splitOn_text, List.filter_filter]
    simp only [Bool.and_comm]

/-- A message that looks like the end of its line and another line, in two orders of the fields. -/
theorem Record.lines_read_back_of_forgery :
    let forged : String × String := ("message", "\"\x7d\n\x7b\"event\":\"FORGED\",\"\\\x00\x1f\x7f\u009f\":\"")
    let r : Record := ⟨.warn, "TEST", [forged, ("code", "2"), ("", "\r\t")]⟩
    let r' : Record := ⟨.warn, "TEST", [("", "\r\t"), forged, ("code", "2")]⟩
    let l : Logger := ⟨.info⟩
    Written.text (l.write [r]).out ++ Written.text (l.write [r]).err = r.line ++ "\n" ∧ r.line = r'.line ∧
    (∀ key, (r.fields.filter fun f => f.1 = key) = r'.fields.filter fun f => f.1 = key) ∧
    ∀ c ∈ r.line.toList, ¬ (c.toNat ≤ 0x1F ∨ 0x7F ≤ c.toNat ∧ c.toNat ≤ 0x9F) := by
  intro forged r r' l
  obtain ⟨hlines, -, hforged, hsorted⟩ := lines_read_back
  obtain ⟨htext, hcontrol, -⟩ := hlines r
  have hperm : r.fields.Perm r'.fields := List.perm_append_singleton ("", "\r\t") [forged, ("code", "2")]
  have hkeys : (r.fields.map Prod.fst).Nodup := by
    have hnames : r.fields.map Prod.fst = ["message", "code", ""] := rfl
    rw [hnames]
    decide
  have hline : r.line = r'.line := hsorted r r' rfl rfl hperm hkeys
  exact ⟨htext l rfl, hline, (hforged r r' hline).2.2, hcontrol⟩

end RemoteTable
