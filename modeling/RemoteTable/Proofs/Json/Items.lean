import RemoteTable.Proofs.Json.Number

/-!
# Items between brackets

The reader of a container takes its items one by one, and the state it is in decides what it makes of the next.
`Takes` says that it takes some texts in order, each whatever follows it; then it takes them with commas between
them up to the closing bracket (`enclosed_commas`).
-/

namespace RemoteTable.Json

/-- What a value can begin with: no blank, no comma and no closing bracket. -/
def Opens (b : UInt8) : Prop := isBlank b = false ∧ b ≠ 0x2C ∧ b ≠ 0x5D ∧ b ≠ 0x7D

instance (b : UInt8) : Decidable (Opens b) := inferInstanceAs (Decidable (_ ∧ _))

theorem skipBlank_cons {b : UInt8} (h : isBlank b = false) (bs : Bytes) : skipBlank (b :: bs) = b :: bs := by
  simp [skipBlank, h]

/-- The reader takes a value off its text, whatever follows it. -/
structure Reads {α : Type} (reader : Reader α) (text : Bytes) (a : α) : Prop where
  opens : ∃ b tail, text = b :: tail ∧ Opens b
  read : ∀ rest, Delimited rest → reader (text ++ rest) = .ok (a, rest)

/-- Texts with commas between them. -/
def commas : List Bytes → Bytes
  | [] => []
  | t :: ts => t ++ ts.flatMap (0x2C :: ·)

variable {σ : Type} {item : σ → Reader σ}

/-- The items that stand in these texts are taken in order, from one state to another. -/
inductive Takes (item : σ → Reader σ) : σ → List Bytes → σ → Prop where
  | nil (s : σ) : Takes item s [] s
  | cons {s t u : σ} {text : Bytes} {texts : List Bytes} (first : Reads (item s) text t) (later : Takes item t texts u) :
    Takes item s (text :: texts) u

theorem length_le_flatMap (texts : List Bytes) : texts.length ≤ (texts.flatMap (0x2C :: ·)).length := by
  induction texts with
  | nil => exact Nat.le_refl 0
  | cons text texts ih =>
    rw [List.flatMap_cons, List.length_append, List.length_cons, List.length_cons]
    omega

theorem Takes.length_le {s t : σ} {texts : List Bytes} (h : Takes item s texts t) :
    texts.length ≤ (commas texts).length := by
  cases h with
  | nil => exact Nat.le_refl 0
  | @cons _ _ _ text texts first later =>
    obtain ⟨b, tail, rfl, -⟩ := first.opens
    have hlength := length_le_flatMap texts
    rw [commas, List.length_append, List.length_cons, List.length_cons]
    omega

section

variable {close : UInt8} (hclose : close = 0x5D ∨ close = 0x7D)

include hclose

theorem skipBlank_close (rest : Bytes) : skipBlank (close :: rest) = close :: rest :=
  skipBlank_cons (by rcases hclose with rfl | rfl <;> decide) rest

theorem delimited_more (texts : List Bytes) (rest : Bytes) :
    Delimited (texts.flatMap (0x2C :: ·) ++ close :: rest) := by
  cases texts with
  | nil => exact delimited_cons (.inr hclose) rest
  | cons text texts => exact delimited_cons (.inl rfl) _

/-- After an item come a comma and the next, or the closing bracket. -/
theorem separated_more {s t : σ} {texts : List Bytes} (h : Takes item s texts t) (bound rest : Bytes)
    (hbound : texts.length < bound.length) :
    separated close item bound false s (texts.flatMap (0x2C :: ·) ++ close :: rest) = .ok (t, rest) := by
  induction h generalizing bound with
  | nil s =>
    cases bound with
    | nil => exact absurd hbound (Nat.lt_irrefl 0)
    | cons c bound => simp only [List.flatMap_nil, List.nil_append, separated, skipBlank_close hclose, if_true]
  | @cons s t u text texts first later ih =>
    cases bound with
    | nil => exact absurd hbound (Nat.not_lt_zero _)
    | cons c bound =>
      have hcomma : (0x2C : UInt8) ≠ close := by rcases hclose with rfl | rfl <;> decide
      have hskip (bs : Bytes) : skipBlank (0x2C :: bs) = 0x2C :: bs := skipBlank_cons (by decide) bs
      rw [List.length_cons, List.length_cons] at hbound
      rw [List.flatMap_cons, List.cons_append, List.cons_append]
      simp only [separated, hskip, hcomma, if_false, Bool.false_eq_true, if_true]
      rw [List.append_assoc, first.read _ (delimited_more hclose texts rest), Fallible.ok_bind]
      exact ih bound (by omega)

theorem separated_commas {s t : σ} {texts : List Bytes} (h : Takes item s texts t) (bound rest : Bytes)
    (hbound : texts.length < bound.length) :
    separated close item bound true s (commas texts ++ close :: rest) = .ok (t, rest) := by
  cases bound with
  | nil => exact absurd hbound (Nat.not_lt_zero _)
  | cons c bound =>
    cases h with
    | nil => simp only [commas, List.nil_append, separated, skipBlank_close hclose, if_true]
    | @cons _ t _ text texts first later =>
      obtain ⟨b, tail, rfl, opens⟩ := first.opens
      have hread := first.read _ (delimited_more hclose texts rest)
      have hne : b ≠ close := by
        rcases hclose with rfl | rfl
        · exact opens.2.2.1
        · exact opens.2.2.2
      rw [List.length_cons, List.length_cons] at hbound
      rw [List.cons_append] at hread
      rw [commas, List.append_assoc, List.cons_append]
      simp only [separated, skipBlank_cons opens.1, hne, if_false, if_true, hread, Fallible.ok_bind]
      exact separated_more hclose later bound rest (by omega)

theorem enclosed_commas {s t : σ} {texts : List Bytes} (h : Takes item s texts t) (rest : Bytes) :
    enclosed close item s (commas texts ++ close :: rest) = .ok (t, rest) := by
  refine separated_commas hclose h _ rest ?_
  have hlength := h.length_le
  rw [List.length_append, List.length_cons]
  omega

end

/-! ## Items of one kind -/

variable {α : Type} {reader : Reader α}

theorem takes_items {text : α → Bytes} {as : List α} (h : ∀ a ∈ as, Reads reader (text a) a) (done : List α) :
    Takes (fun done bs => do
      let (v, rest) ← reader bs
      return (v :: done, rest)) done (as.map text) (as.reverse ++ done) := by
  induction as generalizing done with
  | nil => exact .nil done
  | cons a as ih =>
    have ha := h a List.mem_cons_self
    refine .cons (t := a :: done) ⟨ha.opens, fun rest hrest => ?_⟩ ?_
    · rw [ha.read rest hrest]
      rfl
    · rw [List.reverse_cons, List.append_assoc, List.singleton_append]
      exact ih (fun b hb => h b (List.mem_cons_of_mem a hb)) (a :: done)

theorem readItems_commas {text : α → Bytes} {as : List α} (h : ∀ a ∈ as, Reads reader (text a) a) (rest : Bytes) :
    readItems reader (commas (as.map text) ++ 0x5D :: rest) = .ok (as, rest) := by
  rw [readItems, enclosed_commas (.inl rfl) (takes_items h [])]
  simp

/-! ## Members -/

/-- A text that is read as a string, whatever follows it. -/
structure Spells (text : Bytes) (s : String) : Prop where
  opens : ∃ b tail, text = b :: tail ∧ Opens b
  read : ∀ rest, readText (text ++ rest) = .ok (s, rest)

theorem Escapes.spells {esc : Char → List Char} (h : Escapes esc) (s : String) : Spells (utf8 (quotedBy esc s)) s := by
  refine ⟨?_, h.readText s⟩
  rw [utf8_quotedBy]
  exact ⟨0x22, _, rfl, by decide⟩

theorem Spells.reads {text : Bytes} {s : String} (h : Spells text s) : Reads readText text s :=
  ⟨h.opens, fun rest _ => h.read rest⟩

theorem readMember_spelled {value : String → σ → Reader σ} {spelled text : Bytes} {key : String} {s t : σ}
    (hkey : Spells spelled key) (h : Reads (value key s) text t) :
    Reads (readMember value s) (spelled ++ 0x3A :: text) t := by
  refine ⟨?_, fun rest hrest => ?_⟩
  · obtain ⟨b, tail, rfl, hopens⟩ := hkey.opens
    exact ⟨b, tail ++ 0x3A :: text, rfl, hopens⟩
  · have hcolon (bs : Bytes) : punctuation 0x3A "a colon" (0x3A :: bs) = .ok bs := rfl
    rw [readMember, List.append_assoc, hkey.read, Fallible.ok_bind]
    simp only [List.cons_append, hcolon, Fallible.ok_bind]
    exact h.read rest hrest

section

variable {β : Type} {spelled : String → Bytes} (hspelled : ∀ key, Spells (spelled key) key) (text : β → Bytes)
  (value : β → α) {members : List (String × β)} (h : ∀ m ∈ members, Reads reader (text m.2) (value m.2))

include hspelled h

theorem takes_members (done : List (String × α)) :
    Takes (readMember fun key done bs => do
      let (v, rest) ← reader bs
      return ((key, v) :: done, rest)) done (members.map fun m => spelled m.1 ++ 0x3A :: text m.2)
      ((members.map fun m => (m.1, value m.2)).reverse ++ done) := by
  induction members generalizing done with
  | nil => exact .nil done
  | cons m members ih =>
    have hm := h m List.mem_cons_self
    refine .cons (t := (m.1, value m.2) :: done)
      (readMember_spelled (hspelled m.1) ⟨hm.opens, fun rest hrest => ?_⟩) ?_
    · rw [hm.read rest hrest]
      rfl
    · rw [List.map_cons, List.reverse_cons, List.append_assoc, List.singleton_append]
      exact ih (fun n hn => h n (List.mem_cons_of_mem m hn)) ((m.1, value m.2) :: done)

theorem readMembers_spelled (rest : Bytes) :
    readMembers reader (commas (members.map fun m => spelled m.1 ++ 0x3A :: text m.2) ++ 0x7D :: rest) =
      .ok (members.map fun m => (m.1, value m.2), rest) := by
  rw [readMembers, enclosed_commas (.inr rfl) (takes_members hspelled text value h [])]
  simp

end

def memberText (key : String) (value : Bytes) : Bytes := utf8 (quoted key) ++ 0x3A :: value

theorem readMember_text {value : String → σ → Reader σ} {key : String} {text : Bytes} {s t : σ}
    (h : Reads (value key s) text t) : Reads (readMember value s) (memberText key text) t :=
  readMember_spelled (escapes_escape.spells key) h

theorem readMembers_commas {text : α → Bytes} {members : List (String × α)}
    (h : ∀ m ∈ members, Reads reader (text m.2) m.2) (rest : Bytes) :
    readMembers reader (commas (members.map fun m => memberText m.1 (text m.2)) ++ 0x7D :: rest) =
      .ok (members, rest) := by
  have hread := readMembers_spelled escapes_escape.spells text id h rest
  have hsame : members.map (fun m => (m.1, id m.2)) = members := List.map_id members
  rw [hsame] at hread
  exact hread

end RemoteTable.Json
