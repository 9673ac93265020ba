import RemoteTable.Json.Printer
import RemoteTable.Json.Reader
import RemoteTable.Proofs.Fallible

/-!
# Strings read back

A string is read back from its written form, whatever follows its closing quote (`Escapes.readText`). The reader
works on bytes and the writer on characters, so the step is a character: its escape, as bytes, is read as the
character's own bytes (`escapes_escape`). Any way to escape will do that has this property (`Escapes`).
-/

namespace RemoteTable.Json

def utf8 (cs : List Char) : Bytes := cs.flatMap String.utf8EncodeChar

@[simp] theorem utf8_nil : utf8 [] = [] := rfl

theorem utf8_cons (c : Char) (cs : List Char) : utf8 (c :: cs) = String.utf8EncodeChar c ++ utf8 cs := List.flatMap_cons

@[simp] theorem utf8_append (cs ds : List Char) : utf8 (cs ++ ds) = utf8 cs ++ utf8 ds := List.flatMap_append

theorem encode_eq (v : Json) : v.encode = utf8 v.chars := rfl

theorem utf8EncodeChar_of_lt {c : Char} (h : c.toNat < 128) : String.utf8EncodeChar c = [UInt8.ofNat c.toNat] := by
  have hle : c.val.toNat ≤ 0x7f := by
    unfold Char.toNat at h
    omega
  exact if_pos hle

theorem utf8_of_ascii {cs : List Char} (h : ∀ c ∈ cs, c.toNat < 128) :
    utf8 cs = cs.map fun c => UInt8.ofNat c.toNat := by
  induction cs with
  | nil => rfl
  | cons c cs ih =>
    rw [utf8_cons, utf8EncodeChar_of_lt (h c List.mem_cons_self), ih fun d hd => h d (List.mem_cons_of_mem c hd)]
    rfl

/-! ## One character -/

/-- Whether a byte stands for itself inside a string. -/
def isPlain (b : UInt8) : Bool := 0x20 ≤ b && b != 0x22 && b != 0x5C

theorem isPlain_of_ge {n : Nat} (h : 128 ≤ n) (hlt : n < 256) : isPlain (UInt8.ofNat n) = true := by
  have hn : (UInt8.ofNat n).toNat = n := by
    rw [UInt8.toNat_ofNat']
    omega
  have hge : (0x20 : UInt8) ≤ UInt8.ofNat n := by
    rw [UInt8.le_iff_toNat_le, hn]
    exact Nat.le_trans (by decide) h
  have hquote : UInt8.ofNat n ≠ 0x22 := fun heq => by
    have := congrArg UInt8.toNat heq
    rw [hn] at this
    exact absurd (this ▸ h) (by decide)
  have hslash : UInt8.ofNat n ≠ 0x5C := fun heq => by
    have := congrArg UInt8.toNat heq
    rw [hn] at this
    exact absurd (this ▸ h) (by decide)
  simp [isPlain, hge, hquote, hslash]

/-- Outside ASCII every byte of a character stands for itself. -/
theorem isPlain_of_mem_utf8 {c : Char} (h : 128 ≤ c.toNat) : ∀ b ∈ String.utf8EncodeChar c, isPlain b = true := by
  have hv : ¬ c.val.toNat ≤ 0x7f := by
    unfold Char.toNat at h
    omega
  intro b hb
  simp only [String.utf8EncodeChar, hv, if_false] at hb
  split at hb
  · simp only [List.mem_cons, List.not_mem_nil, or_false] at hb
    rcases hb with rfl | rfl <;> exact isPlain_of_ge (by omega) (by omega)
  · split at hb
    · simp only [List.mem_cons, List.not_mem_nil, or_false] at hb
      rcases hb with rfl | rfl | rfl <;> exact isPlain_of_ge (by omega) (by omega)
    · simp only [List.mem_cons, List.not_mem_nil, or_false] at hb
      rcases hb with rfl | rfl | rfl | rfl <;> exact isPlain_of_ge (by omega) (by omega)

theorem scanText_cons {b : UInt8} (h : isPlain b = true) (done rest : Bytes) :
    scanText done (b :: rest) = scanText (b :: done) rest := by
  simp only [isPlain, Bool.and_eq_true, decide_eq_true_eq, bne_iff_ne, ne_eq] at h
  obtain ⟨⟨hge, hquote⟩, hslash⟩ := h
  have hlt : ¬ b < 0x20 := UInt8.not_lt.2 hge
  rw [scanText.eq_def]
  split
  · simp_all
  · simp_all
  · simp_all
  · simp_all
  · rename_i heq
    cases heq
    rw [if_neg hlt]

theorem scanText_plain {bs : Bytes} (h : ∀ b ∈ bs, isPlain b = true) (done rest : Bytes) :
    scanText done (bs ++ rest) = scanText (bs.reverse ++ done) rest := by
  induction bs generalizing done with
  | nil => rfl
  | cons b bs ih =>
    rw [List.cons_append, scanText_cons (h b List.mem_cons_self), ih fun c hc => h c (List.mem_cons_of_mem b hc)]
    simp

theorem codeUnit?_escape : ∀ n < 256, codeUnit? 0x30 0x30 (UInt8.ofNat (Nat.digitChar (n / 16)).toNat)
    (UInt8.ofNat (Nat.digitChar (n % 16)).toNat) = some n := by decide +kernel

theorem utf8_numberEscape : ∀ n < 256,
    utf8 ['\\', 'u', '0', '0', Nat.digitChar (n / 16), Nat.digitChar (n % 16)] =
      [0x5C, 0x75, 0x30, 0x30, UInt8.ofNat (Nat.digitChar (n / 16)).toNat,
        UInt8.ofNat (Nat.digitChar (n % 16)).toNat] := by decide +kernel

/-- A character of one byte's number is read from its escape by number. -/
theorem scanText_number {c : Char} (h : c.toNat < 256) (done rest : Bytes) :
    scanText done (utf8 ['\\', 'u', '0', '0', Nat.digitChar (c.toNat / 16), Nat.digitChar (c.toNat % 16)] ++ rest) =
      scanText ((String.utf8EncodeChar c).reverse ++ done) rest := by
  have hhigh : isHighSurrogate c.toNat = false := by
    simp only [isHighSurrogate, Bool.and_eq_false_iff, decide_eq_false_iff_not]
    omega
  have hlow : isLowSurrogate c.toNat = false := by
    simp only [isLowSurrogate, Bool.and_eq_false_iff, decide_eq_false_iff_not]
    omega
  rw [utf8_numberEscape _ h]
  simp only [List.cons_append, List.nil_append, scanText, codeUnit?_escape _ h, hhigh, hlow, Char.ofNat_toNat,
    Bool.false_eq_true, if_false]

theorem isPlain_of_lt : ∀ n < 128, 32 ≤ n → n ≠ 0x22 → n ≠ 0x5C → isPlain (UInt8.ofNat n) = true := by decide

/-- A character that needs no escape is read as it stands. -/
theorem scanText_self {c : Char} (hge : 32 ≤ c.toNat) (hquote : c ≠ '"') (hslash : c ≠ '\\') (done rest : Bytes) :
    scanText done (utf8 [c] ++ rest) = scanText ((String.utf8EncodeChar c).reverse ++ done) rest := by
  rw [utf8_cons, utf8_nil, List.append_nil]
  refine scanText_plain (fun b hb => ?_) done rest
  by_cases hascii : c.toNat < 128
  · rw [utf8EncodeChar_of_lt hascii, List.mem_singleton] at hb
    subst hb
    refine isPlain_of_lt _ hascii hge (fun heq => hquote ?_) (fun heq => hslash ?_)
    · exact Char.toNat_inj.1 heq
    · exact Char.toNat_inj.1 heq
  · exact isPlain_of_mem_utf8 (by omega) b hb

/-- What is written for a character is read as the character, whatever was read before and whatever follows. -/
def Escapes (esc : Char → List Char) : Prop := ∀ c done rest,
  scanText done (utf8 (esc c) ++ rest) = scanText ((String.utf8EncodeChar c).reverse ++ done) rest

theorem escapes_escape : Escapes escape := by
  intro c done rest
  unfold escape
  split
  · rfl
  · rfl
  · rfl
  · rfl
  · rfl
  · rfl
  · rfl
  · rename_i hquote hslash _ _ _ _ _
    split
    · rename_i hlt
      exact scanText_number (Nat.lt_trans hlt (by decide)) done rest
    · rename_i hge
      exact scanText_self (Nat.le_of_not_lt hge) hquote hslash done rest

/-! ## A string -/

/-- A string between quotes, each character as it is escaped. -/
def quotedBy (esc : Char → List Char) (s : String) : List Char := '"' :: s.toList.flatMap esc ++ ['"']

theorem utf8_quotedBy (esc : Char → List Char) (s : String) :
    utf8 (quotedBy esc s) = 0x22 :: (utf8 (s.toList.flatMap esc) ++ [0x22]) := by
  rw [quotedBy, List.cons_append, utf8_cons, utf8_append]
  rfl

theorem utf8_quoted (s : String) : utf8 (quoted s) = 0x22 :: (utf8 (s.toList.flatMap escape) ++ [0x22]) :=
  utf8_quotedBy escape s

namespace Escapes

variable {esc : Char → List Char} (h : Escapes esc)
include h

theorem scanText (cs : List Char) (done rest : Bytes) :
    scanText done (utf8 (cs.flatMap esc) ++ 0x22 :: rest) = some (done.reverse ++ utf8 cs, rest) := by
  induction cs generalizing done with
  | nil => simp [Json.scanText]
  | cons c cs ih =>
    rw [List.flatMap_cons, utf8_append, List.append_assoc, h, ih, utf8_cons]
    simp

theorem readText (s : String) (rest : Bytes) : readText (utf8 (quotedBy esc s) ++ rest) = .ok (s, rest) := by
  have hscan : Json.scanText [] (utf8 (s.toList.flatMap esc) ++ [0x22] ++ rest) = some (Bytes.ofString s, rest) := by
    rw [List.append_assoc, List.singleton_append, h.scanText]
    rfl
  rw [utf8_quotedBy, List.cons_append]
  change (Except.ok (utf8 (s.toList.flatMap esc) ++ [0x22] ++ rest) >>= _) = _
  simp only [Fallible.ok_bind, hscan, Bytes.toString?_ofString]
  rfl

end Escapes

end RemoteTable.Json
