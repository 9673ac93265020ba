import Mathlib.Data.List.Lex
import Mathlib.Data.String.Basic
import RemoteTable.Bytes

/-!
# The order of texts is the order of their bytes

Texts are compared character by character, and a lesser character has lesser bytes in UTF-8: it is shorter and has a
lesser first byte, or it is as long and its six-bit digits are less in order (`utf8EncodeChar_lt`). So of two texts the
lesser is the one with the lesser bytes (`le_iff_bytes`).
-/

namespace RemoteTable

theorem digits_lt {m n : Nat} (h : m < n) : m / 64 < n / 64 ∨ m / 64 = n / 64 ∧ m % 64 < n % 64 := by omega

/-- The lesser of two characters has the lesser bytes, whatever comes after them. -/
theorem utf8EncodeChar_lt {c d : Char} (h : c < d) (x y : Bytes) :
    String.utf8EncodeChar c ++ x < String.utf8EncodeChar d ++ y := by
  have hlt : c.val.toNat < d.val.toNat := h
  have hmax : d.val.toNat < 0x110000 := by
    have hvalid := d.valid
    simp only [UInt32.isValidChar, Nat.isValidChar] at hvalid
    omega
  have hbyte {m n : Nat} (hm : m < 256) (hn : n < 256) : UInt8.ofNat m < UInt8.ofNat n ↔ m < n := by
    rw [UInt8.lt_iff_toNat_lt, UInt8.toNat_ofNat', UInt8.toNat_ofNat', Nat.mod_eq_of_lt hm, Nat.mod_eq_of_lt hn]
  have hsame {m n : Nat} (hm : m < 256) (hn : n < 256) : UInt8.ofNat m = UInt8.ofNat n ↔ m = n := by
    rw [← UInt8.toNat_inj, UInt8.toNat_ofNat', UInt8.toNat_ofNat', Nat.mod_eq_of_lt hm, Nat.mod_eq_of_lt hn]
  unfold String.utf8EncodeChar
  dsimp only
  generalize c.val.toNat = m at hlt ⊢
  generalize d.val.toNat = n at hlt hmax ⊢
  -- characters of different lengths differ in the first byte, those of one length in some digit
  split_ifs <;>
    simp (disch := omega) only [List.cons_append, List.nil_append, List.cons_lt_cons_iff, hbyte, hsame] <;>
    try omega
  have hlast := digits_lt hlt
  have hsecond : m / 64 < n / 64 → m / 4096 < n / 4096 ∨ m / 4096 = n / 4096 ∧ m / 64 % 64 < n / 64 % 64 := by omega
  have hfirst : m / 4096 < n / 4096 →
      m / 262144 < n / 262144 ∨ m / 262144 = n / 262144 ∧ m / 4096 % 64 < n / 4096 % 64 := by omega
  have htop : m / 262144 < 8 ∧ n / 262144 < 8 := by omega
  rw [Nat.mod_eq_of_lt htop.1, Nat.mod_eq_of_lt htop.2]
  rcases hlast with hlast | ⟨hsame, hlast⟩
  · rcases hsecond hlast with hsecond | ⟨hsame, hsecond⟩
    · rcases hfirst hsecond with hfirst | ⟨hsame, hfirst⟩ <;> omega
    · have htop' : m / 262144 = n / 262144 := by omega
      omega
  · have htop' : m / 262144 = n / 262144 := by omega
    have hmiddle : m / 4096 = n / 4096 := by omega
    omega

theorem append_lt_append (bs : Bytes) {x y : Bytes} (h : x < y) : bs ++ x < bs ++ y := by
  induction bs with
  | nil => exact h
  | cons b bs ih => exact List.cons_lt_cons_iff.2 (.inr ⟨rfl, ih⟩)

theorem utf8_lt {cs ds : List Char} (h : cs < ds) :
    cs.flatMap String.utf8EncodeChar < ds.flatMap String.utf8EncodeChar := by
  induction cs generalizing ds with
  | nil =>
    cases ds with
    | nil => exact absurd h (lt_irrefl _)
    | cons d ds =>
      obtain ⟨b, bs, hbytes⟩ := List.exists_cons_of_ne_nil (String.utf8EncodeChar_ne_nil (c := d))
      rw [List.flatMap_cons, hbytes]
      exact List.nil_lt_cons b _
  | cons c cs ih =>
    cases ds with
    | nil => exact absurd h (List.not_lt_nil _)
    | cons d ds =>
      rw [List.flatMap_cons, List.flatMap_cons]
      rcases List.cons_lt_cons_iff.1 h with hlt | ⟨rfl, hlt⟩
      · exact utf8EncodeChar_lt hlt _ _
      · exact append_lt_append _ (ih hlt)

theorem lt_iff_bytes (s t : String) : s < t ↔ Bytes.ofString s < Bytes.ofString t := by
  have hmono {s t : String} (h : s < t) : Bytes.ofString s < Bytes.ofString t := utf8_lt (String.lt_iff.1 h)
  refine ⟨hmono, fun h => ?_⟩
  rcases lt_trichotomy s t with hlt | rfl | hgt
  · exact hlt
  · exact absurd h (List.lt_irrefl _)
  · exact absurd h (List.lt_asymm (hmono hgt))

theorem le_iff_bytes (s t : String) : s ≤ t ↔ Bytes.ofString s ≤ Bytes.ofString t := by
  rw [← not_lt, ← List.not_lt]
  exact not_congr (lt_iff_bytes t s)

end RemoteTable
