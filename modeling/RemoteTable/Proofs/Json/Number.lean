import RemoteTable.Proofs.Json.Text

/-!
# Numbers read back

Whether a number reads back is a question about its own text: what follows it does not matter as long as it begins
with a comma or a closing bracket (`readNumber_append`). An integer in range always reads back (`readNumber_int`). A
double need not: the reader scales a word by a power of ten and rounds twice. `ReadsBack` is the condition.
-/

namespace RemoteTable.Json

/-- What can stand after a value: nothing, a comma or a closing bracket. -/
def Delimited (rest : Bytes) : Prop := ∀ b ∈ rest.head?, b = 0x2C ∨ b = 0x5D ∨ b = 0x7D

theorem delimited_nil : Delimited [] := by
  intro b hb
  cases hb

theorem delimited_cons {b : UInt8} (h : b = 0x2C ∨ b = 0x5D ∨ b = 0x7D) (rest : Bytes) : Delimited (b :: rest) := by
  intro c hc
  cases hc
  exact h

theorem Delimited.head_ne {rest : Bytes} (h : Delimited rest) {b : UInt8} (hb : b ∈ rest.head?) :
    isDigit b = false ∧ b ≠ 0x2E ∧ b ≠ 0x65 ∧ b ≠ 0x45 := by
  rcases h b hb with rfl | rfl | rfl <;> decide

/-! ## A literal and what follows it -/

namespace Literal

theorem span_append {p : UInt8 → Bool} {rest : Bytes} (h : ∀ b ∈ rest.head?, p b = false) (bs : Bytes) :
    (bs ++ rest).takeWhile p = bs.takeWhile p ∧ (bs ++ rest).dropWhile p = bs.dropWhile p ++ rest := by
  induction bs with
  | nil =>
    cases rest with
    | nil => exact ⟨rfl, rfl⟩
    | cons b rest => simp [h b rfl]
  | cons b bs ih =>
    by_cases hb : p b = true
    · simp [hb, ih]
    · simp [hb]

theorem digits_append {rest : Bytes} (h : Delimited rest) (bs : Bytes) :
    digits (bs ++ rest) = ((digits bs).1, (digits bs).2 ++ rest) := by
  obtain ⟨htake, hdrop⟩ := span_append (p := isDigit) (fun b hb => (h.head_ne hb).1) bs
  rw [digits, htake, hdrop]
  rfl

theorem scanWhole?_append {rest bs left : Bytes} {ds : List Nat} (h : Delimited rest)
    (hscan : scanWhole? bs = some (ds, left)) : scanWhole? (bs ++ rest) = some (ds, left ++ rest) := by
  unfold scanWhole? at hscan ⊢
  rw [digits_append h]
  rcases hdigits : digits bs with ⟨_ | ⟨_ | d, _ | ⟨e, more⟩⟩, after⟩ <;>
    simp only [hdigits, reduceCtorEq, Option.some.injEq, Prod.mk.injEq] at hscan ⊢ <;>
    exact ⟨hscan.1, by rw [hscan.2]⟩

theorem scanFraction?_append {rest bs left : Bytes} {ds : List Nat} (h : Delimited rest)
    (hscan : scanFraction? bs = some (ds, left)) : scanFraction? (bs ++ rest) = some (ds, left ++ rest) := by
  cases bs with
  | nil =>
    obtain ⟨rfl, rfl⟩ := Prod.mk.inj (Option.some.inj hscan)
    cases rest with
    | nil => rfl
    | cons b rest =>
      have hpoint := (h.head_ne rfl).2.1
      simp [scanFraction?, hpoint]
  | cons b bs =>
    by_cases hpoint : b = 0x2E
    · subst hpoint
      simp only [List.cons_append, scanFraction?] at hscan ⊢
      rw [digits_append h]
      rcases hdigits : digits bs with ⟨_ | ⟨d, more⟩, after⟩ <;>
        simp only [hdigits, reduceCtorEq, Option.some.injEq, Prod.mk.injEq] at hscan ⊢
      exact ⟨hscan.1, by rw [hscan.2]⟩
    · have hnone (bs : Bytes) : scanFraction? (b :: bs) = some ([], b :: bs) := by simp [scanFraction?, hpoint]
      rw [hnone] at hscan
      cases hscan
      exact hnone (bs ++ rest)

theorem scanPower?_append {rest bs left : Bytes} {negative : Bool} {power : Option Int} (h : Delimited rest)
    (hscan : scanPower? negative bs = some (power, left)) :
    scanPower? negative (bs ++ rest) = some (power, left ++ rest) := by
  unfold scanPower? at hscan ⊢
  rw [digits_append h]
  rcases hdigits : digits bs with ⟨_ | ⟨d, more⟩, after⟩ <;>
    simp only [hdigits, reduceCtorEq, Option.some.injEq, Prod.mk.injEq] at hscan ⊢
  exact ⟨hscan.1, by rw [hscan.2]⟩

theorem scanExponent?_append {rest bs left : Bytes} {power : Option Int} (h : Delimited rest)
    (hscan : scanExponent? bs = some (power, left)) : scanExponent? (bs ++ rest) = some (power, left ++ rest) := by
  cases bs with
  | nil =>
    cases hscan
    cases rest with
    | nil => rfl
    | cons b rest =>
      obtain ⟨-, -, hlower, hupper⟩ := h.head_ne rfl
      simp [scanExponent?, hlower, hupper]
  | cons b bs =>
    by_cases hletter : b = 0x65 ∨ b = 0x45
    · cases bs with
      | nil => rcases hletter with rfl | rfl <;> cases hscan
      | cons sign bs =>
        by_cases hplus : sign = 0x2B
        · subst hplus
          rcases hletter with rfl | rfl <;> exact scanPower?_append h hscan
        · by_cases hminus : sign = 0x2D
          · subst hminus
            rcases hletter with rfl | rfl <;> exact scanPower?_append h hscan
          · have hplain (bs : Bytes) : scanExponent? (b :: sign :: bs) = scanPower? false (sign :: bs) := by
              rcases hletter with rfl | rfl <;> simp [scanExponent?, hplus, hminus]
            rw [hplain] at hscan
            rw [List.cons_append, List.cons_append, hplain]
            exact scanPower?_append h hscan
    · obtain ⟨hlower, hupper⟩ := not_or.1 hletter
      have hnone (bs : Bytes) : scanExponent? (b :: bs) = some (none, b :: bs) := by
        simp [scanExponent?, hlower, hupper]
      rw [hnone] at hscan
      cases hscan
      exact hnone (bs ++ rest)

def scanUnsigned? (negative : Bool) (bs : Bytes) : Option (Literal × Bytes) := do
  let (whole, bs) ← scanWhole? bs
  let (fraction, bs) ← scanFraction? bs
  let (exponent, bs) ← scanExponent? bs
  return (⟨negative, whole, fraction, exponent⟩, bs)

theorem scan?_of_ne {b : UInt8} (h : b ≠ 0x2D) (bs : Bytes) : scan? (b :: bs) = scanUnsigned? false (b :: bs) := by
  unfold scan?
  split
  rename_i heq
  split at heq
  · simp_all
  · cases heq
    rfl

theorem scanUnsigned?_append {rest bs left : Bytes} {negative : Bool} {l : Literal} (h : Delimited rest)
    (hscan : scanUnsigned? negative bs = some (l, left)) :
    scanUnsigned? negative (bs ++ rest) = some (l, left ++ rest) := by
  simp only [scanUnsigned?, Option.bind_eq_bind, Option.bind_eq_some_iff, Option.pure_def, Option.some.injEq,
    Prod.mk.injEq, Prod.exists] at hscan
  obtain ⟨whole, afterWhole, hwhole, fraction, afterFraction, hfraction, exponent, afterAll, hexponent, rfl, rfl⟩ := hscan
  simp [scanUnsigned?, scanWhole?_append h hwhole, scanFraction?_append h hfraction, scanExponent?_append h hexponent]

/-- A literal is the same whatever follows the text it was found in. -/
theorem scan?_append {rest bs left : Bytes} {l : Literal} (h : Delimited rest)
    (hscan : scan? bs = some (l, left)) : scan? (bs ++ rest) = some (l, left ++ rest) := by
  cases bs with
  | nil => cases hscan
  | cons b bs =>
    by_cases hminus : b = 0x2D
    · subst hminus
      exact scanUnsigned?_append h hscan
    · rw [scan?_of_ne hminus] at hscan
      rw [List.cons_append, scan?_of_ne hminus]
      exact scanUnsigned?_append h hscan

theorem scan?_head {bs left : Bytes} {l : Literal} (hscan : scan? bs = some (l, left)) :
    ∃ b tail, bs = b :: tail ∧ (b = 0x2D ∨ isDigit b = true) := by
  cases bs with
  | nil => cases hscan
  | cons b bs =>
    refine ⟨b, bs, rfl, ?_⟩
    by_cases hminus : b = 0x2D
    · exact .inl hminus
    · refine .inr (Decidable.byContradiction fun hdigit => ?_)
      rw [scan?_of_ne hminus] at hscan
      simp [scanUnsigned?, scanWhole?, digits, hdigit] at hscan

end Literal

theorem readNumber_append {rest bs left : Bytes} {n : Number} (h : Delimited rest)
    (hread : readNumber bs = .ok (n, left)) : readNumber (bs ++ rest) = .ok (n, left ++ rest) := by
  unfold readNumber at hread ⊢
  split at hread
  · cases hread
  · rename_i l after hscan
    rw [Literal.scan?_append h hscan]
    split at hread
    · cases hread
    · rename_i hnumber
      cases hread
      simp [hnumber]

theorem readNumber_head {bs left : Bytes} {n : Number} (hread : readNumber bs = .ok (n, left)) :
    ∃ b tail, bs = b :: tail ∧ (b = 0x2D ∨ isDigit b = true) := by
  unfold readNumber at hread
  split at hread
  · cases hread
  · rename_i hscan
    exact Literal.scan?_head hscan

/-! ## Integers -/

/-- The values of the decimal digits of a number. -/
def decimalDigits (n : Nat) : List Nat := (Nat.toDigits 10 n).map fun c => c.toNat - 48

theorem toNat_digitChar : ∀ n < 10, (Nat.digitChar n).toNat - 48 = n := by decide

theorem decimalDigits_of_lt {n : Nat} (h : n < 10) : decimalDigits n = [n] := by
  rw [decimalDigits, Nat.toDigits_of_lt_base h, List.map_singleton, toNat_digitChar n h]

theorem decimalDigits_of_ge {n : Nat} (h : 10 ≤ n) : decimalDigits n = decimalDigits (n / 10) ++ [n % 10] := by
  rw [decimalDigits, Nat.toDigits_of_base_le (by decide) h, List.map_append, List.map_singleton,
    toNat_digitChar _ (Nat.mod_lt _ (by decide))]
  rfl

/-- There is no zero before the other digits. -/
theorem decimalDigits_head {n : Nat} (h : 0 < n) : ∃ d more, decimalDigits n = d :: more ∧ 0 < d := by
  induction n using Nat.strongRecOn with
  | ind n ih =>
    by_cases hlt : n < 10
    · exact ⟨n, [], decimalDigits_of_lt hlt, h⟩
    · obtain ⟨d, more, hdigits, hd⟩ := ih (n / 10) (by omega) (by omega)
      exact ⟨d, more ++ [n % 10], by rw [decimalDigits_of_ge (by omega), hdigits, List.cons_append], hd⟩

theorem decimalDigits_scan (n : Nat) :
    (∃ d, decimalDigits n = [d]) ∨ ∃ d more, decimalDigits n = d :: more ∧ 0 < d := by
  rcases Nat.eq_zero_or_pos n with rfl | hpos
  · exact .inl ⟨0, rfl⟩
  · exact .inr (decimalDigits_head hpos)

/-- A word takes in all digits of a number that fits it. -/
theorem foldl_pushWhole {n : Nat} (h : n < UInt64.size) :
    (decimalDigits n).foldl Literal.Significand.pushWhole ⟨0, 0, false⟩ = ⟨n, 0, false⟩ := by
  induction n using Nat.strongRecOn with
  | ind n ih =>
    by_cases hlt : n < 10
    · rw [decimalDigits_of_lt hlt]
      simp [Literal.Significand.pushWhole, Literal.Significand.fits, h]
    · have hcarry : 10 * (n / 10) + n % 10 = n := Nat.div_add_mod n 10
      rw [decimalDigits_of_ge (by omega), List.foldl_append, ih (n / 10) (by omega) (by omega)]
      simp [Literal.Significand.pushWhole, Literal.Significand.fits, hcarry, h]

theorem isDigit_ofNat : ∀ n < 58, 48 ≤ n → isDigit (UInt8.ofNat n) = true ∧ digitValue (UInt8.ofNat n) = n - 48 := by
  decide

theorem mem_toDigits {n : Nat} {c : Char} (h : c ∈ Nat.toDigits 10 n) : 48 ≤ c.toNat ∧ c.toNat < 58 := by
  have hdigit := Nat.isDigit_of_mem_toDigits (by decide) (by decide) h
  simp only [Char.isDigit, Bool.and_eq_true, decide_eq_true_eq, ge_iff_le, UInt32.le_iff_toNat_le] at hdigit
  exact ⟨hdigit.1, Nat.lt_succ_of_le hdigit.2⟩

theorem utf8_toDigits (n : Nat) : utf8 (Nat.toDigits 10 n) = (Nat.toDigits 10 n).map fun c => UInt8.ofNat c.toNat := by
  refine utf8_of_ascii fun c hc => ?_
  have hbounds := mem_toDigits hc
  omega

theorem isDigit_of_mem_utf8 {n : Nat} {b : UInt8} (h : b ∈ utf8 (Nat.toDigits 10 n)) : isDigit b = true := by
  rw [utf8_toDigits] at h
  obtain ⟨c, hc, rfl⟩ := List.mem_map.1 h
  obtain ⟨hge, hlt⟩ := mem_toDigits hc
  exact (isDigit_ofNat _ hlt hge).1

theorem digits_toDigits (n : Nat) : Literal.digits (utf8 (Nat.toDigits 10 n)) = (decimalDigits n, []) := by
  have hdigit : ∀ b ∈ utf8 (Nat.toDigits 10 n), isDigit b = true := fun b hb => isDigit_of_mem_utf8 hb
  have htake : (utf8 (Nat.toDigits 10 n) ++ []).takeWhile isDigit = utf8 (Nat.toDigits 10 n) ++ [] :=
    List.takeWhile_append_of_pos hdigit
  have hdrop : (utf8 (Nat.toDigits 10 n) ++ []).dropWhile isDigit = [] := List.dropWhile_append_of_pos hdigit
  rw [List.append_nil] at htake hdrop
  rw [Literal.digits, htake, hdrop, utf8_toDigits, List.map_map]
  refine congrArg (·, []) (List.map_congr_left fun c hc => ?_)
  obtain ⟨hge, hlt⟩ := mem_toDigits hc
  exact (isDigit_ofNat _ hlt hge).2

theorem scanUnsigned?_toDigits (negative : Bool) (n : Nat) : Literal.scanUnsigned? negative (utf8 (Nat.toDigits 10 n)) =
    some (⟨negative, decimalDigits n, [], none⟩, []) := by
  have hwhole : Literal.scanWhole? (utf8 (Nat.toDigits 10 n)) = some (decimalDigits n, []) := by
    rw [Literal.scanWhole?, digits_toDigits]
    rcases decimalDigits_scan n with ⟨d, hd⟩ | ⟨d, more, hd, hpos⟩
    · rw [hd]
      cases d <;> rfl
    · rw [hd]
      cases d with
      | zero => exact absurd hpos (Nat.lt_irrefl 0)
      | succ d => rfl
  rw [Literal.scanUnsigned?, hwhole]
  rfl

theorem scan?_toDigits (n : Nat) :
    Literal.scan? (utf8 (Nat.toDigits 10 n)) = some (⟨false, decimalDigits n, [], none⟩, []) := by
  have hscan := scanUnsigned?_toDigits false n
  have hdigit : ∀ b ∈ utf8 (Nat.toDigits 10 n), isDigit b = true := fun b hb => isDigit_of_mem_utf8 hb
  revert hscan hdigit
  cases utf8 (Nat.toDigits 10 n) with
  | nil =>
    intro hscan
    cases hscan
  | cons b bs =>
    intro hscan hdigit
    have hne : b ≠ 0x2D := by
      rintro rfl
      exact absurd (hdigit _ List.mem_cons_self) (by decide)
    rw [Literal.scan?_of_ne hne, hscan]

theorem readNumber_of {bs : Bytes} {l : Literal} {n : Number} (hscan : Literal.scan? bs = some (l, []))
    (hnumber : l.number? = some n) : readNumber bs = .ok (n, []) := by
  rw [readNumber, hscan]
  simp only [hnumber]

theorem readNumber_int {i : Int} (h : Number.InRange i) : readNumber (utf8 (intText i)) = .ok (.int i, []) := by
  have hrange := h
  obtain ⟨hlow, hhigh⟩ := h
  by_cases hneg : i < 0
  · have hfits : i.natAbs < UInt64.size := by
      simp only [UInt64.size] at hlow ⊢
      omega
    have hpos : 0 < i.natAbs := by omega
    have hback : -(i.natAbs : Int) = i := by omega
    rw [intText, if_pos hneg]
    refine readNumber_of (scanUnsigned?_toDigits true i.natAbs) ?_
    simp only [Literal.number?, Literal.wholePart, foldl_pushWhole hfits]
    simp only [List.isEmpty_nil, Bool.not_false, if_true, Bool.not_true, Bool.false_eq_true, if_false, hback,
      hpos, hrange, and_self]
  · have hfits : i.natAbs < UInt64.size := by omega
    have hback : (i.natAbs : Int) = i := by omega
    rw [intText, if_neg hneg]
    refine readNumber_of (scan?_toDigits i.natAbs) ?_
    simp only [Literal.number?, Literal.wholePart, foldl_pushWhole hfits]
    simp only [List.isEmpty_nil, true_and, Bool.not_false, if_true, hback]

/-! ## Doubles -/

/-- The double's own text is read as the double. -/
def ReadsBack (d : Double) : Prop := (readNumber (utf8 (doubleText d))).toOption = some (.double d, [])

instance (d : Double) : Decidable (ReadsBack d) := inferInstanceAs (Decidable (_ = _))

theorem readNumber_double {d : Double} (h : ReadsBack d) : readNumber (utf8 (doubleText d)) = .ok (.double d, []) := by
  unfold ReadsBack at h
  cases hread : readNumber (utf8 (doubleText d)) with
  | error e => simp [hread, Except.toOption] at h
  | ok found =>
    rw [hread] at h
    exact congrArg Except.ok (Option.some.inj h)

end RemoteTable.Json
