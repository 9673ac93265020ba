import RemoteTable.Chunk.Crc32

/-!
# What the checksum detects

The register of the checksum forgets nothing: a shift is injective (`shift_injective`), so two registers that
differ stay different whatever bytes follow (`run_injective`). Up to four bytes enter the register as one word
before as many byte shifts (`run_word`), so the register after them tells them apart (`run_window_injective`), and
the four bytes of the checksum itself always lead to the same register (`run_checksum`).

Together: two byte strings that both end in their checksum and differ only inside a window of four bytes are equal
(`eq_of_window`).
-/

namespace RemoteTable.Crc32

/-! ## Shifts -/

theorem getLsbD_shift_top (r : BitVec 32) : (shift r).getLsbD 31 = r.getLsbD 0 := by
  unfold shift
  cases r.getLsbD 0 <;> simp [polynomial]

theorem shift_injective {r s : BitVec 32} (h : shift r = shift s) : r = s := by
  have hlow : r.getLsbD 0 = s.getLsbD 0 := by rw [← getLsbD_shift_top, ← getLsbD_shift_top, h]
  have hrest : r >>> 1 = s >>> 1 := by
    unfold shift at h
    rw [hlow] at h
    exact (BitVec.xor_left_inj _).1 h
  apply BitVec.eq_of_getLsbD_eq
  intro i hi
  cases i with
  | zero => exact hlow
  | succ i =>
    have hbit := congrArg (BitVec.getLsbD · i) hrest
    simpa [BitVec.getLsbD_ushiftRight, Nat.add_comm] using hbit

theorem shift8_injective {r s : BitVec 32} (h : shift8 r = shift8 s) : r = s := by
  unfold shift8 at h
  exact shift_injective (shift_injective (shift_injective (shift_injective
    (shift_injective (shift_injective (shift_injective (shift_injective h)))))))

/-- What stands one place higher comes down with a shift, unless a bit of it was lost at the top. -/
theorem shift_xor_shiftLeft (r y : BitVec 32) (k : Nat) (hy : y.getLsbD (31 - k) = false) :
    shift (r ^^^ (y <<< (k + 1))) = shift r ^^^ (y <<< k) := by
  have hback : (y <<< (k + 1)) >>> 1 = y <<< k := by
    apply BitVec.eq_of_getLsbD_eq
    intro i hi
    rw [BitVec.getLsbD_ushiftRight, BitVec.getLsbD_shiftLeft, BitVec.getLsbD_shiftLeft]
    rcases Nat.lt_or_ge i 31 with hlt | hge
    · have hsub : 1 + i - (k + 1) = i - k := by omega
      have hcmp : (1 + i < k + 1) = (i < k) := by simp; omega
      simp [hsub, hcmp, hi, show 1 + i < 32 by omega]
    · obtain rfl : i = 31 := by omega
      rw [hy]
      simp
  have hlow : (r ^^^ (y <<< (k + 1))).getLsbD 0 = r.getLsbD 0 := by simp
  unfold shift
  rw [hlow, BitVec.ushiftRight_xor_distrib, hback, BitVec.xor_assoc, BitVec.xor_assoc, BitVec.xor_comm (y <<< k)]

theorem shift8_xor_shiftLeft (r y : BitVec 32) (hy : y.toNat < 16777216) :
    shift8 (r ^^^ (y <<< 8)) = shift8 r ^^^ y := by
  have htop : ∀ k, k < 8 → y.getLsbD (31 - k) = false := by
    intro k hk
    have hpow : 2 ^ 24 ≤ 2 ^ (31 - k) := Nat.pow_le_pow_right Nat.zero_lt_two (by omega)
    exact Nat.testBit_lt_two_pow (Nat.lt_of_lt_of_le hy hpow)
  unfold shift8
  rw [shift_xor_shiftLeft _ _ 7 (htop 7 (by decide)),
    shift_xor_shiftLeft _ _ 6 (htop 6 (by decide)),
    shift_xor_shiftLeft _ _ 5 (htop 5 (by decide)),
    shift_xor_shiftLeft _ _ 4 (htop 4 (by decide)),
    shift_xor_shiftLeft _ _ 3 (htop 3 (by decide)),
    shift_xor_shiftLeft _ _ 2 (htop 2 (by decide)),
    shift_xor_shiftLeft _ _ 1 (htop 1 (by decide)),
    shift_xor_shiftLeft _ _ 0 (htop 0 (by decide)), BitVec.shiftLeft_zero]

def shiftBytes : Nat → BitVec 32 → BitVec 32
  | 0, r => r
  | n + 1, r => shiftBytes n (shift8 r)

theorem shiftBytes_injective {n : Nat} {r s : BitVec 32} (h : shiftBytes n r = shiftBytes n s) : r = s := by
  induction n generalizing r s with
  | zero => exact h
  | succ n ih => exact shift8_injective (ih h)

/-! ## Bytes in the register -/

theorem update_injective {r s : BitVec 32} (b : UInt8) (h : update r b = update s b) : r = s :=
  (BitVec.xor_left_inj _).1 (shift8_injective h)

theorem run_injective {r s : BitVec 32} (bs : Bytes) (h : run r bs = run s bs) : r = s := by
  induction bs generalizing r s with
  | nil => exact h
  | cons b bs ih => exact update_injective b (ih h)

/-- The bytes as one word, the first lowest. -/
def word (bs : Bytes) : BitVec 32 := BitVec.ofNat 32 (Bytes.toNat bs)

theorem word_cons (b : UInt8) (bs : Bytes) : word (b :: bs) = b.toBitVec.setWidth 32 ^^^ (word bs <<< 8) := by
  have hb := b.toNat_lt
  apply BitVec.eq_of_getLsbD_eq
  intro i hi
  have hbit := Nat.testBit_two_pow_mul_add (Bytes.toNat bs) (show b.toNat < 2 ^ 8 from hb) i
  have hcomm : b.toNat + 256 * Bytes.toNat bs = 2 ^ 8 * Bytes.toNat bs + b.toNat := by omega
  rw [word, Bytes.toNat, hcomm, BitVec.getLsbD_ofNat, hbit, BitVec.getLsbD_xor, BitVec.getLsbD_shiftLeft,
    BitVec.getLsbD_setWidth, word, BitVec.getLsbD_ofNat]
  rcases Nat.lt_or_ge i 8 with hlt | hge
  · simp [hlt, hi, BitVec.getLsbD]
  · have hhigh : b.toBitVec.getLsbD i = false := BitVec.getLsbD_of_ge _ _ hge
    simp [Nat.not_lt.2 hge, hi, hhigh, show i - 8 < 32 by omega]

theorem toNat_word_lt {bs : Bytes} (h : bs.length < 4) : (word bs).toNat < 16777216 := by
  have hlt := Bytes.toNat_lt bs
  have hpow : Nat.pow 256 bs.length ≤ Nat.pow 256 3 := Nat.pow_le_pow_right (by decide) (by omega)
  rw [word, BitVec.toNat_ofNat]
  exact Nat.lt_of_le_of_lt (Nat.mod_le _ _) (Nat.lt_of_lt_of_le hlt hpow)

/-- Up to four bytes enter the register as one word. -/
theorem run_word (r : BitVec 32) {bs : Bytes} (h : bs.length ≤ 4) :
    run r bs = shiftBytes bs.length (r ^^^ word bs) := by
  induction bs generalizing r with
  | nil => simp [run, shiftBytes, word, Bytes.toNat]
  | cons b bs ih =>
    -- the rest has to be short, or its top byte would leave the word when `b` is put below it
    have hlen : bs.length < 4 := h
    calc run r (b :: bs) = run (update r b) bs := rfl
      _ = shiftBytes bs.length (shift8 (r ^^^ b.toBitVec.setWidth 32) ^^^ word bs) := ih _ (Nat.le_of_lt hlen)
      _ = shiftBytes bs.length (shift8 (r ^^^ b.toBitVec.setWidth 32 ^^^ (word bs <<< 8))) := by
        rw [shift8_xor_shiftLeft _ _ (toNat_word_lt hlen)]
      _ = shiftBytes (b :: bs).length (r ^^^ word (b :: bs)) := by rw [word_cons, BitVec.xor_assoc]; rfl

theorem word_injective {xs ys : Bytes} (hlen : xs.length = ys.length) (h4 : xs.length ≤ 4)
    (h : word xs = word ys) : xs = ys := by
  have hpow : Nat.pow 256 xs.length ≤ Nat.pow 256 4 := Nat.pow_le_pow_right (by decide) h4
  have hx : Bytes.toNat xs < 2 ^ 32 := Nat.lt_of_lt_of_le (Bytes.toNat_lt xs) hpow
  have hy : Bytes.toNat ys < 2 ^ 32 := Nat.lt_of_lt_of_le (Bytes.toNat_lt ys) (hlen ▸ hpow)
  have hnat := congrArg BitVec.toNat h
  rw [word, word, BitVec.toNat_ofNat, BitVec.toNat_ofNat, Nat.mod_eq_of_lt hx, Nat.mod_eq_of_lt hy] at hnat
  rw [← Bytes.littleEndian_toNat xs, ← Bytes.littleEndian_toNat ys, hlen, hnat]

theorem run_window_injective {r : BitVec 32} {xs ys : Bytes} (hlen : xs.length = ys.length) (h4 : xs.length ≤ 4)
    (h : run r xs = run r ys) : xs = ys := by
  rw [run_word r h4, run_word r (hlen ▸ h4), hlen] at h
  exact word_injective hlen h4 ((BitVec.xor_right_inj _).1 (shiftBytes_injective h))

/-! ## Strings that end in their checksum -/

theorem word_littleEndian (x : BitVec 32) : word (Bytes.littleEndian 4 x.toNat) = x := by
  have hlt : x.toNat < Nat.pow 256 4 := x.isLt
  rw [word, Bytes.toNat_littleEndian, Nat.mod_eq_of_lt hlt, BitVec.ofNat_toNat, BitVec.setWidth_eq]

/-- The register after a byte string and its checksum is always the same. -/
theorem run_checksum (bs : Bytes) :
    run (BitVec.allOnes 32) (bs ++ Bytes.littleEndian 4 (checksum bs).toNat) = shiftBytes 4 (BitVec.allOnes 32) := by
  rw [run_append, run_word _ (by simp), word_littleEndian, Bytes.length_littleEndian, checksum, BitVec.not_def,
    ← BitVec.xor_assoc, BitVec.xor_comm _ (BitVec.allOnes 32), BitVec.xor_assoc, BitVec.xor_self, BitVec.xor_zero]

/-- A byte string that ends in its checksum. -/
def Sealed (bs : Bytes) : Prop := ∃ body, bs = body ++ Bytes.littleEndian 4 (checksum body).toNat

/-- Two sealed strings that differ only inside a window of four bytes are equal. -/
theorem eq_of_window {before xs ys after : Bytes} (hlen : xs.length = ys.length) (h4 : xs.length ≤ 4)
    (hx : Sealed (before ++ xs ++ after)) (hy : Sealed (before ++ ys ++ after)) : xs = ys := by
  obtain ⟨body, hbody⟩ := hx
  obtain ⟨other, hother⟩ := hy
  -- both leave the same value in the register, whatever they are
  have hsame : run (BitVec.allOnes 32) (before ++ xs ++ after) = run (BitVec.allOnes 32) (before ++ ys ++ after) := by
    rw [hbody, hother, run_checksum, run_checksum]
  rw [run_append, run_append, run_append, run_append] at hsame
  exact run_window_injective hlen h4 (run_injective after hsame)

end RemoteTable.Crc32
