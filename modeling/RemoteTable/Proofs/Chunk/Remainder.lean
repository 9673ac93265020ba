import Mathlib.Algebra.CharP.Two
import Mathlib.Algebra.Field.ZMod
import Mathlib.RingTheory.AdjoinRoot
import RemoteTable.Chunk.Crc32

/-!
# The checksum as a remainder

The bits of a word are the coefficients of a polynomial over the field with two elements, the lowest bit at the highest
power, and the bytes of a message follow each other with falling powers. A shift of the register multiplies by `X`
modulo the generator (`toPoly_shift`), so the register holds what it held and the bytes it took in, times a power of
`X`, modulo the generator (`mk_run`). This is CRC-32: the remainder of the message times `X ^ 32`, after the register
was filled with ones at the start and is complemented at the end (`toPoly_checksum`).
-/

namespace RemoteTable.Crc32

open Polynomial

/-! ## Words as polynomials -/

/-- The polynomial of a word whose lowest bit is the highest coefficient. -/
noncomputable def toPoly {width : Nat} (r : BitVec width) : (ZMod 2)[X] :=
  ∑ i ∈ Finset.range width, if r.getLsbD i then X ^ (width - 1 - i) else 0

/-- The polynomial of the bytes, the first at the highest powers. -/
noncomputable def message : Bytes → (ZMod 2)[X]
  | [] => 0
  | b :: bs => toPoly b.toBitVec * X ^ (8 * bs.length) + message bs

noncomputable def generator : (ZMod 2)[X] :=
  X ^ 32 + X ^ 26 + X ^ 23 + X ^ 22 + X ^ 16 + X ^ 12 + X ^ 11 + X ^ 10 + X ^ 8 + X ^ 7 + X ^ 5 + X ^ 4 + X ^ 2 + X + 1

theorem toPoly_xor {width : Nat} (r s : BitVec width) : toPoly (r ^^^ s) = toPoly r + toPoly s := by
  unfold toPoly
  rw [← Finset.sum_add_distrib]
  apply Finset.sum_congr rfl
  intro i _
  rw [BitVec.getLsbD_xor]
  cases r.getLsbD i <;> cases s.getLsbD i <;> simp [CharTwo.add_self_eq_zero]

theorem toPoly_not {width : Nat} (r : BitVec width) : toPoly (~~~r) = toPoly (BitVec.allOnes width) + toPoly r := by
  rw [BitVec.not_def, toPoly_xor]

/-- Bits that are put below empty places stand at higher powers. -/
theorem toPoly_setWidth {width : Nat} (r : BitVec width) (more : Nat) :
    toPoly (r.setWidth (width + more)) = X ^ more * toPoly r := by
  unfold toPoly
  rw [Finset.sum_range_add, Finset.mul_sum]
  have hempty : ∑ i ∈ Finset.range more, (if (r.setWidth (width + more)).getLsbD (width + i) then
      (X : (ZMod 2)[X]) ^ (width + more - 1 - (width + i)) else 0) = 0 := by
    apply Finset.sum_eq_zero
    intro i _
    simp
  rw [hempty, add_zero]
  apply Finset.sum_congr rfl
  intro i hi
  have hlt := Finset.mem_range.1 hi
  have hpow : width + more - 1 - i = more + (width - 1 - i) := by omega
  have hbit : (r.setWidth (width + more)).getLsbD i = r.getLsbD i := by simp [show i < width + more by omega]
  rw [hbit, hpow, pow_add]
  split <;> simp

theorem degree_toPoly_lt {width : Nat} (r : BitVec width) : (toPoly r).degree < width := by
  rw [← mem_degreeLT]
  refine Submodule.sum_mem _ fun i hi => ?_
  have hlt := Finset.mem_range.1 hi
  rw [mem_degreeLT]
  split
  · rw [degree_X_pow]
    exact_mod_cast (by omega : width - 1 - i < width)
  · rw [degree_zero]
    exact WithBot.bot_lt_coe width

/-! ## The generator -/

theorem generator_eq : generator = X ^ 32 + toPoly polynomial := by
  unfold generator toPoly polynomial
  simp [Finset.sum_range_succ]
  ring

theorem monic_generator : generator.Monic := by
  rw [generator_eq]
  exact monic_X_pow_add (degree_toPoly_lt polynomial)

theorem degree_generator : generator.degree = (32 : Nat) := by
  have hlt : (toPoly polynomial).degree < (X ^ 32 : (ZMod 2)[X]).degree := by
    rw [degree_X_pow]
    exact degree_toPoly_lt polynomial
  rw [generator_eq, degree_add_eq_left_of_degree_lt hlt, degree_X_pow]

/-! ## The register -/

/-- The lowest bit leaves at the top, all others rise. -/
theorem toPoly_ushiftRight (r : BitVec 32) :
    toPoly (r >>> 1) = X * toPoly r + if r.getLsbD 0 then X ^ 32 else 0 := by
  have hlast : (if (r >>> 1).getLsbD 31 then (X : (ZMod 2)[X]) ^ (32 - 1 - 31) else 0) = 0 := by simp
  have hrest : ∑ i ∈ Finset.range 31, (if (r >>> 1).getLsbD i then (X : (ZMod 2)[X]) ^ (32 - 1 - i) else 0) =
      X * ∑ i ∈ Finset.range 31, if r.getLsbD (i + 1) then X ^ (32 - 1 - (i + 1)) else 0 := by
    rw [Finset.mul_sum]
    apply Finset.sum_congr rfl
    intro i hi
    have hlt := Finset.mem_range.1 hi
    have hpow : 32 - 1 - i = 32 - 1 - (i + 1) + 1 := by omega
    rw [BitVec.getLsbD_ushiftRight, Nat.add_comm 1 i, hpow]
    split
    · rw [pow_succ']
    · rw [mul_zero]
  have hfirst : X * (if r.getLsbD 0 then (X : (ZMod 2)[X]) ^ (32 - 1 - 0) else 0) =
      if r.getLsbD 0 then X ^ 32 else 0 := by
    split
    · rw [← pow_succ']
    · rw [mul_zero]
  unfold toPoly
  rw [Finset.sum_range_succ, hlast, hrest, Finset.sum_range_succ' (fun i => if r.getLsbD i then _ else _), mul_add,
    hfirst, add_assoc, CharTwo.add_self_eq_zero]

/-- A shift multiplies by `X` and adds the generator if a one has come up. -/
theorem toPoly_shift (r : BitVec 32) : toPoly (shift r) = X * toPoly r + if r.getLsbD 0 then generator else 0 := by
  unfold shift
  rw [toPoly_xor, toPoly_ushiftRight, generator_eq, add_assoc]
  cases r.getLsbD 0 with
  | true => rfl
  | false => simp [toPoly]

theorem mk_shift (r : BitVec 32) :
    AdjoinRoot.mk generator (toPoly (shift r)) = AdjoinRoot.mk generator (X * toPoly r) := by
  rw [toPoly_shift, map_add]
  split
  · rw [AdjoinRoot.mk_self, add_zero]
  · rw [map_zero, add_zero]

theorem mk_shift8 (r : BitVec 32) :
    AdjoinRoot.mk generator (toPoly (shift8 r)) = AdjoinRoot.mk generator (X ^ 8 * toPoly r) := by
  unfold shift8
  simp only [mk_shift, map_mul, map_pow]
  ring

/-- A byte enters below twenty-four empty places, and eight shifts follow. -/
theorem mk_update (r : BitVec 32) (b : UInt8) : AdjoinRoot.mk generator (toPoly (update r b)) =
    AdjoinRoot.mk generator (X ^ 8 * toPoly r + X ^ 32 * toPoly b.toBitVec) := by
  have hbyte : toPoly (b.toBitVec.setWidth 32) = X ^ 24 * toPoly b.toBitVec := toPoly_setWidth b.toBitVec 24
  have hpow : (X : (ZMod 2)[X]) ^ 32 = X ^ 8 * X ^ 24 := by rw [← pow_add]
  unfold update
  rw [mk_shift8, toPoly_xor, hbyte, mul_add, hpow, mul_assoc]

/-- The register after a message: what it held, brought up by as many places as there are bits, and the message. -/
theorem mk_run (r : BitVec 32) (bs : Bytes) : AdjoinRoot.mk generator (toPoly (run r bs)) =
    AdjoinRoot.mk generator (X ^ (8 * bs.length) * toPoly r + X ^ 32 * message bs) := by
  induction bs generalizing r with
  | nil => simp [run, message]
  | cons b bs ih =>
    have hrun : run r (b :: bs) = run (update r b) bs := rfl
    have hpow : (X : (ZMod 2)[X]) ^ (8 * (b :: bs).length) = X ^ (8 * bs.length) * X ^ 8 := by
      rw [List.length_cons, Nat.mul_succ, pow_add]
    rw [hrun, ih, map_add, map_mul, mk_update, ← map_mul, ← map_add, hpow, message]
    refine congrArg (AdjoinRoot.mk generator) ?_
    ring

/-- The checksum of a message is the remainder of the message times `X ^ 32`, with a register of ones in front of it,
and complemented. -/
theorem toPoly_checksum (bs : Bytes) : toPoly (checksum bs) = toPoly (BitVec.allOnes 32) +
    (X ^ 32 * message bs + X ^ (8 * bs.length) * toPoly (BitVec.allOnes 32)) %ₘ generator := by
  have hdvd := AdjoinRoot.mk_eq_mk.1 (mk_run (BitVec.allOnes 32) bs)
  have hself : toPoly (run (BitVec.allOnes 32) bs) %ₘ generator = toPoly (run (BitVec.allOnes 32) bs) := by
    rw [modByMonic_eq_self_iff monic_generator, degree_generator]
    exact degree_toPoly_lt _
  rw [checksum, toPoly_not, ← hself, modByMonic_eq_of_dvd_sub monic_generator hdvd, add_comm (X ^ 32 * message bs)]

end RemoteTable.Crc32
