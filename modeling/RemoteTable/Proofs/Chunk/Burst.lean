import RemoteTable.Proofs.Chunk.Format
import RemoteTable.Proofs.Chunk.Refusal

/-!
# Bursts of damage

A frame that was damaged inside a window of four bytes is refused by a receiver who looks at the checksum, wherever the
window lies: over the length, the flag or the checksum itself, which move the borders of the other parts or the range that
is summed, or across such borders (`Frame.decode_near`). A receiver who does not look notices at least that the flag or the
length was changed. The window is too narrow to reach from one of them to the other, so either stands as it was sent, and
in a string of the same length this settles the other one (`Frame.front_eq`, `Frame.burst_refused`).
-/

namespace RemoteTable

open Polynomial

theorem Bytes.toNat_injective {bs cs : Bytes} (hlen : bs.length = cs.length) (h : toNat bs = toNat cs) : bs = cs := by
  rw [← littleEndian_toNat bs, hlen, h, littleEndian_toNat]

namespace Frame

/-- Different flags announce different beginnings of the payload. -/
theorem payloadStart?_injective {flag flag' : UInt8} {start : Nat} (h : payloadStart? flag = some start)
    (h' : payloadStart? flag' = some start) : flag = flag' := by
  rcases payloadStart?_eq_some.1 h with ⟨rfl, rfl⟩ | ⟨rfl, rfl⟩ <;>
    rcases payloadStart?_eq_some.1 h' with ⟨rfl, hstart⟩ | ⟨rfl, hstart⟩
  · rfl
  · omega
  · omega
  · rfl

/-- Two accepted strings of one length with the same flag or the same length field have both in common. -/
theorem front_eq {sent frame : Bytes} {c d : Chunk} {v w : Bool} (hsent : decode sent v = .ok c)
    (hframe : decode frame w = .ok d) (hlen : sent.length = frame.length)
    (hsame : sent[20]? = frame[20]? ∨ sent.take 4 = frame.take 4) :
    sent[20]? = frame[20]? ∧ sent.take 4 = frame.take 4 := by
  obtain ⟨flag, start, there, starts, hend⟩ := (verdict sent).exact_of_ok hsent
  obtain ⟨flag', start', there', starts', hend'⟩ := (verdict frame).exact_of_ok hframe
  rcases hsame with hflag | hlength
  · obtain rfl : flag' = flag := Option.some.inj (there'.symm.trans (hflag.symm.trans there))
    obtain rfl : start' = start := Option.some.inj (starts'.symm.trans starts)
    have hdeclared : declared sent = declared frame := by omega
    have hfour : (sent.take 4).length = (frame.take 4).length := by rw [List.length_take, List.length_take, hlen]
    exact ⟨hflag, Bytes.toNat_injective hfour hdeclared⟩
  · have hdeclared : declared sent = declared frame := congrArg Bytes.toNat hlength
    obtain rfl : start' = start := by omega
    obtain rfl := payloadStart?_injective starts starts'
    exact ⟨there.trans there'.symm, hlength⟩

/-- A window of four bytes leaves the flag or the length field as it was. -/
theorem front_of_near {sent frame : Bytes} (h : Bytes.Near sent frame) :
    sent[20]? = frame[20]? ∨ sent.take 4 = frame.take 4 := by
  obtain ⟨-, start, hsame⟩ := h
  rcases Nat.lt_or_ge 16 start with hhigh | hlow
  · refine .inr (List.ext_getElem? fun i => ?_)
    rcases Nat.lt_or_ge i 4 with hlt | hge
    · rw [List.getElem?_take_of_lt hlt, List.getElem?_take_of_lt hlt, hsame i (.inl (by omega))]
    · rw [List.getElem?_take_eq_none hge, List.getElem?_take_eq_none hge]
  · exact .inl (hsame 20 (.inr (by omega)))

/-- A receiver notices a changed length field or flag without a look at the checksum. -/
theorem decode_near_unverified {c d : Chunk} {frame : Bytes} (hfit : c.payload.length ≤ maxPayload)
    (hnear : Bytes.Near (encode c) frame) (h : decode frame false = .ok d) {i : Nat} (hi : i < 4 ∨ i = 20) :
    frame[i]? = (encode c)[i]? := by
  have hsent : decode (encode c) true = .ok c := decode_encode hfit true
  obtain ⟨hflag, hlength⟩ := front_eq hsent h hnear.1 (front_of_near hnear)
  rcases hi with hlt | rfl
  · rw [← List.getElem?_take_of_lt hlt, ← hlength, List.getElem?_take_of_lt hlt]
  · exact hflag.symm

/-- A frame that was changed inside a window of four bytes is refused if the checksum is looked at, and otherwise if a
byte of the length or the flag has changed. It ends in the CRC-32, lowest byte first, of all that is before it. -/
theorem burst_refused {c : Chunk} {frame : Bytes} (hfit : c.payload.length ≤ maxPayload)
    (hnear : Bytes.Near (encode c) frame) (hne : frame ≠ encode c) :
    (∃ e, decode frame true = .error e) ∧
    (∀ i, i < 4 ∨ i = 20 → frame[i]? ≠ (encode c)[i]? → ∃ e, decode frame false = .error e) ∧
    encode c = body c ++ Bytes.littleEndian 4 (Crc32.checksum (body c)).toNat ∧
    Crc32.toPoly (Crc32.checksum (body c)) = Crc32.toPoly (BitVec.allOnes 32) + (X ^ 32 * Crc32.message (body c) +
      X ^ (8 * (body c).length) * Crc32.toPoly (BitVec.allOnes 32)) %ₘ (X ^ 32 + Crc32.toPoly 0xEDB88320#32) := by
  refine ⟨Fallible.exists_error fun d h => ?_, fun i hi hchanged => Fallible.exists_error fun d h => ?_, rfl, ?_⟩
  · exact hne (decode_near hnear h)
  · exact hchanged (decode_near_unverified hfit hnear h hi)
  · have hgenerator : Crc32.generator = X ^ 32 + Crc32.toPoly 0xEDB88320#32 := Crc32.generator_eq
    rw [← hgenerator]
    exact Crc32.toPoly_checksum (body c)

/-- The last byte of the id and the flag of a linked chunk are changed, so that its frame seems to be a last one. -/
theorem burst_refused_of_flag :
    let c : Chunk := ⟨[104, 105], ⟨1⟩, some ⟨2⟩⟩
    let frame : Bytes := Damage.apply { flips := [(18, 255), (20, 1)] } (encode c)
    c.payload.length ≤ maxPayload ∧ Bytes.Near (encode c) frame ∧ frame[20]? ≠ (encode c)[20]? ∧
      (∃ e, decode frame true = .error e) ∧ ∃ e, decode frame false = .error e := by
  intro c frame
  have hfit : c.payload.length ≤ maxPayload := by decide
  have hnear : Bytes.Near (encode c) frame := Damage.isBurst_of_flips 18 (by decide) (encode c)
  have hflag : frame[20]? ≠ (encode c)[20]? := by decide +kernel
  have hne : frame ≠ encode c := fun h => hflag (by rw [h])
  obtain ⟨hverified, hunverified, -, -⟩ := burst_refused hfit hnear hne
  exact ⟨hfit, hnear, hflag, hverified, hunverified 20 (.inr rfl) hflag⟩

end Frame

end RemoteTable
