import RemoteTable.Proofs.Chunk.Frame
import RemoteTable.Proofs.Chunk.Remainder

/-!
# The frame format

Encoding and decoding undo each other (`Frame.format`). A chunk that fits comes back from its frame. If the checksum is
looked at, nothing but the frame of a chunk is accepted as the chunk, and different chunks have different frames
(`Frame.encode_injective`). If it is not, the last four bytes may be any (`Frame.decode_unverified`). The checksum in
the frame is CRC-32 of everything before it (`Crc32.toPoly_checksum`).
-/

namespace RemoteTable.Frame

open Polynomial

theorem encode_eq (c : Chunk) : encode c = Bytes.littleEndian 4 c.payload.length ++ (c.id.toBytes ++ (link c.next ++
    (c.payload ++ Bytes.littleEndian 4 (Crc32.checksum (body c)).toNat))) := by
  unfold encode
  generalize Crc32.checksum (body c) = sum
  rw [body_eq, List.append_assoc, List.append_assoc, List.append_assoc]

/-- Different chunks have different frames, since every part tells where it ends. -/
theorem encode_injective : Function.Injective encode := by
  intro c d hsame
  rw [encode_eq, encode_eq] at hsame
  obtain ⟨-, hsame⟩ := List.append_inj hsame (by rw [Bytes.length_littleEndian, Bytes.length_littleEndian])
  obtain ⟨hid, hsame⟩ := List.append_inj hsame (by rw [Token.length_toBytes, Token.length_toBytes])
  have hid' : c.id = d.id := by rw [← Token.ofBytes_toBytes c.id, hid, Token.ofBytes_toBytes]
  -- the reader finds out from the flag whether a next id follows
  have hnext := congrArg takeNext hsame
  rw [takeNext_link, takeNext_link, Except.ok.injEq, Prod.mk.injEq, Prod.mk.injEq] at hnext
  obtain ⟨hnext, -, hrest⟩ := hnext
  obtain ⟨hpayload, -⟩ := List.append_inj' hrest (by rw [Bytes.length_littleEndian, Bytes.length_littleEndian])
  cases c
  cases d
  cases hid'
  cases hnext
  cases hpayload
  rfl

/-- Without a look at the checksum, a chunk comes from its frame with any four bytes at the end. -/
theorem decode_unverified {frame : Bytes} {c : Chunk} : decode frame false = .ok c ↔ c.payload.length ≤ maxPayload ∧
    ∃ stored, stored.length = 4 ∧ frame = (encode c).take ((encode c).length - 4) ++ stored := by
  have hbody : (encode c).take ((encode c).length - 4) = body c := by
    apply List.take_left'
    rw [encode, List.length_append, Bytes.length_littleEndian, Nat.add_sub_cancel]
  rw [hbody, decode_eq_ok]
  constructor
  · rintro ⟨hfit, stored, h4, hframe, -⟩
    exact ⟨hfit, stored, h4, hframe⟩
  · rintro ⟨hfit, stored, h4, hframe⟩
    exact ⟨hfit, stored, h4, hframe, fun h => absurd h Bool.false_ne_true⟩

/-- Decoding undoes encoding. With a look at the checksum only the frame of a chunk is accepted as the chunk, and
without it exactly the frame with any four last bytes. These are the CRC-32 of the others. -/
theorem format :
    (∀ c verify, c.payload.length ≤ maxPayload → decode (encode c) verify = .ok c) ∧
    (∀ frame c, decode frame true = .ok c → frame = encode c) ∧
    Function.Injective encode ∧
    (∀ frame c, decode frame false = .ok c ↔ c.payload.length ≤ maxPayload ∧
      ∃ stored, stored.length = 4 ∧ frame = (encode c).take ((encode c).length - 4) ++ stored) ∧
    ∀ c, ∃ sum : BitVec 32, encode c = body c ++ Bytes.littleEndian 4 sum.toNat ∧
      Crc32.toPoly sum = Crc32.toPoly (BitVec.allOnes 32) + (X ^ 32 * Crc32.message (body c) +
        X ^ (8 * (body c).length) * Crc32.toPoly (BitVec.allOnes 32)) %ₘ Crc32.generator := by
  refine ⟨?_, ?_, encode_injective, ?_, ?_⟩
  · intro c verify hfit
    exact decode_encode hfit verify
  · intro frame c haccepted
    exact eq_encode_of_decode haccepted
  · intro frame c
    exact decode_unverified
  · intro c
    exact ⟨Crc32.checksum (body c), rfl, Crc32.toPoly_checksum (body c)⟩

/-- A chunk with a next one, its frame, and the frame with other bytes in the place of the checksum. -/
theorem format_of_linked :
    let c : Chunk := ⟨[104, 105], ⟨1⟩, some ⟨2⟩⟩
    c.payload.length ≤ maxPayload ∧ decode (encode c) true = .ok c ∧
      decode ((encode c).take ((encode c).length - 4) ++ [0, 0, 0, 0]) false = .ok c := by
  intro c
  obtain ⟨hdecode, -, -, hunverified, -⟩ := format
  have hfit : c.payload.length ≤ maxPayload := by decide
  exact ⟨hfit, hdecode c true hfit, (hunverified _ c).2 ⟨hfit, [0, 0, 0, 0], rfl, rfl⟩⟩

end RemoteTable.Frame
