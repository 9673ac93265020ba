import RemoteTable.Chunk.Damage
import RemoteTable.Proofs.Chunk.Checksum
import RemoteTable.Proofs.Fallible

/-!
# Frames on the line

A frame is accepted exactly when it is the body of the chunk that comes out, followed by four bytes, which are the
checksum if it is looked at (`decode_eq_ok`). So a frame gives its chunk back (`decode_encode`), and a frame that
was damaged inside a window of four bytes is refused (`decode_near`).
-/

namespace RemoteTable

namespace Frame

open Fallible (bind_eq_ok)

/-! ## Parts -/

theorem take_eq_ok {part : FramePart} {size offset : Nat} {bs xs ys : Bytes} :
    take part size offset bs = .ok (xs, ys) ↔ xs.length = size ∧ bs = xs ++ ys := by
  unfold take
  constructor
  · intro h
    split at h
    · simp only [Except.ok.injEq, Prod.mk.injEq] at h
      obtain ⟨rfl, rfl⟩ := h
      exact ⟨List.length_take_of_le (by assumption), (List.take_append_drop _ _).symm⟩
    · simp at h
  · rintro ⟨rfl, rfl⟩
    simp

theorem take_append {part : FramePart} {size offset : Nat} {xs ys : Bytes} (h : xs.length = size) :
    take part size offset (xs ++ ys) = .ok (xs, ys) :=
  take_eq_ok.2 ⟨h, rfl⟩

def link : Option Token → Bytes
  | none => [0]
  | some next => [1] ++ next.toBytes

theorem body_eq (c : Chunk) :
    body c = Bytes.littleEndian 4 c.payload.length ++ (c.id.toBytes ++ (link c.next ++ c.payload)) := by
  unfold body link
  cases c.next <;> simp

theorem takeNext_link (next : Option Token) (rest : Bytes) :
    takeNext (link next ++ rest) = .ok (next, 20 + (link next).length, rest) := by
  have hflag (b : UInt8) (tail : Bytes) : take .flag 1 20 ([b] ++ tail) = .ok ([b], tail) := take_append rfl
  cases next with
  | none => simp only [takeNext, link, hflag, Fallible.ok_bind, List.headD_cons]; rfl
  | some t =>
    have hid : take .next 16 21 (t.toBytes ++ rest) = .ok (t.toBytes, rest) := take_append t.length_toBytes
    simp only [takeNext, link, List.append_assoc, hflag, Fallible.ok_bind, List.headD_cons]
    rw [hid]
    simp

theorem takeNext_eq_ok {bs rest : Bytes} {next : Option Token} {start : Nat} :
    takeNext bs = .ok (next, start, rest) ↔ bs = link next ++ rest ∧ start = 20 + (link next).length := by
  constructor
  · intro h
    obtain ⟨⟨flag, tail⟩, hflag, hnext⟩ := bind_eq_ok.1 h
    obtain ⟨hone, rfl⟩ := take_eq_ok.1 hflag
    obtain ⟨b, rfl⟩ := List.length_eq_one_iff.1 hone
    dsimp only [List.headD_cons] at hnext
    split at hnext
    · cases hnext
      exact ⟨rfl, rfl⟩
    · obtain ⟨⟨id, after⟩, hid, hdone⟩ := bind_eq_ok.1 hnext
      obtain ⟨hlen, rfl⟩ := take_eq_ok.1 hid
      cases hdone
      simp [link, Token.toBytes_ofBytes hlen, hlen]
    · cases hnext
  · rintro ⟨rfl, rfl⟩
    exact takeNext_link next rest

/-! ## Whole frames -/

theorem length_body (c : Chunk) : (body c).length = 20 + (link c.next).length + c.payload.length := by
  rw [body_eq]
  simp only [List.length_append, Bytes.length_littleEndian, Token.length_toBytes]
  omega

theorem length_encode_of_next {c : Chunk} (h : c.next ≠ none) : (encode c).length = c.payload.length + maxOverhead := by
  obtain ⟨next, hnext⟩ := Option.ne_none_iff_exists'.1 h
  rw [encode, List.length_append, length_body, Bytes.length_littleEndian, hnext, link, List.length_append,
    Token.length_toBytes, maxOverhead, List.length_singleton]
  omega

/-- The frame of a last chunk. -/
theorem length_encode_of_last {c : Chunk} (h : c.next = none) : (encode c).length = minSize + c.payload.length := by
  rw [encode, List.length_append, length_body, Bytes.length_littleEndian, h, link, minSize, List.length_singleton]
  omega

theorem ofNat_littleEndian_eq {stored : Bytes} {sum : BitVec 32} (h : stored.length = 4) :
    BitVec.ofNat 32 (Bytes.toNat stored) = sum ↔ stored = Bytes.littleEndian 4 sum.toNat := by
  constructor
  · rintro rfl
    exact Crc32.word_injective (by simp [h]) (by simp [h]) (Crc32.word_littleEndian _).symm
  · rintro rfl
    exact Crc32.word_littleEndian sum

theorem decode_body_append {c : Chunk} {stored : Bytes} {verify : Bool} (hfit : c.payload.length ≤ maxPayload)
    (h4 : stored.length = 4) (hsum : verify = true → stored = Bytes.littleEndian 4 (Crc32.checksum (body c)).toNat) :
    decode (body c ++ stored) verify = .ok c := by
  have hlen : Bytes.toNat (Bytes.littleEndian 4 c.payload.length) = c.payload.length := by
    rw [Bytes.toNat_littleEndian]
    exact Nat.mod_eq_of_lt (Nat.lt_of_le_of_lt hfit (by decide))
  have hbody : (body c ++ stored).take (20 + (link c.next).length + c.payload.length) = body c :=
    List.take_left' (length_body c)
  have hmatch : (verify && BitVec.ofNat 32 (Bytes.toNat stored) != Crc32.checksum (body c)) = false := by
    cases verify with
    | false => rfl
    | true => simpa using (ofNat_littleEndian_eq h4).2 (hsum rfl)
  have hlength : take .length 4 0 (body c ++ stored) = .ok (Bytes.littleEndian 4 c.payload.length,
      c.id.toBytes ++ (link c.next ++ (c.payload ++ stored))) := by
    rw [body_eq, List.append_assoc, List.append_assoc, List.append_assoc]
    exact take_append (Bytes.length_littleEndian 4 _)
  have hid : take .id 16 4 (c.id.toBytes ++ (link c.next ++ (c.payload ++ stored))) =
      .ok (c.id.toBytes, link c.next ++ (c.payload ++ stored)) := take_append c.id.length_toBytes
  have hpayload (offset : Nat) : take .payload c.payload.length offset (c.payload ++ stored) =
      .ok (c.payload, stored) := take_append rfl
  have hstored (offset : Nat) : take .checksum 4 offset stored = .ok (stored, []) := take_eq_ok.2 ⟨h4, by simp⟩
  rw [decode, hlength]
  simp only [Fallible.ok_bind, hid, takeNext_link, hlen, hpayload, hstored, hbody, hmatch]
  simp

/-- A frame is accepted exactly when it is the body of the chunk and four more bytes, the checksum if it is looked at. -/
theorem decode_eq_ok {frame : Bytes} {verify : Bool} {c : Chunk} :
    decode frame verify = .ok c ↔ c.payload.length ≤ maxPayload ∧ ∃ stored, stored.length = 4 ∧
      frame = body c ++ stored ∧ (verify = true → stored = Bytes.littleEndian 4 (Crc32.checksum (body c)).toNat) := by
  constructor
  · intro h
    obtain ⟨⟨length, r₁⟩, h₁, h⟩ := bind_eq_ok.1 h
    obtain ⟨⟨id, r₂⟩, h₂, h⟩ := bind_eq_ok.1 h
    obtain ⟨⟨next, start, r₃⟩, h₃, h⟩ := bind_eq_ok.1 h
    obtain ⟨⟨payload, r₄⟩, h₄, h⟩ := bind_eq_ok.1 h
    obtain ⟨⟨stored, r₅⟩, h₅, h⟩ := bind_eq_ok.1 h
    obtain ⟨hlength, rfl⟩ := take_eq_ok.1 h₁
    obtain ⟨hid, rfl⟩ := take_eq_ok.1 h₂
    obtain ⟨rfl, rfl⟩ := takeNext_eq_ok.1 h₃
    obtain ⟨hpayload, rfl⟩ := take_eq_ok.1 h₄
    obtain ⟨hstored, rfl⟩ := take_eq_ok.1 h₅
    have hwhole : length ++ (id ++ (link next ++ (payload ++ (stored ++ r₅)))) =
        body ⟨payload, Token.ofBytes id, next⟩ ++ (stored ++ r₅) := by
      have hcount : Bytes.littleEndian 4 payload.length = length := by
        rw [hpayload, ← hlength, Bytes.littleEndian_toNat]
      simp [body_eq, hcount, Token.toBytes_ofBytes hid]
    have hbody : (length ++ (id ++ (link next ++ (payload ++ (stored ++ r₅))))).take
        (20 + (link next).length + payload.length) = body ⟨payload, Token.ofBytes id, next⟩ := by
      rw [hwhole]
      exact List.take_left' (length_body _)
    dsimp only at h
    split at h
    · cases h
    · rename_i hempty
      obtain rfl : r₅ = [] := by simpa using hempty
      split at h
      · cases h
      · rename_i hmatch
        cases h
        have hbound := Bytes.toNat_lt length
        refine ⟨?_, stored, hstored, by rw [hwhole, List.append_nil], fun hverify => ?_⟩
        · rw [hpayload]
          rw [hlength] at hbound
          exact Nat.le_of_lt_succ hbound
        · rw [hbody] at hmatch
          exact (ofNat_littleEndian_eq hstored).1 (by simpa [hverify] using hmatch)
  · rintro ⟨hfit, stored, h4, rfl, hsum⟩
    exact decode_body_append hfit h4 hsum

theorem decode_encode {c : Chunk} (hfit : c.payload.length ≤ maxPayload) (verify : Bool) :
    decode (encode c) verify = .ok c :=
  decode_body_append hfit (Bytes.length_littleEndian 4 _) fun _ => rfl

theorem eq_encode_of_decode {frame : Bytes} {c : Chunk} (h : decode frame true = .ok c) : frame = encode c := by
  obtain ⟨-, stored, -, rfl, hsum⟩ := decode_eq_ok.1 h
  rw [hsum rfl, encode]

theorem sealed_encode (c : Chunk) : Crc32.Sealed (encode c) := ⟨body c, rfl⟩

end Frame

/-! ## Bursts -/

/-- The strings have one length and differ at most in four neighbouring bytes. -/
def Bytes.Near (bs cs : Bytes) : Prop :=
  bs.length = cs.length ∧ ∃ start, ∀ i, i < start ∨ start + 4 ≤ i → bs[i]? = cs[i]?

theorem Bytes.Near.refl (bs : Bytes) : Near bs bs := ⟨rfl, 0, fun _ _ => rfl⟩

theorem Bytes.Near.window {bs cs : Bytes} (h : Near bs cs) : ∃ before xs ys after : Bytes,
    xs.length = ys.length ∧ xs.length ≤ 4 ∧ bs = before ++ xs ++ after ∧ cs = before ++ ys ++ after := by
  obtain ⟨hlen, start, hsame⟩ := h
  have hbefore : bs.take start = cs.take start := by
    apply List.ext_getElem?
    intro i
    rcases Nat.lt_or_ge i start with hlt | hge
    · rw [List.getElem?_take_of_lt hlt, List.getElem?_take_of_lt hlt, hsame i (Or.inl hlt)]
    · rw [List.getElem?_take_eq_none hge, List.getElem?_take_eq_none hge]
  have hafter : bs.drop (start + 4) = cs.drop (start + 4) := by
    apply List.ext_getElem?
    intro i
    rw [List.getElem?_drop, List.getElem?_drop, hsame _ (Or.inr (Nat.le_add_right _ _))]
  have hsplit (l : Bytes) : l = l.take start ++ (l.drop start).take 4 ++ l.drop (start + 4) := by
    rw [← List.drop_drop, List.append_assoc, List.take_append_drop, List.take_append_drop]
  refine ⟨bs.take start, (bs.drop start).take 4, (cs.drop start).take 4, bs.drop (start + 4), ?_, ?_, hsplit bs, ?_⟩
  · simp [hlen]
  · simp only [List.length_take]
    omega
  · rw [hbefore, hafter]
    exact hsplit cs

/-- A frame that was damaged inside a window of four bytes is refused by a receiver who looks at the checksum. -/
theorem Frame.decode_near {c d : Chunk} {frame : Bytes} (hnear : Bytes.Near (encode c) frame)
    (h : decode frame true = .ok d) : frame = encode c := by
  obtain ⟨before, xs, ys, after, hlen, h4, hsent, rfl⟩ := hnear.window
  have hsealed : Crc32.Sealed (before ++ ys ++ after) := eq_encode_of_decode h ▸ sealed_encode d
  rw [hsent, Crc32.eq_of_window hlen h4 (hsent ▸ sealed_encode c) hsealed]

namespace Damage

/-- The damage keeps the length of a frame and stays inside a window of four bytes. -/
def IsBurst (d : Damage) : Prop := ∀ bs, Bytes.Near bs (d.apply bs)

theorem length_flip (bs : Bytes) (index : Int) (mask : UInt8) : (flip bs index mask).length = bs.length := by
  unfold flip
  generalize (if 0 ≤ index then index else index + bs.length) = i
  dsimp only
  split
  · exact List.length_modify ..
  · rfl

theorem getElem?_flip {bs : Bytes} {index : Int} {mask : UInt8} {i : Nat} (hindex : 0 ≤ index)
    (hne : index ≠ i) : (flip bs index mask)[i]? = bs[i]? := by
  have hnat : index.toNat ≠ i := by omega
  simp [flip, hindex, hnat]

theorem isBurst_of_flips {flips : List (Int × UInt8)} (start : Nat)
    (h : ∀ f ∈ flips, start ≤ f.1 ∧ f.1 < start + 4) : IsBurst { flips } := by
  intro bs
  -- for any bytes, since every flip works on what the ones before it left
  have hkeep (fs : List (Int × UInt8)) (hfs : ∀ f ∈ fs, start ≤ f.1 ∧ f.1 < start + 4) (cs : Bytes) :
      (fs.foldl (fun bs f => flip bs f.1 f.2) cs).length = cs.length ∧
        ∀ i, i < start ∨ start + 4 ≤ i → (fs.foldl (fun bs f => flip bs f.1 f.2) cs)[i]? = cs[i]? := by
    induction fs generalizing cs with
    | nil => exact ⟨rfl, fun _ _ => rfl⟩
    | cons f fs ih =>
      obtain ⟨hlow, hhigh⟩ := hfs f List.mem_cons_self
      obtain ⟨hlength, hsame⟩ := ih (fun g hg => hfs g (List.mem_cons_of_mem _ hg)) (flip cs f.1 f.2)
      refine ⟨hlength.trans (length_flip cs f.1 f.2), fun i hi => (hsame i hi).trans ?_⟩
      exact getElem?_flip (by omega) (by omega)
  obtain ⟨hlength, hsame⟩ := hkeep flips h bs
  simp only [apply, Nat.sub_zero, List.take_length, List.append_nil]
  exact ⟨hlength.symm, start, fun i hi => (hsame i hi).symm⟩

end Damage

end RemoteTable
