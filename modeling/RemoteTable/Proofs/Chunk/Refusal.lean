import RemoteTable.Proofs.Chunk.Frame

/-!
# Why a frame is refused

What becomes of a byte string that is read as a frame is settled by three things at its front, whatever else it holds:
whether there are twenty-one bytes, whether the flag among them is 0 or 1, and how the length of the string compares with
the length that the flag and the length field announce (`Frame.Verdict`, `verdict`). The checksum is looked at last, so a
look at it changes nothing but the verdict on a string that is a whole frame otherwise. From this follows what is said of
a frame that was cut short, a frame with bytes behind it and any malformed string (`Frame.classified`).

`scan` reads by position, as a reader with an index into the string does: there to subtract an index that is too large, or
to slice beyond the end, is an outcome of its own. It never comes to that (`scan_eq`).
-/

namespace RemoteTable.Frame

/-! ## The end of a reading -/

/-- What becomes of a chunk when so many bytes are left behind the checksum. -/
def conclude (verify : Bool) (left : Nat) (stored computed : BitVec 32) (c : Chunk) : Except FrameError Chunk :=
  if left ≠ 0 then .error (.trailing left)
  else if verify && stored != computed then .error (.badChecksum stored computed)
  else .ok c

/-- The end of a reading, from the position of the payload on. -/
def decodeFrom (frame : Bytes) (verify : Bool) (length : Nat) (id : Bytes) (next : Option Token × Nat × Bytes) :
    Except FrameError Chunk := do
  let payload ← take .payload length next.2.1 next.2.2
  let stored ← take .checksum 4 (next.2.1 + payload.1.length) payload.2
  conclude verify stored.2.length (BitVec.ofNat 32 (Bytes.toNat stored.1))
    (Crc32.checksum (frame.take (next.2.1 + payload.1.length))) ⟨payload.1, Token.ofBytes id, next.1⟩

theorem decode_eq (frame : Bytes) (verify : Bool) : decode frame verify = (do
    let length ← take .length 4 0 frame
    let id ← take .id 16 4 length.2
    let next ← takeNext id.2
    decodeFrom frame verify (Bytes.toNat length.1) id.1 next) := by
  unfold decode
  refine bind_congr fun _ => bind_congr fun _ => bind_congr fun _ => bind_congr fun _ => bind_congr fun stored => ?_
  dsimp only
  unfold conclude
  cases stored.2 with
  | nil =>
    have hnone : ¬(!List.isEmpty ([] : Bytes)) = true := Bool.false_ne_true
    have hzero : ¬List.length ([] : Bytes) ≠ 0 := fun h => h rfl
    rw [if_neg hnone, if_neg hzero]
    split <;> rfl
  | cons b rest => rfl

/-! ## Reading by position -/

/-- How a reading by position ends early: the frame is refused, or the reader reaches outside of it. -/
inductive Lapse where
  | refused (e : FrameError)
  | outside

/-- The outcome of a reading that stays inside. -/
def inside {α : Type} : Except FrameError α → Except Lapse α
  | .ok a => .ok a
  | .error e => .error (.refused e)

def left (frame : Bytes) (pos : Nat) : Except Lapse Nat :=
  if pos ≤ frame.length then .ok (frame.length - pos) else .error .outside

def slice (frame : Bytes) (pos size : Nat) : Except Lapse Bytes :=
  if pos + size ≤ frame.length then .ok ((frame.drop pos).take size) else .error .outside

/-- A part that was read, and the position after it. -/
structure Cut (α : Type) where
  part : α
  stop : Nat

/-- The part of the given size at a position. -/
def cut (frame : Bytes) (part : FramePart) (size pos : Nat) : Except Lapse (Cut Bytes) := do
  let left ← left frame pos
  if left < size then throw (.refused (.truncated part size pos left))
  let bytes ← slice frame pos size
  return ⟨bytes, pos + size⟩

/-- The next id, if the flag tells of one. -/
def cutNext (frame : Bytes) (pos : Nat) : Except Lapse (Cut (Option Token)) := do
  let flag ← cut frame .flag 1 pos
  if flag.part.headD 0 = 0 then return ⟨none, flag.stop⟩
  if flag.part.headD 0 ≠ 1 then throw (.refused (.badFlag (flag.part.headD 0)))
  let next ← cut frame .next 16 flag.stop
  return ⟨some (Token.ofBytes next.part), next.stop⟩

def scan (frame : Bytes) (verify : Bool) : Except Lapse Chunk := do
  let length ← cut frame .length 4 0
  let id ← cut frame .id 16 length.stop
  let next ← cutNext frame id.stop
  let payload ← cut frame .payload (Bytes.toNat length.part) next.stop
  let stored ← cut frame .checksum 4 payload.stop
  let left ← left frame stored.stop
  let body ← slice frame 0 payload.stop
  inside (conclude verify left (BitVec.ofNat 32 (Bytes.toNat stored.part)) (Crc32.checksum body)
    ⟨payload.part, Token.ofBytes id.part, next.part⟩)

variable {α : Type} {frame : Bytes} {part : FramePart} {size pos : Nat}

theorem cut_of_le (h : pos + size ≤ frame.length) :
    cut frame part size pos = .ok ⟨(frame.drop pos).take size, pos + size⟩ := by
  have hpos : pos ≤ frame.length := by omega
  have henough : ¬frame.length - pos < size := by omega
  rw [cut, left, if_pos hpos, Fallible.ok_bind, if_neg henough, slice, if_pos h]
  rfl

theorem cut_of_lt (hpos : pos ≤ frame.length) (h : frame.length < pos + size) :
    cut frame part size pos = .error (.refused (.truncated part size pos (frame.length - pos))) := by
  have hshort : frame.length - pos < size := by omega
  rw [cut, left, if_pos hpos, Fallible.ok_bind, if_pos hshort]
  rfl

theorem take_of_le (h : pos + size ≤ frame.length) :
    take part size pos (frame.drop pos) = .ok ((frame.drop pos).take size, frame.drop (pos + size)) := by
  have hfits : size ≤ (frame.drop pos).length := by rw [List.length_drop]; omega
  rw [take, if_pos hfits, List.drop_drop]

theorem take_of_lt (hpos : pos ≤ frame.length) (h : frame.length < pos + size) :
    take part size pos (frame.drop pos) = .error (.truncated part size pos (frame.length - pos)) := by
  have hshort : ¬size ≤ (frame.drop pos).length := by rw [List.length_drop]; omega
  rw [take, if_neg hshort, List.length_drop]

theorem cut_bind {k : Cut Bytes → Except Lapse α} {g : Bytes × Bytes → Except FrameError α} (hpos : pos ≤ frame.length)
    (h : pos + size ≤ frame.length →
      k ⟨(frame.drop pos).take size, pos + size⟩ = inside (g ((frame.drop pos).take size, frame.drop (pos + size)))) :
    (cut frame part size pos >>= k) = inside (take part size pos (frame.drop pos) >>= g) := by
  rcases Nat.lt_or_ge frame.length (pos + size) with hlt | hge
  · rw [cut_of_lt hpos hlt, take_of_lt hpos hlt]
    rfl
  · rw [cut_of_le hge, take_of_le hge]
    exact h hge

theorem cutNext_bind {k : Cut (Option Token) → Except Lapse α} {g : Option Token × Nat × Bytes → Except FrameError α}
    (hpos : 20 ≤ frame.length)
    (h : ∀ next start, start ≤ frame.length → k ⟨next, start⟩ = inside (g (next, start, frame.drop start))) :
    (cutNext frame 20 >>= k) = inside (takeNext (frame.drop 20) >>= g) := by
  unfold cutNext takeNext
  rw [bind_assoc, bind_assoc]
  refine cut_bind hpos fun hflag => ?_
  dsimp only
  generalize ((frame.drop 20).take 1).headD 0 = flag
  by_cases h0 : flag = 0
  · subst h0
    exact h none 21 hflag
  by_cases h1 : flag = 1
  · subst h1
    change ((cut frame .next 16 21 >>= _) >>= k) = inside ((take .next 16 21 (frame.drop 21) >>= _) >>= g)
    rw [bind_assoc, bind_assoc]
    exact cut_bind hflag fun hnext => h _ 37 hnext
  · rw [if_neg h0, if_pos h1]
    split
    · exact absurd rfl h0
    · exact absurd rfl h1
    · rfl

/-- Reading by position stays inside the string, and comes to the same. -/
theorem scan_eq (frame : Bytes) (verify : Bool) : scan frame verify = inside (decode frame verify) := by
  rw [scan, decode_eq]
  unfold decodeFrom
  refine cut_bind (Nat.zero_le _) fun hlength => cut_bind hlength fun hid => cutNext_bind hid fun next start hstart => ?_
  refine cut_bind hstart fun hpayload => ?_
  have hsize (n : Nat) (hn : start + n ≤ frame.length) : ((frame.drop start).take n).length = n := by
    rw [List.length_take, List.length_drop]
    omega
  dsimp only
  rw [hsize _ hpayload]
  refine cut_bind hpayload fun hstored => ?_
  dsimp only
  have hbody (n : Nat) (hn : n ≤ frame.length) : slice frame 0 n = .ok (frame.take n) := if_pos (by omega)
  rw [left, if_pos hstored, Fallible.ok_bind, hbody _ hpayload, Fallible.ok_bind, List.length_drop]

/-! ## Verdicts -/

/-- Where the payload begins, as the flag tells. -/
def payloadStart? (flag : UInt8) : Option Nat :=
  if flag = 0 then some 21 else if flag = 1 then some 37 else none

/-- How long the payload is, as the length field tells. -/
def declared (frame : Bytes) : Nat := Bytes.toNat (frame.take 4)

def stored (frame : Bytes) : BitVec 32 := BitVec.ofNat 32 (Bytes.toNat (frame.drop (frame.length - 4)))

def computed (frame : Bytes) : BitVec 32 := Crc32.checksum (frame.take (frame.length - 4))

/-- The string ends before its flag or before the end that it announces. -/
def IsShort (frame : Bytes) : Prop :=
  frame.length < 21 ∨ ∃ flag start, frame[20]? = some flag ∧ payloadStart? flag = some start ∧
    frame.length < start + declared frame + 4

/-- The string is refused since it ends inside a part, at whose offset fewer bytes are left than the part needs. -/
def EndsInside (frame : Bytes) (r : Except FrameError Chunk) : Prop :=
  ∃ part needed offset left, r = .error (.truncated part needed offset left) ∧
    offset + left = frame.length ∧ left < needed

/-- What becomes of a byte string that is read as a frame, with or without a look at its checksum. -/
inductive Verdict (frame : Bytes) (read : Bool → Except FrameError Chunk) : Prop where
  | cutShort (part : FramePart) (needed offset left : Nat) (short : IsShort frame)
    (ends : offset + left = frame.length) (lacks : left < needed)
    (refused : ∀ verify, read verify = .error (.truncated part needed offset left))
  | flagged (flag : UInt8) (there : frame[20]? = some flag) (bad : payloadStart? flag = none)
    (refused : ∀ verify, read verify = .error (.badFlag flag))
  /-- It goes on behind the end that it announces. -/
  | overlong (flag : UInt8) (start : Nat) (there : frame[20]? = some flag) (starts : payloadStart? flag = some start)
    (long : start + declared frame + 4 < frame.length)
    (refused : ∀ verify, read verify = .error (.trailing (frame.length - (start + declared frame + 4))))
  | whole (flag : UInt8) (start : Nat) (c : Chunk) (there : frame[20]? = some flag)
    (starts : payloadStart? flag = some start) (exact : frame.length = start + declared frame + 4)
    (read_eq : ∀ verify, read verify = if verify && stored frame != computed frame
      then .error (.badChecksum (stored frame) (computed frame)) else .ok c)

/-- The reader finds the flag behind twenty bytes. -/
theorem drop_of_flag {flag : UInt8} (there : frame[20]? = some flag) :
    20 < frame.length ∧ frame.drop 20 = flag :: frame.drop 21 := by
  obtain ⟨hlt, rfl⟩ := List.getElem?_eq_some_iff.1 there
  exact ⟨hlt, List.drop_eq_getElem_cons hlt⟩

theorem takeNext_bad {flag : UInt8} (there : frame[20]? = some flag) (bad : payloadStart? flag = none) :
    takeNext (frame.drop 20) = .error (.badFlag flag) := by
  obtain ⟨hlt, hdrop⟩ := drop_of_flag there
  rw [takeNext, take_of_le hlt, Fallible.ok_bind, hdrop]
  dsimp only [List.take_succ_cons, List.take_zero, List.headD_cons]
  split
  · cases bad
  · cases bad
  · rfl

theorem takeNext_short (there : frame[20]? = some 1) (h : frame.length < 37) :
    takeNext (frame.drop 20) = .error (.truncated .next 16 21 (frame.length - 21)) := by
  obtain ⟨hlt, hdrop⟩ := drop_of_flag there
  rw [takeNext, take_of_le hlt, Fallible.ok_bind, hdrop]
  change take .next 16 21 (frame.drop 21) >>= _ = _
  rw [take_of_lt hlt h]
  rfl

theorem payloadStart?_eq_some {flag : UInt8} {start : Nat} :
    payloadStart? flag = some start ↔ flag = 0 ∧ start = 21 ∨ flag = 1 ∧ start = 37 := by
  unfold payloadStart?
  split
  · simp_all [eq_comm]
  · split <;> simp_all [eq_comm]

theorem payloadStart?_eq_none {flag : UInt8} : payloadStart? flag = none ↔ flag ≠ 0 ∧ flag ≠ 1 := by
  unfold payloadStart?
  split
  · simp_all
  · split <;> simp_all

theorem takeNext_start {flag : UInt8} {start : Nat} (there : frame[20]? = some flag)
    (starts : payloadStart? flag = some start) (h : start ≤ frame.length) :
    ∃ next, takeNext (frame.drop 20) = .ok (next, start, frame.drop start) := by
  obtain ⟨hlt, hdrop⟩ := drop_of_flag there
  rw [takeNext, take_of_le hlt, Fallible.ok_bind, hdrop]
  rcases payloadStart?_eq_some.1 starts with ⟨rfl, rfl⟩ | ⟨rfl, rfl⟩
  · exact ⟨none, rfl⟩
  · change ∃ next, take .next 16 21 (frame.drop 21) >>= _ = _
    rw [take_of_le h]
    exact ⟨_, rfl⟩

/-- Behind the length and the id, the flag decides where the payload begins. -/
theorem decode_of_front (h : 20 ≤ frame.length) (verify : Bool) : decode frame verify =
    takeNext (frame.drop 20) >>= decodeFrom frame verify (declared frame) ((frame.drop 4).take 16) := by
  have hlength : take .length 4 0 frame = .ok (frame.take 4, frame.drop 4) := @take_of_le frame .length 4 0 (by omega)
  have hid : take .id 16 4 (frame.drop 4) = .ok ((frame.drop 4).take 16, frame.drop 20) := take_of_le h
  rw [decode_eq, hlength, Fallible.ok_bind, hid, Fallible.ok_bind]
  rfl

variable {start length : Nat} {id : Bytes} {next : Option Token}

theorem decodeFrom_short (hstart : start ≤ frame.length) (h : frame.length < start + length + 4) :
    ∃ part needed offset left, offset + left = frame.length ∧ left < needed ∧
      ∀ verify, decodeFrom frame verify length id (next, start, frame.drop start) =
        .error (.truncated part needed offset left) := by
  rcases Nat.lt_or_ge frame.length (start + length) with hpayload | hpayload
  · refine ⟨.payload, length, start, frame.length - start, by omega, by omega, fun verify => ?_⟩
    rw [decodeFrom, take_of_lt hstart hpayload]
    rfl
  · have hsize : ((frame.drop start).take length).length = length := by simp; omega
    refine ⟨.checksum, 4, start + length, frame.length - (start + length), by omega, by omega, fun verify => ?_⟩
    rw [decodeFrom, take_of_le hpayload, Fallible.ok_bind, hsize, take_of_lt hpayload h]
    rfl

theorem decodeFrom_enough (h : start + length + 4 ≤ frame.length) (verify : Bool) :
    decodeFrom frame verify length id (next, start, frame.drop start) =
      conclude verify (frame.length - (start + length + 4))
        (BitVec.ofNat 32 (Bytes.toNat ((frame.drop (start + length)).take 4)))
        (Crc32.checksum (frame.take (start + length))) ⟨(frame.drop start).take length, Token.ofBytes id, next⟩ := by
  have hsize : ((frame.drop start).take length).length = length := by simp; omega
  rw [decodeFrom, take_of_le (Nat.le_of_add_right_le h), Fallible.ok_bind, hsize, take_of_le h, Fallible.ok_bind,
    List.length_drop]

theorem decode_of_headless (h : frame.length < 21) :
    ∃ part needed offset left, offset + left = frame.length ∧ left < needed ∧
      ∀ verify, decode frame verify = .error (.truncated part needed offset left) := by
  rcases Nat.lt_or_ge frame.length 4 with hlength | hlength
  · have htake : take .length 4 0 frame = _ := take_of_lt (Nat.zero_le _) (show frame.length < 0 + 4 by omega)
    refine ⟨.length, 4, 0, frame.length - 0, by omega, by omega, fun verify => ?_⟩
    rw [decode_eq, htake]
    rfl
  rcases Nat.lt_or_ge frame.length 20 with hid | hid
  · have htake : take .length 4 0 frame = .ok (frame.take 4, frame.drop 4) := @take_of_le frame .length 4 0 (by omega)
    refine ⟨.id, 16, 4, frame.length - 4, by omega, by omega, fun verify => ?_⟩
    rw [decode_eq, htake, Fallible.ok_bind, take_of_lt hlength hid]
    rfl
  · refine ⟨.flag, 1, 20, frame.length - 20, by omega, by omega, fun verify => ?_⟩
    rw [decode_of_front hid, takeNext, take_of_lt hid h]
    rfl

/-- Every byte string gets its verdict from its front and its length, and the checksum is only looked at in the end. -/
theorem verdict (frame : Bytes) : Verdict frame (decode frame) := by
  rcases Nat.lt_or_ge frame.length 21 with hshort | hlong
  · obtain ⟨part, needed, offset, left, hends, hlacks, hrefused⟩ := decode_of_headless hshort
    exact .cutShort part needed offset left (.inl hshort) hends hlacks hrefused
  have hfront := decode_of_front (Nat.le_of_lt hlong)
  have there : frame[20]? = some frame[20] := List.getElem?_eq_getElem hlong
  generalize frame[20] = flag at there
  cases starts : payloadStart? flag with
  | none =>
    refine .flagged flag there starts fun verify => ?_
    rw [hfront, takeNext_bad there starts]
    rfl
  | some start =>
    rcases Nat.lt_or_ge frame.length start with hnext | hstart
    · -- twenty-one bytes are there, so it is the next id that is not
      obtain ⟨rfl, rfl⟩ : flag = 1 ∧ start = 37 := (payloadStart?_eq_some.1 starts).resolve_left (by omega)
      refine .cutShort .next 16 21 (frame.length - 21) (.inr ⟨1, 37, there, starts, by omega⟩) (by omega) (by omega)
        fun verify => ?_
      rw [hfront, takeNext_short there hnext]
      rfl
    obtain ⟨next, hnext⟩ := takeNext_start there starts hstart
    rw [hnext] at hfront
    rcases Nat.lt_trichotomy frame.length (start + declared frame + 4) with hlt | heq | hgt
    · obtain ⟨part, needed, offset, left, hends, hlacks, hrefused⟩ := decodeFrom_short hstart hlt
      exact .cutShort part needed offset left (.inr ⟨flag, start, there, starts, hlt⟩) hends hlacks
        fun verify => (hfront verify).trans (hrefused verify)
    · have hend : start + declared frame = frame.length - 4 := by omega
      have hlast : (frame.drop (frame.length - 4)).take 4 = frame.drop (frame.length - 4) :=
        List.take_of_length_le (by rw [List.length_drop]; omega)
      refine .whole flag start ⟨(frame.drop start).take (declared frame), Token.ofBytes ((frame.drop 4).take 16), next⟩
        there starts heq fun verify => (hfront verify).trans ((decodeFrom_enough (Nat.le_of_eq heq.symm) verify).trans ?_)
      rw [conclude, if_neg (by omega), hend, hlast]
      rfl
    · refine .overlong flag start there starts hgt fun verify =>
        (hfront verify).trans ((decodeFrom_enough (Nat.le_of_lt hgt) verify).trans ?_)
      exact if_pos (by omega)

namespace Verdict

variable {read : Bool → Except FrameError Chunk} {flag : UInt8}

/-- The front of a string of which a flag is known announces one length only. -/
theorem start_unique {start' : Nat} {flag' : UInt8} (there : frame[20]? = some flag)
    (starts : payloadStart? flag = some start) (there' : frame[20]? = some flag')
    (starts' : payloadStart? flag' = some start') : start' = start := by
  cases there.symm.trans there'
  exact Option.some.inj (starts'.symm.trans starts)

/-- A string with a valid flag is too short for what it announces, too long, or all of it. -/
theorem of_start (h : Verdict frame read) (there : frame[20]? = some flag) (starts : payloadStart? flag = some start) :
    frame.length < start + declared frame + 4 ∧ (∀ verify, EndsInside frame (read verify)) ∨
      start + declared frame + 4 < frame.length ∧
        (∀ verify, read verify = .error (.trailing (frame.length - (start + declared frame + 4)))) ∨
      frame.length = start + declared frame + 4 ∧ ∃ c, read false = .ok c := by
  cases h with
  | cutShort part needed offset left short ends lacks refused =>
    rcases short with hheadless | ⟨flag', start', there', starts', hlt⟩
    · exact absurd hheadless (Nat.not_lt_of_le (drop_of_flag there).1)
    · rw [start_unique there starts there' starts'] at hlt
      exact .inl ⟨hlt, fun verify => ⟨part, needed, offset, left, refused verify, ends, lacks⟩⟩
  | flagged flag' there' bad =>
    cases there.symm.trans there'
    cases starts.symm.trans bad
  | overlong flag' start' there' starts' long refused =>
    obtain rfl := start_unique there starts there' starts'
    exact .inr (.inl ⟨long, refused⟩)
  | whole flag' start' c there' starts' exact' read_eq =>
    obtain rfl := start_unique there starts there' starts'
    exact .inr (.inr ⟨exact', c, read_eq false⟩)

theorem endsInside (h : Verdict frame read) (hshort : IsShort frame) (verify : Bool) :
    EndsInside frame (read verify) := by
  rcases hshort with hheadless | ⟨flag, start, there, starts, hlt⟩
  · have hflagless {flag : UInt8} (there : frame[20]? = some flag) : False :=
      Nat.not_lt_of_le (drop_of_flag there).1 hheadless
    cases h with
    | cutShort part needed offset left short ends lacks refused =>
      exact ⟨part, needed, offset, left, refused verify, ends, lacks⟩
    | flagged flag there => exact (hflagless there).elim
    | overlong flag start there => exact (hflagless there).elim
    | whole flag start c there => exact (hflagless there).elim
  · obtain ⟨-, hends⟩ | ⟨hgt, -⟩ | ⟨heq, -⟩ := h.of_start there starts
    · exact hends verify
    · omega
    · omega

theorem badFlag_iff (h : Verdict frame read) (verify : Bool) :
    read verify = .error (.badFlag flag) ↔ frame[20]? = some flag ∧ flag ≠ 0 ∧ flag ≠ 1 := by
  rw [← payloadStart?_eq_none]
  constructor
  · intro hbad
    cases h with
    | cutShort part needed offset left _ _ _ refused => cases (refused verify).symm.trans hbad
    | flagged flag' there bad refused =>
      cases (refused verify).symm.trans hbad
      exact ⟨there, bad⟩
    | overlong flag' start there starts _ refused => cases (refused verify).symm.trans hbad
    | whole flag' start c there starts _ read_eq =>
      rw [read_eq] at hbad
      split at hbad <;> cases hbad
  · rintro ⟨there, bad⟩
    cases h with
    | cutShort part needed offset left short =>
      rcases short with hheadless | ⟨flag', start', there', starts', -⟩
      · have := (drop_of_flag there).1
        omega
      · cases there.symm.trans there'
        cases starts'.symm.trans bad
    | flagged flag' there' _ refused =>
      cases there.symm.trans there'
      exact refused verify
    | overlong flag' start there' starts =>
      cases there.symm.trans there'
      cases starts.symm.trans bad
    | whole flag' start c there' starts =>
      cases there.symm.trans there'
      cases starts.symm.trans bad

/-- What is accepted ends where it says. -/
theorem exact_of_ok {c : Chunk} {verify : Bool} (h : Verdict frame read) (haccepted : read verify = .ok c) :
    ∃ flag start, frame[20]? = some flag ∧ payloadStart? flag = some start ∧
      frame.length = start + declared frame + 4 := by
  cases h with
  | cutShort part needed offset left _ _ _ refused => cases (refused verify).symm.trans haccepted
  | flagged flag there bad refused => cases (refused verify).symm.trans haccepted
  | overlong flag start there starts _ refused => cases (refused verify).symm.trans haccepted
  | whole flag start c there starts exact' => exact ⟨flag, start, there, starts, exact'⟩

/-- A look at the checksum refuses what is accepted otherwise if the last four bytes are another sum, and changes nothing
else. -/
theorem looked_at (h : Verdict frame read) : read true = read false ∧
      (∀ told found, read false ≠ .error (.badChecksum told found)) ∧
      ((∃ c, read false = .ok c) → stored frame = computed frame) ∨
    read true = .error (.badChecksum (stored frame) (computed frame)) ∧ stored frame ≠ computed frame ∧
      ∃ c, read false = .ok c := by
  have hrefused {e : FrameError} (refused : ∀ verify, read verify = .error e)
      (hother : ∀ told found, e ≠ .badChecksum told found) : read true = read false ∧
        (∀ told found, read false ≠ .error (.badChecksum told found)) ∧
        ((∃ c, read false = .ok c) → stored frame = computed frame) := by
    refine ⟨(refused true).trans (refused false).symm, fun told found hbad => ?_, fun ⟨c, hok⟩ => ?_⟩
    · exact hother told found (Except.error.inj ((refused false).symm.trans hbad))
    · cases (refused false).symm.trans hok
  cases h with
  | cutShort part needed offset left _ _ _ refused => exact .inl (hrefused refused fun _ _ h => by cases h)
  | flagged flag there bad refused => exact .inl (hrefused refused fun _ _ h => by cases h)
  | overlong flag start there starts _ refused => exact .inl (hrefused refused fun _ _ h => by cases h)
  | whole flag start c there starts _ read_eq =>
    have hplain : read false = .ok c := read_eq false
    have hlooked := read_eq true
    by_cases hsum : stored frame = computed frame
    · rw [hsum, Bool.true_and, bne_self_eq_false, if_neg Bool.false_ne_true] at hlooked
      refine .inl ⟨hlooked.trans hplain.symm, fun told found hbad => ?_, fun _ => hsum⟩
      cases hplain.symm.trans hbad
    · rw [Bool.true_and, if_pos (bne_iff_ne.2 hsum)] at hlooked
      exact .inr ⟨hlooked, hsum, c, hplain⟩

end Verdict

/-! ## Cut frames and frames with bytes behind them -/

theorem isShort_take {flag : UInt8} {n : Nat} (there : frame[20]? = some flag) (starts : payloadStart? flag = some start)
    (hend : frame.length = start + declared frame + 4) (h : n < frame.length) : IsShort (frame.take n) := by
  have hn : (frame.take n).length = n := List.length_take_of_le (Nat.le_of_lt h)
  rcases Nat.lt_or_ge n 21 with hlt | hge
  · exact .inl (hn.symm ▸ hlt)
  have hthere : (frame.take n)[20]? = some flag := (List.getElem?_take_of_lt hge).trans there
  have hdeclared : declared (frame.take n) = declared frame := by
    rw [declared, List.take_take, Nat.min_eq_left (by omega), declared]
  refine .inr ⟨flag, start, hthere, starts, ?_⟩
  rw [hn, hdeclared, ← hend]
  exact h

/-- A frame that was cut short ends inside a part. -/
theorem decode_take_encode {c : Chunk} {n : Nat} (hfit : c.payload.length ≤ maxPayload) (h : n < (encode c).length)
    (verify : Bool) : EndsInside ((encode c).take n) (decode ((encode c).take n) verify) := by
  obtain ⟨flag, start, there, starts, hend⟩ := (verdict (encode c)).exact_of_ok (decode_encode hfit verify)
  exact (verdict _).endsInside (isShort_take there starts hend h) verify

theorem decode_encode_append {c : Chunk} {extra : Bytes} (hfit : c.payload.length ≤ maxPayload) (h : extra ≠ [])
    (verify : Bool) : decode (encode c ++ extra) verify = .error (.trailing extra.length) := by
  obtain ⟨flag, start, there, starts, hend⟩ := (verdict (encode c)).exact_of_ok (decode_encode hfit verify)
  have hlong := (drop_of_flag there).1
  have hthere : (encode c ++ extra)[20]? = some flag := (List.getElem?_append_left hlong).trans there
  have hdeclared : declared (encode c ++ extra) = declared (encode c) := by
    rw [declared, List.take_append_of_le_length (by omega), declared]
  have hextra : 0 < extra.length := List.length_pos_iff.2 h
  have hlen : (encode c ++ extra).length = start + declared (encode c) + 4 + extra.length := by
    rw [List.length_append, ← hend]
  obtain ⟨hlt, -⟩ | ⟨-, hrefused⟩ | ⟨heq, -⟩ := (verdict (encode c ++ extra)).of_start hthere starts
  · omega
  · rw [hrefused, hdeclared, hlen, Nat.add_sub_cancel_left]
  · omega

/-- The sums are told apart on exactly the strings that are accepted without a look at the checksum. -/
theorem badChecksum_iff {told found : BitVec 32} : decode frame true = .error (.badChecksum told found) ↔
    (∃ c, decode frame false = .ok c) ∧ told = stored frame ∧ found = computed frame ∧ told ≠ found := by
  obtain ⟨hsame, hnone, hsum⟩ | ⟨hlooked, hsum, haccepted⟩ := (verdict frame).looked_at
  · rw [hsame]
    constructor
    · exact fun hbad => absurd hbad (hnone told found)
    · rintro ⟨haccepted, rfl, rfl, hne⟩
      exact absurd (hsum haccepted) hne
  · rw [hlooked]
    constructor
    · intro hbad
      cases hbad
      exact ⟨haccepted, rfl, rfl, hsum⟩
    · rintro ⟨-, rfl, rfl, -⟩
      rfl

theorem decode_agrees (h : ∀ told found, decode frame true ≠ .error (.badChecksum told found)) :
    decode frame true = decode frame false := by
  obtain ⟨hsame, -⟩ | ⟨hlooked, -⟩ := (verdict frame).looked_at
  · exact hsame
  · exact absurd hlooked (h _ _)

/-- What becomes of any byte string, with and without a look at the checksum, told by its flag and its length. The
reader stays inside of it, a frame that was cut short ends inside a part, and bytes behind a frame are counted. -/
theorem classified (frame : Bytes) (verify : Bool) :
    scan frame verify = inside (decode frame verify) ∧
    (∀ c n, c.payload.length ≤ maxPayload → n < (encode c).length →
      EndsInside ((encode c).take n) (decode ((encode c).take n) verify)) ∧
    (∀ c extra, c.payload.length ≤ maxPayload → extra ≠ [] →
      decode (encode c ++ extra) verify = .error (.trailing extra.length)) ∧
    (∀ flag, decode frame verify = .error (.badFlag flag) ↔ frame[20]? = some flag ∧ flag ≠ 0 ∧ flag ≠ 1) ∧
    (frame.length < 21 → EndsInside frame (decode frame verify)) ∧
    (∀ flag start, frame[20]? = some flag → payloadStart? flag = some start →
      (frame.length < start + declared frame + 4 → EndsInside frame (decode frame verify)) ∧
      (start + declared frame + 4 < frame.length →
        decode frame verify = .error (.trailing (frame.length - (start + declared frame + 4)))) ∧
      (frame.length = start + declared frame + 4 → ∃ c, decode frame false = .ok c)) ∧
    (∀ told found, decode frame true = .error (.badChecksum told found) ↔
      (∃ c, decode frame false = .ok c) ∧ told = stored frame ∧ found = computed frame ∧ told ≠ found) ∧
    ((∀ told found, decode frame true ≠ .error (.badChecksum told found)) →
      decode frame true = decode frame false) := by
  refine ⟨scan_eq frame verify, ?_, ?_, ?_, ?_, ?_, ?_, decode_agrees⟩
  · intro c n hfit h
    exact decode_take_encode hfit h verify
  · intro c extra hfit h
    exact decode_encode_append hfit h verify
  · intro flag
    exact (verdict frame).badFlag_iff verify
  · intro hheadless
    exact (verdict frame).endsInside (.inl hheadless) verify
  · intro flag start there starts
    obtain ⟨hlt, hends⟩ | ⟨hgt, hrefused⟩ | ⟨heq, haccepted⟩ := (verdict frame).of_start there starts
    · exact ⟨fun _ => hends verify, by omega, by omega⟩
    · exact ⟨by omega, fun _ => hrefused verify, by omega⟩
    · exact ⟨by omega, by omega, fun _ => haccepted⟩
  · intro told found
    exact badChecksum_iff

/-- A linked chunk, the front of its frame, and the frame with two bytes behind it; and a string of twenty-five zeros,
which is a frame but for its checksum. -/
theorem classified_of_linked :
    let c : Chunk := ⟨[104, 105], ⟨1⟩, some ⟨2⟩⟩
    let zeros : Bytes := List.replicate 25 0
    EndsInside ((encode c).take 30) (decode ((encode c).take 30) true) ∧
      decode (encode c ++ [0, 0]) true = .error (.trailing 2) ∧
      (∃ d, decode zeros false = .ok d) ∧
      decode zeros true = .error (.badChecksum (stored zeros) (computed zeros)) := by
  intro c zeros
  obtain ⟨-, htake, happend, -, -, hstart, hsum, -⟩ := classified zeros true
  have hfit : c.payload.length ≤ maxPayload := by decide
  have haccepted : ∃ d, decode zeros false = .ok d := (hstart 0 21 rfl rfl).2.2 rfl
  exact ⟨htake c 30 hfit (by decide), happend c [0, 0] hfit (List.cons_ne_nil _ _), haccepted,
    (hsum _ _).2 ⟨haccepted, rfl, rfl, by decide +kernel⟩⟩

end RemoteTable.Frame
