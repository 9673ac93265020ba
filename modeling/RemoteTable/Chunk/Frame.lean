import RemoteTable.Chunk.Basic
import RemoteTable.Chunk.Crc32
import RemoteTable.TransportError

/-!
# Frames

A chunk travels as one frame: the payload's length in four bytes, the id, a flag that says whether a next id
follows, that id, the payload, and the checksum of all this in four bytes. Numbers are little-endian. A frame
is refused when it ends inside a part, when the flag is neither 0 nor 1, when bytes follow the checksum, and,
if asked for, when the checksum does not match; the faults are looked for in this order from front to back.
-/

namespace RemoteTable

inductive FramePart where
  | length | id | flag | next | payload | checksum
  deriving DecidableEq, Repr

def FramePart.name : FramePart → String
  | length => "payload length"
  | id => "id"
  | flag => "has_next flag"
  | next => "next id"
  | payload => "payload"
  | checksum => "checksum"

inductive FrameError where
  /-- The string ends inside a part, which needs so many bytes at an offset where fewer are left. -/
  | truncated (part : FramePart) (needed offset left : Nat)
  | badFlag (flag : UInt8)
  | badChecksum (stored computed : BitVec 32)
  | trailing (count : Nat)
  deriving DecidableEq, Repr

namespace FrameError

def code : FrameError → String
  | truncated .. => "AERO_REMOTE_FRAME_TRUNCATED"
  | badFlag _ => "AERO_REMOTE_FRAME_INVALID_FLAG"
  | badChecksum .. => "AERO_REMOTE_FRAME_CHECKSUM_MISMATCH"
  | trailing _ => "AERO_REMOTE_FRAME_TRAILING_BYTES"

def message : FrameError → String
  | truncated part needed offset left =>
    s!"frame too short for {part.name}: need {needed} bytes at offset {offset}, have {left}"
  | badFlag flag => s!"has_next flag must be 0 or 1, got {flag.toNat}"
  | badChecksum stored computed => s!"checksum mismatch: expected {stored.toHex}, computed {computed.toHex}"
  | trailing count => s!"{count} unexpected bytes after checksum"

def display (e : FrameError) : String := s!"{e.code}: {e.message}"

def toTransport (e : FrameError) : TransportError := ⟨.internal, e.display⟩

end FrameError

namespace Frame

/-- The most payload bytes that the length field can tell. -/
def maxPayload : Nat := UInt32.size - 1

/-- The bytes of a frame around the payload of a chunk without a next one. -/
def minSize : Nat := 25

/-- The bytes of a frame around the payload of a chunk with a next one. -/
def maxOverhead : Nat := 41

/-- A frame up to its checksum. -/
def body (c : Chunk) : Bytes :=
  Bytes.littleEndian 4 c.payload.length ++ c.id.toBytes ++
    (match c.next with
      | none => [0]
      | some next => 1 :: next.toBytes) ++ c.payload

def encode (c : Chunk) : Bytes := body c ++ Bytes.littleEndian 4 (Crc32.checksum (body c)).toNat

/-- Takes a part of the given size off the front of what is left at an offset. -/
def take (part : FramePart) (size offset : Nat) (bs : Bytes) : Except FrameError (Bytes × Bytes) :=
  if size ≤ bs.length then .ok (bs.take size, bs.drop size) else .error (.truncated part size offset bs.length)

/-- Takes off the flag and the next id: the id, where the payload begins, and what is left. -/
def takeNext (bs : Bytes) : Except FrameError (Option Token × Nat × Bytes) := do
  let (flag, rest) ← take .flag 1 20 bs
  match flag.headD 0 with
  | 0 => return (none, 21, rest)
  | 1 =>
    let (next, rest) ← take .next 16 21 rest
    return (some (Token.ofBytes next), 37, rest)
  | b => throw (.badFlag b)

/-- Reads a frame, with or without a look at its checksum. -/
def decode (frame : Bytes) (verify : Bool) : Except FrameError Chunk := do
  let (length, rest) ← take .length 4 0 frame
  let (id, rest) ← take .id 16 4 rest
  let (next, start, rest) ← takeNext rest
  let (payload, rest) ← take .payload (Bytes.toNat length) start rest
  let bodySize := start + payload.length
  let (stored, rest) ← take .checksum 4 bodySize rest
  if !rest.isEmpty then throw (.trailing rest.length)
  let stored := BitVec.ofNat 32 (Bytes.toNat stored)
  let computed := Crc32.checksum (frame.take bodySize)
  if verify && stored != computed then throw (.badChecksum stored computed)
  return ⟨payload, Token.ofBytes id, next⟩

end Frame

end RemoteTable
