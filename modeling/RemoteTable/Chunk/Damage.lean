import RemoteTable.Chunk.Frame

/-!
# Damage to frames

What a line can do to a frame on its way: flip bits of single bytes, lose bytes at the end, add bytes at the
end, in this order.
-/

namespace RemoteTable

structure Damage where
  /-- Bytes to change, by index and mask; a negative index counts from the end, an index outside changes nothing. -/
  flips : List (Int × UInt8) := []
  /-- How many bytes are lost at the end. -/
  cut : Nat := 0
  /-- Bytes added at the end. -/
  added : Bytes := []
  deriving DecidableEq, Repr

namespace Damage

def none : Damage := {}

/-- Flips the bits of `mask` in one byte. -/
def flip (bs : Bytes) (index : Int) (mask : UInt8) : Bytes :=
  let i := if 0 ≤ index then index else index + bs.length
  if 0 ≤ i then bs.modify i.toNat (· ^^^ mask) else bs

def apply (d : Damage) (bs : Bytes) : Bytes :=
  let flipped := d.flips.foldl (fun bs f => flip bs f.1 f.2) bs
  flipped.take (flipped.length - d.cut) ++ d.added

@[simp] theorem apply_none (bs : Bytes) : none.apply bs = bs := by simp [apply, none]

end Damage

end RemoteTable
