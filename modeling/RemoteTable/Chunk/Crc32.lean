import RemoteTable.Bytes

/-!
# CRC-32

The checksum of a frame: the reflected cyclic redundancy check with polynomial 0xEDB88320, register and result
complemented. The register takes in a byte by exclusive or at its low end and then shifts right eight times;
whenever a one leaves it, the polynomial is added. The shift is linear, which is what makes damage of up to 32
adjacent bits visible.
-/

namespace RemoteTable.Crc32

def polynomial : BitVec 32 := 0xEDB88320#32

def shift (r : BitVec 32) : BitVec 32 := (r >>> 1) ^^^ (if r.getLsbD 0 then polynomial else 0)

def shift8 (r : BitVec 32) : BitVec 32 := shift (shift (shift (shift (shift (shift (shift (shift r)))))))

def update (r : BitVec 32) (b : UInt8) : BitVec 32 := shift8 (r ^^^ b.toBitVec.setWidth 32)

def run (r : BitVec 32) (bs : Bytes) : BitVec 32 := bs.foldl update r

def checksum (bs : Bytes) : BitVec 32 := ~~~ run (BitVec.allOnes 32) bs

theorem run_append (r : BitVec 32) (xs ys : Bytes) : run r (xs ++ ys) = run (run r xs) ys := List.foldl_append

example : checksum [0x31, 0x32, 0x33, 0x34, 0x35, 0x36, 0x37, 0x38, 0x39] = 0xCBF43926#32 := by decide +kernel

end RemoteTable.Crc32
