import RemoteTable.Bytes

/-!
# Tokens

A token is 128 bits and names a chunk or a metadata revision. Its written form is 32 lower-case hexadecimal
digits in groups of 8, 4, 4, 4 and 12. It is read from that form, from the bare digits, from the grouped form
in braces and from the grouped form after `urn:uuid:`; digits and the name of the scheme may be in either
case.
-/

namespace RemoteTable

structure Token where
  bits : BitVec 128
  deriving DecidableEq, Inhabited

namespace Token

/-- The token whose sixteen bytes, highest first, are these. -/
def ofBytes (bs : Bytes) : Token := ⟨BitVec.ofNat 128 (Bytes.toNat bs.reverse)⟩

def toBytes (t : Token) : Bytes := (Bytes.littleEndian 16 t.bits.toNat).reverse

@[simp] theorem length_toBytes (t : Token) : t.toBytes.length = 16 := by simp [toBytes]

@[simp] theorem ofBytes_toBytes (t : Token) : ofBytes t.toBytes = t := by
  obtain ⟨bits⟩ := t
  have h : bits.toNat < Nat.pow 256 16 := bits.isLt
  rw [ofBytes, toBytes, List.reverse_reverse, Bytes.toNat_littleEndian, Nat.mod_eq_of_lt h,
    BitVec.ofNat_toNat, BitVec.setWidth_eq]

theorem toBytes_ofBytes {bs : Bytes} (h : bs.length = 16) : (ofBytes bs).toBytes = bs := by
  have hlt : Bytes.toNat bs.reverse < 2 ^ 128 := by
    have hbound := Bytes.toNat_lt bs.reverse
    rw [List.length_reverse, h] at hbound
    exact hbound
  have hlen : bs.reverse.length = 16 := by simpa using h
  rw [toBytes, ofBytes, BitVec.toNat_ofNat, Nat.mod_eq_of_lt hlt, ← hlen, Bytes.littleEndian_toNat,
    List.reverse_reverse]

/-- The five groups of a written token. -/
def groups : List Nat := [8, 4, 4, 4, 12]

/-- The digits of `ds` in groups of the given sizes, with a hyphen between two groups. -/
def group : List Nat → List Char → List Char
  | [], _ => []
  | [n], ds => ds.take n
  | n :: ns, ds => ds.take n ++ '-' :: group ns (ds.drop n)

/-- Takes the digits of the given groups apart again; a hyphen must stand between two groups. -/
def ungroup? : List Nat → List Char → Option (List Char)
  | [], cs => if cs.isEmpty then some [] else none
  | [n], cs => if cs.length = n then some cs else none
  | n :: ns, cs =>
    match cs.drop n with
    | '-' :: rest => (ungroup? ns rest).map (cs.take n ++ ·)
    | _ => none

def render (t : Token) : String := String.ofList (group groups (Bytes.hexDigits t.toBytes))

def ofDigits? (ds : List Char) : Option Token :=
  if ds.length = 32 then (Bytes.ofHexDigits? ds).map ofBytes else none

/-- The scheme a written token may stand behind. -/
def scheme : List Char := "urn:uuid:".toList

/-- The grouped form that `cs` wraps in braces or behind the scheme, or else `cs` itself. -/
def unwrap (cs : List Char) : List Char :=
  if cs.head? = some '{' ∧ cs.getLast? = some '}' ∧ cs.length = 38 then (cs.drop 1).dropLast
  else if (cs.take scheme.length).map Char.toLower = scheme then cs.drop scheme.length
  else cs

/-- Reads any of the accepted forms. -/
def parse? (s : String) : Option Token :=
  (ofDigits? s.toList).or ((ungroup? groups (unwrap s.toList)).bind ofDigits?)

end Token

end RemoteTable
