import RemoteTable.Double

/-!
# JSON values

Cells of rows, arguments of calls and everything written as JSON text are values of one type. An integer in
the range of 64-bit words, signed or unsigned, stays an integer; every other number is a double.

An object is a list of members. A value is well formed when the keys of every object in it ascend strictly and
every integer in it is in range; `sorted` brings the members of a value into that order, and a key given twice
keeps its last value. Equality of cells is `agrees`: integers and doubles differ, the two zeros of doubles do
not.
-/

namespace RemoteTable

inductive Number where
  | int (i : Int)
  | double (d : Double)
  deriving DecidableEq, Repr

namespace Number

/-- Whether an integer is in the range of signed or of unsigned 64-bit words. -/
def InRange (i : Int) : Prop := -(UInt64.size / 2 : Nat) ≤ i ∧ i < UInt64.size

instance (i : Int) : Decidable (InRange i) := inferInstanceAs (Decidable (_ ∧ _))

def agrees : Number → Number → Bool
  | int i, int j => i == j
  | double a, double b => a.same b
  | _, _ => false

end Number

inductive Json where
  | null
  | bool (b : Bool)
  | number (n : Number)
  | text (s : String)
  | array (items : List Json)
  | object (members : List (String × Json))
  deriving Inhabited

namespace Json

abbrev int (i : Int) : Json := .number (.int i)

abbrev word (n : UInt64) : Json := int n.toNat

/-! ## Members -/

/-- Puts a member at its place among ascending keys, in place of a member with the same key. -/
def insert (key : String) (value : Json) : List (String × Json) → List (String × Json)
  | [] => [(key, value)]
  | (k, v) :: rest =>
    if key < k then (key, value) :: (k, v) :: rest
    else if key = k then (key, value) :: rest
    else (k, v) :: insert key value rest

/-- The members in ascending order of their keys; of equal keys the last counts. -/
def ascending (members : List (String × Json)) : List (String × Json) :=
  members.foldl (fun sorted m => insert m.1 m.2 sorted) []

def member? (key : String) (members : List (String × Json)) : Option Json := members.lookup key

def ofMembers (members : List (String × Json)) : Json := .object (ascending members)

mutual

/-- The same value with the members of every object ascending. -/
def sorted : Json → Json
  | .array items => .array (sortedItems items)
  | .object members => .object (ascending (sortedMembers members))
  | v => v

def sortedItems : List Json → List Json
  | [] => []
  | v :: rest => sorted v :: sortedItems rest

def sortedMembers : List (String × Json) → List (String × Json)
  | [] => []
  | (k, v) :: rest => (k, sorted v) :: sortedMembers rest

end

/-! ## Well-formed values -/

mutual

/-- Keys ascend strictly in every object and integers are in range. -/
def WellFormed : Json → Prop
  | .number (.int i) => Number.InRange i
  | .array items => WellFormedItems items
  | .object members => (members.map Prod.fst).Pairwise (· < ·) ∧ WellFormedMembers members
  | _ => True

def WellFormedItems : List Json → Prop
  | [] => True
  | v :: rest => WellFormed v ∧ WellFormedItems rest

def WellFormedMembers : List (String × Json) → Prop
  | [] => True
  | (_, v) :: rest => WellFormed v ∧ WellFormedMembers rest

end

mutual

/-- How many containers enclose the innermost value. -/
def depth : Json → Nat
  | .array items => depthItems items + 1
  | .object members => depthMembers members + 1
  | _ => 0

def depthItems : List Json → Nat
  | [] => 0
  | v :: rest => max (depth v) (depthItems rest)

def depthMembers : List (String × Json) → Nat
  | [] => 0
  | (_, v) :: rest => max (depth v) (depthMembers rest)

end

/-! ## Equality of cells -/

mutual

def agrees : Json → Json → Bool
  | .null, .null => true
  | .bool a, .bool b => a == b
  | .number a, .number b => a.agrees b
  | .text a, .text b => a == b
  | .array a, .array b => agreesItems a b
  | .object a, .object b => agreesMembers a b
  | _, _ => false

def agreesItems : List Json → List Json → Bool
  | [], [] => true
  | a :: as, b :: bs => agrees a b && agreesItems as bs
  | _, _ => false

def agreesMembers : List (String × Json) → List (String × Json) → Bool
  | [], [] => true
  | (k, a) :: as, (l, b) :: bs => k == l && agrees a b && agreesMembers as bs
  | _, _ => false

end

end Json

end RemoteTable
