import RemoteTable.Token

/-!
# Supplies of tokens

The serving side names chunks and revisions with tokens nobody has seen before. Where they come from is a
parameter: a supply is a sequence of tokens and the number of those already drawn.
-/

namespace RemoteTable

/-- A sequence of tokens, of which the first `used` have been drawn. -/
structure Supply where
  draw : Nat → Token
  used : Nat

namespace Supply

def fresh (draw : Nat → Token) : Supply := ⟨draw, 0⟩

def next (s : Supply) : Token × Supply := (s.draw s.used, { s with used := s.used + 1 })

def take (n : Nat) (s : Supply) : List Token × Supply :=
  ((List.range' s.used n).map s.draw, { s with used := s.used + n })

/-- The tokens drawn so far differ from each other. -/
def Distinct (s : Supply) : Prop := ∀ i < s.used, ∀ j < s.used, s.draw i = s.draw j → i = j

@[simp] theorem length_take (n : Nat) (s : Supply) : (s.take n).1.length = n := by simp [take]

end Supply

end RemoteTable
