/-!
# Computations that may fail

Sequences of steps each of which may fail, taken apart: when the whole succeeds every step does, and the first
step that fails decides. Among these steps is to take a front off a list, which succeeds on what was put behind it.
-/

namespace RemoteTable.Fallible

variable {ε α β : Type}

@[simp] theorem ok_bind (a : α) (f : α → Except ε β) : (Except.ok a >>= f) = f a := rfl

@[simp] theorem error_bind (e : ε) (f : α → Except ε β) : (Except.error e >>= f) = Except.error e := rfl

@[simp] theorem pure_eq (a : α) : (pure a : Except ε α) = Except.ok a := rfl

@[simp] theorem throw_eq (e : ε) : (throw e : Except ε α) = Except.error e := rfl

theorem bind_eq_ok {x : Except ε α} {f : α → Except ε β} {b : β} :
    (x >>= f) = Except.ok b ↔ ∃ a, x = Except.ok a ∧ f a = Except.ok b := by
  cases x <;> simp

theorem bind_eq_error {x : Except ε α} {f : α → Except ε β} {e : ε} :
    (x >>= f) = .error e ↔ x = .error e ∨ ∃ a, x = .ok a ∧ f a = .error e := by
  cases x with
  | error e' => simp
  | ok a => simp

theorem map_injective {f : α → β} (hf : ∀ a b, f a = f b → a = b) {x y : Except ε α} (h : f <$> x = f <$> y) :
    x = y := by
  cases x with
  | error e =>
    cases y with
    | error e' =>
      cases h
      rfl
    | ok b => cases h
  | ok a =>
    cases y with
    | error e => cases h
    | ok b => exact congrArg Except.ok (hf a b (Except.ok.inj h))

/-- What does not succeed fails. -/
theorem exists_error {x : Except ε α} (h : ∀ a, x ≠ .ok a) : ∃ e, x = .error e := by
  cases x with
  | ok a => exact absurd rfl (h a)
  | error e => exact ⟨e, rfl⟩

theorem isPrefixOf?_append {γ : Type} [BEq γ] [LawfulBEq γ] (front back : List γ) :
    front.isPrefixOf? (front ++ back) = some back := by
  induction front with
  | nil => rfl
  | cons c front ih =>
    show (if c == c then front.isPrefixOf? (front ++ back) else none) = some back
    rw [if_pos (beq_self_eq_true c), ih]

end RemoteTable.Fallible
