import RemoteTable.Proofs.Store

/-!
# Stores that differ in their revisions

Two stores mirror each other if they hold the same tables with the same metadata, at revisions that correspond
(`Store.Mirrors`). They then refuse the same operations in the same words, answer the others alike, and mirror each
other afterwards (`Store.Mirrors.answer`): a revision is compared with one that the caller brings, and with nothing
else. The correspondence grows by the two revisions that are drawn, if they are (`Grows`).
-/

namespace RemoteTable

/-- Two computations that fail with the same error, or succeed with related values. -/
inductive Fallible.Both {ε α β : Type} (r : α → β → Prop) : Except ε α → Except ε β → Prop where
  | ok {a : α} {b : β} (related : r a b) : Both r (.ok a) (.ok b)
  | error (e : ε) : Both r (.error e) (.error e)

namespace Fallible.Both

variable {ε α β γ δ : Type} {r : α → β → Prop} {q : γ → δ → Prop} {x : Except ε α} {y : Except ε β}

theorem bind {f : α → Except ε γ} {g : β → Except ε δ} (h : Both r x y) (hf : ∀ a b, r a b → Both q (f a) (g b)) :
    Both q (x >>= f) (y >>= g) := by
  cases h with
  | ok related => exact hf _ _ related
  | error e => exact .error e

theorem mono {r' : α → β → Prop} (h : Both r x y) (hr : ∀ a b, r a b → r' a b) : Both r' x y := by
  cases h with
  | ok related => exact .ok (hr _ _ related)
  | error e => exact .error e

theorem map {f : α → γ} {g : β → δ} (h : Both r x y) (hf : ∀ a b, r a b → q (f a) (g b)) :
    Both q (f <$> x) (g <$> y) := by
  cases h with
  | ok related => exact .ok (hf _ _ related)
  | error e => exact .error e

theorem bind_same (x : Except ε α) {f : α → Except ε γ} {g : α → Except ε δ} (hf : ∀ a, Both q (f a) (g a)) :
    Both q (x >>= f) (x >>= g) := by
  cases x with
  | ok a => exact hf a
  | error e => exact .error e

end Fallible.Both

open Fallible (Both)

section

variable {α β : Type} {r r' : α → β → Prop} {x : Option α} {y : Option β}

/-- Two options that are related are both there or both not. -/
theorem optionRel_ways (h : Option.Rel r x y) : x = none ∧ y = none ∨ ∃ a b, x = some a ∧ y = some b ∧ r a b := by
  cases h with
  | none => exact .inl ⟨rfl, rfl⟩
  | some hab => exact .inr ⟨_, _, rfl, rfl, hab⟩

theorem optionRel_mono (h : Option.Rel r x y) (hr : ∀ a b, r a b → r' a b) : Option.Rel r' x y := by
  cases h with
  | none => exact .none
  | some hab => exact .some (hr _ _ hab)

end

variable {R R' : Option Token → Option Token → Prop}

/-! ## What mirrors what -/

/-- The same entries of the same table. -/
structure MetadataSet.Mirrors (R : Option Token → Option Token → Prop) (a b : MetadataSet) : Prop where
  table : a.table = b.table
  revision : R a.revision b.revision
  entries : a.entries = b.entries

structure Table.Mirrors (R : Option Token → Option Token → Prop) (t u : Table) : Prop where
  columns : t.columns = u.columns
  rows : t.rows = u.rows
  isOpen : t.isOpen = u.isOpen
  metadata : t.metadata.Mirrors R u.metadata

structure Store.Mirrors (R : Option Token → Option Token → Prop) (s t : Store) : Prop where
  writers : s.writers = t.writers
  tables : ∀ name, Option.Rel (Table.Mirrors R) (s.tables.get? name) (t.tables.get? name)

def Answer.Mirrors (R : Option Token → Option Token → Prop) : Answer → Answer → Prop
  | .metadata a, .metadata b => a.Mirrors R b
  | a, b => a = b

/-- A correspondence of revisions before and after something that draws at most one from each supply: if they are
drawn, these two correspond as well. -/
inductive Grows (R : Option Token → Option Token → Prop) (supply supply' : Supply) :
    (Option Token → Option Token → Prop) → Supply → Supply → Prop where
  | same : Grows R supply supply' R supply supply'
  | drawn : Grows R supply supply' (fun a b => R a b ∨ a = some supply.next.1 ∧ b = some supply'.next.1)
      supply.next.2 supply'.next.2

theorem Grows.mono {supply supply' later later' : Supply} (h : Grows R supply supply' R' later later')
    {a b : Option Token} (hab : R a b) : R' a b := by
  cases h with
  | same => exact hab
  | drawn => exact .inl hab

theorem MetadataSet.Mirrors.mono {a b : MetadataSet} (h : a.Mirrors R b) (hR : ∀ a b, R a b → R' a b) :
    a.Mirrors R' b := ⟨h.table, hR _ _ h.revision, h.entries⟩

theorem Table.Mirrors.mono {t u : Table} (h : t.Mirrors R u) (hR : ∀ a b, R a b → R' a b) : t.Mirrors R' u :=
  ⟨h.columns, h.rows, h.isOpen, h.metadata.mono hR⟩

namespace Store

variable {s t : Store}

/-- A table is in both stores or in neither. -/
theorem Mirrors.ways (h : s.Mirrors R t) (name : String) : s.tables.get? name = none ∧ t.tables.get? name = none ∨
    ∃ a b, s.tables.get? name = some a ∧ t.tables.get? name = some b ∧ a.Mirrors R b :=
  optionRel_ways (h.tables name)

theorem Mirrors.mono (h : s.Mirrors R t) (hR : ∀ a b, R a b → R' a b) : s.Mirrors R' t :=
  ⟨h.writers, fun name => optionRel_mono (h.tables name) fun _ _ hab => hab.mono hR⟩

theorem Mirrors.withTable (h : s.Mirrors R t) {a b : Table} (hab : a.Mirrors R b) (name : String) :
    (s.withTable name a).Mirrors R (t.withTable name b) := by
  refine ⟨h.writers, fun k => ?_⟩
  show Option.Rel _ ((s.tables.insert name a).get? k) ((t.tables.insert name b).get? k)
  rw [Dict.get?_insert, Dict.get?_insert]
  split
  · exact .some hab
  · exact h.tables k

/-! ## Operations -/

section

variable (h : s.Mirrors R t) (name : String)
include h

theorem Mirrors.table : Both (Table.Mirrors R) (s.table name) (t.table name) := by
  unfold Store.table
  rcases h.ways name with ⟨hs, ht⟩ | ⟨a, b, hs, ht, hab⟩
  · rw [hs, ht]
    exact .error _
  · rw [hs, ht]
    exact .ok hab

theorem Mirrors.openedTable : Both (Table.Mirrors R) (s.openedTable name) (t.openedTable name) := by
  refine (h.table name).bind fun a b hab => ?_
  rw [hab.isOpen]
  split
  · exact .ok hab
  · exact .error _

theorem Mirrors.createTable (columns : List String) (supply supply' : Supply) :
    Both (fun x y => ∃ R', Grows R supply supply' R' x.2 y.2 ∧ x.1.Mirrors R' y.1)
      (s.createTable name columns supply) (t.createTable name columns supply') := by
  have hsame : (s.tables.get? name).isSome = (t.tables.get? name).isSome := by
    rcases h.ways name with ⟨hs, ht⟩ | ⟨a, b, hs, ht, -⟩
    · rw [hs, ht]
    · rw [hs, ht]
      rfl
  unfold Store.createTable
  rw [hsame]
  split
  · exact .error _
  · split
    · exact .error _
    · refine .ok ⟨_, .drawn, (h.mono fun a b hab => .inl hab).withTable ?_ name⟩
      exact ⟨rfl, rfl, rfl, rfl, .inr ⟨rfl, rfl⟩, rfl⟩

theorem Mirrors.insertRow (row : Row) : Both (Store.Mirrors R) (s.insertRow name row) (t.insertRow name row) := by
  refine (h.table name).bind fun a b hab => ?_
  obtain ⟨columns, rows, isOpen, set⟩ := a
  obtain ⟨rfl, rfl, rfl, hset⟩ := hab
  dsimp only
  split
  · exact .error _
  · split
    · exact .error _
    · refine .ok (h.withTable ?_ name)
      exact ⟨rfl, rfl, rfl, hset⟩

omit name in
theorem Mirrors.grantWrite (principal : String) : (s.grantWrite principal).Mirrors R (t.grantWrite principal) :=
  ⟨congrArg (·.insert principal) h.writers, h.tables⟩

theorem Mirrors.openTable : Both (fun x y => x.1 = y.1 ∧ x.2.Mirrors R y.2) (s.openTable name) (t.openTable name) := by
  refine (h.table name).bind fun a b hab => .ok ⟨?_, h.withTable ?_ name⟩
  · rw [hab.columns, hab.rows]
  · exact ⟨hab.columns, hab.rows, rfl, hab.metadata⟩

theorem Mirrors.closeTable : Both (Store.Mirrors R) (s.closeTable name) (t.closeTable name) := by
  refine (h.openedTable name).bind fun a b hab => .ok (h.withTable ?_ name)
  exact ⟨hab.columns, hab.rows, rfl, hab.metadata⟩

omit name in
theorem Mirrors.query (q : Query) : Both (· = ·) (s.query q) (t.query q) := by
  refine (h.openedTable q.table).bind fun a b hab => ?_
  rw [hab.columns, hab.rows]
  split
  · exact .error _
  · exact .ok rfl

theorem Mirrors.getRow (row : String) : Both (· = ·) (s.getRow name row) (t.getRow name row) := by
  refine (h.openedTable name).bind fun a b hab => .ok ?_
  rw [hab.rows]

theorem Mirrors.metadata : Both (MetadataSet.Mirrors R) (s.metadata name) (t.metadata name) :=
  (h.table name).bind fun _ _ hab => .ok hab.metadata

/-- The revisions that the callers hold are current for the one store if they are for the other. -/
theorem Mirrors.metadataIfChanged {known known' : Option Token}
    (hknown : ∀ a b, s.tables.get? name = some a → t.tables.get? name = some b →
      (a.metadata.revision = known ↔ b.metadata.revision = known')) :
    Both (MetadataSet.Mirrors R) (s.metadataIfChanged name known) (t.metadataIfChanged name known') := by
  unfold Store.metadataIfChanged Store.metadata Store.table
  rcases h.ways name with ⟨hs, ht⟩ | ⟨a, b, hs, ht, hab⟩
  · rw [hs, ht]
    exact .error _
  · rw [hs, ht]
    refine .ok ?_
    by_cases hcurrent : a.metadata.revision = known
    · rw [if_pos hcurrent, if_pos ((hknown a b hs ht).1 hcurrent)]
      exact ⟨rfl, hab.metadata.revision, rfl⟩
    · rw [if_neg hcurrent, if_neg fun hb => hcurrent ((hknown a b hs ht).2 hb)]
      exact hab.metadata

omit name in
theorem Mirrors.authorize (principal : Option String) : s.authorize principal = t.authorize principal := by
  unfold Store.authorize
  rw [h.writers]

omit name in
/-- Entries are written to the tables that have the name. -/
theorem Mirrors.reviseEntries {a b : Table} (hab : a.Mirrors R b) (name : String) (entries : List MetadataEntry)
    (supply supply' : Supply) : ∃ R', Grows R supply supply' R' (reviseEntries a entries supply).2
        (reviseEntries b entries supply').2 ∧
      (s.withTable name (Store.reviseEntries a entries supply).1).Mirrors R'
        (t.withTable name (Store.reviseEntries b entries supply').1) := by
  refine ⟨_, .drawn, (h.mono fun a b hab => .inl hab).withTable ?_ name⟩
  exact ⟨hab.columns, hab.rows, hab.isOpen, hab.metadata.table, .inr ⟨rfl, rfl⟩, rfl⟩

omit name in
theorem Mirrors.putMetadata (principal : Option String) (entry : MetadataEntry) (supply supply' : Supply) :
    Both (fun x y => ∃ R', Grows R supply supply' R' x.2 y.2 ∧ x.1.Mirrors R' y.1)
      (s.putMetadata principal entry supply) (t.putMetadata principal entry supply') := by
  unfold Store.putMetadata
  rw [h.authorize principal]
  refine .bind_same _ fun _ => ?_
  split
  · exact .error _
  · refine (h.table entry.table).bind fun a b hab => ?_
    rw [hab.metadata.entries]
    split
    · exact .ok ⟨R, .same, h⟩
    · exact .ok (h.reviseEntries hab entry.table _ supply supply')

theorem Mirrors.deleteMetadata (principal : Option String) (slot : Slot) (supply supply' : Supply) :
    Both (fun x y => ∃ R', Grows R supply supply' R' x.2 y.2 ∧ x.1.Mirrors R' y.1)
      (s.deleteMetadata principal name slot supply) (t.deleteMetadata principal name slot supply') := by
  unfold Store.deleteMetadata
  rw [h.authorize principal]
  refine .bind_same _ fun _ => ?_
  refine (h.table name).bind fun a b hab => ?_
  rw [hab.metadata.entries]
  dsimp only
  split
  · exact .ok ⟨R, .same, h⟩
  · exact .ok (h.reviseEntries hab name _ supply supply')

end

/-! ## Calls -/

/-- The same call, but that each caller may bring a revision of its own: it is current for the one store if it is for
the other. -/
inductive Matches (s t : Store) : Call → Call → Prop where
  | same {call : Call} (brings_none : ∀ table known, call ≠ .getMetadataIfChanged table known) : Matches s t call call
  | ifChanged {table : String} {known known' : Option Token}
    (current : ∀ a b, s.tables.get? table = some a → t.tables.get? table = some b →
      (a.metadata.revision = known ↔ b.metadata.revision = known')) :
    Matches s t (.getMetadataIfChanged table known) (.getMetadataIfChanged table known')

/-- What two answered calls have left, when the stores mirrored each other before. -/
def Echoes (R : Option Token → Option Token → Prop) (supply supply' : Supply) (x y : Answer × Store × Supply) : Prop :=
  ∃ R', Grows R supply supply' R' x.2.2 y.2.2 ∧ x.1.Mirrors R' y.1 ∧ x.2.1.Mirrors R' y.2.1

theorem Mirrors.answer (h : s.Mirrors R t) {call call' : Call} (hcall : Matches s t call call')
    (principal : Option String) (supply supply' : Supply) :
    Both (Echoes R supply supply') (s.answer principal call supply) (t.answer principal call' supply') := by
  cases hcall with
  | ifChanged current =>
    exact (h.metadataIfChanged _ current).bind fun a b hab => .ok ⟨R, .same, hab, h⟩
  | same brings_none =>
    cases call with
    | openTable name =>
      refine (h.openTable name).bind fun a b hab => .ok ⟨R, .same, ?_, hab.2⟩
      exact congrArg Answer.info hab.1
    | closeTable name => exact (h.closeTable name).bind fun a b hab => .ok ⟨R, .same, rfl, hab⟩
    | query q => exact (h.query q).bind fun a b hab => .ok ⟨R, .same, congrArg Answer.rows hab, h⟩
    | getRow name row => exact (h.getRow name row).bind fun a b hab => .ok ⟨R, .same, congrArg Answer.row hab, h⟩
    | getMetadata name => exact (h.metadata name).bind fun a b hab => .ok ⟨R, .same, hab, h⟩
    | getMetadataIfChanged name known => exact absurd rfl (brings_none name known)
    | putMetadata entry =>
      refine (h.putMetadata principal entry supply supply').bind fun a b hab => ?_
      obtain ⟨R', hgrows, hmirrors⟩ := hab
      exact .ok ⟨R', hgrows, rfl, hmirrors⟩
    | deleteMetadata name slot =>
      refine (h.deleteMetadata name principal slot supply supply').bind fun a b hab => ?_
      obtain ⟨R', hgrows, hmirrors⟩ := hab
      exact .ok ⟨R', hgrows, rfl, hmirrors⟩

end Store

end RemoteTable
