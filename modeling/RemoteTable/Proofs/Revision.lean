import RemoteTable.Proofs.Store

/-!
# Revisions of tables

An operation on a store keeps every table. Either the metadata of the table stays as it was, or it has other entries
and a revision drawn by the operation (`Store.Amends`, one lemma for each operation). Over any number of operations
metadata is what it was, or at a revision drawn in between (`Store.Revised`), so a revision that was drawn before
means that nothing has changed (`Store.Revised.kept`).
-/

namespace RemoteTable.Store

variable {s t u : Store} {name : String} {supply later last : Supply}

/-! ## Over many operations -/

/-- The metadata of a table is what it was, or at a revision drawn in between. -/
def Revised (s : Store) (supply : Supply) (t : Store) (later : Supply) : Prop :=
  ∀ name u, t.tables.get? name = some u → (∃ v, s.tables.get? name = some v ∧ u.metadata = v.metadata) ∨
    ∃ x ∈ supply.drawnUntil later, u.metadata.revision = some x

/-- Every table is at one of these revisions. -/
def Dated (s : Store) (dates : List Token) : Prop :=
  ∀ table t, s.tables.get? table = some t → ∃ x ∈ dates, t.metadata.revision = some x

theorem Revised.refl (s : Store) (supply later : Supply) : s.Revised supply s later :=
  fun _ u hget => .inl ⟨u, hget, rfl⟩

theorem Revised.trans (h : s.Revised supply t later) (h' : t.Revised later u last) (hlater : supply.Follows later)
    (hlast : later.Follows last) : s.Revised supply u last := by
  intro name c hc
  rw [Supply.drawnUntil_append hlater hlast]
  rcases h' name c hc with ⟨b, hb, hsame⟩ | ⟨x, hx, hrevision⟩
  · rcases h name b hb with ⟨a, ha, hsame'⟩ | ⟨x, hx, hrevision⟩
    · exact .inl ⟨a, ha, hsame.trans hsame'⟩
    · exact .inr ⟨x, List.mem_append_left _ hx, by rw [hsame, hrevision]⟩
  · exact .inr ⟨x, List.mem_append_right _ hx, hrevision⟩

theorem Dated.revised {origin : Supply} (h : s.Dated (origin.drawnUntil supply)) (hst : s.Revised supply t later)
    (hsupply : origin.Follows supply) (hlater : supply.Follows later) : t.Dated (origin.drawnUntil later) := by
  intro name b hb
  rw [Supply.drawnUntil_append hsupply hlater]
  rcases hst name b hb with ⟨a, ha, hsame⟩ | ⟨x, hx, hrevision⟩
  · obtain ⟨x, hx, hrevision⟩ := h name a ha
    exact ⟨x, List.mem_append_left _ hx, by rw [hsame, hrevision]⟩
  · exact ⟨x, List.mem_append_right _ hx, hrevision⟩

/-- Metadata at a revision that was drawn before is what it was. -/
theorem Revised.kept {origin : Supply} (h : s.Revised supply t later) (hsupply : origin.Follows supply)
    (hlater : supply.Follows later) (hdistinct : later.Distinct) {b : Table} (hb : t.tables.get? name = some b)
    {x : Token} (hx : x ∈ origin.drawnUntil supply) (hrevision : b.metadata.revision = some x) :
    ∃ a, s.tables.get? name = some a ∧ b.metadata = a.metadata := by
  rcases h name b hb with hkept | ⟨y, hy, hnew⟩
  · exact hkept
  · obtain rfl : y = x := Option.some.inj (hnew.symm.trans hrevision)
    exact absurd hx ((hdistinct.unmet hsupply hlater).unmet y hy)

/-! ## In one operation -/

/-- What one operation makes of the tables: none goes, metadata gets other entries exactly if it gets a revision drawn
in between, and so does a table that is made. -/
structure Amends (s : Store) (supply : Supply) (t : Store) (later : Supply) : Prop where
  follows : supply.Follows later
  kept : ∀ name a, s.tables.get? name = some a → ∃ b, t.tables.get? name = some b ∧ (b.metadata = a.metadata ∨
    b.metadata.entries ≠ a.metadata.entries ∧ ∃ x ∈ supply.drawnUntil later, b.metadata.revision = some x)
  made : ∀ name b, s.tables.get? name = none → t.tables.get? name = some b →
    ∃ x ∈ supply.drawnUntil later, b.metadata.revision = some x

theorem Amends.refl (s : Store) (supply : Supply) : s.Amends supply s supply where
  follows := .refl supply
  kept _ a ha := ⟨a, ha, .inl rfl⟩
  made _ _ hnone hb := nomatch hnone.symm.trans hb

theorem Amends.revised (h : s.Amends supply t later) : s.Revised supply t later := by
  intro name b hb
  cases ha : s.tables.get? name with
  | none => exact .inr (h.made name b ha hb)
  | some a =>
    obtain ⟨c, hc, hamended⟩ := h.kept name a ha
    cases hb.symm.trans hc
    exact hamended.imp (fun hsame => ⟨a, rfl, hsame⟩) (·.2)

theorem Amends.withTable {b : Table} (hfollows : supply.Follows later)
    (h : match s.tables.get? name with
      | some a => b.metadata = a.metadata ∨ b.metadata.entries ≠ a.metadata.entries ∧
          ∃ x ∈ supply.drawnUntil later, b.metadata.revision = some x
      | none => ∃ x ∈ supply.drawnUntil later, b.metadata.revision = some x) :
    s.Amends supply (s.withTable name b) later := by
  have hget k : (s.withTable name b).tables.get? k = if k = name then some b else s.tables.get? k :=
    Dict.get?_insert ..
  refine ⟨hfollows, fun k a ha => ?_, fun k c hnone hc => ?_⟩
  · rw [hget]
    by_cases hk : k = name
    · subst hk
      rw [ha] at h
      exact ⟨b, if_pos rfl, h⟩
    · exact ⟨a, (if_neg hk).trans ha, .inl rfl⟩
  · rw [hget] at hc
    by_cases hk : k = name
    · subst hk
      rw [if_pos rfl] at hc
      cases hc
      rwa [hnone] at h
    · rw [if_neg hk, hnone] at hc
      cases hc

/-- What is done to a table without its metadata changes no metadata. -/
theorem Amends.of_metadata {a b : Table} (ha : s.tables.get? name = some a) (hsame : b.metadata = a.metadata) :
    s.Amends supply (s.withTable name b) supply := by
  refine Amends.withTable (.refl supply) ?_
  rw [ha]
  exact .inl hsame

theorem mem_drawnUntil_next (supply : Supply) :
    supply.draw supply.used ∈ supply.drawnUntil { supply with used := supply.used + 1 } := by
  unfold Supply.drawnUntil
  exact List.mem_map_of_mem (List.mem_range'_1.2 ⟨Nat.le_refl _, by dsimp only; omega⟩)

theorem Rewrites.amends {a : Table} {entries : List MetadataEntry} (h : Rewrites s supply name a entries t later)
    (ha : s.tables.get? name = some a) : s.Amends supply t later := by
  cases h with
  | same => exact .refl s supply
  | revised changed =>
    refine Amends.withTable ⟨rfl, Nat.le_succ _⟩ ?_
    rw [ha]
    exact .inr ⟨changed, _, mem_drawnUntil_next supply, rfl⟩

theorem amends_createTable {columns : List String} (h : s.createTable name columns supply = .ok (t, later)) :
    s.Amends supply t later := by
  obtain ⟨hfree, rfl, rfl⟩ := createTable_eq_ok h
  refine Amends.withTable ⟨rfl, Nat.le_succ _⟩ ?_
  rw [hfree]
  exact ⟨_, mem_drawnUntil_next supply, rfl⟩

theorem amends_insertRow {row : Row} (h : s.insertRow name row = .ok t) (supply : Supply) :
    s.Amends supply t supply := by
  obtain ⟨a, ha, rfl⟩ := insertRow_eq_ok h
  exact .of_metadata ha rfl

theorem amends_grantWrite (s : Store) (principal : String) (supply : Supply) :
    s.Amends supply (s.grantWrite principal) supply where
  follows := .refl supply
  kept _ a ha := ⟨a, ha, .inl rfl⟩
  made _ _ hnone hb := nomatch hnone.symm.trans hb

theorem amends_answer {principal : Option String} {call : Call} {a : Answer}
    (h : s.answer principal call supply = .ok (a, t, later)) : s.Amends supply t later := by
  cases answer_eq_ok h with
  | read => exact .refl s supply
  | opened there | closed there => exact .of_metadata there rfl
  | put _ there rewrites | deleted _ there rewrites => exact rewrites.amends there

end RemoteTable.Store
