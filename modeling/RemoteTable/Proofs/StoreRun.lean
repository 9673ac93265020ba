import RemoteTable.Proofs.Revision

/-!
# Runs of a store

A run starts from the empty store and takes operations one after another, by any principals; one that is refused
leaves the store as it is. Every step amends the tables (`Keeper.amends_step`), so over a run every table is at a
revision drawn in it (`Keeper.dated_run`). A revision therefore stands for the entries: a step changes one exactly if it
changes the other, and wherever in the run a table is met at the same revision it has the same entries
(`Keeper.revision_identity`).
-/

namespace RemoteTable

inductive StoreAct where
  | createTable (table : String) (columns : List String)
  | insertRow (table : String) (row : Row)
  | grantWrite (principal : String)
  /-- A call, on behalf of a principal. -/
  | call (principal : Option String) (call : Call)

/-- A store, and the supply that its revisions are drawn from. -/
structure Keeper where
  store : Store
  supply : Supply

namespace Keeper

def new (supply : Supply) : Keeper := ⟨.empty, supply⟩

/-- What an operation returns and what it makes of the store, unless it is refused. -/
def attempt (k : Keeper) : StoreAct → Except StoreError (Answer × Keeper)
  | .createTable table columns => do
    let (store, supply) ← k.store.createTable table columns k.supply
    return (.done, ⟨store, supply⟩)
  | .insertRow table row => do
    let store ← k.store.insertRow table row
    return (.done, ⟨store, k.supply⟩)
  | .grantWrite principal => return (.done, ⟨k.store.grantWrite principal, k.supply⟩)
  | .call principal call => do
    let (answer, store, supply) ← k.store.answer principal call k.supply
    return (answer, ⟨store, supply⟩)

/-- The store after an operation, done or refused. -/
def step (k : Keeper) (act : StoreAct) : Keeper :=
  match k.attempt act with
  | .ok (_, later) => later
  | .error _ => k

def run (k : Keeper) (acts : List StoreAct) : Keeper := acts.foldl step k

theorem run_append (k : Keeper) (before after : List StoreAct) : k.run (before ++ after) = (k.run before).run after :=
  List.foldl_append

/-! ## Every step amends the tables -/

theorem amends_attempt {k later : Keeper} {act : StoreAct} {a : Answer} (h : k.attempt act = .ok (a, later)) :
    k.store.Amends k.supply later.store later.supply := by
  cases act with
  | createTable table columns =>
    obtain ⟨⟨store, supply⟩, hmade, hok⟩ := Fallible.bind_eq_ok.1 h
    cases hok
    exact Store.amends_createTable hmade
  | insertRow table row =>
    obtain ⟨store, hinserted, hok⟩ := Fallible.bind_eq_ok.1 h
    cases hok
    exact Store.amends_insertRow hinserted k.supply
  | grantWrite principal =>
    cases h
    exact Store.amends_grantWrite k.store principal k.supply
  | call principal call =>
    obtain ⟨⟨answer, store, supply⟩, hanswer, hok⟩ := Fallible.bind_eq_ok.1 h
    cases hok
    exact Store.amends_answer hanswer

theorem amends_step (k : Keeper) (act : StoreAct) :
    k.store.Amends k.supply (k.step act).store (k.step act).supply := by
  unfold step
  split
  · rename_i hattempt
    exact amends_attempt hattempt
  · exact .refl k.store k.supply

theorem revised_run (k : Keeper) (acts : List StoreAct) :
    k.supply.Follows (k.run acts).supply ∧ k.store.Revised k.supply (k.run acts).store (k.run acts).supply := by
  induction acts generalizing k with
  | nil => exact ⟨.refl k.supply, .refl k.store k.supply _⟩
  | cons act acts ih =>
    obtain ⟨hfollows, hrevised⟩ := ih (k.step act)
    have hstep := amends_step k act
    exact ⟨hstep.follows.trans hfollows, hstep.revised.trans hrevised hstep.follows hfollows⟩

/-- Every table that a run leaves is at a revision drawn in the run. -/
theorem dated_run (supply : Supply) (acts : List StoreAct) :
    ((new supply).run acts).store.Dated (supply.drawnUntil ((new supply).run acts).supply) := by
  obtain ⟨hfollows, hrevised⟩ := revised_run (new supply) acts
  have hempty : Store.empty.Dated (supply.drawnUntil supply) := fun table t hget => nomatch hget
  exact hempty.revised hrevised (.refl supply) hfollows

/-! ## Revisions and entries -/

variable {supply : Supply}

/-- A step gives a table another revision exactly if it gives it other entries. -/
theorem revision_step {before : List StoreAct} {act : StoreAct}
    (hdistinct : (((new supply).run before).step act).supply.Distinct) {name : String} {t : Table}
    (hget : ((new supply).run before).store.tables.get? name = some t) :
    ∃ u, (((new supply).run before).step act).store.tables.get? name = some u ∧
      (u.metadata.revision = t.metadata.revision ↔ u.metadata.entries = t.metadata.entries) := by
  have hstep := amends_step ((new supply).run before) act
  obtain ⟨u, hu, hsame | ⟨hother, x, hx, hrevision⟩⟩ := hstep.kept name t hget
  · exact ⟨u, hu, by rw [hsame]; simp only⟩
  · refine ⟨u, hu, fun hkept => absurd ?_ hother, fun hentries => absurd hentries hother⟩
    -- the revision before the step was drawn before it, and the one after the step in it
    obtain ⟨y, hy, hdated⟩ := dated_run supply before name t hget
    obtain rfl : x = y := Option.some.inj (hrevision.symm.trans (hkept.trans hdated))
    exact absurd hy ((hdistinct.unmet (revised_run (new supply) before).1 hstep.follows).unmet x hx)

/-- If a table is at the same revision later in a run, its metadata is the same. -/
theorem metadata_of_revision {before after : List StoreAct}
    (hdistinct : ((new supply).run (before ++ after)).supply.Distinct) {name : String} {t u : Table}
    (ht : ((new supply).run before).store.tables.get? name = some t)
    (hu : ((new supply).run (before ++ after)).store.tables.get? name = some u)
    (hsame : t.metadata.revision = u.metadata.revision) : t.metadata = u.metadata := by
  rw [run_append] at hdistinct hu
  obtain ⟨hfollows, hrevised⟩ := revised_run ((new supply).run before) after
  obtain ⟨x, hx, hrevision⟩ := dated_run supply before name t ht
  obtain ⟨v, hv, hkept⟩ := hrevised.kept (revised_run (new supply) before).1 hfollows hdistinct hu hx
    (hsame.symm.trans hrevision)
  cases ht.symm.trans hv
  exact hkept.symm

/-- In every run, if no token is drawn twice, a step changes the revision of a table if and only if it changes the
entries, and at any two points of the run the same revision means the same entries. -/
theorem revision_identity {acts : List StoreAct} (hdistinct : ((new supply).run acts).supply.Distinct) :
    (∀ before act after name t, acts = before ++ act :: after →
      ((new supply).run before).store.tables.get? name = some t →
        ∃ u, (((new supply).run before).step act).store.tables.get? name = some u ∧
          (u.metadata.revision = t.metadata.revision ↔ u.metadata.entries = t.metadata.entries)) ∧
    (∀ early late name t u, early <+: acts → late <+: acts →
      ((new supply).run early).store.tables.get? name = some t →
      ((new supply).run late).store.tables.get? name = some u →
      t.metadata.revision = u.metadata.revision → t.metadata.entries = u.metadata.entries) ∧
    ∀ before name t, before <+: acts → ((new supply).run before).store.tables.get? name = some t →
      ∃ x, t.metadata.revision = some x := by
  -- distinctness is given for the end of the run and holds at each point of it
  have hearlier {before : List StoreAct} (hbefore : before <+: acts) :
      ((new supply).run before).supply.Distinct := by
    obtain ⟨after, rfl⟩ := hbefore
    rw [run_append] at hdistinct
    exact hdistinct.of_follows (revised_run _ after).1
  refine ⟨?_, ?_, ?_⟩
  · intro before act after name t hacts hget
    have hstepped : before ++ [act] <+: acts := ⟨after, by rw [hacts, List.append_assoc]; rfl⟩
    have hnow := hearlier hstepped
    rw [run_append] at hnow
    exact revision_step hnow hget
  · intro early late name t u hearly hlate ht hu hsame
    rcases List.prefix_or_prefix_of_prefix hearly hlate with ⟨after, rfl⟩ | ⟨after, rfl⟩
    · rw [metadata_of_revision (hearlier hlate) ht hu hsame]
    · rw [metadata_of_revision (hearlier hearly) hu ht hsame.symm]
  · intro before name t _ hget
    obtain ⟨x, -, hrevision⟩ := dated_run supply before name t hget
    exact ⟨x, hrevision⟩

/-- An entry is written twice, and then another in its slot: the second write keeps the revision, the third does not. -/
theorem revision_identity_of_writes :
    let put (value : String) : StoreAct := .call (some "w") (.putMetadata ⟨"t", "p", "a", "k", "string", value⟩)
    let once : List StoreAct := [.createTable "t" ["c"], .grantWrite "w", put "v"]
    let k := new (.fresh fun n => ⟨BitVec.ofNat 128 n⟩)
    ∃ t u v x, (k.run once).store.tables.get? "t" = some t ∧
      (k.run (once ++ [put "v"])).store.tables.get? "t" = some u ∧
      (k.run (once ++ [put "v", put "w"])).store.tables.get? "t" = some v ∧ t.metadata.revision = u.metadata.revision ∧
      t.metadata.entries = u.metadata.entries ∧ v.metadata.revision ≠ u.metadata.revision ∧
      v.metadata.revision = some x := by
  intro put once k
  have hdistinct : (k.run (once ++ [put "v", put "w"])).supply.Distinct := by decide +kernel
  obtain ⟨hstep, hpoints, hpresent⟩ := revision_identity hdistinct
  have hthere (acts : List StoreAct) (h : ((k.run acts).store.tables.get? "t").isSome = true) :
      ∃ t, (k.run acts).store.tables.get? "t" = some t := Option.isSome_iff_exists.1 h
  obtain ⟨t, ht⟩ := hthere once (by decide +kernel)
  obtain ⟨u, hu⟩ := hthere (once ++ [put "v"]) (by decide +kernel)
  obtain ⟨v, hv, hiff⟩ := hstep (once ++ [put "v"]) (put "w") [] "t" u rfl hu
  have hsame : ((k.run once).store.tables.get? "t").map (·.metadata.revision) =
      ((k.run (once ++ [put "v"])).store.tables.get? "t").map (·.metadata.revision) := by decide +kernel
  have hother : ((k.run (once ++ [put "v", put "w"])).store.tables.get? "t").map (·.metadata.entries) ≠
      ((k.run (once ++ [put "v"])).store.tables.get? "t").map (·.metadata.entries) := by decide +kernel
  have hv' : (k.run (once ++ [put "v", put "w"])).store.tables.get? "t" = some v := hv
  rw [ht, hu] at hsame
  rw [hv', hu] at hother
  have hrevision := Option.some.inj hsame
  have hearly : once <+: once ++ [put "v", put "w"] := List.prefix_append ..
  have hlate : once ++ [put "v"] <+: once ++ [put "v", put "w"] := ⟨[put "w"], rfl⟩
  obtain ⟨x, hx⟩ := hpresent _ "t" v (List.prefix_refl _) hv'
  exact ⟨t, u, v, x, ht, hu, hv', hrevision, hpoints _ _ "t" t u hearly hlate ht hu hrevision,
    fun hkept => hother (congrArg some (hiff.1 hkept)), hx⟩

end Keeper

end RemoteTable
