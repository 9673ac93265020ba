import Mathlib.Data.List.Induction
import RemoteTable.Proofs.StoreRun

/-!
# The history of a store

The history of a run is the acts that were not refused, in order (`Keeper.done`). What such an act makes of each table
is said once (`Keeper.turns_attempt`): it makes the table, adds a row, sets the open flag or writes to a slot, and a
table that it does not name stays as it is. Whatever ties the store to its history and is kept by each act that is
done holds of every run (`Keeper.run_induction`).
-/

namespace RemoteTable

inductive SlotWrite where
  | put (entry : MetadataEntry)
  | delete (slot : Slot)

namespace SlotWrite

def slot : SlotWrite → Slot
  | put entry => entry.slot
  | delete slot => slot

/-- What stands in the slot after the write. -/
def left? : SlotWrite → Option MetadataEntry
  | put entry => some entry
  | delete _ => none

def apply : SlotWrite → List MetadataEntry → List MetadataEntry
  | put entry, entries => Store.putEntry entry entries
  | delete slot, entries => entries.filter (·.slot ≠ slot)

end SlotWrite

namespace StoreAct

/-- The table that the act may change. -/
def target? : StoreAct → Option String
  | createTable table _ => some table
  | insertRow table _ => some table
  | call _ (.openTable table) => some table
  | call _ (.closeTable table) => some table
  | call _ (.putMetadata entry) => some entry.table
  | call _ (.deleteMetadata table _) => some table
  | _ => none

/-- The write that the act makes to a slot of the table. -/
def write? (name : String) : StoreAct → Option SlotWrite
  | call _ (.putMetadata entry) => if entry.table = name then some (.put entry) else none
  | call _ (.deleteMetadata table slot) => if table = name then some (.delete slot) else none
  | _ => none

def row? (name : String) : StoreAct → Option Row
  | insertRow table row => if table = name then some row else none
  | _ => none

theorem write?_eq_none {act : StoreAct} {name : String} (h : act.target? ≠ some name) : act.write? name = none := by
  cases act with
  | createTable | insertRow | grantWrite => rfl
  | call principal call =>
    cases call with
    | putMetadata entry => exact if_neg fun heq => h (congrArg some heq)
    | deleteMetadata table slot => exact if_neg fun heq => h (congrArg some heq)
    | openTable | closeTable | query | getRow | getMetadata | getMetadataIfChanged => rfl

theorem row?_eq_none {act : StoreAct} {name : String} (h : act.target? ≠ some name) : act.row? name = none := by
  cases act with
  | insertRow table row => exact if_neg fun heq => h (congrArg some heq)
  | createTable | grantWrite | call => rfl

end StoreAct

/-- What is picked from a history is picked act by act. -/
theorem filterMap_concat {α β : Type} (f : α → Option β) (l : List α) (a : α) :
    (l ++ [a]).filterMap f = l.filterMap f ++ (f a).toList := by
  rw [List.filterMap_append]
  cases h : f a with
  | none => rw [List.filterMap_cons_none h, List.filterMap_nil, Option.toList_none]
  | some b => rw [List.filterMap_cons_some h, List.filterMap_nil, Option.toList_some]

/-! ## What an act makes of a table -/

/-- What an act that is done makes of the table with this name, if there is one before and after. -/
inductive Turns (name : String) : StoreAct → Option Table → Option Table → Prop where
  | made {columns : List String} {revision : Option Token} :
    Turns name (.createTable name columns) none (some ⟨columns, [], false, ⟨name, revision, []⟩⟩)
  | inserted {row : Row} {t : Table} (declared : ∀ cell ∈ row.cells, cell.1 ∈ t.columns)
    (fresh : ∀ r ∈ t.rows, r.id ≠ row.id) :
    Turns name (.insertRow name row) (some t) (some { t with rows := t.rows ++ [row] })
  | opened {principal : Option String} {t : Table} :
    Turns name (.call principal (.openTable name)) (some t) (some { t with isOpen := true })
  | closed {principal : Option String} {t : Table} :
    Turns name (.call principal (.closeTable name)) (some t) (some { t with isOpen := false })
  | put {principal : Option String} {entry : MetadataEntry} {t : Table} {revision : Option Token}
    (named : entry.table = name) (keyed : entry.key ≠ "") :
    Turns name (.call principal (.putMetadata entry)) (some t)
      (some { t with metadata := ⟨t.metadata.table, revision, Store.putEntry entry t.metadata.entries⟩ })
  | deleted {principal : Option String} {slot : Slot} {t : Table} {revision : Option Token} :
    Turns name (.call principal (.deleteMetadata name slot)) (some t)
      (some { t with metadata := ⟨t.metadata.table, revision, t.metadata.entries.filter (·.slot ≠ slot)⟩ })
  | apart {act : StoreAct} {table : Option Table} (elsewhere : act.target? ≠ some name) : Turns name act table table

namespace Turns

variable {name : String} {act : StoreAct} {before after : Option Table}

theorem apart_eq (h : Turns name act before after) (helsewhere : act.target? ≠ some name) : after = before := by
  cases h with
  | apart => rfl
  | made | inserted | opened | closed | deleted => exact absurd rfl helsewhere
  | put named => exact absurd (congrArg some named) helsewhere

theorem write (h : Turns name act before after) {w : SlotWrite} (hw : act.write? name = some w) :
    ∃ t revision, before = some t ∧
      after = some { t with metadata := ⟨t.metadata.table, revision, w.apply t.metadata.entries⟩ } := by
  cases h with
  | made | inserted | opened | closed => cases hw
  | put named =>
    rw [StoreAct.write?, if_pos named] at hw
    cases hw
    exact ⟨_, _, rfl, rfl⟩
  | deleted =>
    rw [StoreAct.write?, if_pos rfl] at hw
    cases hw
    exact ⟨_, _, rfl, rfl⟩
  | apart elsewhere =>
    rw [StoreAct.write?_eq_none elsewhere] at hw
    cases hw

end Turns

namespace Store

variable {s u : Store} {name : String} {supply later : Supply}

/-- An act on one table turns that one, and leaves the others as they are. -/
theorem turns_withTable {act : StoreAct} {t : Table} (hact : act.target? = some name)
    (h : Turns name act (s.tables.get? name) (some t)) (k : String) :
    Turns k act (s.tables.get? k) ((s.withTable name t).tables.get? k) := by
  have hget : (s.withTable name t).tables.get? k = if k = name then some t else s.tables.get? k :=
    Dict.get?_insert ..
  rw [hget]
  by_cases hk : k = name
  · subst hk
    rw [if_pos rfl]
    exact h
  · rw [if_neg hk]
    exact .apart fun heq => hk (Option.some.inj (heq.symm.trans hact))

/-- A row is added only with declared columns, and under a new id. -/
theorem row_of_insertRow {row : Row} (h : s.insertRow name row = .ok u) :
    ∃ t, s.tables.get? name = some t ∧ (∀ cell ∈ row.cells, cell.1 ∈ t.columns) ∧ (∀ r ∈ t.rows, r.id ≠ row.id) ∧
      u = s.withTable name { t with rows := t.rows ++ [row] } := by
  obtain ⟨t, htable, hinsert⟩ := Fallible.bind_eq_ok.1 h
  split at hinsert
  · cases hinsert
  · rename_i hdeclared
    split at hinsert
    · cases hinsert
    · rename_i hfresh
      cases hinsert
      refine ⟨t, table_eq_ok htable, fun cell hcell => ?_, fun r hr hid => hfresh ?_, rfl⟩
      · simpa using List.find?_eq_none.1 hdeclared cell hcell
      · exact List.any_eq_true.2 ⟨r, hr, beq_iff_eq.2 hid⟩

theorem key_of_putMetadata {principal : Option String} {entry : MetadataEntry}
    (h : s.putMetadata principal entry supply = .ok (u, later)) : entry.key ≠ "" := by
  obtain ⟨_, -, hput⟩ := Fallible.bind_eq_ok.1 h
  split at hput
  · cases hput
  · rename_i hkey
    exact hkey

theorem turns_rewrites {act : StoreAct} {t : Table} {entries : List MetadataEntry}
    (h : Rewrites s supply name t entries u later) (hget : s.tables.get? name = some t)
    (hact : act.target? = some name)
    (hturns : ∀ revision, Turns name act (some t)
      (some { t with metadata := ⟨t.metadata.table, revision, entries⟩ })) (k : String) :
    Turns k act (s.tables.get? k) (u.tables.get? k) := by
  cases h with
  | same unchanged =>
    by_cases hk : k = name
    · subst hk
      have hkept := hturns t.metadata.revision
      rw [unchanged] at hkept
      rw [hget]
      exact hkept
    · exact .apart fun heq => hk (Option.some.inj (heq.symm.trans hact))
  | revised =>
    refine turns_withTable hact ?_ k
    rw [hget]
    exact hturns _

theorem turns_answer {principal : Option String} {call : Call} {a : Answer}
    (h : s.answer principal call supply = .ok (a, u, later)) (name : String) :
    Turns name (.call principal call) (s.tables.get? name) (u.tables.get? name) := by
  cases answer_eq_ok h with
  | read reads =>
    refine .apart ?_
    cases call with
    | query | getRow | getMetadata | getMetadataIfChanged => exact Option.some_ne_none name |>.symm
    | openTable | closeTable | putMetadata | deleteMetadata => exact reads.elim
  | opened there => exact turns_withTable rfl (there ▸ .opened) name
  | closed there => exact turns_withTable rfl (there ▸ .closed) name
  | put _ there rewrites =>
    obtain ⟨⟨u, later⟩, hput, hok⟩ := Fallible.bind_eq_ok.1 h
    have hkey := key_of_putMetadata hput
    exact turns_rewrites rewrites there rfl (fun revision => .put rfl hkey) name
  | deleted _ there rewrites => exact turns_rewrites rewrites there rfl (fun revision => .deleted) name

theorem writers_answer {principal : Option String} {call : Call} {a : Answer}
    (h : s.answer principal call supply = .ok (a, u, later)) : u.writers = s.writers := by
  cases answer_eq_ok h with
  | read | opened | closed => rfl
  | put _ _ rewrites | deleted _ _ rewrites => cases rewrites <;> rfl

end Store

namespace Keeper

variable {k later : Keeper} {act : StoreAct} {a : Answer}

/-- What an act that is done makes of each table. -/
theorem turns_attempt (h : k.attempt act = .ok (a, later)) (name : String) :
    Turns name act (k.store.tables.get? name) (later.store.tables.get? name) := by
  cases act with
  | createTable table columns =>
    obtain ⟨⟨store, supply⟩, hmade, hok⟩ := Fallible.bind_eq_ok.1 h
    cases hok
    obtain ⟨hfree, rfl, -⟩ := Store.createTable_eq_ok hmade
    exact Store.turns_withTable rfl (hfree ▸ .made) name
  | insertRow table row =>
    obtain ⟨store, hinserted, hok⟩ := Fallible.bind_eq_ok.1 h
    cases hok
    obtain ⟨t, hget, hdeclared, hfresh, rfl⟩ := Store.row_of_insertRow hinserted
    exact Store.turns_withTable rfl (hget ▸ .inserted hdeclared hfresh) name
  | grantWrite principal =>
    cases h
    exact .apart (Option.some_ne_none name).symm
  | call principal call =>
    obtain ⟨⟨answer, store, supply⟩, hanswer, hok⟩ := Fallible.bind_eq_ok.1 h
    cases hok
    exact Store.turns_answer hanswer name

theorem step_ok (h : k.attempt act = .ok (a, later)) : k.step act = later := by rw [step, h]

theorem step_error {e : StoreError} (h : k.attempt act = .error e) : k.step act = k := by rw [step, h]

/-! ## Runs and their history -/

/-- The acts of a run that are done, not refused. -/
def done (k : Keeper) : List StoreAct → List StoreAct
  | [] => []
  | act :: acts =>
    match k.attempt act with
    | .ok (_, later) => act :: later.done acts
    | .error _ => k.done acts

theorem done_ok (h : k.attempt act = .ok (a, later)) (acts : List StoreAct) :
    k.done (act :: acts) = act :: later.done acts := by rw [done, h]

theorem done_error {e : StoreError} (h : k.attempt act = .error e) (acts : List StoreAct) :
    k.done (act :: acts) = k.done acts := by rw [done, h]

theorem done_append (k : Keeper) (before after : List StoreAct) :
    k.done (before ++ after) = k.done before ++ (k.run before).done after := by
  induction before generalizing k with
  | nil => rfl
  | cons act acts ih =>
    show k.done (act :: (acts ++ after)) = k.done (act :: acts) ++ ((k.step act).run acts).done after
    cases hattempt : k.attempt act with
    | error e => rw [done_error hattempt, done_error hattempt, step_error hattempt, ih]
    | ok result => rw [done_ok hattempt, done_ok hattempt, step_ok hattempt, ih, List.cons_append]

/-- What holds of the empty store and no history, and is kept by every act that is done, holds of every run and what
was done in it. -/
theorem run_induction {motive : Keeper → List StoreAct → Prop} {supply : Supply} (new : motive (new supply) [])
    (attempt : ∀ k log act a later, motive k log → k.attempt act = .ok (a, later) → motive later (log ++ [act]))
    (acts : List StoreAct) : motive ((Keeper.new supply).run acts) ((Keeper.new supply).done acts) := by
  induction acts using List.reverseRecOn with
  | nil => exact new
  | append_singleton acts act ih =>
    rw [run_append, done_append]
    show motive (((Keeper.new supply).run acts).step act) (_ ++ ((Keeper.new supply).run acts).done [act])
    cases hattempt : ((Keeper.new supply).run acts).attempt act with
    | error e =>
      rw [step_error hattempt, done_error hattempt, done, List.append_nil]
      exact ih
    | ok result =>
      rw [step_ok hattempt, done_ok hattempt, done]
      exact attempt _ _ act result.1 result.2 ih hattempt

end Keeper

end RemoteTable
