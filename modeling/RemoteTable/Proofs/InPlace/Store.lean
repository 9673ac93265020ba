import RemoteTable.Exchange
import RemoteTable.Proofs.StoreRun

/-!
# Operations on a store in place

An operation on a store gives the store back only if it succeeds, so nothing is left of a refused one. Here the operations
are carried out in place, statement by statement, on a store that outlives a refusal: what has been written by then stays
written. Each of them makes all its checks before its first write (`on_bind_settled`), and what it writes it cannot fail
on. So a refused one leaves the store as it was: in place every operation comes to the same (`InPlace.on_attempt`), and
so does a run (`InPlace.run_eq`).
-/

namespace RemoteTable

namespace Store

variable {s : Store} {name : String} {t : Table}

theorem get?_withTable (s : Store) (name : String) (t : Table) : (s.withTable name t).tables.get? name = some t := by
  rw [withTable, Dict.get?_insert, if_pos rfl]

theorem withTable_withTable (s : Store) (name : String) (t u : Table) :
    (s.withTable name t).withTable name u = s.withTable name u := by
  simp only [withTable, Dict.insert_insert]

theorem withTable_self (h : s.tables.get? name = some t) : s.withTable name t = s := by
  simp only [withTable, Dict.insert_self h]

variable {entry e : MetadataEntry} {entries : List MetadataEntry}

theorem putEntry_of_none (h : entries.find? (·.slot = entry.slot) = none) :
    putEntry entry entries = entries ++ [entry] :=
  putEntry_of_empty fun d hd => by simpa using List.find?_eq_none.1 h d hd

theorem putEntry_of_some (h : entries.find? (·.slot = entry.slot) = some e) :
    putEntry entry entries = entries.set (entries.findIdx (·.slot = entry.slot)) entry := by
  induction entries with
  | nil => cases h
  | cons d rest ih =>
    rw [List.find?_cons] at h
    split at h
    · rename_i hslot
      rw [putEntry, if_pos (by simpa using hslot), List.findIdx_cons, hslot, cond_true, List.set_cons_zero]
    · rename_i hslot
      rw [putEntry, if_neg (by simpa using hslot), List.findIdx_cons, hslot, cond_false, List.set_cons_succ, ih h]

end Store

namespace InPlace

variable {σ α β : Type}

/-! ## Statements -/

def peek (f : σ → α) : Exchange σ α := .of fun s => (.ok (f s.state), s)

def refuse (e : StoreError) : Exchange σ α := throw e.toTransport

def demand (c : Prop) [Decidable c] (e : StoreError) : Exchange σ Unit := if c then return () else refuse e

def table (name : String) : Exchange Keeper Table := do
  match ← peek (·.store.tables.get? name) with
  | some t => return t
  | none => refuse (.noSuchTable name)

def openedTable (name : String) : Exchange Keeper Table := do
  let t ← table name
  demand t.isOpen (.notOpen name)
  return t

/-- Changes a table where it stands. -/
def alter (name : String) (f : Table → Table) : Exchange Keeper Unit := .update fun k =>
  match k.store.tables.get? name with
  | some t => { k with store := k.store.withTable name (f t) }
  | none => k

def alterEntries (name : String) (f : List MetadataEntry → List MetadataEntry) : Exchange Keeper Unit :=
  alter name fun t => { t with metadata := { t.metadata with entries := f t.metadata.entries } }

def draw : Exchange Keeper Token := .of fun s =>
  (.ok s.state.supply.next.1, { s with state := { s.state with supply := s.state.supply.next.2 } })

def revise (name : String) : Exchange Keeper Unit := do
  let revision ← draw
  alter name fun t => { t with metadata := { t.metadata with revision := some revision } }

/-! ## Operations on a store -/

def createTable (name : String) (columns : List String) : Exchange Keeper Unit := do
  demand (name ≠ "") .emptyTableName
  demand (← peek (·.store.tables.get? name)).isNone (.tableExists name)
  let revision ← draw
  .update fun k => { k with store := k.store.withTable name ⟨columns, [], false, ⟨name, some revision, []⟩⟩ }

def insertRow (name : String) (row : Row) : Exchange Keeper Unit := do
  let t ← table name
  match row.cells.find? fun cell => !t.columns.contains cell.1 with
  | some (column, _) => refuse (.unknownColumn column name)
  | none =>
    demand (¬ t.rows.any (·.id == row.id)) (.repeatedRow row.id name)
    alter name fun t => { t with rows := t.rows ++ [row] }

def grantWrite (principal : String) : Exchange Keeper Unit :=
  .update fun k => { k with store := { k.store with writers := k.store.writers.insert principal } }

/-- The flag is set before the table is described. -/
def openTable (name : String) : Exchange Keeper TableInfo := do
  let _ ← table name
  alter name ({ · with isOpen := true })
  let t ← table name
  return ⟨name, t.columns, UInt64.ofNat t.rows.length⟩

def closeTable (name : String) : Exchange Keeper Unit := do
  let _ ← openedTable name
  alter name ({ · with isOpen := false })

def query (q : Query) : Exchange Keeper QueryResult := do
  let t ← openedTable q.table
  match q.filter with
  | some f => demand (t.columns.contains f.column) (.unknownColumn f.column q.table)
  | none => pure ()
  return ⟨q.table, t.columns, q.select t.rows⟩

def getRow (name row : String) : Exchange Keeper (Option Row) := do
  let t ← openedTable name
  return t.rows.find? (·.id == row)

def metadata (name : String) : Exchange Keeper MetadataSet := do
  let t ← table name
  return t.metadata

def metadataIfChanged (name : String) (known : Option Token) : Exchange Keeper MetadataSet := do
  let current ← metadata name
  if current.revision = known then return ⟨name, current.revision, []⟩ else return current

def authorize (principal : Option String) : Exchange Keeper Unit := do
  let writers ← peek (·.store.writers)
  match principal with
  | some p => demand (writers.contains p) (.notGranted p)
  | none => refuse .noPrincipal

/-- The revision is drawn after the entries have been changed. -/
def putMetadata (principal : Option String) (entry : MetadataEntry) : Exchange Keeper Unit := do
  authorize principal
  demand (entry.key ≠ "") .emptyKey
  let t ← table entry.table
  match t.metadata.entries.find? (·.slot = entry.slot) with
  | some existing =>
    if existing = entry then return ()
    else
      alterEntries entry.table fun entries => entries.set (entries.findIdx (·.slot = entry.slot)) entry
      revise entry.table
  | none =>
    alterEntries entry.table (· ++ [entry])
    revise entry.table

/-- The entries are filtered in any case. -/
def deleteMetadata (principal : Option String) (name : String) (slot : Slot) : Exchange Keeper Unit := do
  authorize principal
  let before ← table name
  alterEntries name (·.filter (·.slot ≠ slot))
  let after ← table name
  if after.metadata.entries.length ≠ before.metadata.entries.length then revise name

def answer (principal : Option String) : Call → Exchange Keeper Answer
  | .openTable name => .info <$> openTable name
  | .closeTable name => (fun _ => .done) <$> closeTable name
  | .query q => .rows <$> query q
  | .getRow name row => .row <$> getRow name row
  | .getMetadata name => .metadata <$> metadata name
  | .getMetadataIfChanged name known => .metadata <$> metadataIfChanged name known
  | .putMetadata entry => (fun _ => .done) <$> putMetadata principal entry
  | .deleteMetadata name slot => (fun _ => .done) <$> deleteMetadata principal name slot

def attempt : StoreAct → Exchange Keeper Answer
  | .createTable name columns => (fun _ => .done) <$> createTable name columns
  | .insertRow name row => (fun _ => .done) <$> insertRow name row
  | .grantWrite principal => (fun _ => .done) <$> grantWrite principal
  | .call principal call => answer principal call

/-! ## What the statements do -/

/-- What a check or a reading statement leaves. -/
def told (s : Noted σ) : Except StoreError α → Except TransportError α × Noted σ
  | .ok a => (.ok a, s)
  | .error e => (.error e.toTransport, s)

/-- What an operation leaves that gives the store back only if it succeeds. -/
def settled (s : Noted Keeper) : Except StoreError (α × Keeper) → Except TransportError α × Noted Keeper
  | .ok (a, later) => (.ok a, { s with state := later })
  | .error e => (.error e.toTransport, s)

variable {s : Noted Keeper} {name : String} {t : Table}

theorem on_bind_told {s : Noted σ} {x : Exchange σ α} {r : Except StoreError α} (h : x.on s = told s r)
    (f : α → Exchange σ β) (g : α → Except StoreError β) (hf : ∀ a, r = .ok a → (f a).on s = told s (g a)) :
    (x >>= f).on s = told s (r >>= g) := by
  cases r with
  | error e => rw [Exchange.on_bind_error h, Fallible.error_bind, told]
  | ok a => rw [Exchange.on_bind_ok h, Fallible.ok_bind, hf a rfl]

/-- A check that fails comes before anything is written. -/
theorem on_bind_settled {x : Exchange Keeper α} {r : Except StoreError α} (h : x.on s = told s r)
    (f : α → Exchange Keeper β) (g : α → Except StoreError (β × Keeper))
    (hf : ∀ a, r = .ok a → (f a).on s = settled s (g a)) : (x >>= f).on s = settled s (r >>= g) := by
  cases r with
  | error e => rw [Exchange.on_bind_error h, Fallible.error_bind, settled]
  | ok a => rw [Exchange.on_bind_ok h, Fallible.ok_bind, hf a rfl]

theorem on_peek (f : σ → α) (s : Noted σ) : (peek f).on s = (.ok (f s.state), s) := rfl

theorem on_bind_demand (c : Prop) [Decidable c] (e : StoreError) (f : Unit → Exchange σ α) (s : Noted σ) :
    (demand c e >>= f).on s = if c then (f ()).on s else (.error e.toTransport, s) := by
  unfold demand
  split <;> rfl

theorem on_table (name : String) (s : Noted Keeper) : (table name).on s = told s (s.state.store.table name) := by
  rw [table, Exchange.on_bind_ok (on_peek ..), Store.table]
  cases s.state.store.tables.get? name <;> rfl

theorem on_openedTable (name : String) (s : Noted Keeper) :
    (openedTable name).on s = told s (s.state.store.openedTable name) := by
  refine on_bind_told (on_table name s) _ _ fun t _ => ?_
  rw [on_bind_demand]
  cases t.isOpen <;> rfl

theorem on_authorize (principal : Option String) (s : Noted Keeper) :
    (authorize principal).on s = told s (s.state.store.authorize principal) := by
  rw [authorize, Exchange.on_bind_ok (on_peek ..)]
  cases principal with
  | none => rfl
  | some p =>
    simp only [Store.authorize, demand]
    split <;> rfl

theorem on_alter (h : s.state.store.tables.get? name = some t) (f : Table → Table) : (alter name f).on s =
    (.ok (), ⟨⟨s.state.store.withTable name (f t), s.state.supply⟩, s.journal⟩) := by
  simp only [alter, Exchange.on_update, h]

theorem on_alterEntries (h : s.state.store.tables.get? name = some t) (f : List MetadataEntry → List MetadataEntry) :
    (alterEntries name f).on s = (.ok (), ⟨⟨s.state.store.withTable name
      { t with metadata := { t.metadata with entries := f t.metadata.entries } }, s.state.supply⟩, s.journal⟩) :=
  on_alter h _

theorem on_table_some (h : s.state.store.tables.get? name = some t) : (table name).on s = (.ok t, s) := by
  rw [on_table, Store.table, h]
  rfl

theorem on_draw (s : Noted Keeper) :
    draw.on s = (.ok s.state.supply.next.1, ⟨⟨s.state.store, s.state.supply.next.2⟩, s.journal⟩) := rfl

theorem on_revise (h : s.state.store.tables.get? name = some t) : (revise name).on s =
    (.ok (), ⟨⟨s.state.store.withTable name (Store.reviseEntries t t.metadata.entries s.state.supply).1,
      s.state.supply.next.2⟩, s.journal⟩) := by
  rw [revise, Exchange.on_bind_ok (on_draw s)]
  exact on_alter (s := ⟨⟨s.state.store, s.state.supply.next.2⟩, s.journal⟩) h _

/-! ## Operations come to the same -/

theorem on_query (q : Query) (s : Noted Keeper) : (query q).on s = told s (s.state.store.query q) := by
  refine on_bind_told (on_openedTable q.table s) _ _ fun t _ => ?_
  cases hfilter : q.filter with
  | none => rfl
  | some f =>
    simp only
    rw [on_bind_demand]
    by_cases hdeclared : f.column ∈ t.columns
    · simp [hdeclared, told, Option.filter]
    · simp [hdeclared, told, Option.filter]

theorem on_getRow (name row : String) (s : Noted Keeper) :
    (getRow name row).on s = told s (s.state.store.getRow name row) :=
  on_bind_told (on_openedTable name s) _ _ fun _ _ => rfl

theorem on_metadata (name : String) (s : Noted Keeper) :
    (metadata name).on s = told s (s.state.store.metadata name) :=
  on_bind_told (on_table name s) _ _ fun _ _ => rfl

theorem on_metadataIfChanged (name : String) (known : Option Token) (s : Noted Keeper) :
    (metadataIfChanged name known).on s = told s (s.state.store.metadataIfChanged name known) := by
  refine on_bind_told (on_metadata name s) _ _ fun current _ => ?_
  split <;> simp [told, *]

theorem on_createTable (name : String) (columns : List String) (s : Noted Keeper) :
    (createTable name columns).on s = settled s (do
      let (store, supply) ← s.state.store.createTable name columns s.state.supply
      return ((), ⟨store, supply⟩)) := by
  rw [createTable, on_bind_demand, Store.createTable]
  by_cases hname : name = ""
  · rw [if_neg (not_not_intro hname), if_pos hname]
    rfl
  · rw [if_pos hname, if_neg hname, Exchange.on_bind_ok (on_peek ..), on_bind_demand]
    cases s.state.store.tables.get? name <;> rfl

theorem on_insertRow (name : String) (row : Row) (s : Noted Keeper) :
    (insertRow name row).on s = settled s (do
      let store ← s.state.store.insertRow name row
      return ((), ⟨store, s.state.supply⟩)) := by
  rw [Store.insertRow, bind_assoc]
  refine on_bind_settled (on_table name s) _ _ fun t htable => ?_
  cases row.cells.find? fun cell => !t.columns.contains cell.1 with
  | some cell => rfl
  | none =>
    simp only
    rw [on_bind_demand]
    by_cases hrow : t.rows.any (·.id == row.id) = true
    · rw [if_neg (not_not_intro hrow), if_pos hrow]
      rfl
    · rw [if_pos hrow, if_neg hrow, on_alter (Store.table_eq_ok htable)]
      rfl

theorem on_openTable (name : String) (s : Noted Keeper) :
    (openTable name).on s = settled s (do
      let (info, store) ← s.state.store.openTable name
      return (info, ⟨store, s.state.supply⟩)) := by
  rw [Store.openTable, bind_assoc]
  refine on_bind_settled (on_table name s) _ _ fun t htable => ?_
  rw [Exchange.on_bind_ok (on_alter (Store.table_eq_ok htable) _),
    Exchange.on_bind_ok (on_table_some (Store.get?_withTable ..))]
  rfl

theorem on_closeTable (name : String) (s : Noted Keeper) :
    (closeTable name).on s = settled s (do
      let store ← s.state.store.closeTable name
      return ((), ⟨store, s.state.supply⟩)) := by
  rw [Store.closeTable, bind_assoc]
  refine on_bind_settled (on_openedTable name s) _ _ fun t htable => ?_
  rw [on_alter (Store.openedTable_eq_ok htable).1]
  rfl

/-- Other entries, and then another revision. -/
theorem on_rewrite (h : s.state.store.tables.get? name = some t) (f : List MetadataEntry → List MetadataEntry) :
    (do alterEntries name f; revise name).on s =
      (.ok (), ⟨⟨s.state.store.withTable name (Store.reviseEntries t (f t.metadata.entries) s.state.supply).1,
        (Store.reviseEntries t (f t.metadata.entries) s.state.supply).2⟩, s.journal⟩) := by
  rw [Exchange.on_bind_ok (on_alterEntries h f), on_revise (Store.get?_withTable ..), Store.withTable_withTable]
  rfl

theorem on_putMetadata (principal : Option String) (entry : MetadataEntry) (s : Noted Keeper) :
    (putMetadata principal entry).on s = settled s (do
      let (store, supply) ← s.state.store.putMetadata principal entry s.state.supply
      return ((), ⟨store, supply⟩)) := by
  rw [Store.putMetadata, bind_assoc]
  refine on_bind_settled (on_authorize principal s) _ _ fun _ _ => ?_
  rw [on_bind_demand]
  by_cases hkey : entry.key = ""
  · rw [if_neg (not_not_intro hkey), if_pos hkey]
    rfl
  rw [if_pos hkey, if_neg hkey, bind_assoc]
  refine on_bind_settled (on_table entry.table s) _ _ fun t htable => ?_
  have hget := Store.table_eq_ok htable
  cases hfind : t.metadata.entries.find? (·.slot = entry.slot) with
  | none =>
    simp only [reduceCtorEq, if_false]
    rw [on_rewrite hget, ← Store.putEntry_of_none hfind]
    rfl
  | some existing =>
    simp only [Option.some.injEq]
    by_cases hsame : existing = entry
    · rw [if_pos hsame, if_pos hsame]
      rfl
    · rw [if_neg hsame, if_neg hsame, on_rewrite hget, ← Store.putEntry_of_some hfind]
      rfl

theorem on_deleteMetadata (principal : Option String) (name : String) (slot : Slot) (s : Noted Keeper) :
    (deleteMetadata principal name slot).on s = settled s (do
      let (store, supply) ← s.state.store.deleteMetadata principal name slot s.state.supply
      return ((), ⟨store, supply⟩)) := by
  rw [Store.deleteMetadata, bind_assoc]
  refine on_bind_settled (on_authorize principal s) _ _ fun _ _ => ?_
  rw [bind_assoc]
  refine on_bind_settled (on_table name s) _ _ fun t htable => ?_
  have hget := Store.table_eq_ok htable
  rw [Exchange.on_bind_ok (on_alterEntries hget _), Exchange.on_bind_ok (on_table_some (Store.get?_withTable ..))]
  simp only
  by_cases hsame : (t.metadata.entries.filter (·.slot ≠ slot)).length = t.metadata.entries.length
  · rw [if_neg (not_not_intro hsame), if_pos hsame]
    -- the filter has written back what was there
    have hkept := List.filter_eq_self.2 (List.length_filter_eq_length_iff.1 hsame)
    rw [hkept, Store.withTable_self hget]
    rfl
  · rw [if_pos hsame, if_neg hsame, on_revise (Store.get?_withTable ..), Store.withTable_withTable]
    rfl

theorem on_answer (principal : Option String) (call : Call) (s : Noted Keeper) :
    (answer principal call).on s = settled s (s.state.attempt (.call principal call)) := by
  cases call with
  | openTable name =>
    rw [answer, Exchange.on_map, on_openTable, Keeper.attempt, Store.answer]
    cases s.state.store.openTable name <;> rfl
  | closeTable name =>
    rw [answer, Exchange.on_map, on_closeTable, Keeper.attempt, Store.answer]
    cases s.state.store.closeTable name <;> rfl
  | query q =>
    rw [answer, Exchange.on_map, on_query, Keeper.attempt, Store.answer]
    cases s.state.store.query q <;> rfl
  | getRow name row =>
    rw [answer, Exchange.on_map, on_getRow, Keeper.attempt, Store.answer]
    cases s.state.store.getRow name row <;> rfl
  | getMetadata name =>
    rw [answer, Exchange.on_map, on_metadata, Keeper.attempt, Store.answer]
    cases s.state.store.metadata name <;> rfl
  | getMetadataIfChanged name known =>
    rw [answer, Exchange.on_map, on_metadataIfChanged, Keeper.attempt, Store.answer]
    cases s.state.store.metadataIfChanged name known <;> rfl
  | putMetadata entry =>
    rw [answer, Exchange.on_map, on_putMetadata, Keeper.attempt, Store.answer]
    cases s.state.store.putMetadata principal entry s.state.supply <;> rfl
  | deleteMetadata name slot =>
    rw [answer, Exchange.on_map, on_deleteMetadata, Keeper.attempt, Store.answer]
    cases s.state.store.deleteMetadata principal name slot s.state.supply <;> rfl

theorem on_attempt (act : StoreAct) (s : Noted Keeper) : (attempt act).on s = settled s (s.state.attempt act) := by
  cases act with
  | createTable name columns =>
    rw [attempt, Exchange.on_map, on_createTable, Keeper.attempt]
    cases s.state.store.createTable name columns s.state.supply <;> rfl
  | insertRow name row =>
    rw [attempt, Exchange.on_map, on_insertRow, Keeper.attempt]
    cases s.state.store.insertRow name row <;> rfl
  | grantWrite principal => rfl
  | call principal call => exact on_answer principal call s

/-! ## Runs -/

/-- Operations one after another on the same store, whatever becomes of each. -/
def run (acts : List StoreAct) (s : Noted Keeper) : Noted Keeper := acts.foldl (fun s act => ((attempt act).on s).2) s

theorem settled_attempt (act : StoreAct) (s : Noted Keeper) :
    (settled s (s.state.attempt act)).2 = { s with state := s.state.step act } := by
  unfold Keeper.step
  split
  · rename_i a later h
    rw [h, settled]
  · rename_i e h
    rw [h, settled]

theorem run_eq (acts : List StoreAct) (s : Noted Keeper) : run acts s = { s with state := s.state.run acts } := by
  induction acts generalizing s with
  | nil => rfl
  | cons act acts ih =>
    have hstep : ((attempt act).on s).2 = { s with state := s.state.step act } := by
      rw [on_attempt, settled_attempt]
    show run acts ((attempt act).on s).2 = _
    rw [hstep, ih]
    rfl

end InPlace

end RemoteTable
