import RemoteTable.Proofs.Mirror
import RemoteTable.Proofs.Slots

/-!
# The metadata that a run leaves

In every state that a run reaches, the metadata of a table is settled on the writes to it that were done in the run
(`Recounts`, kept by each act): slots are a map in which the last write to a slot wins. A write to one slot or table
leaves what is in the others, so writes to different tables that are done in one order are done in the other, and leave
stores that differ in their revisions at most, then and after whatever follows (`Keeper.commute`).
-/

namespace RemoteTable

/-- The writes to the slots of a table in a history. -/
def writesTo (name : String) (log : List StoreAct) : List SlotWrite := log.filterMap (·.write? name)

theorem writesTo_concat (name : String) (log : List StoreAct) (act : StoreAct) :
    writesTo name (log ++ [act]) = writesTo name log ++ (act.write? name).toList :=
  filterMap_concat _ log act

theorem StoreAct.target?_of_write? {act : StoreAct} {name : String} {w : SlotWrite} (h : act.write? name = some w) :
    act.target? = some name := by
  by_cases htarget : act.target? = some name
  · exact htarget
  · rw [write?_eq_none htarget] at h
    cases h

theorem StoreAct.target?_ne_of_write? {act : StoreAct} {name other : String} {w : SlotWrite}
    (h : act.write? name = some w) (hne : name ≠ other) : act.target? ≠ some other := by
  rw [target?_of_write? h]
  exact fun heq => hne (Option.some.inj heq)

/-- Metadata of a table as a map from slots that the writes in a log have filled. -/
structure MetadataSet.Slotted (name : String) (log : List SlotWrite) (set : MetadataSet) : Prop where
  table : set.table = name
  entries : ∀ e ∈ set.entries, e.table = name ∧ e.key ≠ ""
  distinct : (set.entries.map (·.slot)).Nodup
  last : ∀ slot, set.entries.find? (·.slot = slot) = held log slot
  ordered : set.entries.Pairwise (FilledBefore log)

/-! ## What each act keeps -/

/-- The tables hold what the writes in the history have left. -/
structure Recounts (k : Keeper) (log : List StoreAct) : Prop where
  absent : ∀ name, k.store.tables.get? name = none → writesTo name log = []
  keyed : ∀ name e, SlotWrite.put e ∈ writesTo name log → e.table = name ∧ e.key ≠ ""
  settled : ∀ name t, k.store.tables.get? name = some t →
    t.metadata.table = name ∧ Settled (writesTo name log) t.metadata.entries

theorem recounts_new (supply : Supply) : Recounts (.new supply) [] where
  absent _ _ := rfl
  keyed _ e h := absurd h List.not_mem_nil
  settled name t hget := by
    have hnone : (none : Option Table) = some t := hget
    cases hnone

variable {k later : Keeper} {log : List StoreAct} {act : StoreAct} {a : Answer}

/-- An act that writes to no slot of the table leaves its entries. -/
theorem Turns.quiet {name : String} {before after : Option Table} (h : Turns name act before after)
    (hquiet : act.write? name = none) :
    before = none ∧ (after = none ∨ ∃ t, after = some t ∧ t.metadata.table = name ∧ t.metadata.entries = []) ∨
      ∃ t u, before = some t ∧ after = some u ∧ u.metadata = t.metadata := by
  cases h with
  | made => exact .inl ⟨rfl, .inr ⟨_, rfl, rfl, rfl⟩⟩
  | inserted | opened | closed => exact .inr ⟨_, _, rfl, rfl, rfl⟩
  | put named =>
    rw [StoreAct.write?, if_pos named] at hquiet
    cases hquiet
  | deleted =>
    rw [StoreAct.write?, if_pos rfl] at hquiet
    cases hquiet
  | apart =>
    cases before with
    | none => exact .inl ⟨rfl, .inl rfl⟩
    | some t => exact .inr ⟨t, t, rfl, rfl, rfl⟩

theorem Turns.keyed {name : String} {before after : Option Table} (h : Turns name act before after)
    {e : MetadataEntry} (hput : act.write? name = some (.put e)) : e.table = name ∧ e.key ≠ "" := by
  cases h with
  | made | inserted | opened | closed => cases hput
  | put named keyed =>
    rw [StoreAct.write?, if_pos named] at hput
    cases hput
    exact ⟨named, keyed⟩
  | deleted =>
    rw [StoreAct.write?, if_pos rfl] at hput
    cases hput
  | apart elsewhere =>
    rw [StoreAct.write?_eq_none elsewhere] at hput
    cases hput

theorem Recounts.attempt (h : Recounts k log) (hattempt : k.attempt act = .ok (a, later)) :
    Recounts later (log ++ [act]) := by
  have hturns := Keeper.turns_attempt hattempt
  refine ⟨fun name hnone => ?_, fun name e he => ?_, fun name t hget => ?_⟩
  · rw [writesTo_concat]
    cases hw : act.write? name with
    | none =>
      rcases (hturns name).quiet hw with ⟨hbefore, -⟩ | ⟨t, u, -, hafter, -⟩
      · rw [h.absent name hbefore]
        rfl
      · cases hnone.symm.trans hafter
    | some w =>
      obtain ⟨t, revision, -, hafter⟩ := (hturns name).write hw
      cases hnone.symm.trans hafter
  · rw [writesTo_concat] at he
    rcases List.mem_append.1 he with he | he
    · exact h.keyed name e he
    · exact (hturns name).keyed (Option.mem_toList.1 he)
  · rw [writesTo_concat]
    cases hw : act.write? name with
    | none =>
      rw [Option.toList_none, List.append_nil]
      rcases (hturns name).quiet hw with ⟨hbefore, hafter⟩ | ⟨u, v, hbefore, hafter, hsame⟩
      · -- the table has just been made
        rcases hafter with hafter | ⟨u, hafter, htable, hentries⟩
        · cases hget.symm.trans hafter
        · cases hget.symm.trans hafter
          rw [h.absent name hbefore, hentries]
          exact ⟨htable, .nil⟩
      · cases hget.symm.trans hafter
        rw [hsame]
        exact h.settled name u hbefore
    | some w =>
      obtain ⟨u, revision, hbefore, hafter⟩ := (hturns name).write hw
      cases hget.symm.trans hafter
      obtain ⟨htable, hsettled⟩ := h.settled name u hbefore
      exact ⟨htable, hsettled.concat w⟩

theorem recounts_run (supply : Supply) (acts : List StoreAct) :
    Recounts ((Keeper.new supply).run acts) ((Keeper.new supply).done acts) :=
  Keeper.run_induction (recounts_new supply) (fun _ _ _ _ _ h hattempt => h.attempt hattempt) acts

theorem Recounts.slotted (h : Recounts k log) {name : String} {t : Table}
    (hget : k.store.tables.get? name = some t) : t.metadata.Slotted name (writesTo name log) := by
  obtain ⟨htable, hsettled⟩ := h.settled name t hget
  refine ⟨htable, fun e he => ?_, hsettled.distinct, hsettled.find?, hsettled.ordered⟩
  obtain ⟨-, hput⟩ := of_held ((hsettled.mem_iff e).1 he)
  exact h.keyed name e hput

namespace Keeper

/-! ## What a write leaves alone -/

/-- The entries of a table, none if there is no such table. -/
def entries (k : Keeper) (name : String) : List MetadataEntry :=
  (k.store.tables.get? name).elim [] (·.metadata.entries)

theorem entries_of_get? {name : String} {t : Table} (h : k.store.tables.get? name = some t) :
    k.entries name = t.metadata.entries := by rw [entries, h, Option.elim_some]

theorem entries_of_none {name : String} (h : k.store.tables.get? name = none) : k.entries name = [] := by
  rw [entries, h, Option.elim_none]

theorem entries_of_write {name : String} {w : SlotWrite} (h : k.attempt act = .ok (a, later))
    (hw : act.write? name = some w) : later.entries name = w.apply (k.entries name) := by
  obtain ⟨t, revision, hbefore, hafter⟩ := (turns_attempt h name).write hw
  rw [entries_of_get? hbefore, entries_of_get? hafter]

theorem entries_of_quiet {name : String} (h : k.attempt act = .ok (a, later)) (hquiet : act.write? name = none) :
    later.entries name = k.entries name := by
  rcases (turns_attempt h name).quiet hquiet with ⟨hbefore, hafter | ⟨u, hafter, -, hentries⟩⟩ | ⟨t, u, hbefore, hafter, hsame⟩
  · rw [entries, entries, hbefore, hafter]
  · rw [entries_of_get? hafter, hentries, entries, hbefore, Option.elim_none]
  · rw [entries_of_get? hafter, entries_of_get? hbefore, hsame]

/-- What is in a slot is not affected by a write to another. -/
theorem find?_apply {entries : List MetadataEntry} {w : SlotWrite} {slot : Slot} (hslot : w.slot ≠ slot) :
    (w.apply entries).find? (·.slot = slot) = entries.find? (·.slot = slot) := by
  cases w with
  | put entry =>
    have hentry : ¬entry.slot = slot := hslot
    show (Store.putEntry entry entries).find? (·.slot = slot) = entries.find? (·.slot = slot)
    induction entries with
    | nil => simp [Store.putEntry, hentry]
    | cons e rest ih =>
      rw [Store.putEntry]
      split
      · rename_i htaken
        simp [hentry, htaken]
      · rw [List.find?_cons, List.find?_cons, ih]
  | delete gone =>
    have hgone : ¬gone = slot := hslot
    show (entries.filter (·.slot ≠ gone)).find? (·.slot = slot) = entries.find? (·.slot = slot)
    rw [List.find?_filter]
    refine congrArg (entries.find? ·) (funext fun e => ?_)
    by_cases he : e.slot = slot
    · simp [he, Ne.symm hgone]
    · simp [he]

/-! ## Writes to different tables -/

/-- Revisions are not looked at. -/
abbrev Alike (k l : Keeper) : Prop := k.store.Mirrors (fun _ _ => True) l.store

theorem Alike.attempt {k l : Keeper} (h : k.Alike l) (act : StoreAct) :
    Fallible.Both (fun x y => x.2.Alike y.2) (k.attempt act) (l.attempt act) := by
  cases act with
  | createTable table columns =>
    refine (h.createTable table columns k.supply l.supply).bind fun x y hxy => .ok ?_
    obtain ⟨R', -, hmirrors⟩ := hxy
    exact hmirrors.mono fun _ _ _ => trivial
  | insertRow table row => exact (h.insertRow table row).bind fun x y hxy => .ok hxy
  | grantWrite principal => exact .ok (h.grantWrite principal)
  | call principal call =>
    by_cases hasks : ∃ table known, call = .getMetadataIfChanged table known
    · -- what is answered may differ, but nothing is changed
      obtain ⟨table, known, rfl⟩ := hasks
      have hread : Fallible.Both (fun x y => x.2.1 = k.store ∧ y.2.1 = l.store)
          (k.store.answer principal (.getMetadataIfChanged table known) k.supply)
          (l.store.answer principal (.getMetadataIfChanged table known) l.supply) :=
        ((h.metadata table).bind (q := fun _ _ => True) fun _ _ _ => .ok trivial).bind fun _ _ _ => .ok ⟨rfl, rfl⟩
      refine hread.bind fun x y hxy => .ok ?_
      obtain ⟨hx, hy⟩ := hxy
      show x.2.1.Mirrors _ y.2.1
      rw [hx, hy]
      exact h
    · have hmatches : Store.Matches k.store l.store call call :=
        .same fun table known heq => hasks ⟨table, known, heq⟩
      refine (h.answer hmatches principal k.supply l.supply).bind fun x y hxy => .ok ?_
      obtain ⟨R', -, -, hmirrors⟩ := hxy
      exact hmirrors.mono fun _ _ _ => trivial

theorem Alike.run {k l : Keeper} (h : k.Alike l) (acts : List StoreAct) : (k.run acts).Alike (l.run acts) := by
  induction acts generalizing k l with
  | nil => exact h
  | cons act acts ih =>
    refine ih ?_
    have hboth := h.attempt act
    unfold step
    generalize k.attempt act = x at hboth ⊢
    generalize l.attempt act = y at hboth ⊢
    cases hboth with
    | ok related => exact related
    | error e => exact h

theorem writers_write {name : String} {w : SlotWrite} (h : k.attempt act = .ok (a, later))
    (hw : act.write? name = some w) : later.store.writers = k.store.writers := by
  cases act with
  | createTable | insertRow | grantWrite => cases hw
  | call principal call =>
    obtain ⟨⟨answer, store, supply⟩, hanswer, hok⟩ := Fallible.bind_eq_ok.1 h
    cases hok
    exact Store.writers_answer hanswer

/-- Whether a write is done depends on who may write, and on whether the table is there. -/
theorem attempt_write {k l : Keeper} {name : String} {w : SlotWrite} (hw : act.write? name = some w)
    (hwriters : l.store.writers = k.store.writers) {u : Table} (hthere : l.store.tables.get? name = some u)
    (h : k.attempt act = .ok (a, later)) : ∃ later', l.attempt act = .ok (a, later') := by
  have hauthorize (principal : Option String) : l.store.authorize principal = k.store.authorize principal := by
    unfold Store.authorize
    rw [hwriters]
  have htable : l.store.table name = .ok u := by rw [Store.table, hthere]
  cases act with
  | createTable | insertRow | grantWrite => cases hw
  | call principal call =>
    cases call with
    | openTable | closeTable | query | getRow | getMetadata | getMetadataIfChanged => cases hw
    | putMetadata entry =>
      obtain rfl : entry.table = name := Option.some.inj (StoreAct.target?_of_write? hw)
      obtain ⟨_, hanswer, hok⟩ := Fallible.bind_eq_ok.1 h
      obtain ⟨_, hput, hdone⟩ := Fallible.bind_eq_ok.1 hanswer
      cases hdone
      cases hok
      obtain ⟨_, hgranted, -⟩ := Fallible.bind_eq_ok.1 hput
      have hkey := Store.key_of_putMetadata hput
      have hdone : ∃ r, l.store.putMetadata principal entry l.supply = .ok r := by
        rw [Store.putMetadata, hauthorize, hgranted, Fallible.ok_bind, if_neg hkey, htable, Fallible.ok_bind]
        split
        · exact ⟨_, rfl⟩
        · exact ⟨_, rfl⟩
      obtain ⟨r, hr⟩ := hdone
      exact ⟨⟨r.1, r.2⟩, by rw [Keeper.attempt, Store.answer, hr]; rfl⟩
    | deleteMetadata table slot =>
      obtain rfl : table = name := Option.some.inj (StoreAct.target?_of_write? hw)
      obtain ⟨_, hanswer, hok⟩ := Fallible.bind_eq_ok.1 h
      obtain ⟨_, hdelete, hdone⟩ := Fallible.bind_eq_ok.1 hanswer
      cases hdone
      cases hok
      obtain ⟨_, hgranted, -⟩ := Fallible.bind_eq_ok.1 hdelete
      have hdone : ∃ r, l.store.deleteMetadata principal table slot l.supply = .ok r := by
        rw [Store.deleteMetadata, hauthorize, hgranted, Fallible.ok_bind, htable, Fallible.ok_bind]
        dsimp only
        split
        · exact ⟨_, rfl⟩
        · exact ⟨_, rfl⟩
      obtain ⟨r, hr⟩ := hdone
      exact ⟨⟨r.1, r.2⟩, by rw [Keeper.attempt, Store.answer, hr]; rfl⟩

/-- Two writes to different tables, done one after the other, are done the other way round as well, and lead to the
same but for revisions. -/
theorem alike_of_writes {act act' : StoreAct} {name name' : String} {w w' : SlotWrite} (hw : act.write? name = some w)
    (hw' : act'.write? name' = some w') (hne : name ≠ name') {a a' : Answer} {once twice : Keeper}
    (h : k.attempt act = .ok (a, once)) (h' : once.attempt act' = .ok (a', twice)) :
    ∃ once' twice', k.attempt act' = .ok (a', once') ∧ once'.attempt act = .ok (a, twice') ∧ twice.Alike twice' := by
  have hturns := turns_attempt h
  have hturns' := turns_attempt h'
  have hapart := StoreAct.target?_ne_of_write? hw hne
  have hapart' := StoreAct.target?_ne_of_write? hw' hne.symm
  obtain ⟨t, revision, hbefore, hafter⟩ := (hturns name).write hw
  obtain ⟨t', revision', hbefore', hafter'⟩ := (hturns' name').write hw'
  rw [(hturns name').apart_eq hapart] at hbefore'
  -- the second write finds what it found after the first one
  obtain ⟨once', hother⟩ := attempt_write hw' (writers_write h hw).symm hbefore' h'
  have hturnsOther := turns_attempt hother
  have hkept := (hturnsOther name).apart_eq hapart'
  rw [hbefore] at hkept
  obtain ⟨twice', hagain⟩ := attempt_write hw (writers_write hother hw') hkept h
  have hturnsAgain := turns_attempt hagain
  refine ⟨once', twice', hother, hagain, ?_, fun j => ?_⟩
  · rw [writers_write h' hw', writers_write h hw, writers_write hagain hw, writers_write hother hw']
  · by_cases hj : j = name
    · subst hj
      obtain ⟨u, r, hu, hlast⟩ := (hturnsAgain j).write hw
      cases hu.symm.trans hkept
      rw [(hturns' j).apart_eq hapart', hafter, hlast]
      exact .some ⟨rfl, rfl, rfl, rfl, trivial, rfl⟩
    · by_cases hj' : j = name'
      · subst hj'
        obtain ⟨u, r, hu, hlast⟩ := (hturnsOther j).write hw'
        cases hu.symm.trans hbefore'
        rw [hafter', (hturnsAgain j).apart_eq hapart, hlast]
        exact .some ⟨rfl, rfl, rfl, rfl, trivial, rfl⟩
      · have haway := StoreAct.target?_ne_of_write? hw (Ne.symm hj)
        have haway' := StoreAct.target?_ne_of_write? hw' (Ne.symm hj')
        rw [(hturns' j).apart_eq haway', (hturns j).apart_eq haway, (hturnsAgain j).apart_eq haway,
          (hturnsOther j).apart_eq haway']
        cases k.store.tables.get? j with
        | none => exact .none
        | some u => exact .some ⟨rfl, rfl, rfl, rfl, trivial, rfl⟩

/-! ## Every run -/

/-- A write that is done puts its entry where the one in its slot stood, or last. -/
theorem entries_putMetadata {log : List StoreAct} (h : Recounts k log) {principal : Option String} {entry : MetadataEntry}
    (hattempt : k.attempt (.call principal (.putMetadata entry)) = .ok (a, later)) :
    later.entries entry.table =
      if ∃ e ∈ k.entries entry.table, e.slot = entry.slot then
        (k.entries entry.table).map fun e => if e.slot = entry.slot then entry else e
      else k.entries entry.table ++ [entry] := by
  have hw : (StoreAct.call principal (.putMetadata entry)).write? entry.table = some (.put entry) := if_pos rfl
  obtain ⟨t, revision, hget, -⟩ := (turns_attempt hattempt entry.table).write hw
  rw [entries_of_write hattempt hw, entries_of_get? hget]
  show Store.putEntry entry t.metadata.entries = _
  split
  · rename_i htaken
    obtain ⟨e, he, hslot⟩ := htaken
    exact Store.putEntry_of_taken (h.settled _ t hget).2.distinct he hslot
  · rename_i hfree
    exact Store.putEntry_of_empty fun e he hslot => hfree ⟨e, he, hslot⟩

/-- After any run, the metadata of a table is a map in which the last write to a slot that was done wins, in the order
in which the slots were filled. No act changes what is in a slot that it does not write to, and writes to different
tables commute, but for revisions. -/
theorem last_write_wins (supply : Supply) (acts : List StoreAct) :
    let k := (new supply).run acts
    let log := (new supply).done acts
    (∀ name t, k.store.tables.get? name = some t → t.metadata.Slotted name (writesTo name log)) ∧
    (∀ name, k.store.tables.get? name = none → writesTo name log = []) ∧
    (∀ principal entry a later, k.attempt (.call principal (.putMetadata entry)) = .ok (a, later) →
      later.entries entry.table =
        if ∃ e ∈ k.entries entry.table, e.slot = entry.slot then
          (k.entries entry.table).map fun e => if e.slot = entry.slot then entry else e
        else k.entries entry.table ++ [entry]) ∧
    (∀ principal name slot a later, k.attempt (.call principal (.deleteMetadata name slot)) = .ok (a, later) →
      later.entries name = (k.entries name).filter (·.slot ≠ slot)) ∧
    (∀ act name slot, (∀ w, act.write? name = some w → w.slot ≠ slot) →
      ((k.step act).entries name).find? (·.slot = slot) = (k.entries name).find? (·.slot = slot)) ∧
    ∀ act act' name name' w w' a a' once twice, act.write? name = some w → act'.write? name' = some w' →
      name ≠ name' → k.attempt act = .ok (a, once) → once.attempt act' = .ok (a', twice) →
        ∃ once' twice', k.attempt act' = .ok (a', once') ∧ once'.attempt act = .ok (a, twice') ∧
          ∀ after, (twice.run after).Alike (twice'.run after) := by
  intro k log
  have hrecounts : Recounts k log := recounts_run supply acts
  refine ⟨fun name t hget => hrecounts.slotted hget, hrecounts.absent, ?_, ?_, ?_, ?_⟩
  · intro principal entry a later hattempt
    exact entries_putMetadata hrecounts hattempt
  · intro principal name slot a later hattempt
    exact entries_of_write hattempt (if_pos rfl)
  · intro act name slot hothers
    cases hattempt : k.attempt act with
    | error e => rw [step_error hattempt]
    | ok result =>
      rw [step_ok hattempt]
      cases hw : act.write? name with
      | none => rw [entries_of_quiet hattempt hw]
      | some w => rw [entries_of_write hattempt hw, find?_apply (hothers w hw)]
  · intro act act' name name' w w' a a' once twice hw hw' hne h h'
    obtain ⟨once', twice', hother, hagain, halike⟩ := alike_of_writes hw hw' hne h h'
    exact ⟨once', twice', hother, hagain, halike.run⟩

/-- Two slots are filled and the first is written again, it is emptied and filled once more. -/
theorem last_write_wins_of_refill :
    let put (key value : String) : StoreAct := .call (some "w") (.putMetadata ⟨"t", "p", "a", key, "string", value⟩)
    let delete (key : String) : StoreAct := .call (some "w") (.deleteMetadata "t" ⟨"p", "a", key⟩)
    let made : List StoreAct := [.createTable "t" ["c"], .grantWrite "w", put "k" "1", put "l" "2", put "k" "3"]
    let k := new (.fresh fun n => ⟨BitVec.ofNat 128 n⟩)
    let entry (key value : String) : MetadataEntry := ⟨"t", "p", "a", key, "string", value⟩
    (k.run made).entries "t" = [entry "k" "3", entry "l" "2"] ∧
      (k.run (made ++ [delete "k", put "k" "4"])).entries "t" = [entry "l" "2", entry "k" "4"] ∧
      held (writesTo "t" (k.done (made ++ [delete "k", put "k" "4"]))) ⟨"p", "a", "k"⟩ = some (entry "k" "4") := by
  intro put delete made k entry
  have hmade : (k.run made).entries "t" = [entry "k" "3", entry "l" "2"] := by decide +kernel
  have hagain : (k.run (made ++ [delete "k", put "k" "4"])).entries "t" = [entry "l" "2", entry "k" "4"] := by
    decide +kernel
  refine ⟨hmade, hagain, ?_⟩
  obtain ⟨hslotted, -⟩ := last_write_wins (.fresh fun n => ⟨BitVec.ofNat 128 n⟩) (made ++ [delete "k", put "k" "4"])
  have hk : new (.fresh fun n => ⟨BitVec.ofNat 128 n⟩) = k := rfl
  rw [hk] at hslotted
  cases hget : (k.run (made ++ [delete "k", put "k" "4"])).store.tables.get? "t" with
  | none => cases (entries_of_none hget).symm.trans hagain
  | some t =>
    have hlast := (hslotted "t" t hget).last ⟨"p", "a", "k"⟩
    rw [(entries_of_get? hget).symm.trans hagain] at hlast
    exact hlast.symm.trans (by decide)

end Keeper

end RemoteTable
