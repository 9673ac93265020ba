import RemoteTable.Proofs.History

/-!
# Slots as a map

Entries of metadata are a list, and what they stand for is a map from slots. What a slot holds after some writes is what
the last of them to that slot left there (`held`), and a slot is filled at the write that found it empty and since which
it has not been empty (`FilledAt`). The list is settled on a log of writes if it has exactly the entries that are held,
in the order in which their slots were filled (`Settled`). A write keeps it so (`Settled.concat`), and that is what makes
the search for the first entry in a slot a lookup: no two entries share a slot (`Settled.distinct`).
-/

namespace RemoteTable

/-! ## What a slot holds -/

/-- What the last of the writes to a slot left there. -/
def held (log : List SlotWrite) (slot : Slot) : Option MetadataEntry :=
  (log.filter (·.slot = slot)).getLast?.bind SlotWrite.left?

section

variable {log : List SlotWrite} {slot : Slot}

theorem held_concat (log : List SlotWrite) (w : SlotWrite) (slot : Slot) :
    held (log ++ [w]) slot = if w.slot = slot then w.left? else held log slot := by
  unfold held
  rw [List.filter_append]
  by_cases hslot : w.slot = slot
  · have hlast : [w].filter (·.slot = slot) = [w] := by simp [hslot]
    rw [if_pos hslot, hlast, List.getLast?_concat, Option.bind_some]
  · have hnone : [w].filter (·.slot = slot) = [] := by simp [hslot]
    rw [if_neg hslot, hnone, List.append_nil]

theorem left?_slot {w : SlotWrite} {e : MetadataEntry} (h : w.left? = some e) : w = .put e := by
  cases w with
  | put entry =>
    cases h
    rfl
  | delete => cases h

/-- A slot holds an entry of its own, and one that was put. -/
theorem of_held {e : MetadataEntry} (h : held log slot = some e) : e.slot = slot ∧ SlotWrite.put e ∈ log := by
  obtain ⟨w, hlast, hleft⟩ := Option.bind_eq_some_iff.1 h
  obtain rfl := left?_slot hleft
  obtain ⟨hmem, hslot⟩ := List.mem_filter.1 (List.mem_of_getLast? hlast)
  exact ⟨of_decide_eq_true hslot, hmem⟩

/-! ## When a slot was filled -/

/-- The slot is filled by the write of this number, and is not empty after any later one. -/
structure FilledAt (log : List SlotWrite) (slot : Slot) (i : Nat) : Prop where
  lt : i < log.length
  empty : held (log.take i) slot = none
  since : ∀ j, i < j → j ≤ log.length → held (log.take j) slot ≠ none

/-- The slot of one entry was filled before that of the other. -/
def FilledBefore (log : List SlotWrite) (d e : MetadataEntry) : Prop :=
  ∃ i j, FilledAt log d.slot i ∧ FilledAt log e.slot j ∧ i < j

theorem FilledAt.unique {i j : Nat} (hi : FilledAt log slot i) (hj : FilledAt log slot j) : i = j := by
  rcases Nat.lt_trichotomy i j with hlt | heq | hlt
  · exact absurd hj.empty (hi.since j hlt (Nat.le_of_lt hj.lt))
  · exact heq
  · exact absurd hi.empty (hj.since i hlt (Nat.le_of_lt hi.lt))

theorem FilledBefore.slot_ne {d e : MetadataEntry} (h : FilledBefore log d e) : d.slot ≠ e.slot := by
  obtain ⟨i, j, hi, hj, hlt⟩ := h
  intro hslot
  rw [hslot] at hi
  exact Nat.lt_irrefl i (hi.unique hj ▸ hlt)

/-- A write that does not empty the slot leaves it filled where it was. -/
theorem FilledAt.concat {i : Nat} (h : FilledAt log slot i) {w : SlotWrite} (hw : held (log ++ [w]) slot ≠ none) :
    FilledAt (log ++ [w]) slot i := by
  have htake {j : Nat} (hj : j ≤ log.length) : (log ++ [w]).take j = log.take j := List.take_append_of_le_length hj
  refine ⟨?_, ?_, fun j hij hj => ?_⟩
  · rw [List.length_append]
    exact Nat.lt_add_right _ h.lt
  · rw [htake (Nat.le_of_lt h.lt)]
    exact h.empty
  · rcases Nat.lt_or_ge log.length j with hlong | hshort
    · rw [List.take_of_length_le (by rw [List.length_append, List.length_singleton]; omega)]
      exact hw
    · rw [htake hshort]
      exact h.since j hij hshort

/-- A write to an empty slot fills it. -/
theorem filledAt_length {w : SlotWrite} (hempty : held log slot = none) (hw : held (log ++ [w]) slot ≠ none) :
    FilledAt (log ++ [w]) slot log.length := by
  refine ⟨by simp, ?_, fun j hlt hj => ?_⟩
  · rw [List.take_left]
    exact hempty
  · rw [List.take_of_length_le (by rw [List.length_append, List.length_singleton]; omega)]
    exact hw

theorem exists_filledAt (h : held log slot ≠ none) : ∃ i, FilledAt log slot i := by
  induction log using List.reverseRecOn with
  | nil => exact absurd rfl h
  | append_singleton log w ih =>
    by_cases hempty : held log slot = none
    · exact ⟨log.length, filledAt_length hempty h⟩
    · obtain ⟨i, hi⟩ := ih hempty
      exact ⟨i, hi.concat h⟩

end

/-! ## The list as a map -/

namespace Store

variable {entry : MetadataEntry} {entries : List MetadataEntry}

/-- If no slot is taken twice, a write to one that is taken replaces the entry where it stands. -/
theorem putEntry_of_taken (hdistinct : (entries.map (·.slot)).Nodup) {d : MetadataEntry} (hd : d ∈ entries)
    (hslot : d.slot = entry.slot) :
    putEntry entry entries = entries.map fun e => if e.slot = entry.slot then entry else e := by
  induction entries with
  | nil => cases hd
  | cons e rest ih =>
    obtain ⟨hnot, hrest⟩ := List.nodup_cons.1 hdistinct
    rw [putEntry, List.map_cons]
    by_cases htaken : e.slot = entry.slot
    · rw [if_pos htaken, if_pos htaken]
      -- no entry of the rest is in the slot, so the rest stays
      have hkept : ∀ c ∈ rest, (if c.slot = entry.slot then entry else c) = c := fun c hc =>
        if_neg fun hc' => hnot (List.mem_map.2 ⟨c, hc, hc'.trans htaken.symm⟩)
      rw [List.map_congr_left hkept, List.map_id']
    · rw [if_neg htaken, if_neg htaken]
      have hmem : d ∈ rest := (List.mem_cons.1 hd).resolve_left fun hde => htaken (hde ▸ hslot)
      rw [ih hrest hmem]

end Store

/-- The entries are those that the slots hold after the writes, in the order in which the slots were filled. -/
structure Settled (log : List SlotWrite) (entries : List MetadataEntry) : Prop where
  mem_iff : ∀ e, e ∈ entries ↔ held log e.slot = some e
  ordered : entries.Pairwise (FilledBefore log)

namespace Settled

variable {log : List SlotWrite} {entries : List MetadataEntry}

theorem nil : Settled [] [] where
  mem_iff e := by simp [held]
  ordered := .nil

theorem distinct (h : Settled log entries) : (entries.map (·.slot)).Nodup :=
  List.pairwise_map.2 (h.ordered.imp fun hbefore => hbefore.slot_ne)

theorem find? (h : Settled log entries) (slot : Slot) : entries.find? (·.slot = slot) = held log slot := by
  cases hfind : entries.find? (·.slot = slot) with
  | some e =>
    have hslot : e.slot = slot := by simpa using List.find?_some hfind
    exact ((hslot ▸ (h.mem_iff e).1 (List.mem_of_find?_eq_some hfind)).symm)
  | none =>
    cases hheld : held log slot with
    | none => rfl
    | some e =>
      obtain ⟨rfl, -⟩ := of_held hheld
      exact absurd (by simp) (List.find?_eq_none.1 hfind e ((h.mem_iff e).2 hheld))

theorem held_ne_none (h : Settled log entries) {e : MetadataEntry} (he : e ∈ entries) : held log e.slot ≠ none := by
  rw [(h.mem_iff e).1 he]
  exact Option.some_ne_none e

/-- An order of filling is kept by a write that empties neither slot. -/
theorem filledBefore_concat {w : SlotWrite} {d e : MetadataEntry} (h : FilledBefore log d e)
    (hd : held (log ++ [w]) d.slot ≠ none) (he : held (log ++ [w]) e.slot ≠ none) :
    FilledBefore (log ++ [w]) d e := by
  obtain ⟨i, j, hi, hj, hlt⟩ := h
  exact ⟨i, j, hi.concat hd, hj.concat he, hlt⟩

theorem concat_delete (h : Settled log entries) (slot : Slot) :
    Settled (log ++ [.delete slot]) (entries.filter (·.slot ≠ slot)) := by
  have hheld (e : MetadataEntry) (he : e.slot ≠ slot) : held (log ++ [.delete slot]) e.slot = held log e.slot := by
    rw [held_concat]
    exact if_neg he.symm
  refine ⟨fun e => ?_, ?_⟩
  · rw [List.mem_filter, decide_eq_true_eq, h.mem_iff]
    by_cases hslot : e.slot = slot
    · subst hslot
      simp [held_concat, SlotWrite.slot, SlotWrite.left?]
    · rw [hheld e hslot]
      simp [hslot]
  · refine List.Pairwise.imp_of_mem ?_ (h.ordered.filter _)
    intro d e hd he hbefore
    obtain ⟨hd, hdslot⟩ := List.mem_filter.1 hd
    obtain ⟨he, heslot⟩ := List.mem_filter.1 he
    refine filledBefore_concat hbefore ?_ ?_
    · rw [hheld d (of_decide_eq_true hdslot)]
      exact h.held_ne_none hd
    · rw [hheld e (of_decide_eq_true heslot)]
      exact h.held_ne_none he

theorem held_concat_put (log : List SlotWrite) (entry : MetadataEntry) (slot : Slot) :
    held (log ++ [.put entry]) slot = if entry.slot = slot then some entry else held log slot :=
  held_concat log (.put entry) slot

theorem held_put_ne_none (h : Settled log entries) (entry : MetadataEntry) {e : MetadataEntry} (he : e ∈ entries) :
    held (log ++ [.put entry]) e.slot ≠ none := by
  rw [held_concat_put]
  split
  · exact Option.some_ne_none entry
  · exact h.held_ne_none he

/-- The entry takes the place of the one in its slot, and every slot stays where it is. -/
theorem concat_put_of_taken (h : Settled log entries) {entry d : MetadataEntry} (hd : d ∈ entries)
    (hslot : d.slot = entry.slot) :
    Settled (log ++ [.put entry]) (entries.map fun e => if e.slot = entry.slot then entry else e) := by
  have hkept (e : MetadataEntry) : (if e.slot = entry.slot then entry else e).slot = e.slot := by
    split
    · rename_i heq
      exact heq.symm
    · rfl
  refine ⟨fun e => ?_, List.pairwise_map.2 (List.Pairwise.imp_of_mem ?_ h.ordered)⟩
  · rw [held_concat_put, List.mem_map]
    by_cases heslot : entry.slot = e.slot
    · rw [if_pos heslot, Option.some.injEq]
      constructor
      · rintro ⟨c, -, rfl⟩
        rw [hkept c] at heslot
        exact (if_pos heslot.symm).symm
      · rintro rfl
        exact ⟨d, hd, if_pos hslot⟩
    · rw [if_neg heslot, ← h.mem_iff]
      constructor
      · rintro ⟨c, hc, rfl⟩
        rw [hkept c] at heslot
        rwa [if_neg (Ne.symm heslot)]
      · exact fun he => ⟨e, he, if_neg (Ne.symm heslot)⟩
  · intro c e hc he hbefore
    have hbefore := filledBefore_concat hbefore (h.held_put_ne_none entry hc) (h.held_put_ne_none entry he)
    unfold FilledBefore at hbefore ⊢
    rwa [hkept, hkept]

/-- A slot that was empty is the last one that was filled. -/
theorem concat_put_of_empty (h : Settled log entries) {entry : MetadataEntry}
    (hfree : ∀ e ∈ entries, e.slot ≠ entry.slot) : Settled (log ++ [.put entry]) (entries ++ [entry]) := by
  have hempty : held log entry.slot = none := by
    rw [← h.find?]
    exact List.find?_eq_none.2 fun e he => by simpa using hfree e he
  refine ⟨fun e => ?_, List.pairwise_append.2 ⟨?_, List.pairwise_singleton .., ?_⟩⟩
  · rw [held_concat_put, List.mem_append, List.mem_singleton]
    by_cases heslot : entry.slot = e.slot
    · rw [if_pos heslot, Option.some.injEq]
      constructor
      · rintro (he | rfl)
        · exact absurd heslot.symm (hfree e he)
        · rfl
      · rintro rfl
        exact .inr rfl
    · rw [if_neg heslot, ← h.mem_iff]
      exact ⟨fun he => he.resolve_right fun heq => heslot (heq ▸ rfl), .inl⟩
  · refine List.Pairwise.imp_of_mem (fun hc he hbefore => ?_) h.ordered
    exact filledBefore_concat hbefore (h.held_put_ne_none entry hc) (h.held_put_ne_none entry he)
  · intro d hd e he
    obtain rfl := List.mem_singleton.1 he
    obtain ⟨i, hi⟩ := exists_filledAt (h.held_ne_none hd)
    refine ⟨i, log.length, hi.concat (h.held_put_ne_none _ hd), filledAt_length hempty ?_, hi.lt⟩
    rw [held_concat_put, if_pos rfl]
    exact Option.some_ne_none e

theorem concat_put (h : Settled log entries) (entry : MetadataEntry) :
    Settled (log ++ [.put entry]) (Store.putEntry entry entries) := by
  by_cases htaken : ∃ d ∈ entries, d.slot = entry.slot
  · obtain ⟨d, hd, hslot⟩ := htaken
    rw [Store.putEntry_of_taken h.distinct hd hslot]
    exact h.concat_put_of_taken hd hslot
  · have hfree : ∀ e ∈ entries, e.slot ≠ entry.slot := fun e he hslot => htaken ⟨e, he, hslot⟩
    rw [Store.putEntry_of_empty hfree]
    exact h.concat_put_of_empty hfree

/-- A write settles the entries on the log with that write. -/
theorem concat (h : Settled log entries) (w : SlotWrite) : Settled (log ++ [w]) (w.apply entries) := by
  cases w with
  | put entry => exact h.concat_put entry
  | delete slot => exact h.concat_delete slot

end Settled

end RemoteTable
