/-!
# Dictionaries

A finite map from names, kept as a list of pairs without a repeated name, in the order in which the names came
in.
-/

namespace RemoteTable

structure Dict (α : Type) where
  entries : List (String × α)
  distinct : (entries.map Prod.fst).Nodup

namespace Dict

def empty : Dict α := ⟨[], List.nodup_nil⟩

def names (d : Dict α) : List String := d.entries.map Prod.fst

def get? (d : Dict α) (name : String) : Option α := d.entries.lookup name

def size (d : Dict α) : Nat := d.entries.length

/-- Replaces the entry of a name in place, or adds one at the end. -/
def put (name : String) (value : α) : List (String × α) → List (String × α)
  | [] => [(name, value)]
  | (k, v) :: rest => if k = name then (k, value) :: rest else (k, v) :: put name value rest

theorem mem_names_put {name k : String} {value : α} {entries : List (String × α)} :
    k ∈ (put name value entries).map Prod.fst ↔ k = name ∨ k ∈ entries.map Prod.fst := by
  induction entries with
  | nil => simp [put]
  | cons e rest ih =>
    unfold put
    split
    · subst name
      simp
    · simp only [List.map_cons, List.mem_cons, ih]
      exact or_left_comm

theorem nodup_put {name : String} {value : α} {entries : List (String × α)}
    (h : (entries.map Prod.fst).Nodup) : ((put name value entries).map Prod.fst).Nodup := by
  induction entries with
  | nil => simp [put]
  | cons e rest ih =>
    obtain ⟨hk, hrest⟩ := List.nodup_cons.1 h
    unfold put
    split
    · exact List.nodup_cons.2 ⟨hk, hrest⟩
    · rename_i hne
      refine List.nodup_cons.2 ⟨fun hmem => ?_, ih hrest⟩
      exact (mem_names_put.1 hmem).elim hne hk

def insert (d : Dict α) (name : String) (value : α) : Dict α := ⟨put name value d.entries, nodup_put d.distinct⟩

@[simp] theorem get?_empty (name : String) : (empty : Dict α).get? name = none := rfl

theorem get?_insert (d : Dict α) (name k : String) (value : α) :
    (d.insert name value).get? k = if k = name then some value else d.get? k := by
  obtain ⟨entries, h⟩ := d
  simp only [insert, get?]
  clear h
  induction entries with
  | nil =>
    by_cases hk : k = name
    · simp [put, hk]
    · simp [put, List.lookup_cons, hk, beq_false_of_ne hk]
  | cons e rest ih =>
    obtain ⟨l, v⟩ := e
    unfold put
    by_cases hl : l = name
    · subst l
      by_cases hk : k = name
      · simp [hk]
      · simp [List.lookup_cons, hk, beq_false_of_ne hk]
    · by_cases hkl : k = l
      · subst k
        simp [hl]
      · simp only [hl, if_false, List.lookup_cons, beq_false_of_ne hkl, ih]

theorem insert_insert (d : Dict α) (name : String) (v w : α) : (d.insert name v).insert name w = d.insert name w := by
  have hput (entries : List (String × α)) : put name w (put name v entries) = put name w entries := by
    induction entries with
    | nil => simp [put]
    | cons e rest ih =>
      by_cases hname : e.1 = name
      · simp [put, hname]
      · simp [put, hname, ih]
  simp only [insert, hput]

theorem insert_self {d : Dict α} {name : String} {v : α} (h : d.get? name = some v) : d.insert name v = d := by
  obtain ⟨entries, hdistinct⟩ := d
  have hput : put name v entries = entries := by
    simp only [get?] at h
    clear hdistinct
    induction entries with
    | nil => simp at h
    | cons e rest ih =>
      obtain ⟨k, w⟩ := e
      by_cases hname : k = name
      · subst hname
        simp only [List.lookup_cons, beq_self_eq_true, Option.some.injEq] at h
        simp [put, h]
      · have hne : name ≠ k := fun h => hname h.symm
        simp only [List.lookup_cons, beq_false_of_ne hne] at h
        simp [put, hname, ih h]
  simp only [insert, hput]

theorem length_put (name : String) (value : α) (entries : List (String × α)) : (put name value entries).length =
    if (entries.lookup name).isSome then entries.length else entries.length + 1 := by
  induction entries with
  | nil => simp [put]
  | cons e rest ih =>
    obtain ⟨k, v⟩ := e
    unfold put
    by_cases hk : k = name
    · simp [hk]
    · have hne : name ≠ k := fun h => hk h.symm
      simp only [hk, if_false, List.lookup_cons, beq_false_of_ne hne, List.length_cons, ih]
      split <;> rfl

theorem size_insert (d : Dict α) (name : String) (value : α) :
    (d.insert name value).size = if (d.get? name).isSome then d.size else d.size + 1 := length_put name value d.entries

end Dict

end RemoteTable
