import RemoteTable.Chunk.Depot
import RemoteTable.Proofs.Chunk.Chain

/-!
# What is parked

A depot as a list of parked chunks: handing one out takes the first with its id out of the list
(`take?_append_cons`), which leaves the chunks of other ids if no two ids are the same (`take?_elim`). Depositing a payload
adds the chunks of its chain after the first at the end (`deposit_eq`).
-/

namespace RemoteTable

/-- The ids of a parked chunk: that of its chain and its own. -/
def Parked.ids (k : Parked) : List Token := [k.chain, k.chunk.id]

namespace Depot

def ids (d : Depot) : List Token := d.parked.flatMap Parked.ids

theorem mem_ids {d : Depot} {x : Token} : x ∈ d.ids ↔ ∃ k ∈ d.parked, x ∈ k.ids := List.mem_flatMap

theorem take?_append_cons {d : Depot} {before after : List Parked} {k : Parked}
    (hparked : d.parked = before ++ k :: after) (hfirst : ∀ p ∈ before, p.chunk.id ≠ k.chunk.id) :
    d.take? k.chunk.id = some (k.chunk, { d with parked := before ++ after }) := by
  have hskip (p : Parked) (hp : p ∈ before) : ¬ decide (p.chunk.id = k.chunk.id) = true := by
    simpa using hfirst p hp
  have hfind : d.parked.find? (·.chunk.id = k.chunk.id) = some k := by
    rw [hparked, List.find?_append, List.find?_eq_none.2 hskip, Option.none_or, List.find?_cons_of_pos (by simp)]
  have herase : d.parked.eraseP (·.chunk.id = k.chunk.id) = before ++ after := by
    rw [hparked, List.eraseP_append_right _ hskip, List.eraseP_cons_of_pos (by simp)]
  rw [take?, hfind, herase]
  rfl

theorem take?_eq_none {d : Depot} {id : Token} (h : ∀ p ∈ d.parked, p.chunk.id ≠ id) : d.take? id = none := by
  have hfind : d.parked.find? (·.chunk.id = id) = none :=
    List.find?_eq_none.2 fun p hp => by simpa using h p hp
  rw [take?, hfind]
  rfl

/-- What is handed out was parked under its id, and everything else stays parked. -/
theorem take?_eq_some {d e : Depot} {id : Token} {c : Chunk} (h : d.take? id = some (c, e)) :
    ∃ before k after, d.parked = before ++ k :: after ∧ k.chunk = c ∧ c.id = id ∧
      e = { d with parked := before ++ after } := by
  obtain ⟨k, hfind, hpair⟩ := Option.map_eq_some_iff.1 h
  obtain ⟨hid, before, after, hparked, hfirst⟩ := List.find?_eq_some_iff_append.1 hfind
  obtain rfl : k.chunk.id = id := by simpa using hid
  have htake := take?_append_cons hparked fun p hp => by simpa using hfirst p hp
  cases h.symm.trans htake
  exact ⟨before, k, after, hparked, rfl, rfl, rfl⟩

/-- If the ids of parked chunks differ, that of one of them is nowhere else. -/
theorem id_ne_of_nodup {d : Depot} (hnodup : (d.parked.map (·.chunk.id)).Nodup) {before after : List Parked} {k : Parked}
    (hparked : d.parked = before ++ k :: after) {other : Parked} (hother : other ∈ before ++ after) :
    other.chunk.id ≠ k.chunk.id := by
  rw [hparked, List.map_append, List.map_cons] at hnodup
  obtain ⟨-, hafter, hbefore⟩ := List.nodup_append.1 hnodup
  rcases List.mem_append.1 hother with hother | hother
  · exact hbefore _ (List.mem_map_of_mem hother) _ List.mem_cons_self
  · exact fun hsame => (List.nodup_cons.1 hafter).1 (hsame ▸ List.mem_map_of_mem hother)

theorem take?_elim {d : Depot} (hnodup : (d.parked.map (·.chunk.id)).Nodup) (id : Token) :
    (d.take? id).elim d Prod.snd = { d with parked := d.parked.filter (·.chunk.id ≠ id) } := by
  cases htake : d.take? id with
  | none =>
    have hother (p : Parked) (hp : p ∈ d.parked) : decide (p.chunk.id ≠ id) = true := by
      rw [take?, Option.map_eq_none_iff] at htake
      simpa using List.find?_eq_none.1 htake p hp
    rw [List.filter_eq_self.2 hother]
    rfl
  | some taken =>
    obtain ⟨before, p, after, hparked, hchunk, rfl, hdepot⟩ := take?_eq_some htake
    have hrest (q : Parked) (hq : q ∈ before ++ after) : decide (q.chunk.id ≠ p.chunk.id) = true :=
      decide_eq_true (id_ne_of_nodup hnodup hparked hq)
    rw [← hchunk, hparked, List.filter_append, List.filter_cons_of_neg (by simp), ← List.filter_append,
      List.filter_eq_self.2 hrest]
    exact hdepot

theorem release_of_forall_ne {d : Depot} {c : Token} (h : ∀ p ∈ d.parked, p.chain ≠ c) : d.release c = (0, d) := by
  have hcount : d.parked.countP (·.chain = c) = 0 := List.countP_eq_zero.2 fun p hp => by simpa using h p hp
  have hkept : d.parked.filter (·.chain ≠ c) = d.parked := List.filter_eq_self.2 fun p hp => decide_eq_true (h p hp)
  rw [Depot.release, hcount, hkept]

def chain (d : Depot) (payload : Bytes) (supply : Supply) : Chain := (Chain.split d.size payload supply).1

theorem deposit_eq (d : Depot) (payload : Bytes) (supply : Supply) : d.deposit payload supply =
    ((d.chain payload supply).first,
      { d with parked := d.parked ++ (d.chain payload supply).rest.map (Parked.mk (d.chain payload supply).first.id) },
      { supply with used := supply.used + Chunk.count payload.length d.size }) := by
  rw [← Chain.supply_split]
  rfl

theorem cut_of_mem_chain {d : Depot} {payload : Bytes} {supply : Supply} {c : Chunk}
    (h : c ∈ (d.chain payload supply).toList) : c.Cut d.size := Chain.cut_split d.size payload supply h

theorem fits_of_mem_chain {d : Depot} {payload : Bytes} {supply : Supply} {c : Chunk}
    (h : c ∈ (d.chain payload supply).toList) : c.payload.length ≤ Frame.maxPayload :=
  Nat.le_trans (cut_of_mem_chain h).fits d.fits

end Depot

end RemoteTable
