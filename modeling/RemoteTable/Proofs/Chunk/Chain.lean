import RemoteTable.Chunk.Basic

/-!
# The shape of a chain

A payload is cut into pieces that are full but for the last (`take_split_payload`), as many as `Chunk.count` tells
(`length_split`). The chunks that carry them name each other in order (`linked_split`), and their ids are the next
tokens of the supply (`ids_split`). So every chunk fits the size, and fills it if it names another (`cut_split`).
-/

namespace RemoteTable

namespace Chunk

/-! ## Pieces -/

theorem pieces_of_ne_nil (size : ChunkSize) {payload : Bytes} (h : payload ≠ []) :
    pieces size payload = payload.take size.bytes :: pieces size (payload.drop size.bytes) := by
  cases payload with
  | nil => exact absurd rfl h
  | cons b bs => rw [pieces]

/-- The first `k` pieces together are the first `k` sizes of the payload. -/
theorem flatten_take_pieces (size : ChunkSize) (payload : Bytes) (k : Nat) :
    ((pieces size payload).take k).flatten = payload.take (k * size.bytes) := by
  induction k generalizing payload with
  | zero => simp
  | succ k ih =>
    by_cases h : payload = []
    · simp [h, pieces]
    · rw [pieces_of_ne_nil size h, List.take_succ_cons, List.flatten_cons, ih, Nat.succ_mul, Nat.add_comm (k * _),
        List.take_add]

theorem flatten_pieces (size : ChunkSize) (payload : Bytes) : (pieces size payload).flatten = payload := by
  induction payload using pieces.induct size with
  | case1 => simp [pieces]
  | case2 b bs ih => rw [pieces, List.flatten_cons, ih, List.take_append_drop]

theorem length_pieces (size : ChunkSize) (payload : Bytes) :
    (pieces size payload).length = payload.length / size.bytes + (if payload.length % size.bytes = 0 then 0 else 1) := by
  induction payload using pieces.induct size with
  | case1 => simp [pieces]
  | case2 b bs ih =>
    have hpos := size.positive
    have hne : (b :: bs).length ≠ 0 := by simp
    rw [pieces, List.length_cons, ih, List.length_drop]
    generalize (b :: bs).length = n at hne ⊢
    rcases Nat.lt_or_ge n size.bytes with hlt | hge
    · have hzero : n - size.bytes = 0 := by omega
      simp [hzero, Nat.div_eq_of_lt hlt, Nat.mod_eq_of_lt hlt, hne]
    · rw [Nat.div_eq_sub_div hpos hge, Nat.mod_eq_sub_mod hge]
      omega

theorem length_le_of_mem_pieces {size : ChunkSize} {payload piece : Bytes} (h : piece ∈ pieces size payload) :
    piece.length ≤ size.bytes := by
  induction payload using pieces.induct size with
  | case1 => simp [pieces] at h
  | case2 b bs ih =>
    rw [pieces] at h
    rcases List.mem_cons.1 h with rfl | hrest
    · exact List.length_take_le ..
    · exact ih hrest

theorem length_of_mem_dropLast_pieces {size : ChunkSize} {payload piece : Bytes}
    (h : piece ∈ (pieces size payload).dropLast) : piece.length = size.bytes := by
  induction payload using pieces.induct size with
  | case1 => simp [pieces] at h
  | case2 b bs ih =>
    rw [pieces] at h
    by_cases hlast : (b :: bs).drop size.bytes = []
    · simp [hlast, pieces] at h
    · -- something is left behind this piece, so the payload was long enough for it
      have hlong : size.bytes ≤ (b :: bs).length := Nat.le_of_not_le (mt List.drop_eq_nil_iff.2 hlast)
      have hmore : pieces size ((b :: bs).drop size.bytes) ≠ [] := by
        rw [pieces_of_ne_nil size hlast]
        exact List.cons_ne_nil _ _
      rw [List.dropLast_cons_of_ne_nil hmore] at h
      rcases List.mem_cons.1 h with rfl | hrest
      · exact List.length_take_of_le hlong
      · exact ih hrest

theorem count_eq (size : ChunkSize) (payload : Bytes) :
    count payload.length size = (pieces size (payload.drop size.bytes)).length + 1 := by
  by_cases h : payload = []
  · simp [h, count, pieces]
  · have hne : payload.length ≠ 0 := by simpa using h
    have hlen := length_pieces size payload
    rw [pieces_of_ne_nil size h, List.length_cons] at hlen
    rw [count, if_neg hne, hlen]

/-- A chunk as it is cut off a payload: it fits the size, and fills it if another chunk follows. -/
structure Cut (size : ChunkSize) (c : Chunk) : Prop where
  fits : c.payload.length ≤ size.bytes
  full : c.next ≠ none → c.payload.length = size.bytes

end Chunk

/-! ## Links -/

namespace Chain

/-- Each chunk names the next one, and the last names none. -/
def Linked : List Chunk → Prop
  | [] => True
  | c :: rest => c.next = rest.head?.map Chunk.id ∧ Linked rest

theorem Linked.next_of_drop {chunks : List Chunk} (h : Linked chunks) {k : Nat} {c : Chunk} {rest : List Chunk}
    (hdrop : chunks.drop k = c :: rest) : c.next = rest.head?.map Chunk.id := by
  induction k generalizing chunks with
  | zero =>
    rw [List.drop_zero] at hdrop
    subst hdrop
    exact h.1
  | succ k ih =>
    cases chunks with
    | nil => simp at hdrop
    | cons d chunks => exact ih h.2 hdrop

theorem Linked.mem_dropLast {chunks : List Chunk} (h : Linked chunks) {c : Chunk} (hmem : c ∈ chunks)
    (hnext : c.next ≠ none) : c ∈ chunks.dropLast := by
  induction chunks with
  | nil => cases hmem
  | cons d rest ih =>
    cases rest with
    | nil =>
      obtain rfl := List.mem_singleton.1 hmem
      exact absurd h.1 hnext
    | cons e rest =>
      rw [List.dropLast_cons_cons]
      rcases List.mem_cons.1 hmem with rfl | hmem
      · exact List.mem_cons_self
      · exact List.mem_cons_of_mem d (ih h.2 hmem)

theorem linked_link (id : Token) (piece : Bytes) (more : List (Token × Bytes)) :
    Linked (link id piece more).toList := by
  induction more generalizing id piece with
  | nil => exact ⟨rfl, trivial⟩
  | cons m more ih =>
    have hrest := ih m.1 m.2
    cases more <;> exact ⟨rfl, hrest⟩

theorem payloads_link (id : Token) (piece : Bytes) (more : List (Token × Bytes)) :
    (link id piece more).toList.map Chunk.payload = piece :: more.map Prod.snd := by
  induction more generalizing id piece with
  | nil => rfl
  | cons m more ih => exact congrArg (piece :: ·) (ih m.1 m.2)

theorem ids_link (id : Token) (piece : Bytes) (more : List (Token × Bytes)) :
    (link id piece more).toList.map Chunk.id = id :: more.map Prod.fst := by
  induction more generalizing id piece with
  | nil => rfl
  | cons m more ih => exact congrArg (id :: ·) (ih m.1 m.2)

/-! ## Splitting -/

variable (size : ChunkSize) (payload : Bytes) (supply : Supply)

theorem split_eq : split size payload supply =
    (link (supply.draw supply.used) (payload.take size.bytes)
      (((List.range' (supply.used + 1) (Chunk.pieces size (payload.drop size.bytes)).length).map supply.draw).zip
        (Chunk.pieces size (payload.drop size.bytes))),
      { supply with used := supply.used + Chunk.count payload.length size }) := by
  have hused : supply.used + Chunk.count payload.length size =
      supply.used + 1 + (Chunk.pieces size (payload.drop size.bytes)).length := by
    rw [Chunk.count_eq]
    omega
  rw [hused]
  rfl

theorem linked_split : Linked (split size payload supply).1.toList := by
  rw [split_eq]
  exact linked_link _ _ _

theorem payloads_split : (split size payload supply).1.toList.map Chunk.payload =
    payload.take size.bytes :: Chunk.pieces size (payload.drop size.bytes) := by
  rw [split_eq, payloads_link, List.map_snd_zip]
  simp

theorem ids_split : (split size payload supply).1.toList.map Chunk.id =
    (supply.take (Chunk.count payload.length size)).1 := by
  rw [split_eq, ids_link, List.map_fst_zip, Chunk.count_eq, Supply.take, List.range'_succ, List.map_cons]
  simp

theorem length_split : (split size payload supply).1.toList.length = Chunk.count payload.length size := by
  rw [← List.length_map (f := Chunk.id), ids_split, Supply.length_take]

/-- The payloads of the first chunks are the first part of the payload. -/
theorem take_split_payload (k : Nat) :
    (((split size payload supply).1.toList.take (k + 1)).map Chunk.payload).flatten =
      payload.take ((k + 1) * size.bytes) := by
  rw [List.map_take, payloads_split, List.take_succ_cons, List.flatten_cons, Chunk.flatten_take_pieces,
    Nat.succ_mul, Nat.add_comm (k * _), List.take_add]

theorem flatten_split : ((split size payload supply).1.toList.map Chunk.payload).flatten = payload := by
  rw [payloads_split, List.flatten_cons, Chunk.flatten_pieces, List.take_append_drop]

theorem payload_length_le_of_mem_split {c : Chunk} (h : c ∈ (split size payload supply).1.toList) :
    c.payload.length ≤ size.bytes := by
  have hmem := List.mem_map_of_mem (f := Chunk.payload) h
  rw [payloads_split] at hmem
  rcases List.mem_cons.1 hmem with heq | hrest
  · rw [heq]
    exact List.length_take_le ..
  · exact Chunk.length_le_of_mem_pieces hrest

theorem cut_split {c : Chunk} (h : c ∈ (split size payload supply).1.toList) : c.Cut size := by
  refine ⟨payload_length_le_of_mem_split size payload supply h, fun hnext => ?_⟩
  have hmem := List.mem_map_of_mem (f := Chunk.payload) ((linked_split size payload supply).mem_dropLast h hnext)
  rw [List.map_dropLast, payloads_split] at hmem
  by_cases hempty : payload = []
  · simp [hempty, Chunk.pieces] at hmem
  · rw [← Chunk.pieces_of_ne_nil size hempty] at hmem
    exact Chunk.length_of_mem_dropLast_pieces hmem

theorem supply_split : (split size payload supply).2 =
    { supply with used := supply.used + Chunk.count payload.length size } := by
  rw [split_eq]

end Chain

end RemoteTable
