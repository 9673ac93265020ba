import RemoteTable.Proofs.Chunk.Chain
import RemoteTable.Proofs.Client.Yields
import RemoteTable.Proofs.Drawn

/-!
# What a chain looks like

A payload becomes the least number of chunks that have room for it (`Chunk.length_le_count_mul`, `Chunk.count_le`), a
number that machine words hold at every step on the way to it (`Chunk.toNat_countWord`). It does not matter whether the ids
are drawn piece by piece or first, as many as that number tells, and then given to the pieces in order
(`Chain.split_eq_assemble`). All chunks but the last are full, their payloads together are the payload, and each names the
one behind it (`Chain.shape_split`). A receiver who asks anybody that serves the chunks by id asks for the ids behind the
first one in their order, once each, and ends with the payload (`Chain.decode_lender`, `Chain.encoded`).
-/

namespace RemoteTable

/-! ## The number of chunks -/

namespace Chunk

variable (length : Nat) (size : ChunkSize)

theorem count_pos : 1 ≤ count length size := by
  unfold count
  split
  · exact Nat.le_refl 1
  · rename_i hne
    split
    · rename_i hdvd
      have hsize : size.bytes ≤ length := Nat.le_of_dvd (Nat.pos_of_ne_zero hne) (Nat.dvd_of_mod_eq_zero hdvd)
      exact Nat.div_pos hsize size.positive
    · exact Nat.le_add_left 1 _

theorem length_le_count_mul : length ≤ count length size * size.bytes := by
  have hdiv : size.bytes * (length / size.bytes) + length % size.bytes = length := Nat.div_add_mod _ _
  have hmod : length % size.bytes < size.bytes := Nat.mod_lt _ size.positive
  rw [Nat.mul_comm] at hdiv
  unfold count
  split
  · omega
  · split
    · rw [Nat.add_zero]
      omega
    · rw [Nat.add_one_mul]
      omega

theorem count_le {n : Nat} (hn : 1 ≤ n) (h : length ≤ n * size.bytes) : count length size ≤ n := by
  unfold count
  split
  · exact hn
  · have hle : length / size.bytes ≤ n := Nat.div_le_of_le_mul (by rwa [Nat.mul_comm])
    split
    · exact hle
    · rename_i hmod
      -- were the quotient `n` already, there would be no remainder
      have hne : length / size.bytes ≠ n := by
        rintro rfl
        have hdiv : size.bytes * (length / size.bytes) + length % size.bytes = length := Nat.div_add_mod _ _
        rw [Nat.mul_comm] at hdiv
        omega
      omega

/-- The number of chunks as machine words give it, which begin anew when they overflow. -/
def countWord (length size : UInt64) : UInt64 :=
  if length = 0 then 1 else length / size + (if length % size = 0 then 0 else 1)

/-- Nothing overflows: a quotient that fills the word is one by 1, which leaves no remainder. -/
theorem toNat_countWord (length bytes : UInt64) (h : 0 < bytes.toNat) :
    (countWord length bytes).toNat = count length.toNat ⟨bytes.toNat, h⟩ := by
  have hzero : (length = 0) = (length.toNat = 0) := by rw [← UInt64.toNat_inj]; rfl
  have hmod : (length % bytes = 0) = (length.toNat % bytes.toNat = 0) := by
    rw [← UInt64.toNat_inj, UInt64.toNat_mod]
    rfl
  have hlt := length.toNat_lt
  unfold countWord count
  simp only [hzero, hmod]
  split
  · rfl
  · split
    · rw [UInt64.add_zero, UInt64.toNat_div, Nat.add_zero]
    · rename_i hrest
      have hbytes : 1 < bytes.toNat := by
        have hne : bytes.toNat ≠ 1 := fun hone => hrest (by rw [hone, Nat.mod_one])
        omega
      have hquotient : length.toNat / bytes.toNat < length.toNat := Nat.div_lt_self (by omega) hbytes
      have hroom : length.toNat / bytes.toNat + 1 < 2 ^ 64 := by omega
      rw [UInt64.toNat_add, UInt64.toNat_div]
      exact Nat.mod_eq_of_lt hroom

end Chunk

/-! ## Ids and pieces -/

theorem Chunk.ne_nil_of_mem_pieces {size : ChunkSize} {payload piece : Bytes} (h : piece ∈ pieces size payload) :
    piece ≠ [] := by
  induction payload using pieces.induct size with
  | case1 => simp [pieces] at h
  | case2 b bs ih =>
    rw [pieces] at h
    rcases List.mem_cons.1 h with rfl | hrest
    · intro hempty
      have hsize : size.bytes = 0 := (List.take_eq_nil_iff.1 hempty).resolve_right (List.cons_ne_nil b bs)
      exact Nat.ne_of_gt size.positive hsize
    · exact ih hrest

namespace Chain

/-- The chunks of pieces under ids that were drawn before: an id without a piece gets no bytes. -/
def assemble (ids : List Token) (pieces : List Bytes) : List Chunk :=
  ids.zipIdx.map fun entry => ⟨pieces.getD entry.2 [], entry.1, ids[entry.2 + 1]?⟩

theorem Linked.next_eq {chunks : List Chunk} (h : Linked chunks) {i : Nat} {c : Chunk} (hc : chunks[i]? = some c) :
    c.next = chunks[i + 1]?.map Chunk.id := by
  obtain ⟨hlt, rfl⟩ := List.getElem?_eq_some_iff.1 hc
  have hnext := h.next_of_drop (List.drop_eq_getElem_cons hlt)
  rwa [List.head?_drop] at hnext

section

variable (size : ChunkSize) (payload : Bytes) (supply : Supply)

/-- The pieces as they lie in the chunks; an empty payload has no piece, but a chunk. -/
theorem payloads_split_getD (i : Nat) : ((split size payload supply).1.toList.map Chunk.payload).getD i [] =
    (Chunk.pieces size payload).getD i [] := by
  rw [payloads_split]
  by_cases hempty : payload = []
  · subst hempty
    cases i <;> simp [Chunk.pieces]
  · rw [← Chunk.pieces_of_ne_nil size hempty]

/-- The ids may be drawn first, as many as the number of chunks tells: there is a piece for each and an id for each. -/
theorem split_eq_assemble : (split size payload supply).1.toList =
    assemble (supply.take (Chunk.count payload.length size)).1 (Chunk.pieces size payload) := by
  rw [← ids_split]
  have hlinked := linked_split size payload supply
  have hpieces := payloads_split_getD size payload supply
  generalize (split size payload supply).1.toList = chunks at hlinked hpieces
  refine List.ext_getElem? fun i => ?_
  rw [assemble, List.getElem?_map, List.getElem?_zipIdx, List.getElem?_map]
  cases hc : chunks[i]? with
  | none => rfl
  | some c =>
    have hpayload : (Chunk.pieces size payload).getD i [] = c.payload := by
      rw [← hpieces, List.getD_eq_getElem?_getD, List.getElem?_map, hc]
      rfl
    have hnext : (chunks.map Chunk.id)[i + 1]? = c.next := by rw [List.getElem?_map, hlinked.next_eq hc]
    simp only [Option.map_some, Nat.zero_add, hpayload, hnext]

end

/-! ## The shape -/

/-- What the chain of a payload looks like. -/
structure Shape (size : ChunkSize) (payload : Bytes) (chain : Chain) : Prop where
  count : chain.toList.length = Chunk.count payload.length size
  positive : 1 ≤ chain.toList.length
  enough : payload.length ≤ chain.toList.length * size.bytes
  least : ∀ n, 1 ≤ n → payload.length ≤ n * size.bytes → chain.toList.length ≤ n
  whole : (chain.toList.map Chunk.payload).flatten = payload
  full : ∀ c ∈ chain.toList.dropLast, c.payload.length = size.bytes
  last : ∀ c, chain.toList.getLast? = some c →
    c.payload.length ≤ size.bytes ∧ (payload ≠ [] → 1 ≤ c.payload.length)
  distinct : (chain.toList.map Chunk.id).Nodup
  links : ∀ i c, chain.toList[i]? = some c → c.next = chain.toList[i + 1]?.map Chunk.id
  ends : ∀ i c, chain.toList[i]? = some c → (c.next = none ↔ i + 1 = chain.toList.length)

theorem nodup_ids_split {size : ChunkSize} {payload : Bytes} {supply : Supply}
    (hdistinct : (split size payload supply).2.Distinct) : ((split size payload supply).1.toList.map Chunk.id).Nodup := by
  rw [supply_split] at hdistinct
  rw [ids_split]
  refine hdistinct.nodup_map (List.nodup_range' ..) fun i hi => ?_
  exact (List.mem_range'_1.1 hi).2

theorem shape_split {size : ChunkSize} {payload : Bytes} {supply : Supply}
    (hdistinct : (split size payload supply).2.Distinct) : Shape size payload (split size payload supply).1 := by
  have hlength := length_split size payload supply
  have hlinked := linked_split size payload supply
  have hids := nodup_ids_split hdistinct
  have hlinks (i : Nat) (c : Chunk) (hc : (split size payload supply).1.toList[i]? = some c) := hlinked.next_eq hc
  refine ⟨hlength, ?_, ?_, ?_, flatten_split size payload supply, ?_, ?_, hids, hlinks, ?_⟩
  · rw [hlength]
    exact Chunk.count_pos _ size
  · rw [hlength]
    exact Chunk.length_le_count_mul _ size
  · intro n hn h
    rw [hlength]
    exact Chunk.count_le _ size hn h
  · intro c hc
    have hpayload := List.mem_map_of_mem (f := Chunk.payload) hc
    rw [List.map_dropLast, payloads_split] at hpayload
    by_cases hempty : payload = []
    · simp [hempty, Chunk.pieces] at hpayload
    · rw [← Chunk.pieces_of_ne_nil size hempty] at hpayload
      exact Chunk.length_of_mem_dropLast_pieces hpayload
  · intro c hc
    have hmem : c ∈ (split size payload supply).1.toList := List.mem_of_getLast? hc
    refine ⟨payload_length_le_of_mem_split size payload supply hmem, fun hne => ?_⟩
    have hpayload := List.mem_map_of_mem (f := Chunk.payload) hmem
    rw [payloads_split, ← Chunk.pieces_of_ne_nil size hne] at hpayload
    exact List.length_pos_iff.2 (Chunk.ne_nil_of_mem_pieces hpayload)
  · intro i c hc
    have hlt := (List.getElem?_eq_some_iff.1 hc).1
    rw [hlinks i c hc, Option.map_eq_none_iff, List.getElem?_eq_none_iff]
    omega

end Chain

/-! ## Serving by id -/

/-- Serves chunks while its patience lasts, and keeps the ids that it was asked for. -/
structure Lender where
  patience : Nat
  asked : List Token

namespace Lender

variable (serve : Token → Except TransportError Chunk)

/-- What is served depends on the id only. -/
def answer (id : Token) (s : Noted Lender) : Except TransportError Chunk × Noted Lender :=
  if s.state.patience = 0 then (.error ⟨.storage, "no more replies"⟩, s)
  else (serve id, { s with state := ⟨s.state.patience - 1, s.state.asked ++ [id]⟩ })

def supplier : Supplier Lender where
  fetch id := .of (answer serve id)
  credit s := s.patience
  spends id s c t h := by
    rw [Exchange.on_of, answer] at h
    split at h
    · cases h
    · rename_i hpatience
      obtain ⟨-, rfl⟩ := Prod.mk.inj h
      exact Nat.sub_one_lt hpatience

variable {serve}

theorem on_fetch {id : Token} {patience : Nat} {asked : List Token} {journal : List Record} (h : 1 ≤ patience) :
    ((supplier serve).fetch id).on ⟨⟨patience, asked⟩, journal⟩ =
      (serve id, ⟨⟨patience - 1, asked ++ [id]⟩, journal⟩) :=
  if_neg (Nat.ne_of_gt h)

end Lender

namespace Chain

variable {serve : Token → Except TransportError Chunk}

theorem follow_lender {rest : List Chunk} {next : Option Token} {patience : Nat} {asked : List Token}
    {journal : List Record} (hnext : next = rest.head?.map Chunk.id) (hlinked : Linked rest)
    (hserve : ∀ c ∈ rest, serve c.id = .ok c) (hpatience : rest.length ≤ patience) :
    Chunk.follow (Lender.supplier serve) next ⟨⟨patience, asked⟩, journal⟩ = (.ok (rest.map Chunk.payload).flatten,
      ⟨⟨patience - rest.length, asked ++ rest.map Chunk.id⟩, journal⟩) := by
  induction rest generalizing next patience asked with
  | nil =>
    subst hnext
    rw [List.head?_nil, Option.map_none, Chunk.follow, List.map_nil, List.map_nil, List.append_nil]
    rfl
  | cons c rest ih =>
    subst hnext
    have hpositive : 1 ≤ patience := Nat.le_trans (Nat.le_add_left 1 _) hpatience
    have hfetch : ((Lender.supplier serve).fetch c.id).on ⟨⟨patience, asked⟩, journal⟩ =
        (.ok c, ⟨⟨patience - 1, asked ++ [c.id]⟩, journal⟩) := by
      rw [Lender.on_fetch hpositive, hserve c List.mem_cons_self]
    have haccept : Chunk.accept c.id (((Lender.supplier serve).fetch c.id).on ⟨⟨patience, asked⟩, journal⟩).1 = .ok c := by
      rw [hfetch]
      exact Chunk.accept_eq_ok.2 ⟨rfl, rfl⟩
    have hserve' : ∀ d ∈ rest, serve d.id = .ok d := fun d hd => hserve d (List.mem_cons_of_mem c hd)
    have hpatience' : rest.length ≤ patience - 1 := Nat.le_sub_one_of_lt hpatience
    rw [List.head?_cons, Option.map_some, Chunk.follow_ok haccept, hfetch]
    dsimp only
    rw [ih hlinked.1 hlinked.2 hserve' hpatience', List.length_cons, List.map_cons, List.map_cons, List.flatten_cons,
      List.append_assoc, Nat.sub_sub, Nat.add_comm 1]
    rfl

theorem decode_lender {chain : Chain} {patience : Nat} (hlinked : Linked chain.toList)
    (hserve : ∀ c ∈ chain.rest, serve c.id = .ok c) (hpatience : chain.rest.length ≤ patience) :
    (Chunk.decode (Lender.supplier serve) chain.first).on (.start ⟨patience, []⟩) =
      (.ok (chain.toList.map Chunk.payload).flatten,
        .start ⟨patience - chain.rest.length, chain.rest.map Chunk.id⟩) := by
  have hfollow : (Exchange.of (Chunk.follow (Lender.supplier serve) chain.first.next)).on (.start ⟨patience, []⟩) = _ :=
    follow_lender hlinked.1 hlinked.2 hserve hpatience
  rw [Chunk.decode, Exchange.on_bind_ok hfollow, Exchange.on_pure, toList, List.map_cons, List.flatten_cons,
    List.nil_append]
  rfl

/-- The chain of a payload has the shape told above, for any size. As many ids are drawn as machine words tell for its
length, and a receiver who asks for the chunks by their ids asks for all but the first, once each and in order, and ends
with the payload. -/
theorem encoded {size : ChunkSize} {payload : Bytes} {supply : Supply}
    (hdistinct : (split size payload supply).2.Distinct) :
    Shape size payload (split size payload supply).1 ∧
    (split size payload supply).1.toList =
      assemble (supply.take (Chunk.count payload.length size)).1 (Chunk.pieces size payload) ∧
    (∀ (length bytes : UInt64) (h : 0 < bytes.toNat),
      (Chunk.countWord length bytes).toNat = Chunk.count length.toNat ⟨bytes.toNat, h⟩) ∧
    ∀ serve patience, (∀ c ∈ (split size payload supply).1.rest, serve c.id = .ok c) →
      (split size payload supply).1.rest.length ≤ patience →
      (Chunk.decode (Lender.supplier serve) (split size payload supply).1.first).on (.start ⟨patience, []⟩) =
        (.ok payload, .start ⟨patience - (split size payload supply).1.rest.length,
          (split size payload supply).1.rest.map Chunk.id⟩) := by
  refine ⟨shape_split hdistinct, split_eq_assemble size payload supply, Chunk.toNat_countWord, ?_⟩
  intro serve patience hserve hpatience
  rw [decode_lender (linked_split size payload supply) hserve hpatience, flatten_split]

/-- Five bytes in chunks of two, of which the second and the third are served. -/
theorem encoded_of_five :
    let supply : Supply := .fresh fun i => ⟨BitVec.ofNat 128 i⟩
    let chain := (split ⟨2, by decide⟩ [1, 2, 3, 4, 5] supply).1
    let serve : Token → Except TransportError Chunk := fun id =>
      if id = ⟨1⟩ then .ok ⟨[3, 4], ⟨1⟩, some ⟨2⟩⟩ else .ok ⟨[5], ⟨2⟩, none⟩
    (split ⟨2, by decide⟩ [1, 2, 3, 4, 5] supply).2.Distinct ∧ (∀ c ∈ chain.rest, serve c.id = .ok c) ∧
      chain.toList.length = 3 ∧ (Chunk.decode (Lender.supplier serve) chain.first).on (.start ⟨2, []⟩) =
        (.ok [1, 2, 3, 4, 5], .start ⟨0, [⟨1⟩, ⟨2⟩]⟩) := by
  intro supply chain serve
  have hdistinct : (split ⟨2, by decide⟩ [1, 2, 3, 4, 5] supply).2.Distinct := by decide +kernel
  have hrest : chain.rest = [⟨[3, 4], ⟨1⟩, some ⟨2⟩⟩, ⟨[5], ⟨2⟩, none⟩] := by decide +kernel
  obtain ⟨hshape, -, -, hdecode⟩ := encoded hdistinct
  have hserve : ∀ c ∈ chain.rest, serve c.id = .ok c := by
    rw [hrest]
    intro c hc
    rcases List.mem_cons.1 hc with rfl | hc
    · rfl
    · obtain rfl := List.mem_singleton.1 hc
      rfl
  have hasked : (Chunk.decode (Lender.supplier serve) chain.first).on (.start ⟨2, []⟩) =
      (.ok [1, 2, 3, 4, 5], .start ⟨2 - chain.rest.length, chain.rest.map Chunk.id⟩) :=
    hdecode serve 2 hserve (by rw [hrest]; decide)
  rw [hrest] at hasked
  exact ⟨hdistinct, hserve, hshape.count, hasked⟩

end Chain

end RemoteTable
