import RemoteTable.Proofs.Chunk.Frame
import RemoteTable.Proofs.Chunk.Parking
import RemoteTable.Proofs.Drawn

/-!
# Receivers at one depot

Any number of payloads are deposited, and each has a receiver that follows its chain: the first chunk comes with
the deposit, every later one is asked for by the id that the chunk before it names, and each travels as a frame.
Chains may be released at any time, and all of this in any order (`Traffic.run`).

At every moment the depot holds exactly what the receivers whose chains were not released have still to ask for, in
the order in which the chains came in (`Traffic.Sound`). So no receiver ever gets a chunk of another's chain.
-/

namespace RemoteTable

/-- What one receiver has of its chain. -/
structure Receiver where
  /-- The payload that was deposited for it. -/
  payload : Bytes
  /-- How many tokens had been drawn before the deposit. -/
  start : Nat
  /-- The id of the chain's first chunk. -/
  chain : Token
  gathered : Bytes
  /-- The id of the chunk that it asks for next. -/
  next : Option Token
  /-- The ids of the chunks that it has taken, newest first. -/
  taken : List Token
  /-- Whether it was refused a chunk or could not read a frame. -/
  failed : Bool
  /-- Whether its chain was released. -/
  released : Bool

/-- A depot and the receivers of what was deposited. -/
structure Traffic where
  depot : Depot
  supply : Supply
  receivers : List Receiver

namespace Traffic

inductive Move where
  /-- A payload is deposited. -/
  | register (payload : Bytes) (verify : Bool)
  /-- A receiver asks for its next chunk. -/
  | take (receiver : Nat) (verify : Bool)
  /-- A chain is given up. -/
  | release (chain : Token)

end Traffic

namespace Receiver

def receive (r : Receiver) (sent : Chunk) (verify : Bool) : Receiver :=
  match Frame.decode (Frame.encode sent) verify with
  | .ok c => { r with gathered := r.gathered ++ c.payload, next := c.next }
  | .error _ => { r with failed := true }

def refused (r : Receiver) : Receiver := { r with failed := true }

def take (r : Receiver) (id : Token) (sent : Chunk) (verify : Bool) : Receiver :=
  receive { r with taken := id :: r.taken } sent verify

/-- The receiver after a chain has been given up. -/
def release (r : Receiver) (chain : Token) : Receiver := { r with released := r.released || r.chain == chain }

def new (payload : Bytes) (start : Nat) (first : Chunk) (verify : Bool) : Receiver :=
  receive ⟨payload, start, first.id, [], none, [], false, false⟩ first verify

end Receiver

namespace Traffic

def step (t : Traffic) : Move → Traffic
  | .register payload verify =>
    let (first, depot, supply) := t.depot.deposit payload t.supply
    ⟨depot, supply, t.receivers ++ [.new payload t.supply.used first verify]⟩
  | .take index verify =>
    match t.receivers[index]? with
    | none => t
    | some r =>
      match r.next with
      | none => t
      | some id =>
        match t.depot.take? id with
        | none => { t with receivers := t.receivers.set index r.refused }
        | some (chunk, depot) => { t with depot, receivers := t.receivers.set index (r.take id chunk verify) }
  | .release chain =>
    { t with depot := (t.depot.release chain).2, receivers := t.receivers.map (·.release chain) }

def run (t : Traffic) (moves : List Move) : Traffic := moves.foldl step t

def start (size : ChunkSize) (fits : size.bytes ≤ Frame.maxPayload) (supply : Supply) : Traffic :=
  ⟨⟨size, fits, []⟩, supply, []⟩

end Traffic

namespace Receiver

/-! ## One receiver -/

variable (size : ChunkSize) (draw : Nat → Token)

def chunks (r : Receiver) : List Chunk := (Chain.split size r.payload ⟨draw, r.start⟩).1.toList

/-- The chunks that it has still to ask for. -/
def rest (r : Receiver) : List Chunk := (r.chunks size draw).drop (r.taken.length + 1)

/-- The positions of its chunks' ids in the sequence of tokens. -/
def span (r : Receiver) : List Nat := List.range' r.start (Chunk.count r.payload.length size)

/-- The receiver has the first chunks of its own chain and asks for the one after them. -/
structure Sound (r : Receiver) : Prop where
  passed : ((r.chunks size draw).take (r.taken.length + 1)).map Chunk.id = r.chain :: r.taken.reverse
  next : r.next = (r.rest size draw).head?.map Chunk.id
  gathered : r.gathered = (((r.chunks size draw).take (r.taken.length + 1)).map Chunk.payload).flatten
  unfailing : r.released = false → r.failed = false

def parked (r : Receiver) : List Parked :=
  if r.released then [] else (r.rest size draw).map (Parked.mk r.chain)

variable {size draw}

theorem ids_chunks (r : Receiver) : (r.chunks size draw).map Chunk.id = (r.span size).map draw :=
  Chain.ids_split size r.payload ⟨draw, r.start⟩

theorem length_chunks (r : Receiver) : (r.chunks size draw).length = Chunk.count r.payload.length size :=
  Chain.length_split size r.payload ⟨draw, r.start⟩

theorem Sound.length_taken_lt {r : Receiver} (h : r.Sound size draw) :
    r.taken.length < Chunk.count r.payload.length size := by
  have hlen := congrArg List.length h.passed
  simp only [List.length_map, List.length_take, List.length_cons, List.length_reverse, length_chunks] at hlen
  omega

theorem Sound.gathered_eq {r : Receiver} (h : r.Sound size draw) :
    r.gathered = r.payload.take ((r.taken.length + 1) * size.bytes) :=
  h.gathered.trans (Chain.take_split_payload size r.payload ⟨draw, r.start⟩ _)

theorem receive_eq {c : Chunk} (hfit : c.payload.length ≤ Frame.maxPayload) (r : Receiver) (verify : Bool) :
    r.receive c verify = { r with gathered := r.gathered ++ c.payload, next := c.next } := by
  rw [receive, Frame.decode_encode hfit verify]

/-- What a receiver gets from the depot is the next chunk of its chain. -/
theorem Sound.take {r : Receiver} (h : r.Sound size draw) (fits : size.bytes ≤ Frame.maxPayload) {c : Chunk}
    {ahead : List Chunk} (hrest : r.rest size draw = c :: ahead) (verify : Bool) :
    (r.take c.id c verify).Sound size draw ∧ (r.take c.id c verify).span size = r.span size ∧
      (r.take c.id c verify).parked size draw = if r.released then [] else ahead.map (Parked.mk r.chain) := by
  have hmem : c ∈ r.chunks size draw := List.mem_of_mem_drop (hrest ▸ List.mem_cons_self)
  have hsize := Chain.payload_length_le_of_mem_split size r.payload ⟨draw, r.start⟩ hmem
  have htake : (r.chunks size draw).take (r.taken.length + 1 + 1) = (r.chunks size draw).take (r.taken.length + 1) ++ [c] := by
    have hget : (r.chunks size draw)[r.taken.length + 1]? = some c := by
      have hdrop := congrArg List.head? hrest
      rwa [rest, List.head?_drop] at hdrop
    rw [List.take_add_one, hget]
    rfl
  have hahead : (r.chunks size draw).drop (r.taken.length + 1 + 1) = ahead := by
    have htail := congrArg List.tail hrest
    rwa [rest, List.tail_drop] at htail
  rw [Receiver.take, receive_eq (Nat.le_trans hsize fits)]
  refine ⟨⟨?_, ?_, ?_, h.unfailing⟩, rfl, ?_⟩
  · change ((r.chunks size draw).take (r.taken.length + 1 + 1)).map Chunk.id = r.chain :: (c.id :: r.taken).reverse
    rw [htake, List.map_append, h.passed]
    simp
  · change c.next = ((r.chunks size draw).drop (r.taken.length + 1 + 1)).head?.map Chunk.id
    rw [hahead]
    exact (Chain.linked_split size r.payload ⟨draw, r.start⟩).next_of_drop hrest
  · change r.gathered ++ c.payload = (((r.chunks size draw).take (r.taken.length + 1 + 1)).map Chunk.payload).flatten
    rw [htake, List.map_append, List.flatten_append, ← h.gathered]
    simp
  · change (if r.released then [] else
      ((r.chunks size draw).drop (r.taken.length + 1 + 1)).map (Parked.mk r.chain)) = _
    rw [hahead]

theorem sound_new (draw : Nat → Token) (payload : Bytes) (start : Nat) (fits : size.bytes ≤ Frame.maxPayload) (verify : Bool) :
    let chain := (Chain.split size payload ⟨draw, start⟩).1
    (Receiver.new payload start chain.first verify).Sound size draw ∧
      (Receiver.new payload start chain.first verify).span size =
        List.range' start (Chunk.count payload.length size) ∧
      (Receiver.new payload start chain.first verify).parked size draw =
        chain.rest.map (Parked.mk chain.first.id) := by
  intro chain
  have hmem : chain.first ∈ chain.toList := List.mem_cons_self
  have hsize := Chain.payload_length_le_of_mem_split size payload ⟨draw, start⟩ hmem
  rw [Receiver.new, receive_eq (Nat.le_trans hsize fits)]
  refine ⟨⟨rfl, (Chain.linked_split size payload ⟨draw, start⟩).1, ?_, fun _ => rfl⟩, rfl, rfl⟩
  change [] ++ chain.first.payload = ([chain.first].map Chunk.payload).flatten
  simp

end Receiver

namespace Traffic

/-! ## All receivers -/

/-- The depot holds what the receivers of chains that were not released have still to ask for. -/
structure Sound (size : ChunkSize) (draw : Nat → Token) (origin : Nat) (t : Traffic) : Prop where
  size_eq : t.depot.size = size
  draw_eq : t.supply.draw = draw
  used : origin ≤ t.supply.used
  spans : t.receivers.flatMap (·.span size) = List.range' origin (t.supply.used - origin)
  receivers : ∀ r ∈ t.receivers, r.Sound size draw
  parked : t.depot.parked = t.receivers.flatMap (·.parked size draw)

variable {size : ChunkSize} {draw : Nat → Token} {origin : Nat} {t : Traffic}

theorem sound_start (size : ChunkSize) (fits : size.bytes ≤ Frame.maxPayload) (supply : Supply) :
    (start size fits supply).Sound size supply.draw supply.used :=
  ⟨rfl, rfl, Nat.le_refl _, by simp [start], fun r hr => absurd hr List.not_mem_nil, rfl⟩

theorem Sound.nodup_ids (h : t.Sound size draw origin) (hdistinct : t.supply.Distinct) :
    (t.receivers.flatMap fun r => (r.chunks size draw).map Chunk.id).Nodup := by
  -- chain after chain, the ids are the tokens drawn since the start
  have hids : (t.receivers.flatMap fun r => (r.chunks size draw).map Chunk.id) =
      (List.range' origin (t.supply.used - origin)).map t.supply.draw := by
    rw [← h.spans, List.map_flatMap, h.draw_eq]
    exact congrArg (t.receivers.flatMap ·) (funext fun r => Receiver.ids_chunks r)
  rw [hids]
  refine hdistinct.nodup_map (List.nodup_range' ..) fun i hi => ?_
  have hused := h.used
  rw [List.mem_range'_1] at hi
  omega

theorem split_at {α : Type} {l : List α} {i : Nat} {x : α} (h : l[i]? = some x) :
    ∃ before after, l = before ++ x :: after ∧ ∀ y, l.set i y = before ++ y :: after := by
  obtain ⟨hi, rfl⟩ := List.getElem?_eq_some_iff.1 h
  refine ⟨l.take i, l.drop (i + 1), ?_, fun y => ?_⟩
  · rw [List.getElem_cons_drop, List.take_append_drop]
  · rw [List.set_eq_take_append_cons_drop, if_pos hi]

theorem mem_ids_of_mem_parked {r : Receiver} {p : Parked} (h : p ∈ r.parked size draw) :
    r.released = false ∧ p.chunk ∈ r.rest size draw := by
  unfold Receiver.parked at h
  split at h
  · simp at h
  · rename_i hreleased
    obtain ⟨c, hc, rfl⟩ := List.mem_map.1 h
    exact ⟨by simpa using hreleased, hc⟩

/-- A chunk that is parked for one receiver has no id in common with the chunks of another. -/
theorem ne_of_parked_elsewhere {others : List Receiver} {r : Receiver} {c : Chunk} {p : Parked}
    (hdisjoint : ∀ s ∈ others, ∀ a ∈ (s.chunks size draw).map Chunk.id, ∀ b ∈ (r.chunks size draw).map Chunk.id, a ≠ b)
    (hc : c ∈ r.chunks size draw) (hp : p ∈ others.flatMap (·.parked size draw)) : p.chunk.id ≠ c.id := by
  obtain ⟨s, hs, hparked⟩ := List.mem_flatMap.1 hp
  have hchunk := List.mem_of_mem_drop (mem_ids_of_mem_parked hparked).2
  exact hdisjoint s hs _ (List.mem_map_of_mem hchunk) _ (List.mem_map_of_mem hc)

theorem Sound.disjoint {before after : List Receiver} {r : Receiver} (h : t.Sound size draw origin)
    (hdistinct : t.supply.Distinct) (hsplit : t.receivers = before ++ r :: after) :
    ∀ s ∈ before ++ after, ∀ a ∈ (s.chunks size draw).map Chunk.id, ∀ b ∈ (r.chunks size draw).map Chunk.id, a ≠ b := by
  have hnodup := h.nodup_ids hdistinct
  rw [hsplit, List.flatMap_append, List.flatMap_cons, List.nodup_append] at hnodup
  obtain ⟨-, htail, hbefore⟩ := hnodup
  obtain ⟨-, -, hafter⟩ := List.nodup_append.1 htail
  intro s hs a ha b hb
  rcases List.mem_append.1 hs with hs | hs
  · exact hbefore a (List.mem_flatMap.2 ⟨s, hs, ha⟩) b (List.mem_append_left _ hb)
  · exact (hafter b hb a (List.mem_flatMap.2 ⟨s, hs, ha⟩)).symm

theorem Sound.replace {before after : List Receiver} {r s : Receiver} {depot : Depot} (h : t.Sound size draw origin)
    (hsplit : t.receivers = before ++ r :: after) (hs : s.Sound size draw) (hspan : s.span size = r.span size)
    (hsize : depot.size = size) (hparked : depot.parked = before.flatMap (·.parked size draw) ++
      (s.parked size draw ++ after.flatMap (·.parked size draw))) :
    ({ t with depot, receivers := before ++ s :: after } : Traffic).Sound size draw origin where
  size_eq := hsize
  draw_eq := h.draw_eq
  used := h.used
  spans := by
    rw [← h.spans, hsplit, List.flatMap_append, List.flatMap_append, List.flatMap_cons, List.flatMap_cons, hspan]
  receivers := by
    intro a ha
    have hall := h.receivers
    rw [hsplit] at hall
    rcases List.mem_append.1 ha with ha | ha
    · exact hall a (List.mem_append_left _ ha)
    · rcases List.mem_cons.1 ha with rfl | ha
      · exact hs
      · exact hall a (List.mem_append_right _ (List.mem_cons_of_mem _ ha))
  parked := by rw [hparked, List.flatMap_append, List.flatMap_cons]

theorem Sound.parked_split {before after : List Receiver} {r : Receiver} (h : t.Sound size draw origin)
    (hsplit : t.receivers = before ++ r :: after) : t.depot.parked = before.flatMap (·.parked size draw) ++
      (r.parked size draw ++ after.flatMap (·.parked size draw)) := by
  rw [h.parked, hsplit, List.flatMap_append, List.flatMap_cons]

/-- The depot hands a receiver its next chunk, unless the chain was released. -/
theorem Sound.take?_next {before after : List Receiver} {r : Receiver} {c : Chunk} {ahead : List Chunk}
    (h : t.Sound size draw origin) (hdistinct : t.supply.Distinct) (hsplit : t.receivers = before ++ r :: after)
    (hrest : r.rest size draw = c :: ahead) : t.depot.take? c.id =
      if r.released then none
      else some (c, { t.depot with parked := before.flatMap (·.parked size draw) ++
        (ahead.map (Parked.mk r.chain) ++ after.flatMap (·.parked size draw)) }) := by
  have hc : c ∈ r.chunks size draw := List.mem_of_mem_drop (hrest ▸ List.mem_cons_self)
  have hdisjoint := h.disjoint hdistinct hsplit
  have hsplitParked := h.parked_split hsplit
  unfold Receiver.parked at hsplitParked
  split
  · rename_i hreleased
    refine Depot.take?_eq_none fun p hp => ?_
    rw [if_pos hreleased, List.nil_append, ← List.flatMap_append] at hsplitParked
    exact ne_of_parked_elsewhere hdisjoint hc (hsplitParked ▸ hp)
  · rename_i hreleased
    rw [if_neg hreleased, hrest, List.map_cons, List.cons_append] at hsplitParked
    refine Depot.take?_append_cons (k := ⟨r.chain, c⟩) hsplitParked fun p hp => ?_
    exact ne_of_parked_elsewhere (fun s hs => hdisjoint s (List.mem_append_left _ hs)) hc hp

theorem Sound.take (h : t.Sound size draw origin) (fits : size.bytes ≤ Frame.maxPayload)
    (hdistinct : t.supply.Distinct) (index : Nat) (verify : Bool) :
    (t.step (.take index verify)).Sound size draw origin := by
  cases hget : t.receivers[index]? with
  | none => simpa only [step, hget] using h
  | some r =>
    obtain ⟨before, after, hsplit, hset⟩ := split_at hget
    have hr := h.receivers r (List.mem_of_getElem? hget)
    cases hnext : r.next with
    | none => simpa only [step, hget, hnext] using h
    | some id =>
      obtain ⟨c, hhead, rfl⟩ := Option.map_eq_some_iff.1 (hr.next.symm.trans hnext)
      obtain ⟨ahead, hrest⟩ := List.head?_eq_some_iff.1 hhead
      have htake := h.take?_next hdistinct hsplit hrest
      -- of a released chain nothing is parked, so the receiver is refused; otherwise it gets the head of its rest
      cases hreleased : r.released with
      | true =>
        rw [hreleased, if_pos rfl] at htake
        simp only [step, hget, hnext, htake, hset]
        have hrefused : r.refused.Sound size draw :=
          ⟨hr.passed, hr.next, hr.gathered, fun hlive => absurd (hreleased.symm.trans hlive) (by decide)⟩
        have hparked := h.parked_split hsplit
        exact h.replace hsplit hrefused rfl h.size_eq hparked
      | false =>
        rw [hreleased, if_neg (by decide)] at htake
        simp only [step, hget, hnext, htake, hset]
        obtain ⟨hsound, hspan, hparked⟩ := hr.take fits hrest verify
        rw [hreleased, if_neg (by decide)] at hparked
        exact h.replace hsplit hsound hspan h.size_eq (by rw [hparked])

theorem Sound.register (h : t.Sound size draw origin) (fits : size.bytes ≤ Frame.maxPayload)
    (payload : Bytes) (verify : Bool) : (t.step (.register payload verify)).Sound size draw origin := by
  obtain ⟨depot, supply, receivers⟩ := t
  obtain ⟨rfl, rfl, hused, hspans, hreceivers, hparked⟩ := h
  dsimp only at fits hused hspans hreceivers hparked
  obtain ⟨hsound, hspan, hnew⟩ := Receiver.sound_new supply.draw payload supply.used fits verify
  simp only [step, Depot.deposit_eq, Depot.chain]
  refine ⟨rfl, rfl, Nat.le_add_right_of_le hused, ?_, ?_, ?_⟩
  · have hcut : supply.used + Chunk.count payload.length depot.size - origin =
        supply.used - origin + Chunk.count payload.length depot.size := by omega
    dsimp only
    rw [List.flatMap_append, List.flatMap_singleton, hspans, hspan, hcut, ← List.range'_append_1,
      Nat.add_sub_cancel' hused]
  · intro r hr
    rcases List.mem_append.1 hr with hr | hr
    · exact hreceivers r hr
    · rw [List.mem_singleton.1 hr]
      exact hsound
  · dsimp only
    rw [List.flatMap_append, List.flatMap_singleton, hnew, hparked]

theorem parked_release (r : Receiver) (chain : Token) :
    (r.release chain).parked size draw = (r.parked size draw).filter (·.chain ≠ chain) := by
  have hrest : (r.release chain).rest size draw = r.rest size draw := rfl
  have hchains : ∀ p ∈ r.parked size draw, p.chain = r.chain := by
    intro p hp
    unfold Receiver.parked at hp
    split at hp
    · simp at hp
    · obtain ⟨c, -, rfl⟩ := List.mem_map.1 hp
      rfl
  by_cases hchain : r.chain = chain
  · have hnone : (r.parked size draw).filter (·.chain ≠ chain) = [] := by
      refine List.filter_eq_nil_iff.2 fun p hp => ?_
      simp [hchains p hp, hchain]
    rw [hnone]
    simp [Receiver.parked, Receiver.release, hchain]
  · have hall : (r.parked size draw).filter (·.chain ≠ chain) = r.parked size draw := by
      refine List.filter_eq_self.2 fun p hp => ?_
      simp [hchains p hp, hchain]
    rw [hall]
    simp [Receiver.parked, Receiver.release, hchain, Receiver.rest, Receiver.chunks]

theorem Sound.release (h : t.Sound size draw origin) (chain : Token) :
    (t.step (.release chain)).Sound size draw origin := by
  refine ⟨h.size_eq, h.draw_eq, h.used, ?_, ?_, ?_⟩
  · change (t.receivers.map (·.release chain)).flatMap (·.span size) = _
    rw [List.flatMap_map]
    exact h.spans
  · intro r hr
    obtain ⟨s, hs, rfl⟩ := List.mem_map.1 hr
    have hsound := h.receivers s hs
    refine ⟨hsound.passed, hsound.next, hsound.gathered, fun hlive => hsound.unfailing ?_⟩
    exact (Bool.or_eq_false_iff.1 hlive).1
  · change t.depot.parked.filter (·.chain ≠ chain) = (t.receivers.map (·.release chain)).flatMap (·.parked size draw)
    rw [h.parked, List.filter_flatMap, List.flatMap_map]
    exact congrArg (t.receivers.flatMap ·) (funext fun r => (parked_release r chain).symm)

/-! ## Any number of moves -/

def Move.drawn (size : ChunkSize) : Move → Nat
  | .register payload _ => Chunk.count payload.length size
  | _ => 0

theorem supply_step (t : Traffic) (m : Move) : (t.step m).depot.size = t.depot.size ∧
    (t.step m).supply = ⟨t.supply.draw, t.supply.used + m.drawn t.depot.size⟩ := by
  cases m with
  | register payload verify =>
    rw [step, Depot.deposit_eq]
    exact ⟨rfl, rfl⟩
  | take index verify =>
    unfold step
    dsimp only
    split
    · exact ⟨rfl, rfl⟩
    · split
      · exact ⟨rfl, rfl⟩
      · split
        · exact ⟨rfl, rfl⟩
        · rename_i htake
          obtain ⟨before, k, after, -, -, -, rfl⟩ := Depot.take?_eq_some htake
          exact ⟨rfl, rfl⟩
  | release chain => exact ⟨rfl, rfl⟩

theorem supply_run (t : Traffic) (moves : List Move) : (t.run moves).supply =
    ⟨t.supply.draw, moves.foldl (fun used m => used + m.drawn t.depot.size) t.supply.used⟩ := by
  induction moves generalizing t with
  | nil => rfl
  | cons m moves ih =>
    obtain ⟨hsize, hsupply⟩ := supply_step t m
    have hrun := ih (t.step m)
    rw [hsize, hsupply] at hrun
    exact hrun

theorem run_follows (t : Traffic) (moves : List Move) : t.supply.Follows (t.run moves).supply := by
  induction moves generalizing t with
  | nil => exact .refl t.supply
  | cons m moves ih =>
    have hstep : t.supply.Follows (t.step m).supply := by
      rw [(supply_step t m).2]
      exact ⟨rfl, Nat.le_add_right ..⟩
    exact hstep.trans (ih (t.step m))

theorem Sound.step (h : t.Sound size draw origin) (fits : size.bytes ≤ Frame.maxPayload)
    (hdistinct : t.supply.Distinct) (m : Move) : (t.step m).Sound size draw origin := by
  cases m with
  | register payload verify => exact h.register fits payload verify
  | take index verify => exact h.take fits hdistinct index verify
  | release chain => exact h.release chain

theorem Sound.run (h : t.Sound size draw origin) (fits : size.bytes ≤ Frame.maxPayload) {moves : List Move}
    (hdistinct : (t.run moves).supply.Distinct) : (t.run moves).Sound size draw origin := by
  induction moves generalizing t with
  | nil => exact h
  | cons m moves ih =>
    -- tokens that differ at the end differ at every earlier moment
    have hnow := hdistinct.of_follows (run_follows t (m :: moves))
    exact ih (h.step fits hnow m) hdistinct

/-- The chunks that a receiver has are the first of its chain, and none of them is parked. -/
theorem Sound.take?_taken (h : t.Sound size draw origin) (hdistinct : t.supply.Distinct) {r : Receiver}
    (hr : r ∈ t.receivers) {id : Token} (hid : id ∈ r.chain :: r.taken) : t.depot.take? id = none := by
  obtain ⟨before, after, hsplit⟩ := List.append_of_mem hr
  have hnodup := h.nodup_ids hdistinct
  rw [hsplit, List.flatMap_append, List.flatMap_cons] at hnodup
  have hown : ((r.chunks size draw).map Chunk.id).Nodup := (hnodup.sublist (List.sublist_append_right ..)).sublist
    (List.sublist_append_left ..)
  have hpassed : id ∈ ((r.chunks size draw).take (r.taken.length + 1)).map Chunk.id := by
    rw [(h.receivers r hr).passed]
    simpa using hid
  have hcut : (r.chunks size draw).map Chunk.id = ((r.chunks size draw).take (r.taken.length + 1)).map Chunk.id ++
      (r.rest size draw).map Chunk.id := by
    rw [← List.map_append, Receiver.rest, List.take_append_drop]
  rw [hcut] at hown
  obtain ⟨c, hc, rfl⟩ := List.mem_map.1 hpassed
  refine Depot.take?_eq_none fun p hp => ?_
  rw [h.parked_split hsplit] at hp
  have helsewhere (hp : p ∈ (before ++ after).flatMap (·.parked size draw)) : p.chunk.id ≠ c.id :=
    ne_of_parked_elsewhere (h.disjoint hdistinct hsplit) (List.mem_of_mem_take hc) hp
  rw [List.flatMap_append] at helsewhere
  rcases List.mem_append.1 hp with hp | hp
  · exact helsewhere (List.mem_append_left _ hp)
  · rcases List.mem_append.1 hp with hp | hp
    · have hahead := List.mem_map_of_mem (f := Chunk.id) (mem_ids_of_mem_parked hp).2
      exact fun heq => (List.nodup_append.1 hown).2.2 _ hpassed _ hahead heq.symm
    · exact helsewhere (List.mem_append_right _ hp)

/-- A receiver whose chain was not released finds the chunk that it asks for. -/
theorem Sound.take?_live (h : t.Sound size draw origin) (hdistinct : t.supply.Distinct) {r : Receiver}
    (hr : r ∈ t.receivers) (hlive : r.released = false) {id : Token} (hnext : r.next = some id) :
    ∃ c depot, t.depot.take? id = some (c, depot) := by
  obtain ⟨before, after, hsplit⟩ := List.append_of_mem hr
  obtain ⟨c, hhead, rfl⟩ := Option.map_eq_some_iff.1 ((h.receivers r hr).next.symm.trans hnext)
  obtain ⟨ahead, hrest⟩ := List.head?_eq_some_iff.1 hhead
  have htake := h.take?_next hdistinct hsplit hrest
  rw [hlive, if_neg (by decide)] at htake
  exact ⟨c, _, htake⟩

/-- Nothing is parked once every chain is finished or released. -/
theorem Sound.parked_eq_nil (h : t.Sound size draw origin)
    (hdone : ∀ r ∈ t.receivers, r.released = true ∨ r.next = none) : t.depot.parked = [] := by
  rw [h.parked, List.flatMap_eq_nil_iff]
  intro r hr
  unfold Receiver.parked
  rcases hdone r hr with hreleased | hnext
  · rw [if_pos hreleased]
  · have hnone := (h.receivers r hr).next.symm.trans hnext
    rw [List.head?_eq_none_iff.1 (Option.map_eq_none_iff.1 hnone), List.map_nil, ite_self]

/-- As long as the chain was not released, every take has succeeded and every frame was read. What was gathered is the
beginning of the payload: all of it if the receiver is done, and otherwise it finds the chunk that it asks for. -/
structure Served (t : Traffic) (r : Receiver) : Prop where
  unfailing : r.failed = false
  gathered : r.gathered = r.payload.take ((r.taken.length + 1) * t.depot.size.bytes)
  done : r.next = none →
    r.taken.length = Chunk.count r.payload.length t.depot.size - 1 ∧ r.gathered = r.payload
  going : ∀ id, r.next = some id → r.taken.length < Chunk.count r.payload.length t.depot.size - 1 ∧
    ∃ c depot, t.depot.take? id = some (c, depot)

theorem Sound.served (h : t.Sound size draw origin) (hdistinct : t.supply.Distinct) {r : Receiver}
    (hr : r ∈ t.receivers) (hlive : r.released = false) : t.Served r := by
  have hsound := h.receivers r hr
  have htaken := hsound.length_taken_lt
  have hrest : (r.rest size draw).length = Chunk.count r.payload.length size - (r.taken.length + 1) := by
    rw [Receiver.rest, List.length_drop, Receiver.length_chunks]
  have hsize := h.size_eq
  subst hsize
  refine ⟨hsound.unfailing hlive, hsound.gathered_eq, fun hnone => ?_, fun id hsome => ⟨?_, ?_⟩⟩
  · have hnil := List.head?_eq_none_iff.1 (Option.map_eq_none_iff.1 (hsound.next.symm.trans hnone))
    rw [hnil, List.length_nil] at hrest
    have hlast : r.taken.length + 1 = Chunk.count r.payload.length t.depot.size := by omega
    refine ⟨by omega, ?_⟩
    have hall : Chunk.count r.payload.length t.depot.size = (r.chunks t.depot.size draw).length :=
      (Receiver.length_chunks r).symm
    rw [hsound.gathered, hlast, hall, List.take_length]
    exact Chain.flatten_split t.depot.size r.payload ⟨draw, r.start⟩
  · obtain ⟨c, hhead, -⟩ := Option.map_eq_some_iff.1 (hsound.next.symm.trans hsome)
    have hpos := List.length_pos_of_mem (List.mem_of_head? hhead)
    omega
  · exact h.take?_live hdistinct hr hlive hsome

def Move.payload? : Move → Option Bytes
  | .register payload _ => some payload
  | _ => none

theorem payload_receive (r : Receiver) (sent : Chunk) (verify : Bool) : (r.receive sent verify).payload = r.payload := by
  unfold Receiver.receive
  split <;> rfl

theorem payloads_step (t : Traffic) (m : Move) :
    (t.step m).receivers.map (·.payload) = t.receivers.map (·.payload) ++ m.payload?.toList := by
  cases m with
  | register payload verify =>
    change (t.receivers ++ [_]).map Receiver.payload = t.receivers.map Receiver.payload ++ [payload]
    rw [List.map_append, List.map_singleton, Receiver.new, payload_receive]
  | take index verify =>
    have hset {r s : Receiver} (hget : t.receivers[index]? = some r) (hsame : s.payload = r.payload) :
        (t.receivers.set index s).map (·.payload) = t.receivers.map (·.payload) := by
      obtain ⟨before, after, hsplit, hset⟩ := split_at hget
      rw [hset, hsplit]
      simp [hsame]
    simp only [step, Move.payload?, Option.toList_none, List.append_nil]
    cases hget : t.receivers[index]? with
    | none => rfl
    | some r =>
      cases hnext : r.next with
      | none => simp only [hnext]
      | some id =>
        cases htake : t.depot.take? id with
        | none =>
          simp only [hnext, htake]
          exact hset hget rfl
        | some taken =>
          simp only [hnext, htake]
          exact hset hget (payload_receive ..)
  | release chain =>
    change (t.receivers.map (·.release chain)).map Receiver.payload = t.receivers.map Receiver.payload ++ []
    rw [List.map_map, List.append_nil]
    rfl

theorem payloads_run (t : Traffic) (moves : List Move) :
    (t.run moves).receivers.map (·.payload) = t.receivers.map (·.payload) ++ moves.filterMap Move.payload? := by
  induction moves generalizing t with
  | nil => exact (List.append_nil _).symm
  | cons m moves ih =>
    have hcons : (m :: moves).filterMap Move.payload? = m.payload?.toList ++ moves.filterMap Move.payload? := by
      cases hm : m.payload? <;> simp [hm]
    rw [hcons, ← List.append_assoc, ← payloads_step]
    exact ih (t.step m)

/-- Whatever the moves, every receiver of a chain that was not released is served its own payload, nothing is handed out
twice, and once every chain is finished or released nothing is parked. -/
theorem chains_never_mix (size : ChunkSize) (fits : size.bytes ≤ Frame.maxPayload) (supply : Supply)
    (moves : List Move) (hdistinct : ((start size fits supply).run moves).supply.Distinct) :
    let t := (start size fits supply).run moves
    t.receivers.map (·.payload) = moves.filterMap Move.payload? ∧
      (∀ r ∈ t.receivers, r.released = false → t.Served r) ∧
      (∀ r ∈ t.receivers, ∀ id ∈ r.chain :: r.taken, t.depot.take? id = none) ∧
      ((∀ r ∈ t.receivers, r.released = true ∨ r.next = none) → t.depot.parked = []) := by
  intro t
  have hsound : t.Sound size supply.draw supply.used := (sound_start size fits supply).run fits hdistinct
  refine ⟨payloads_run _ moves, fun r hr hlive => hsound.served hdistinct hr hlive, ?_, hsound.parked_eq_nil⟩
  intro r hr id hid
  exact hsound.take?_taken hdistinct hr hid

/-- Two chains of two chunks, the first of which is given up after the second has come in. -/
theorem chains_never_mix_of_two :
    let moves : List Move := [.register [1, 2, 3] true, .register [4, 5, 6] true, .release ⟨0⟩, .take 1 false]
    let t := (start ⟨2, by decide⟩ (by decide) (.fresh fun n => ⟨BitVec.ofNat 128 n⟩)).run moves
    t.supply.Distinct ∧ ∀ r ∈ t.receivers, r.released = false → t.Served r := by
  intro moves t
  have hdistinct : t.supply.Distinct := by
    rw [supply_run]
    decide
  exact ⟨hdistinct, (chains_never_mix ⟨2, by decide⟩ (by decide) _ moves hdistinct).2.1⟩

end Traffic

end RemoteTable
