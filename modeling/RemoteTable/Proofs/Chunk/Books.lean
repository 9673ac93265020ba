import Mathlib.Data.Finset.Card
import RemoteTable.Proofs.Chunk.Parking
import RemoteTable.Proofs.Drawn

/-!
# The books of a depot

Payloads are deposited at a depot, chunks taken out of it, chains released and everything cleared away, in any order and
with any tokens (`Stock.run`). If no token is drawn twice, what is parked at every moment is told by what was done: the
chunks behind the first ones of all deposits that were since neither taken nor released nor cleared away (`Stock.Awaits`,
`Stock.mem_parked_run`). From that follow what each request hands out, drops and counts (`Stock.Books`,
`Stock.run_keeps_books`).

The invariant is that the ids of the parked chunks are among those drawn (`Stock.Sound`). A chain is known by its first
chunk, for the ids of two deposits have none in common (`Stock.Deposited.unique`).
-/

namespace RemoteTable

inductive Deed where
  | deposit (payload : Bytes)
  | take (id : Token)
  | release (chain : Token)
  | clear
  deriving DecidableEq

/-- Whether a parked chunk stays where it is. -/
def Deed.spares (p : Parked) : Deed → Bool
  | deposit _ => true
  | take id => p.chunk.id ≠ id
  | release chain => p.chain ≠ chain
  | clear => false

/-- A depot, and the supply of the ids of its chunks. -/
structure Stock where
  depot : Depot
  supply : Supply

namespace Stock

def step (k : Stock) : Deed → Stock
  | .deposit payload =>
    let (_, depot, supply) := k.depot.deposit payload k.supply
    ⟨depot, supply⟩
  | .take id => { k with depot := (k.depot.take? id).elim k.depot Prod.snd }
  | .release chain => { k with depot := (k.depot.release chain).2 }
  | .clear => { k with depot := k.depot.clear }

def run (k : Stock) (deeds : List Deed) : Stock := deeds.foldl step k

def start (size : ChunkSize) (fits : size.bytes ≤ Frame.maxPayload) (supply : Supply) : Stock := ⟨⟨size, fits, []⟩, supply⟩

def chain (k : Stock) (payload : Bytes) : Chain := k.depot.chain payload k.supply

def parks (k : Stock) : Deed → List Parked
  | .deposit payload => (k.chain payload).rest.map (Parked.mk (k.chain payload).first.id)
  | _ => []

/-- Among these deeds, this chain was deposited, and those came after it. -/
def Deposited (k : Stock) (deeds : List Deed) (chain : Chain) (after : List Deed) : Prop :=
  ∃ before payload, deeds = before ++ .deposit payload :: after ∧ chain = (k.run before).chain payload

/-- A chunk behind the first of a chain that was deposited, neither taken nor released nor cleared away after that. -/
def Awaits (k : Stock) (deeds : List Deed) (p : Parked) : Prop :=
  ∃ chain after, k.Deposited deeds chain after ∧ p.chain = chain.first.id ∧ p.chunk ∈ chain.rest ∧
    ∀ deed ∈ after, deed.spares p

variable {k origin : Stock} {deeds after : List Deed} {chain : Chain} {p : Parked}

@[simp] theorem run_nil (k : Stock) : k.run [] = k := rfl

theorem run_cons (k : Stock) (deed : Deed) (deeds : List Deed) : k.run (deed :: deeds) = (k.step deed).run deeds := rfl

theorem run_append (k : Stock) (before after : List Deed) : k.run (before ++ after) = (k.run before).run after :=
  List.foldl_append ..

theorem run_concat (k : Stock) (deeds : List Deed) (deed : Deed) : k.run (deeds ++ [deed]) = (k.run deeds).step deed :=
  List.foldl_concat ..

theorem step_deposit (k : Stock) (payload : Bytes) : k.step (.deposit payload) =
    ⟨{ k.depot with parked := k.depot.parked ++ k.parks (.deposit payload) },
      { k.supply with used := k.supply.used + Chunk.count payload.length k.depot.size }⟩ := by
  rw [step, Depot.deposit_eq]
  rfl

/-! ## One deed -/

theorem follows_step (k : Stock) (deed : Deed) : k.supply.Follows (k.step deed).supply := by
  cases deed with
  | deposit payload =>
    rw [step_deposit]
    exact ⟨rfl, Nat.le_add_right ..⟩
  | take | release | clear => exact .refl _

theorem follows_run (k : Stock) (deeds : List Deed) : k.supply.Follows (k.run deeds).supply := by
  induction deeds generalizing k with
  | nil => exact .refl _
  | cons deed deeds ih => exact (follows_step k deed).trans (ih (k.step deed))

theorem ids_chain (k : Stock) (payload : Bytes) :
    (k.chain payload).toList.map Chunk.id = k.supply.drawnUntil (k.step (.deposit payload)).supply := by
  rw [step_deposit, Supply.drawnUntil, Nat.add_sub_cancel_left]
  exact Chain.ids_split k.depot.size payload k.supply

end Stock

namespace Depot

/-- Just these chunks are parked, each once and under an id of its own. -/
structure Holds (d : Depot) (parked : Finset Parked) : Prop where
  mem : ∀ p, p ∈ d.parked ↔ p ∈ parked
  ids : (d.parked.map (·.chunk.id)).Nodup

variable {d : Depot} {parked : Finset Parked}

theorem holds_toFinset (h : (d.parked.map (·.chunk.id)).Nodup) : d.Holds d.parked.toFinset :=
  ⟨fun _ => List.mem_toFinset.symm, h⟩

theorem Holds.pending (h : d.Holds parked) : d.pending = parked.card := by
  have hset : d.parked.toFinset = parked := Finset.ext fun p => List.mem_toFinset.trans (h.mem p)
  rw [← hset, List.toFinset_card_of_nodup (List.Nodup.of_map _ h.ids)]
  rfl

theorem Holds.filter (h : d.Holds parked) (keep : Parked → Prop) [DecidablePred keep] :
    Holds { d with parked := d.parked.filter keep } (parked.filter keep) := by
  refine ⟨fun p => ?_, h.ids.sublist ((List.filter_sublist ..).map _)⟩
  rw [List.mem_filter, Finset.mem_filter, h.mem, decide_eq_true_iff]

theorem Holds.isSome_take? (h : d.Holds parked) (id : Token) :
    (d.take? id).isSome ↔ ∃ p ∈ parked, p.chunk.id = id := by
  rw [take?, Option.isSome_map, List.find?_isSome]
  simp [h.mem]

theorem Holds.id_injective (h : d.Holds parked) {p q : Parked} (hp : p ∈ parked) (hq : q ∈ parked)
    (hsame : p.chunk.id = q.chunk.id) : p = q :=
  List.inj_on_of_nodup_map h.ids ((h.mem p).2 hp) ((h.mem q).2 hq) hsame

/-- What is handed out was parked under its id, and nothing else is then gone. -/
theorem Holds.take? {e : Depot} {id : Token} {c : Chunk} (h : d.Holds parked) (htake : d.take? id = some (c, e)) :
    ∃ p ∈ parked, p.chunk = c ∧ c.id = id ∧ e.Holds (parked.erase p) := by
  have hleft : e = { d with parked := d.parked.filter (·.chunk.id ≠ id) } := by
    rw [← take?_elim h.ids id, htake, Option.elim_some]
  obtain ⟨before, p, after, hparked, rfl, rfl, -⟩ := take?_eq_some htake
  have hp : p ∈ parked := (h.mem p).1 (hparked ▸ List.mem_append_cons_self)
  have herase : parked.filter (·.chunk.id ≠ p.chunk.id) = parked.erase p := by
    ext q
    rw [Finset.mem_filter, Finset.mem_erase, and_comm]
    refine and_congr_left fun hq => not_congr ⟨h.id_injective hq hp, fun hsame => by rw [hsame]⟩
  refine ⟨p, hp, rfl, rfl, ?_⟩
  rw [hleft, ← herase]
  exact h.filter (·.chunk.id ≠ p.chunk.id)

theorem Holds.release (h : d.Holds parked) (chain : Token) :
    (d.release chain).1 = (parked.filter (·.chain = chain)).card ∧
      (d.release chain).2.Holds (parked.filter (·.chain ≠ chain)) :=
  ⟨List.countP_eq_length_filter.trans (h.filter (·.chain = chain)).pending, h.filter (·.chain ≠ chain)⟩

end Depot

namespace Stock

variable {k origin : Stock} {deeds after : List Deed} {chain : Chain} {p : Parked}

/-- A deed takes away what it does not spare and adds what it parks. -/
theorem parked_step (hnodup : (k.depot.parked.map (·.chunk.id)).Nodup) (deed : Deed) :
    (k.step deed).depot.parked = k.depot.parked.filter (fun p => deed.spares p) ++ k.parks deed := by
  cases deed with
  | deposit payload =>
    rw [step_deposit]
    exact congrArg (· ++ _) (List.filter_eq_self.2 fun _ _ => rfl).symm
  | take id => exact (congrArg Depot.parked (Depot.take?_elim hnodup id)).trans (List.append_nil _).symm
  | release chain => exact (List.append_nil _).symm
  | clear => exact (congrArg (· ++ []) (List.filter_eq_nil_iff.2 fun _ _ h => Bool.noConfusion h)).symm

/-- What is parked has ids that were drawn, in the order of drawing. -/
structure Sound (origin k : Stock) : Prop where
  follows : origin.supply.Follows k.supply
  ids : (k.depot.parked.map (·.chunk.id)).Sublist (origin.supply.drawnUntil k.supply)

theorem Sound.nodup (h : Sound origin k) (hdistinct : k.supply.Distinct) : (k.depot.parked.map (·.chunk.id)).Nodup :=
  h.ids.nodup (hdistinct.unmet (.refl _) h.follows).nodup

theorem sound_start (size : ChunkSize) (fits : size.bytes ≤ Frame.maxPayload) (supply : Supply) :
    Sound (start size fits supply) (start size fits supply) := ⟨.refl _, List.nil_sublist _⟩

theorem Sound.step (h : Sound origin k) (hdistinct : k.supply.Distinct) (deed : Deed) : Sound origin (k.step deed) := by
  have hfollows := follows_step k deed
  refine ⟨h.follows.trans hfollows, ?_⟩
  rw [parked_step (h.nodup hdistinct), List.map_append, Supply.drawnUntil_append h.follows hfollows]
  refine (((List.filter_sublist ..).map _).trans h.ids).append ?_
  cases deed with
  | deposit payload =>
    have hids : (k.parks (.deposit payload)).map (·.chunk.id) = (k.chain payload).rest.map Chunk.id := by
      rw [parks, List.map_map]
      rfl
    rw [hids, ← ids_chain]
    exact List.sublist_cons_self ..
  | take | release | clear => exact List.nil_sublist _

theorem Sound.run (h : Sound origin k) (deeds : List Deed) (hdistinct : (k.run deeds).supply.Distinct) :
    Sound origin (k.run deeds) := by
  induction deeds generalizing k with
  | nil => exact h
  | cons deed deeds ih =>
    have hk : k.supply.Distinct := hdistinct.of_follows (follows_run k (deed :: deeds))
    exact ih (h.step hk deed) hdistinct

/-! ## What is parked -/

theorem not_deposited_nil : ¬ k.Deposited [] chain after := by
  rintro ⟨before, payload, hdeeds, -⟩
  exact List.append_ne_nil_of_right_ne_nil before (List.cons_ne_nil _ _) hdeeds.symm

/-- The chain of a deposit was made just now, or before the last deed. -/
theorem deposited_concat {deed : Deed} : k.Deposited (deeds ++ [deed]) chain after ↔
    (∃ payload, deed = .deposit payload ∧ chain = (k.run deeds).chain payload ∧ after = []) ∨
      ∃ earlier, after = earlier ++ [deed] ∧ k.Deposited deeds chain earlier := by
  constructor
  · rintro ⟨before, payload, hdeeds, hchain⟩
    rcases List.eq_nil_or_concat' after with rfl | ⟨earlier, last, rfl⟩
    · obtain ⟨rfl, hlast⟩ := List.append_inj' hdeeds rfl
      exact .inl ⟨payload, List.singleton_inj.1 hlast, hchain, rfl⟩
    · rw [← List.cons_append, ← List.append_assoc] at hdeeds
      obtain ⟨hdeeds, hlast⟩ := List.append_inj' hdeeds rfl
      exact .inr ⟨earlier, by rw [List.singleton_inj.1 hlast], before, payload, hdeeds, hchain⟩
  · rintro (⟨payload, rfl, hchain, rfl⟩ | ⟨earlier, rfl, before, payload, rfl, hchain⟩)
    · exact ⟨deeds, payload, rfl, hchain⟩
    · exact ⟨before, payload, by rw [List.append_assoc, List.cons_append], hchain⟩

theorem mem_parks {deed : Deed} : p ∈ k.parks deed ↔
    ∃ payload, deed = .deposit payload ∧ p.chain = (k.chain payload).first.id ∧ p.chunk ∈ (k.chain payload).rest := by
  cases deed with
  | deposit payload =>
    constructor
    · intro hp
      obtain ⟨c, hc, rfl⟩ := List.mem_map.1 hp
      exact ⟨payload, rfl, rfl, hc⟩
    · rintro ⟨_, ⟨⟩, hchain, hchunk⟩
      exact List.mem_map.2 ⟨p.chunk, hchunk, by rw [← hchain]⟩
  | take | release | clear =>
    constructor
    · intro hp
      cases hp
    · rintro ⟨_, ⟨⟩, -⟩

theorem not_awaits_nil : ¬ k.Awaits [] p := by
  rintro ⟨chain, after, hdeposited, -⟩
  exact not_deposited_nil hdeposited

/-- One deed more: what waits is what waited and is spared, and what is parked just now. -/
theorem awaits_concat {deed : Deed} :
    k.Awaits (deeds ++ [deed]) p ↔ (k.Awaits deeds p ∧ deed.spares p) ∨ p ∈ (k.run deeds).parks deed := by
  rw [mem_parks]
  constructor
  · rintro ⟨chain, after, hdeposited, hchain, hchunk, hspares⟩
    rcases deposited_concat.1 hdeposited with ⟨payload, rfl, rfl, rfl⟩ | ⟨earlier, rfl, hearlier⟩
    · exact .inr ⟨payload, rfl, hchain, hchunk⟩
    · exact .inl ⟨⟨chain, earlier, hearlier, hchain, hchunk, fun d hd => hspares d (List.mem_append_left _ hd)⟩,
        hspares deed (List.mem_append_right _ (List.mem_singleton_self deed))⟩
  · rintro (⟨⟨chain, earlier, hdeposited, hchain, hchunk, hspares⟩, hspared⟩ | ⟨payload, rfl, hchain, hchunk⟩)
    · refine ⟨chain, earlier ++ [deed], deposited_concat.2 (.inr ⟨earlier, rfl, hdeposited⟩), hchain, hchunk, ?_⟩
      intro d hd
      rcases List.mem_append.1 hd with hd | hd
      · exact hspares d hd
      · rwa [List.mem_singleton.1 hd]
    · exact ⟨_, [], deposited_concat.2 (.inl ⟨payload, rfl, rfl, rfl⟩), hchain, hchunk,
        fun _ hd => absurd hd List.not_mem_nil⟩

/-- If nothing was parked at first, what is parked is what waits. -/
theorem mem_parked_run (hempty : origin.depot.parked = []) (hdistinct : (origin.run deeds).supply.Distinct) :
    p ∈ (origin.run deeds).depot.parked ↔ origin.Awaits deeds p := by
  have hsound : Sound origin origin := ⟨.refl _, hempty ▸ List.nil_sublist _⟩
  induction deeds using List.reverseRecOn with
  | nil =>
    rw [run_nil, hempty]
    exact iff_of_false List.not_mem_nil not_awaits_nil
  | append_singleton deeds deed ih =>
    rw [run_concat] at hdistinct ⊢
    have hbefore := hdistinct.of_follows (follows_step (origin.run deeds) deed)
    have hparked : p ∈ (origin.run deeds).depot.parked ↔ origin.Awaits deeds p := ih hbefore
    rw [parked_step ((hsound.run deeds hbefore).nodup hbefore), List.mem_append, List.mem_filter, hparked, awaits_concat]

/-! ## Chains -/

theorem Deposited.drawn (h : origin.Deposited deeds chain after) :
    ∀ c ∈ chain.toList, c.id ∈ origin.supply.drawnUntil (origin.run deeds).supply := by
  obtain ⟨before, payload, rfl, rfl⟩ := h
  intro c hc
  have hlater := follows_run ((origin.run before).step (.deposit payload)) after
  have hstep := follows_step (origin.run before) (.deposit payload)
  rw [run_append, run_cons, Supply.drawnUntil_append (follows_run origin before) (hstep.trans hlater),
    Supply.drawnUntil_append hstep hlater, ← ids_chain]
  exact List.mem_append_right _ (List.mem_append_left _ (List.mem_map_of_mem hc))

theorem Deposited.nodup (h : origin.Deposited deeds chain after) (hdistinct : (origin.run deeds).supply.Distinct) :
    (chain.toList.map Chunk.id).Nodup := by
  obtain ⟨before, payload, rfl, rfl⟩ := h
  rw [ids_chain]
  rw [run_append] at hdistinct
  have hafter := hdistinct.of_follows (follows_run ((origin.run before).step (.deposit payload)) after)
  exact (hafter.unmet (.refl _) (follows_step ..)).nodup

theorem Deposited.unique {other : Chain} {later : List Deed} (h : origin.Deposited deeds chain after)
    (h' : origin.Deposited deeds other later) (hdistinct : (origin.run deeds).supply.Distinct) {c d : Chunk}
    (hc : c ∈ chain.toList) (hd : d ∈ other.toList) (hsame : c.id = d.id) : chain = other ∧ after = later := by
  induction deeds using List.reverseRecOn generalizing after later with
  | nil => exact absurd h not_deposited_nil
  | append_singleton deeds deed ih =>
    rw [run_concat] at hdistinct
    have hstep := follows_step (origin.run deeds) deed
    -- what the last deed draws was not drawn before
    have hnew {chain other : Chain} {payload : Bytes} {earlier : List Deed} {c d : Chunk}
        (hdeed : deed = .deposit payload) (hchain : chain = (origin.run deeds).chain payload) (hc : c ∈ chain.toList)
        (hother : origin.Deposited deeds other earlier) (hd : d ∈ other.toList) : c.id ≠ d.id := by
      subst hdeed hchain
      have hids := List.mem_map_of_mem (f := Chunk.id) hc
      rw [ids_chain] at hids
      intro hsame
      exact (hdistinct.unmet (follows_run origin deeds) hstep).unmet _ hids (hsame ▸ hother.drawn d hd)
    rcases deposited_concat.1 h with ⟨payload, hdeed, hchain, rfl⟩ | ⟨earlier, rfl, hearlier⟩
    · rcases deposited_concat.1 h' with ⟨payload', hdeed', hother, rfl⟩ | ⟨earlier', rfl, hearlier'⟩
      · obtain rfl := Deed.deposit.inj (hdeed.symm.trans hdeed')
        exact ⟨hchain.trans hother.symm, rfl⟩
      · exact absurd hsame (hnew hdeed hchain hc hearlier' hd)
    · rcases deposited_concat.1 h' with ⟨payload', hdeed', hother, rfl⟩ | ⟨earlier', rfl, hearlier'⟩
      · exact absurd hsame.symm (hnew hdeed' hother hd hearlier hc)
      · obtain ⟨hsamechain, rfl⟩ := ih hearlier hearlier' (hdistinct.of_follows hstep)
        exact ⟨hsamechain, rfl⟩

/-! ## The books -/

/-- What a depot does after these deeds. Just these chunks are parked in it. -/
structure Books (origin : Stock) (deeds : List Deed) (d : Depot) (parked : Finset Parked) : Prop where
  holds : d.Holds parked
  awaited : ∀ p, p ∈ parked ↔ origin.Awaits deeds p
  pending : d.pending = parked.card
  /-- A chunk is handed out for its id, and it alone has then left. -/
  served : ∀ id, (d.take? id).isSome ↔ ∃ p ∈ parked, p.chunk.id = id
  handed : ∀ id c e, d.take? id = some (c, e) → ∃ p ∈ parked, p.chunk = c ∧ c.id = id ∧ e.Holds (parked.erase p)
  /-- No chunk is handed out a second time, and the first of a chain never. -/
  once : ∀ chain after, origin.Deposited deeds chain after → ∀ m ∈ chain.rest, .take m.id ∈ after →
    d.take? m.id = none
  firsts : ∀ chain after, origin.Deposited deeds chain after → d.take? chain.first.id = none
  /-- To release a chain drops its chunks and counts them. -/
  released : ∀ c, (d.release c).1 = (parked.filter (·.chain = c)).card ∧
    (d.release c).2.Holds (parked.filter (·.chain ≠ c))
  /-- Of a deposited chain, those chunks are dropped that were spared since. -/
  dropped : ∀ chain after, origin.Deposited deeds chain after → (d.release chain.first.id).1 =
    chain.rest.countP fun c => after.all fun deed => deed.spares ⟨chain.first.id, c⟩
  /-- Nothing is dropped by the id of no chain, or of one that was released, cleared away or taken as a whole. -/
  idle : ∀ c, (∀ chain after, origin.Deposited deeds chain after → chain.first.id = c →
    .release c ∈ after ∨ .clear ∈ after ∨ ∀ m ∈ chain.rest, .take m.id ∈ after) → d.release c = (0, d)
  /-- A chunk behind the first does not stand for its chain. -/
  middle : ∀ chain after, origin.Deposited deeds chain after → ∀ m ∈ chain.rest, d.release m.id = (0, d)

/-- A chunk that waits is one of the chain under whose name it waits. -/
theorem Deposited.awaits_iff (h : origin.Deposited deeds chain after) (hdistinct : (origin.run deeds).supply.Distinct) :
    origin.Awaits deeds p ∧ p.chain = chain.first.id ↔
      p.chain = chain.first.id ∧ p.chunk ∈ chain.rest ∧ ∀ deed ∈ after, deed.spares p := by
  constructor
  · rintro ⟨⟨other, later, hother, hfirst, hchunk, hspares⟩, hchain⟩
    obtain ⟨rfl, rfl⟩ :=
      h.unique hother hdistinct List.mem_cons_self List.mem_cons_self (hchain.symm.trans hfirst)
    exact ⟨hchain, hchunk, hspares⟩
  · rintro ⟨hchain, hchunk, hspares⟩
    exact ⟨⟨chain, after, h, hchain, hchunk, hspares⟩, hchain⟩

/-- What waits of a deposited chain are the chunks behind the first that were spared since. -/
theorem Deposited.countP_parked (h : origin.Deposited deeds chain after)
    (hdistinct : (origin.run deeds).supply.Distinct) {d : Depot} (hnodup : d.parked.Nodup)
    (hparked : ∀ p, p ∈ d.parked ↔ origin.Awaits deeds p) : d.parked.countP (·.chain = chain.first.id) =
      chain.rest.countP fun c => after.all fun deed => deed.spares ⟨chain.first.id, c⟩ := by
  have hrest : chain.rest.Nodup := (List.nodup_cons.1 (List.Nodup.of_map _ (h.nodup hdistinct))).2
  have hperm : (d.parked.filter (·.chain = chain.first.id)).Perm
      ((chain.rest.filter fun c => after.all fun deed => deed.spares ⟨chain.first.id, c⟩).map
        (Parked.mk chain.first.id)) := by
    refine (List.perm_ext_iff_of_nodup (hnodup.filter _) ((hrest.filter _).map fun a b hab => ?_)).2 fun p => ?_
    · exact (Parked.mk.inj hab).2
    · rw [List.mem_filter, decide_eq_true_iff, hparked, h.awaits_iff hdistinct]
      constructor
      · rintro ⟨hchain, hchunk, hspares⟩
        refine List.mem_map.2 ⟨p.chunk, List.mem_filter.2 ⟨hchunk, List.all_eq_true.2 ?_⟩, by rw [← hchain]⟩
        rwa [← hchain]
      · intro hp
        obtain ⟨c, hc, rfl⟩ := List.mem_map.1 hp
        obtain ⟨hc, hspares⟩ := List.mem_filter.1 hc
        exact ⟨rfl, hc, List.all_eq_true.1 hspares⟩
  rw [List.countP_eq_length_filter, List.countP_eq_length_filter, hperm.length_eq, List.length_map]

theorem Deposited.id_ne {other : Chain} {later : List Deed} (h : origin.Deposited deeds chain after)
    (h' : origin.Deposited deeds other later) (hdistinct : (origin.run deeds).supply.Distinct) {c : Chunk}
    (hc : c ∈ chain.rest) : c.id ≠ other.first.id := by
  intro hsame
  obtain ⟨rfl, -⟩ := h.unique h' hdistinct (List.mem_cons_of_mem _ hc) List.mem_cons_self hsame
  exact absurd (hsame ▸ List.mem_map_of_mem hc) (List.nodup_cons.1 (h.nodup hdistinct)).1

theorem release_idle {d : Depot} (hparked : ∀ p ∈ d.parked, origin.Awaits deeds p) {c : Token}
    (hidle : ∀ chain after, origin.Deposited deeds chain after → chain.first.id = c →
      .release c ∈ after ∨ .clear ∈ after ∨ ∀ m ∈ chain.rest, .take m.id ∈ after) : d.release c = (0, d) := by
  refine Depot.release_of_forall_ne fun p hp hchain => ?_
  obtain ⟨chain, after, hdeposited, hfirst, hchunk, hspares⟩ := hparked p hp
  rcases hidle chain after hdeposited (hfirst.symm.trans hchain) with hrelease | hclear | htaken
  · exact absurd hchain (of_decide_eq_true (hspares _ hrelease))
  · exact Bool.noConfusion (hspares _ hclear)
  · exact absurd rfl (of_decide_eq_true (hspares _ (htaken _ hchunk)))

/-- Whatever is done to a depot that was empty at first, if no token is drawn twice, just what waits is parked in it,
and it hands out, drops and counts accordingly. -/
theorem run_keeps_books (size : ChunkSize) (fits : size.bytes ≤ Frame.maxPayload) (supply : Supply) (deeds : List Deed)
    (hdistinct : ((start size fits supply).run deeds).supply.Distinct) :
    ∃ parked, Books (start size fits supply) deeds ((start size fits supply).run deeds).depot parked := by
  have hparked (p : Parked) : p ∈ ((start size fits supply).run deeds).depot.parked ↔
      (start size fits supply).Awaits deeds p := mem_parked_run rfl hdistinct
  have hids := ((sound_start size fits supply).run deeds hdistinct).nodup hdistinct
  generalize ((start size fits supply).run deeds).depot = d at hparked hids
  have hholds := Depot.holds_toFinset hids
  refine ⟨d.parked.toFinset, {
    holds := hholds
    awaited := fun p => List.mem_toFinset.trans (hparked p)
    pending := hholds.pending
    served := hholds.isSome_take?
    handed := fun id c e htake => hholds.take? htake
    once := fun chain after hchain m hm htaken => Depot.take?_eq_none fun p hp hsame => ?_
    firsts := fun chain after hchain => Depot.take?_eq_none fun p hp => ?_
    released := hholds.release
    dropped := fun chain after hchain => hchain.countP_parked hdistinct (List.Nodup.of_map _ hids) hparked
    idle := fun c hidle => release_idle (fun p hp => (hparked p).1 hp) hidle
    middle := fun chain after hchain m hm => release_idle (fun p hp => (hparked p).1 hp) ?_ }⟩
  · obtain ⟨other, later, hother, -, hchunk, hspares⟩ := (hparked p).1 hp
    obtain ⟨rfl, rfl⟩ :=
      hchain.unique hother hdistinct (List.mem_cons_of_mem _ hm) (List.mem_cons_of_mem _ hchunk) hsame.symm
    exact absurd hsame (of_decide_eq_true (hspares _ htaken))
  · obtain ⟨other, later, hother, -, hchunk, -⟩ := (hparked p).1 hp
    exact hother.id_ne hchain hdistinct hchunk
  · intro other later hother hsame
    exact absurd hsame.symm (hchain.id_ne hother hdistinct hm)

/-- Of two chains, the first loses a chunk to a taker and cannot be released by the id of another; the second is released. -/
theorem run_keeps_books_of_two :
    let deeds : List Deed := [.deposit [1, 2, 3, 4, 5], .deposit [6, 7, 8], .take ⟨1⟩, .release ⟨2⟩, .release ⟨3⟩]
    let origin := start ⟨2, by decide⟩ (by decide) (.fresh fun n => ⟨BitVec.ofNat 128 n⟩)
    (origin.run deeds).supply.Distinct ∧ ∃ parked, Books origin deeds (origin.run deeds).depot parked ∧ parked.card = 1 := by
  intro deeds origin
  have hdistinct : (origin.run deeds).supply.Distinct := by decide +kernel
  obtain ⟨parked, hbooks⟩ := run_keeps_books ⟨2, by decide⟩ (by decide) _ deeds hdistinct
  have hone : (origin.run deeds).depot.pending = 1 := by decide +kernel
  exact ⟨hdistinct, parked, hbooks, hbooks.pending.symm.trans hone⟩

end Stock

end RemoteTable
