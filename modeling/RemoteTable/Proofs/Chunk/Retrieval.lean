import RemoteTable.Proofs.Chunk.Trail

/-!
# Chains from anywhere

The answers to the fetches of a chain may be anything: chunks with any ids, payloads and links, in any order and any number
of times, and errors of any kind. From a list of such answers a receiver accepts those in front that are what it asked for,
and stops when the chunk before names no other, at an error, or at a chunk under another id (`Chunk.Retrieval`). Where it
stops decides what it returns (`Chunk.decode_retrieval`).
-/

namespace RemoteTable

namespace ScriptedChunks

def upcoming (answers : List (Except TransportError Chunk)) : Except TransportError Chunk :=
  answers.headD (.error ⟨.storage, "no more replies"⟩)

theorem on_fetch (id : Token) (s : Noted ScriptedChunks) : (supplier.fetch id).on s =
    (upcoming s.state.answers, { s with state := ⟨s.state.answers.tail, id :: s.state.asked⟩ }) := by
  change answer id s = _
  unfold answer
  cases s.state.answers <;> rfl

end ScriptedChunks

namespace Chunk

open ScriptedChunks (upcoming)

/-- How following a chain stops after the chunk `last`, if the answer to one more fetch is this. -/
inductive Stops (last : Chunk) : (answer : Except TransportError Chunk) → Except TransportError Unit → Prop
  | complete {answer : Except TransportError Chunk} (ends : last.next = none) : Stops last answer (.ok ())
  | refused {id : Token} {f : TransportError} (asks : last.next = some id) :
    Stops last (.error f) (.error ⟨.unavailable, s!"failed to fetch chunk {id.render}: {f.message}"⟩)
  | strayed {id : Token} {c : Chunk} (asks : last.next = some id) (other : c.id ≠ id) :
    Stops last (.ok c) (.error ⟨.internal, s!"chunk chain broken: requested {id.render}, received {c.id.render}"⟩)

theorem stops_of_accept {last : Chunk} {id : Token} {answer : Except TransportError Chunk} {e : TransportError}
    (hasks : last.next = some id) (hrefused : accept id answer = .error e) : Stops last answer (.error e) := by
  cases answer with
  | error f =>
    cases hrefused
    exact .refused hasks
  | ok c =>
    by_cases hid : c.id = id
    · rw [accept, if_pos hid] at hrefused
      cases hrefused
    · rw [accept, if_neg hid] at hrefused
      cases hrefused
      exact .strayed hasks hid

/-- A trail takes one answer for each chunk that it asks for, and asks for what its chunks name. -/
theorem Trail.scripted {first : Chunk} {s t : Noted ScriptedChunks} {accepted : List Chunk}
    {r : Except TransportError Unit} (h : Trail ScriptedChunks.supplier first.next s accepted r t) : ∃ last left,
    (first :: accepted).getLast? = some last ∧ s.state.answers = accepted.map .ok ++ left ∧
      Stops last (upcoming left) r ∧
      t.state.asked = ((first :: accepted).filterMap next).reverse ++ s.state.asked ∧
      t.state.answers = s.state.answers.drop ((first :: accepted).filterMap next).length := by
  generalize hnext : first.next = next at h
  induction h generalizing first with
  | @ended s => exact ⟨first, s.state.answers, rfl, rfl, .complete hnext, by simp [hnext], by simp [hnext]⟩
  | @broken id s e refused =>
    rw [ScriptedChunks.on_fetch] at refused ⊢
    exact ⟨first, s.state.answers, rfl, rfl, stops_of_accept hnext refused, by simp [hnext], by simp [hnext]⟩
  | @further id s t c accepted r taken rest ih =>
    obtain ⟨last, left, hlast, hanswers, hstops, hasked, hleft⟩ := ih rfl
    rw [ScriptedChunks.on_fetch] at taken hanswers hasked hleft
    dsimp only at taken hanswers hasked hleft
    obtain ⟨htaken, -⟩ := accept_eq_ok.1 taken
    -- an answer was there, for what is given once the list is used up is an error
    obtain ⟨rest, hscript⟩ : ∃ rest, s.state.answers = .ok c :: rest := by
      cases hs : s.state.answers with
      | nil =>
        rw [hs] at htaken
        cases htaken
      | cons a rest =>
        rw [hs] at htaken
        exact ⟨rest, congrArg (· :: rest) htaken⟩
    rw [hscript, List.tail_cons] at hanswers hleft
    refine ⟨last, left, ?_, ?_, hstops, ?_, ?_⟩
    · rw [List.getLast?_cons_cons, hlast]
    · rw [hscript, hanswers, List.map_cons, List.cons_append]
    · rw [List.filterMap_cons_some hnext, List.reverse_cons, hasked, List.append_assoc]
      rfl
    · rw [List.filterMap_cons_some hnext, List.length_cons, hscript, List.drop_succ_cons, hleft]

/-- How a chain is retrieved from a list of answers. These chunks are accepted behind the first, `last` is the last of all,
and these answers are left when the receiver stops; it has asked for these ids and returns `r`. -/
structure Retrieval (first : Chunk) (answers : List (Except TransportError Chunk)) (asked : List Token)
    (r : Except TransportError Bytes) (accepted : List Chunk) (last : Chunk)
    (left : List (Except TransportError Chunk)) : Prop where
  answers_eq : answers = accepted.map .ok ++ left
  /-- Each chunk is the one that the chunk before it names. -/
  linked : (first :: accepted).IsChain Names
  last_eq : (first :: accepted).getLast? = some last
  asked_eq : asked = (first :: accepted).filterMap next
  complete : ∀ bytes, r = .ok bytes ↔ last.next = none ∧ bytes = ((first :: accepted).map payload).flatten
  failed : ∀ e, r = .error e ↔
    (∃ id f, last.next = some id ∧ upcoming left = .error f ∧
      e = ⟨.unavailable, s!"failed to fetch chunk {id.render}: {f.message}"⟩) ∨
    ∃ id c, last.next = some id ∧ upcoming left = .ok c ∧ c.id ≠ id ∧
      e = ⟨.internal, s!"chunk chain broken: requested {id.render}, received {c.id.render}"⟩

theorem Stops.complete_iff {last : Chunk} {answer : Except TransportError Chunk} {r : Except TransportError Unit}
    (h : Stops last answer r) (payload bytes : Bytes) :
    (fun _ => payload) <$> r = .ok bytes ↔ last.next = none ∧ bytes = payload := by
  constructor
  · intro hreturns
    cases h with
    | complete ends => exact ⟨ends, (Except.ok.inj hreturns).symm⟩
    | refused | strayed => cases hreturns
  · rintro ⟨hends, rfl⟩
    cases h with
    | complete => rfl
    | refused asks | strayed asks => cases hends.symm.trans asks

theorem Stops.failed_iff {last : Chunk} {answer : Except TransportError Chunk} {r : Except TransportError Unit}
    (h : Stops last answer r) (payload : Bytes) (e : TransportError) :
    (fun _ => payload) <$> r = .error e ↔
      (∃ id f, last.next = some id ∧ answer = .error f ∧
        e = ⟨.unavailable, s!"failed to fetch chunk {id.render}: {f.message}"⟩) ∨
      ∃ id c, last.next = some id ∧ answer = .ok c ∧ c.id ≠ id ∧
        e = ⟨.internal, s!"chunk chain broken: requested {id.render}, received {c.id.render}"⟩ := by
  constructor
  · intro hfails
    cases h with
    | complete ends => cases hfails
    | refused asks => exact .inl ⟨_, _, asks, rfl, (Except.error.inj hfails).symm⟩
    | strayed asks other => exact .inr ⟨_, _, asks, rfl, other, (Except.error.inj hfails).symm⟩
  · rintro (⟨id, f, hasks, hanswer, rfl⟩ | ⟨id, c, hasks, hanswer, hother, rfl⟩)
    · cases h with
      | complete ends => cases ends.symm.trans hasks
      | refused asks =>
        cases asks.symm.trans hasks
        cases hanswer
        rfl
      | strayed => cases hanswer
    · cases h with
      | complete ends => cases ends.symm.trans hasks
      | refused => cases hanswer
      | strayed asks =>
        cases asks.symm.trans hasks
        cases hanswer
        rfl

/-- Whatever the answers are, the chain is retrieved in the one way that they allow, with one answer used up for each id
asked for. Without a first chunk nothing is asked for. -/
theorem decode_retrieval (first : Chunk) (answers : List (Except TransportError Chunk)) :
    let start : Noted ScriptedChunks := .start { answers }
    let done := (decode ScriptedChunks.supplier first).on start
    (∃ accepted last left,
      Retrieval first answers done.2.state.asked.reverse done.1 accepted last left) ∧
    done.2.state.answers = answers.drop done.2.state.asked.length ∧
    (decode? ScriptedChunks.supplier none).on start = (.ok none, start) ∧
    (decode? ScriptedChunks.supplier (some first)).on start = (some <$> done.1, done.2) := by
  intro start done
  obtain ⟨accepted, r, htrail, hbytes⟩ := decode_trail ScriptedChunks.supplier first start
  obtain ⟨last, left, hlast, hanswers, hstops, hasked, hleft⟩ := htrail.scripted
  have hasked : done.2.state.asked = ((first :: accepted).filterMap next).reverse := hasked.trans (List.append_nil _)
  refine ⟨⟨accepted, last, left, ?_⟩, ?_, rfl, Exchange.on_map ..⟩
  · refine ⟨hanswers, htrail.linked, hlast, ?_, fun bytes => ?_, fun e => ?_⟩
    · rw [hasked, List.reverse_reverse]
    · rw [hbytes]
      exact hstops.complete_iff _ bytes
    · rw [hbytes]
      exact hstops.failed_iff _ e
  · rw [hasked, List.length_reverse]
    exact hleft

end Chunk

end RemoteTable
