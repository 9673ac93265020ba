import Mathlib.Data.List.Forall2
import Mathlib.Data.List.TakeWhile
import RemoteTable.Proofs.Tunnel

/-!
# The grammar of tunneled texts

A text that went through the tunnel begins with the marker and a bar. Behind them it has a name up to the first colon,
and a message after it, which one space may precede (`Tunnel.Carries`). So a failure has one of three forms
(`Tunnel.forms`), and each is read in one way: without the marker (`Tunnel.message_of_unmarked`), without a colon behind
it (`Tunnel.decode_colonless`), or with a name, which is that of a kind the policy allows (`Tunnel.decode_allowed`) or
is not (`Tunnel.decode_excluded`).

Two results follow. The reader accepts exactly this grammar (`Tunnel.decode_grammar`). And an error that is written and
read again keeps its kind and, but for line breaks, its message, or is refused by name (`Tunnel.decode_round_trip`).
-/

namespace RemoteTable

/-- The text that a failure brings, whoever wrote it. -/
def Failure.text? : Failure → Option String
  | .generic message => message
  | .platform description => some description

namespace Tunnel

/-- The failure whose text has a body behind the marker and a bar. -/
def marked (body : String) : Failure := .generic (some s!"{marker}|{body}")

/-- The failure has a name behind the marker, and a message after a colon. One space between the colon and the message
belongs to neither. -/
inductive Carries (name detail : String) : Failure → Prop where
  | spaced : Carries name detail (marked s!"{name}: {detail}")
  | bare (head : detail.toList.head? ≠ some ' ') : Carries name detail (marked s!"{name}:{detail}")

variable {f : Failure} {policy : Policy} {name detail : String} {k : ErrorKind}

/-! ## Forms of failures -/

theorem body?_eq_some {text : String} {cs : List Char} :
    body? text = some cs ↔ text = s!"{marker}|{String.ofList cs}" := by
  have htext : s!"{marker}|{String.ofList cs}".toList = (marker ++ "|").toList ++ cs := by
    change (marker ++ "|" ++ String.ofList cs).toList = _
    rw [String.toList_append, String.toList_ofList]
  rw [body?, List.isPrefixOf?_eq_some_iff_append_eq, ← htext, String.toList_inj]
  exact eq_comm

theorem body?_marked (body : String) : body? s!"{marker}|{body}" = some body.toList :=
  body?_eq_some.2 (by rw [String.ofList_toList])

/-- A failure is unmarked unless its text begins with the marker and a bar. -/
theorem unmarked_iff : Unmarked f ↔ ∀ body, f ≠ marked body := by
  match f with
  | .platform _ => simp [Unmarked, marked]
  | .generic none => simp [Unmarked, marked]
  | .generic (some text) =>
    constructor
    · rintro h body ⟨⟩
      exact absurd ((body?_marked body).symm.trans h) (Option.some_ne_none _)
    · intro h
      refine Option.eq_none_iff_forall_ne_some.2 fun cs hcs => h (String.ofList cs) ?_
      rw [marked, ← body?_eq_some.1 hcs]

theorem not_unmarked_iff : ¬ Unmarked f ↔ ∃ body, f = marked body := by
  simp [unmarked_iff]

theorem toList_spaced (name detail : String) :
    s!"{name}: {detail}".toList = name.toList ++ ':' :: ' ' :: detail.toList := by
  change (name ++ ": " ++ detail).toList = _
  simp [String.toList_append]

theorem toList_bare (name detail : String) : s!"{name}:{detail}".toList = name.toList ++ ':' :: detail.toList := by
  change (name ++ ":" ++ detail).toList = _
  simp [String.toList_append]

theorem ne_colon {cs : List Char} (h : ':' ∉ cs) : ∀ c ∈ cs, c ≠ ':' := by
  rintro c hc rfl
  exact h hc

theorem Carries.split (h : Carries name detail f) (hname : ':' ∉ name.toList) :
    ∃ body, f = marked body ∧ split? body.toList = some (name, detail) := by
  cases h with
  | spaced =>
    refine ⟨_, rfl, ?_⟩
    rw [toList_spaced, split?_body (ne_colon hname), String.ofList_toList, String.ofList_toList]
  | bare head =>
    refine ⟨_, rfl, ?_⟩
    rw [toList_bare, split?_bare (ne_colon hname) head, String.ofList_toList, String.ofList_toList]

/-- Behind a marker with a colon, something is carried. -/
theorem carries_of_colon {body : String} (h : ':' ∈ body.toList) :
    ∃ name detail, ':' ∉ name.toList ∧ Carries name detail (marked body) := by
  obtain ⟨name, rest, hbody, hname⟩ := List.eq_append_cons_of_mem h
  by_cases hspace : rest.head? = some ' '
  · obtain ⟨detail, rfl⟩ := List.head?_eq_some_iff.1 hspace
    have htext : body = s!"{String.ofList name}: {String.ofList detail}" := by
      rw [← String.toList_inj, toList_spaced, hbody, String.toList_ofList, String.toList_ofList]
    refine ⟨String.ofList name, String.ofList detail, by rwa [String.toList_ofList], ?_⟩
    rw [htext]
    exact .spaced
  · have htext : body = s!"{String.ofList name}:{String.ofList rest}" := by
      rw [← String.toList_inj, toList_bare, hbody, String.toList_ofList, String.toList_ofList]
    refine ⟨String.ofList name, String.ofList rest, by rwa [String.toList_ofList], ?_⟩
    rw [htext]
    exact .bare (by rwa [String.toList_ofList])

theorem forms (f : Failure) : Unmarked f ∨ (∃ body, ':' ∉ body.toList ∧ f = marked body) ∨
    ∃ name detail, ':' ∉ name.toList ∧ Carries name detail f := by
  by_cases h : Unmarked f
  · exact .inl h
  · obtain ⟨body, rfl⟩ := not_unmarked_iff.1 h
    by_cases hcolon : ':' ∈ body.toList
    · exact .inr (.inr (carries_of_colon hcolon))
    · exact .inr (.inl ⟨body, hcolon, rfl⟩)

theorem Carries.marked (h : Carries name detail f) : ¬ Unmarked f := by
  intro hunmarked
  cases h <;> exact unmarked_iff.1 hunmarked _ rfl

/-! ## How each form is read -/

/-- A failure without the marker is shown at the end of the message. -/
theorem message_of_unmarked (h : Unmarked f) {text : String} (htext : f.text? = some text) :
    ∃ lead, (decode f policy).message = lead ++ text := by
  match f with
  | .platform description =>
    cases htext
    exact ⟨"channel failure: ", rfl⟩
  | .generic none => cases htext
  | .generic (some t) =>
    cases htext
    have hbody : body? text = none := h
    refine ⟨"unrecognized remote failure: ", ?_⟩
    rw [decode, decodeText, hbody]
    rfl

theorem decode_colonless {body : String} (h : ':' ∉ body.toList) (policy : Policy) :
    (decode (marked body) policy).kind = .internal := by
  have hdrop : body.toList.dropWhile (· ≠ ':') = [] :=
    List.dropWhile_eq_nil_iff.2 fun c hc => decide_eq_true (ne_colon h c hc)
  have hsplit : split? body.toList = none := by rw [split?, hdrop]
  rw [marked, decode, decodeText, body?_marked]
  simp only [hsplit]

theorem name_colonless (k : ErrorKind) : ':' ∉ k.name.toList := fun h => name_no_colon k ':' h rfl

/-- A kind that the policy allows is reconstructed, with its message. -/
theorem decode_allowed (h : Carries k.name detail f) (hallows : policy.allows k = true) :
    decode f policy = ⟨k, detail⟩ := by
  obtain ⟨body, rfl, hsplit⟩ := h.split (name_colonless k)
  have hkind : (ErrorKind.ofName? k.name).filter policy.allows = some k := by
    rw [ErrorKind.ofName?_name, Option.filter_some, if_pos hallows]
  rw [marked, decode, decodeText, body?_marked]
  simp only [hsplit, hkind]

theorem decode_excluded (h : Carries name detail f) (hname : ':' ∉ name.toList)
    (hexcluded : ∀ k : ErrorKind, k.name = name → policy.allows k = false) :
    decode f policy = ⟨.internal, s!"{name} not permitted under {policy.name} policy: {detail}"⟩ := by
  obtain ⟨body, rfl, hsplit⟩ := h.split hname
  have hkind : (ErrorKind.ofName? name).filter policy.allows = none := by
    refine Option.filter_eq_none_iff.2 fun k hk => ?_
    rw [hexcluded k (ErrorKind.name_of_ofName? hk)]
    exact Bool.false_ne_true
  rw [marked, decode, decodeText, body?_marked]
  simp only [hsplit, hkind]

theorem not_allows_internal (policy : Policy) : policy.allows .internal = false := by cases policy <;> rfl

/-- With the marker, an allowed kind is read only where it is carried. -/
theorem carries_of_decode (hread : decode f policy = ⟨k, detail⟩) (hallows : policy.allows k = true)
    (hmarked : ¬ Unmarked f) : Carries k.name detail f := by
  have hinternal : (decode f policy).kind ≠ .internal := by
    rw [hread]
    rintro rfl
    exact absurd (not_allows_internal policy) (by rw [hallows]; decide)
  rcases forms f with hunmarked | ⟨body, hbody, rfl⟩ | ⟨name, other, hname, hcarries⟩
  · exact absurd hunmarked hmarked
  · exact absurd (decode_colonless hbody policy) hinternal
  · by_cases hexcluded : ∀ k : ErrorKind, k.name = name → policy.allows k = false
    · exact absurd (congrArg TransportError.kind (decode_excluded hcarries hname hexcluded)) hinternal
    · simp only [not_forall, Bool.not_eq_false] at hexcluded
      obtain ⟨carried, rfl, hcarried⟩ := hexcluded
      cases hread.symm.trans (decode_allowed hcarries hcarried)
      exact hcarries

/-! ## There and back -/

theorem carries_encode (e : TransportError) : Carries e.kind.name (flatten e.message) (encode e) := .spaced

theorem toList_flatten (message : String) :
    (flatten message).toList = message.toList.map fun c => if c = '\n' ∨ c = '\r' then ' ' else c := by
  rw [flatten, String.toList_ofList]

theorem not_mem_flatten (message : String) {c : Char} (hc : c = '\n' ∨ c = '\r') : c ∉ (flatten message).toList := by
  rw [toList_flatten, List.mem_map]
  rintro ⟨d, -, rfl⟩
  split at hc
  · exact absurd hc (by decide)
  · exact absurd hc ‹_›

theorem flatten_flatten (message : String) : flatten (flatten message) = flatten message := by
  rw [← String.toList_inj, toList_flatten (flatten message)]
  refine (List.map_congr_left fun c hc => ?_).trans (List.map_id _)
  rw [if_neg fun hbreak => not_mem_flatten message hbreak hc]
  rfl

theorem not_mem_wireText (e : TransportError) {c : Char} (hc : c = '\n' ∨ c = '\r') : c ∉ (wireText e).toList := by
  have hmarker : c ∉ (marker ++ "|").toList := by rcases hc with rfl | rfl <;> decide
  have hname : c ∉ e.kind.name.toList := by rcases hc with rfl | rfl <;> cases e.kind <;> decide
  have hcolon : c ≠ ':' ∧ c ≠ ' ' := by rcases hc with rfl | rfl <;> decide
  rw [toList_wireText]
  simp only [List.mem_append, List.mem_cons, not_or]
  exact ⟨hmarker, hname, hcolon.1, hcolon.2, not_mem_flatten e.message hc⟩

/-- Errors are written alike only if they agree in kind and, but for line breaks, in message. -/
theorem wireText_inj {e e' : TransportError} (h : wireText e = wireText e') :
    e.kind = e'.kind ∧ flatten e.message = flatten e'.message := by
  have hbody : some _ = some _ := body?_wireText e ▸ body?_wireText e' ▸ congrArg body? h
  have hsplit := congrArg split? (Option.some.inj hbody)
  rw [split?_body (name_no_colon e.kind), split?_body (name_no_colon e'.kind)] at hsplit
  simp only [String.ofList_toList, Option.some.injEq, Prod.mk.injEq] at hsplit
  exact ⟨ErrorKind.name_injective hsplit.1, hsplit.2⟩

theorem flatten_pointwise (message : String) :
    List.Forall₂ (fun sent got => got = if sent = '\n' ∨ sent = '\r' then ' ' else sent)
      message.toList (flatten message).toList := by
  rw [toList_flatten, List.forall₂_map_right_iff]
  exact List.forall₂_same.2 fun c _ => rfl

/-- An error goes through the tunnel on one line, each line break of its message a space. It is read with its kind and
that message if the policy allows the kind, and if not, refused by the name of the kind and of the policy. -/
theorem decode_round_trip (e : TransportError) (policy : Policy) :
    encode e = .generic (some (wireText e)) ∧
    ('\n' ∉ (wireText e).toList ∧ '\r' ∉ (wireText e).toList) ∧
    List.Forall₂ (fun sent got => got = if sent = '\n' ∨ sent = '\r' then ' ' else sent)
      e.message.toList (flatten e.message).toList ∧
    (policy.allows e.kind = true → decode (encode e) policy = ⟨e.kind, flatten e.message⟩ ∧
      wireText (decode (encode e) policy) = wireText e) ∧
    (policy.allows e.kind = false → decode (encode e) policy =
      ⟨.internal, s!"{e.kind.name} not permitted under {policy.name} policy: {flatten e.message}"⟩) ∧
    ∀ e', wireText e = wireText e' ↔ e.kind = e'.kind ∧ flatten e.message = flatten e'.message := by
  refine ⟨rfl, ⟨not_mem_wireText e (.inl rfl), not_mem_wireText e (.inr rfl)⟩, flatten_pointwise e.message,
    fun hallows => ?_, fun hrefused => ?_, fun e' => ⟨wireText_inj, ?_⟩⟩
  · have hread := decode_encode hallows
    refine ⟨hread, ?_⟩
    rw [hread, wireText, wireText, flatten_flatten]
  · refine decode_excluded (carries_encode e) (name_colonless e.kind) fun k hk => ?_
    rw [ErrorKind.name_injective hk, hrefused]
  · rintro ⟨hkind, hmessage⟩
    rw [wireText, wireText, hkind, hmessage]

/-- A message that looks tunneled itself, begins with a space and has a line break, under both policies. -/
theorem decode_round_trip_of_marked :
    let e : TransportError := ⟨.notAuthorized, " aeroremote.transport|Internal: a\r\nb"⟩
    let flat := " aeroremote.transport|Internal: a  b"
    decode (encode e) .privileged = ⟨.notAuthorized, flat⟩ ∧
      decode (encode e) .alwaysAllowed =
        ⟨.internal, "NotAuthorized not permitted under always_allowed policy: " ++ flat⟩ := by
  intro e flat
  have hflat : flatten e.message = flat := by decide +kernel
  obtain ⟨-, -, -, hallowed, -⟩ := decode_round_trip e .privileged
  obtain ⟨-, -, -, -, hrefused, -⟩ := decode_round_trip e .alwaysAllowed
  rw [hflat] at hallowed hrefused
  exact ⟨(hallowed rfl).1, hrefused rfl⟩

/-! ## What is accepted -/

/-- The reader accepts exactly the grammar: with the marker and a bar, the kind and the message that the failure
carries, if the policy allows the kind. A failure without them is an unreachable remote side, and every other one an
internal error. -/
theorem decode_grammar (f : Failure) (policy : Policy) :
    (∀ k detail, decode f policy = ⟨k, detail⟩ ∧ policy.allows k = true ∧ (∃ body, f = marked body) ↔
      Carries k.name detail f ∧ policy.allows k = true) ∧
    (∀ k detail, k ≠ .unavailable → policy.allows k = true →
      (decode f policy = ⟨k, detail⟩ ↔ Carries k.name detail f)) ∧
    ((∀ body, f ≠ marked body) → (decode f policy).kind = .unavailable ∧
      ∀ text, f.text? = some text → ∃ lead, (decode f policy).message = lead ++ text) ∧
    ((∃ body, f = marked body) → (∀ k detail, Carries k.name detail f → policy.allows k = false) →
      (decode f policy).kind = .internal) ∧
    ((decode f policy).kind = .internal ∨ policy.allows (decode f policy).kind = true) ∧
    (policy = .alwaysAllowed → (decode f policy).kind ≠ .notAuthorized) := by
  refine ⟨fun k detail => ⟨?_, ?_⟩, fun k detail hreachable hallows => ⟨fun hread => ?_, ?_⟩, ?_, ?_, ?_, ?_⟩
  · rintro ⟨hread, hallows, hmarked⟩
    exact ⟨carries_of_decode hread hallows (not_unmarked_iff.2 hmarked), hallows⟩
  · rintro ⟨hcarries, hallows⟩
    exact ⟨decode_allowed hcarries hallows, hallows, not_unmarked_iff.1 hcarries.marked⟩
  · refine carries_of_decode hread hallows fun hunmarked => hreachable ?_
    rw [← decode_unmarked hunmarked policy, hread]
  · exact fun hcarries => decode_allowed hcarries hallows
  · intro hbodiless
    have hunmarked := unmarked_iff.2 hbodiless
    exact ⟨decode_unmarked hunmarked policy, fun text => message_of_unmarked hunmarked⟩
  · intro hmarked hexcluded
    refine (kind_decode f policy).resolve_right fun hallows => ?_
    have hcarries := carries_of_decode rfl hallows (not_unmarked_iff.2 hmarked)
    exact Bool.false_ne_true ((hexcluded _ _ hcarries).symm.trans hallows)
  · exact kind_decode f policy
  · rintro rfl hkind
    rcases kind_decode f .alwaysAllowed with hinternal | hallows
    · exact absurd (hkind.symm.trans hinternal) (by decide)
    · rw [hkind] at hallows
      exact absurd hallows (by decide)

/-- One text under both policies, its message beginning with a space, and the marker alone. -/
theorem decode_grammar_of_near_misses :
    let f := marked "NotAuthorized:  a: b"
    decode f .privileged = ⟨.notAuthorized, " a: b"⟩ ∧ (decode f .alwaysAllowed).kind = .internal ∧
      (decode (.generic (some marker)) .privileged).kind = .unavailable := by
  intro f
  have hcarries : Carries ErrorKind.notAuthorized.name " a: b" f := .spaced
  have hread := (((decode_grammar f .privileged).1 .notAuthorized " a: b").2 ⟨hcarries, rfl⟩).1
  refine ⟨hread, (decode_grammar f .alwaysAllowed).2.2.2.1 ⟨_, rfl⟩ fun k detail h => ?_, ?_⟩
  · cases k with
    | notAuthorized | internal => rfl
    | argument | storage | unavailable =>
      have hother := (((decode_grammar f .privileged).1 _ detail).2 ⟨h, rfl⟩).1
      cases hread.symm.trans hother
  · refine ((decode_grammar (.generic (some marker)) .privileged).2.2.1 fun body hbody => ?_).1
    have htext : marker = marker ++ "|" ++ body := Option.some.inj (Failure.generic.inj hbody)
    have hlonger := congrArg (·.toList.length) htext
    simp [String.toList_append] at hlonger

end Tunnel

end RemoteTable
