import RemoteTable.Proofs.Fallible
import RemoteTable.Store
import RemoteTable.Tunnel

/-!
# Through the tunnel

What a call site reads is what was sent, with the message on one line, if its policy allows the kind
(`decode_encode`); the store refuses an operation only with kinds that the operation's policy allows
(`allows_of_answer`). A failure without the marker is read as an unreachable remote side (`decode_unmarked`), and no
failure is read as a kind that the policy excludes, save as an internal error (`kind_decode`).
-/

namespace RemoteTable

namespace Tunnel

theorem toList_wireText (e : TransportError) : (wireText e).toList =
    (marker ++ "|").toList ++ (e.kind.name.toList ++ ':' :: ' ' :: (flatten e.message).toList) := by
  change (marker ++ "|" ++ e.kind.name ++ ": " ++ flatten e.message).toList = _
  simp [String.toList_append]

theorem body?_wireText (e : TransportError) :
    body? (wireText e) = some (e.kind.name.toList ++ ':' :: ' ' :: (flatten e.message).toList) := by
  rw [body?, toList_wireText, Fallible.isPrefixOf?_append]

theorem span_name {name : List Char} (h : ∀ c ∈ name, c ≠ ':') (rest : List Char) :
    (name ++ ':' :: rest).takeWhile (· ≠ ':') = name ∧ (name ++ ':' :: rest).dropWhile (· ≠ ':') = ':' :: rest := by
  have hpos : ∀ c ∈ name, decide (c ≠ ':') = true := fun c hc => decide_eq_true (h c hc)
  rw [List.takeWhile_append_of_pos hpos, List.dropWhile_append_of_pos hpos]
  simp

theorem split?_body {name detail : List Char} (h : ∀ c ∈ name, c ≠ ':') :
    split? (name ++ ':' :: ' ' :: detail) = some (String.ofList name, String.ofList detail) := by
  obtain ⟨htake, hdrop⟩ := span_name h (' ' :: detail)
  rw [split?, hdrop, htake]
  rfl

/-- A message that begins with no space needs none before it. -/
theorem split?_bare {name detail : List Char} (h : ∀ c ∈ name, c ≠ ':') (hhead : detail.head? ≠ some ' ') :
    split? (name ++ ':' :: detail) = some (String.ofList name, String.ofList detail) := by
  obtain ⟨htake, hdrop⟩ := span_name h detail
  rw [split?, hdrop, htake]
  cases detail with
  | nil => rfl
  | cons c cs =>
    have hc : c ≠ ' ' := fun heq => hhead (congrArg some heq)
    simp [hc]

theorem name_no_colon (k : ErrorKind) : ∀ c ∈ k.name.toList, c ≠ ':' := by
  have hall : k.name.toList.all (· ≠ ':') = true := by cases k <;> decide
  intro c hc
  exact of_decide_eq_true (List.all_eq_true.1 hall c hc)

/-- An error that the policy allows arrives with its kind, its message on one line. -/
theorem decode_encode {e : TransportError} {policy : Policy} (h : policy.allows e.kind = true) :
    decode (encode e) policy = ⟨e.kind, flatten e.message⟩ := by
  have hkind : (ErrorKind.ofName? e.kind.name).filter policy.allows = some e.kind := by
    rw [ErrorKind.ofName?_name, Option.filter_some, if_pos h]
  rw [encode, decode, decodeText, body?_wireText]
  simp only [split?_body (name_no_colon e.kind), String.ofList_toList, hkind]

/-- A failure that the tunnel did not write. -/
def Unmarked : Failure → Prop
  | .platform _ => True
  | .generic none => True
  | .generic (some text) => body? text = none

theorem decode_unmarked {f : Failure} (h : Unmarked f) (policy : Policy) : (decode f policy).kind = .unavailable := by
  match f with
  | .platform _ => rfl
  | .generic none => rfl
  | .generic (some text) =>
    have hbody : body? text = none := h
    rw [decode, decodeText, hbody]

/-- A failure is read as an internal error or as one of a kind that the policy allows. -/
theorem kind_decode (f : Failure) (policy : Policy) :
    (decode f policy).kind = .internal ∨ policy.allows (decode f policy).kind = true := by
  have hunavailable : policy.allows .unavailable = true := by cases policy <;> decide
  match f with
  | .platform _ => exact .inr hunavailable
  | .generic none => exact .inr hunavailable
  | .generic (some text) =>
    rw [decode, decodeText]
    split
    · exact .inr hunavailable
    · split
      · exact .inl rfl
      · split
        · rename_i kind hkind
          exact .inr (Option.filter_eq_some_iff.1 hkind).2
        · exact .inl rfl

end Tunnel

/-! ## Refusals of the store -/

namespace Store

variable {s : Store} {principal : Option String} {supply : Supply} {e : StoreError}

theorem kind_of_table {name : String} (h : s.table name = .error e) : e.kind = .argument := by
  unfold table at h
  split at h <;> cases h
  rfl

theorem kind_of_openedTable {name : String} (h : s.openedTable name = .error e) :
    e.kind = .argument ∨ e.kind = .storage := by
  rcases Fallible.bind_eq_error.1 h with htable | ⟨t, -, hopen⟩
  · exact .inl (kind_of_table htable)
  · split at hopen <;> cases hopen
    exact .inr rfl

theorem kind_of_query {q : Query} (h : s.query q = .error e) : e.kind = .argument ∨ e.kind = .storage := by
  rcases Fallible.bind_eq_error.1 h with htable | ⟨t, -, hfilter⟩
  · exact kind_of_openedTable htable
  · split at hfilter <;> cases hfilter
    exact .inl rfl

theorem kind_of_metadataIfChanged {name : String} {known : Option Token}
    (h : s.metadataIfChanged name known = .error e) : e.kind = .argument := by
  rcases Fallible.bind_eq_error.1 h with hmetadata | ⟨set, -, hset⟩
  · rcases Fallible.bind_eq_error.1 hmetadata with htable | ⟨t, -, hok⟩
    · exact kind_of_table htable
    · cases hok
  · cases hset

/-- A refusal of the arguments or of the state of a table may cross the line under either policy. -/
theorem allows_of_kind {policy : Policy} {k : ErrorKind} (h : k = .argument ∨ k = .storage) :
    policy.allows k = true := by
  rcases h with rfl | rfl <;> cases policy <;> decide

theorem privileged_allows (e : StoreError) : Policy.privileged.allows e.kind = true := by
  cases e <;> rfl

/-- The store refuses an operation only with kinds that the operation's policy allows. -/
theorem allows_of_answer {call : Call} (h : s.answer principal call supply = .error e) :
    call.operation.policy.allows e.kind = true := by
  cases call with
  | openTable name =>
    rcases Fallible.bind_eq_error.1 h with hopen | ⟨_, -, hok⟩
    · rcases Fallible.bind_eq_error.1 hopen with htable | ⟨_, -, hok⟩
      · exact allows_of_kind (.inl (kind_of_table htable))
      · cases hok
    · cases hok
  | closeTable name =>
    rcases Fallible.bind_eq_error.1 h with hclose | ⟨_, -, hok⟩
    · rcases Fallible.bind_eq_error.1 hclose with htable | ⟨_, -, hok⟩
      · exact allows_of_kind (kind_of_openedTable htable)
      · cases hok
    · cases hok
  | query q =>
    rcases Fallible.bind_eq_error.1 h with hquery | ⟨_, -, hok⟩
    · exact allows_of_kind (kind_of_query hquery)
    · cases hok
  | getRow name row =>
    rcases Fallible.bind_eq_error.1 h with hrow | ⟨_, -, hok⟩
    · rcases Fallible.bind_eq_error.1 hrow with htable | ⟨_, -, hok⟩
      · exact allows_of_kind (kind_of_openedTable htable)
      · cases hok
    · cases hok
  | getMetadata name =>
    rcases Fallible.bind_eq_error.1 h with hmetadata | ⟨_, -, hok⟩
    · rcases Fallible.bind_eq_error.1 hmetadata with htable | ⟨_, -, hok⟩
      · exact allows_of_kind (.inl (kind_of_table htable))
      · cases hok
    · cases hok
  | getMetadataIfChanged name known =>
    rcases Fallible.bind_eq_error.1 h with hmetadata | ⟨_, -, hok⟩
    · exact allows_of_kind (.inl (kind_of_metadataIfChanged hmetadata))
    · cases hok
  | putMetadata entry => exact privileged_allows e
  | deleteMetadata name slot => exact privileged_allows e

end Store

end RemoteTable
