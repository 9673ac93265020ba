import RemoteTable.Config
import RemoteTable.Proofs.Messages

/-!
# Usable configurations

A configuration is usable exactly when its chunk size is one that a depot takes and its log level names a severity
(`Config.validate_eq_ok`). What is not usable is refused with an error about one of the two fields
(`Config.isInvalid_of_validate`). What is written is read back, and then it is checked in this way
(`Config.ofJsonText_encode`).
-/

namespace RemoteTable

open Json (Codec Fields)
open Json.Codec

/-- The error is about the value of a field, and says of which. -/
def ConfigError.IsInvalid (e : ConfigError) : Prop :=
  ∃ field reason : String, (field = "max_chunk_size" ∨ field = "log_level") ∧
    e.message = s!"invalid config value for {field}: {reason}"

namespace Config

theorem keeps (c : Config) : codec.Keeps 1 c := by
  refine Keeps.imap (Fields.codec_keeps (by decide) ⟨?_, ?_, ?_, ?_, trivial⟩) rfl
  · exact word_keeps c.maxChunkSize
  · exact flag_keeps c.verifyChecksums
  · exact text_keeps c.logLevel
  · exact nullable_text_keeps c.principal

variable {c : Config} {e : ConfigError}

/-- A chunk size that no depot takes is refused first, and otherwise the log level decides. -/
theorem validate_cases (c : Config) :
    c.maxChunkSize.toNat = 0 ∧ c.validate = .error .zeroChunkSize ∨
    Frame.maxPayload < c.maxChunkSize.toNat ∧ c.validate = .error .chunkSizeTooLarge ∨
    (0 < c.maxChunkSize.toNat ∧ c.maxChunkSize.toNat ≤ Frame.maxPayload) ∧ c.validate = discard c.severity := by
  have hzero : c.maxChunkSize = 0 ↔ c.maxChunkSize.toNat = 0 := UInt64.toNat_inj.symm
  unfold validate
  by_cases h0 : c.maxChunkSize = 0
  · rw [if_pos h0]
    exact .inl ⟨hzero.1 h0, rfl⟩
  · rw [if_neg h0]
    by_cases hlarge : Frame.maxPayload < c.maxChunkSize.toNat
    · rw [if_pos hlarge]
      exact .inr (.inl ⟨hlarge, rfl⟩)
    · rw [if_neg hlarge]
      exact .inr (.inr ⟨⟨Nat.pos_of_ne_zero (mt hzero.2 h0), Nat.le_of_not_lt hlarge⟩, rfl⟩)

theorem severity_cases (c : Config) :
    (∃ s, c.severity = .ok s) ∨ c.severity = .error (.unknownLevel c.logLevel) := by
  unfold severity
  split
  · exact .inl ⟨_, rfl⟩
  · exact .inr rfl

theorem validate_eq_ok : c.validate = .ok () ↔
    (0 < c.maxChunkSize.toNat ∧ c.maxChunkSize.toNat ≤ Frame.maxPayload) ∧ ∃ s, c.severity = .ok s := by
  rcases validate_cases c with ⟨hzero, hvalidate⟩ | ⟨hlarge, hvalidate⟩ | ⟨hsize, hvalidate⟩ <;> rw [hvalidate]
  · exact iff_of_false (by rintro ⟨⟩) fun h => Nat.ne_of_gt h.1.1 hzero
  · exact iff_of_false (by rintro ⟨⟩) fun h => Nat.not_le_of_lt hlarge h.1.2
  · rcases severity_cases c with ⟨s, hseverity⟩ | hseverity <;> rw [hseverity]
    · exact iff_of_true rfl ⟨hsize, s, rfl⟩
    · exact iff_of_false (by rintro ⟨⟩) fun h => by cases h.2.choose_spec

theorem isInvalid_of_validate (h : c.validate = .error e) : e.IsInvalid := by
  rcases validate_cases c with ⟨-, hvalidate⟩ | ⟨-, hvalidate⟩ | ⟨-, hvalidate⟩ <;> rw [hvalidate] at h
  · cases h
    exact ⟨"max_chunk_size", "must be greater than zero", .inl rfl, rfl⟩
  · cases h
    exact ⟨"max_chunk_size", s!"must not exceed {Frame.maxPayload}", .inl rfl, rfl⟩
  · rcases severity_cases c with ⟨s, hseverity⟩ | hseverity <;> rw [hseverity] at h <;> cases h
    exact ⟨"log_level", s!"unknown level '{c.logLevel}'", .inr rfl, rfl⟩

theorem validate_of_ofJsonText {text : Bytes} (h : ofJsonText text = .ok c) : c.validate = .ok () := by
  obtain ⟨read, -, h⟩ := Fallible.bind_eq_ok.1 h
  obtain ⟨_, hvalid, h⟩ := Fallible.bind_eq_ok.1 h
  cases h
  exact hvalid

theorem ofJsonText_encode (c : Config) : ofJsonText (codec.encode c) = c.validate >>= fun _ => .ok c := by
  have hread := (keeps c).readsBack.decode_encode (by decide)
  rw [ofJsonText, hread]
  rfl

end Config

end RemoteTable
