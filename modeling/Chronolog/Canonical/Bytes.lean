import Chronolog.Protocol.Bytes

/-!
# Texts as bytes

The canonical encoding of texts is UTF-8. Its decoder is the platform's, which takes a byte
order mark at the beginning off a text, so `utf8` refuses the texts that begin with one: it
encodes a text only if it is read back (`utf8_eq_ok_iff`).
-/

namespace Chronolog.Canonical

variable {bytes : Bytes} {text : String}

/-- The stable codes of errors. -/
inductive CanonicalErrorCode
  | cborInvalid
  | cborNonCanonical
  | cborLimitExceeded
  | schemaInvalid
  | integerOutOfRange
  | invalidUtf8
  | digestMismatch
  deriving DecidableEq

/-- An error: its code and its message. -/
structure CanonicalError where
  code : CanonicalErrorCode
  message : String
  deriving DecidableEq

/-- Raises an error unless the condition holds. -/
def canonicalInvariant {m : Type → Type} [Monad m] [MonadExceptOf CanonicalError m]
    (condition : Bool) (code : CanonicalErrorCode) (message : String) : m Unit :=
  if condition then pure () else throw ⟨code, message⟩

/-! ## The platform's codec -/

/-- The byte order mark. -/
def byteOrderMark : Bytes := [0xef, 0xbb, 0xbf]

/-- The text that bytes are the UTF-8 encoding of. -/
def fromUtf8 (bytes : Bytes) : Option String := String.fromUTF8? ⟨bytes.toArray⟩

/-- `TextDecoder.decode`, fatal on bytes that are no UTF-8: a byte order mark is not part of the
    text. -/
def textDecoder (bytes : Bytes) : Option String :=
  fromUtf8 (if byteOrderMark <+: bytes then bytes.drop 3 else bytes)

theorem fromUtf8_eq_some_iff : fromUtf8 bytes = some text ↔ Chronolog.utf8 text = bytes := by
  rw [fromUtf8, String.fromUTF8?]
  split_ifs with hvalid
  · rw [Option.some_inj, ← String.toByteArray_inj, ByteArray.ext_iff, ← Array.toList_inj]
    exact eq_comm
  · refine iff_of_false nofun fun h => hvalid ?_
    rw [← h]
    exact text.isValidUTF8

/-! ## Canonical texts -/

/-- The bytes of a text, unless they are not read back as the text. (A text of the model has no
    unpaired surrogates.) -/
def utf8 (value : String) : Except CanonicalError Bytes :=
  if textDecoder (Chronolog.utf8 value) = some value then .ok (Chronolog.utf8 value)
  else .error ⟨.invalidUtf8, "Text contains an unpaired UTF-16 surrogate"⟩

def decodeUtf8 (value : Bytes) : Except CanonicalError String :=
  match textDecoder value with
  | some text => .ok text
  | none => .error ⟨.invalidUtf8, "Bytes are not valid UTF-8"⟩

theorem textDecoder_of_unmarked (h : ¬byteOrderMark <+: bytes) :
    textDecoder bytes = fromUtf8 bytes := by
  rw [textDecoder, if_neg h]

/-- A text that begins with a byte order mark is not read back. -/
theorem textDecoder_utf8_eq_some_iff :
    textDecoder (Chronolog.utf8 text) = some text ↔ ¬byteOrderMark <+: Chronolog.utf8 text := by
  constructor
  · intro h hbom
    rw [textDecoder, if_pos hbom, fromUtf8_eq_some_iff] at h
    have hlength := congrArg List.length h
    rw [List.length_drop] at hlength
    have := hbom.length_le
    have hthree : byteOrderMark.length = 3 := rfl
    omega
  · intro h
    rw [textDecoder_of_unmarked h, fromUtf8_eq_some_iff]

theorem utf8_eq_ok_iff :
    utf8 text = .ok bytes ↔ bytes = Chronolog.utf8 text ∧ ¬byteOrderMark <+: bytes := by
  rw [utf8]
  split_ifs with h
  · rw [textDecoder_utf8_eq_some_iff] at h
    constructor
    · intro hbytes
      cases hbytes
      exact ⟨rfl, h⟩
    · rintro ⟨rfl, _⟩
      rfl
  · rw [textDecoder_utf8_eq_some_iff, not_not] at h
    refine iff_of_false nofun ?_
    rintro ⟨rfl, hbom⟩
    exact hbom h

theorem decodeUtf8_eq_ok_iff : decodeUtf8 bytes = .ok text ↔ textDecoder bytes = some text := by
  rw [decodeUtf8]
  split
  · rename_i text' h
    rw [h, Option.some_inj]
    exact ⟨Except.ok.inj, congrArg _⟩
  · rename_i h
    rw [h]
    exact iff_of_false nofun nofun

/-- A text is read back from its bytes. -/
theorem decodeUtf8_of_utf8 (h : utf8 text = .ok bytes) : decodeUtf8 bytes = .ok text := by
  obtain ⟨rfl, hbom⟩ := utf8_eq_ok_iff.1 h
  exact decodeUtf8_eq_ok_iff.2 (textDecoder_utf8_eq_some_iff.2 hbom)

/-- Bytes without a byte order mark are those of the text that is read. -/
theorem utf8_of_decodeUtf8 (h : decodeUtf8 bytes = .ok text)
    (hbom : ¬byteOrderMark <+: bytes) : utf8 text = .ok bytes := by
  rw [decodeUtf8_eq_ok_iff, textDecoder_of_unmarked hbom, fromUtf8_eq_some_iff] at h
  exact utf8_eq_ok_iff.2 ⟨h.symm, hbom⟩

end Chronolog.Canonical
