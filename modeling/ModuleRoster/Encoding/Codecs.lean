import ModuleRoster.Encoding.Name

/-!
# Encoding/Codecs — the encodings that a system adds

`Encoding` has the encodings that every system has.  A system may have more, under names of its own,
and what they make of a text is taken as the system says it: bytes, or an error of any kind.
-/

namespace ModuleRoster

/-- An error of an encoder that a system adds: its kind, and its words. -/
structure CodecError where
  kind : Text
  words : Text
  deriving DecidableEq, Repr

/-- **The encodings that a system adds**: an encoder for a name, if it has one under this name. -/
class Codecs where
  encoder? : Text → Option (Text → Except CodecError Bytes)

namespace Codecs

/-- A system that adds no encoding.  Where nothing else is said, it is this one. -/
instance noFurther : Codecs := ⟨fun _ => none⟩

/-- Why a system has no bytes for a text under the name of an encoding. -/
inductive Refusal
  /-- The name has a null character, so the encoding is not even looked for. -/
  | nullCharacter
  /-- No encoding has this name. -/
  | unknown (name : Text)
  /-- The encoder has an error of its own. -/
  | own (error : CodecError)
  deriving DecidableEq, Repr

/-- The words for a refusal. -/
def Refusal.message : Refusal → Text
  | .nullCharacter => "embedded null character".toList
  | .unknown name => "unknown encoding: ".toList ++ name
  | .own error => error.words

/-- **Encode a text as a system does that adds encodings.** -/
def encode (codecs : Codecs) (name t : Text) : Except Refusal Bytes :=
  if '\x00' ∈ name then .error .nullCharacter
  else
    match codecs.encoder? name with
    | none => .error (.unknown name)
    | some encode => (encode t).mapError .own

end Codecs

end ModuleRoster
