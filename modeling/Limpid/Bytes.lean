import Mathlib.Data.List.Basic

/-!
# Bytes

Byte strings are lists of bytes.  Text is the byte strings that are valid UTF-8.
-/

namespace Limpid

/-- What holds of all members of a list is decided member by member; deciding it of all characters
or all bytes would take too long. -/
instance (priority := high) decidableForallMem {α : Type*} (p : α → Prop) [DecidablePred p]
    (l : List α) : Decidable (∀ a ∈ l, p a) := List.decidableBAll p l

instance (priority := high) decidableForallMemOption {α : Type*} (p : α → Prop) [DecidablePred p]
    (o : Option α) : Decidable (∀ a ∈ o, p a) := Option.decidableForallMem o

/-- `Vec<u8>` and `&[u8]`. -/
abbrev Bytes := List UInt8

/-- The line feed. -/
def newline : UInt8 := 10

/-- The carriage return. -/
def carriageReturn : UInt8 := 13

/-- `u8::is_ascii_whitespace`. -/
def isAsciiWhitespace (b : UInt8) : Bool :=
  b = 32 || b = 9 || b = 10 || b = 12 || b = 13

/-- Whether a byte string is valid UTF-8. -/
def validUtf8 (data : Bytes) : Bool :=
  (ByteArray.mk data.toArray).validateUTF8

end Limpid
