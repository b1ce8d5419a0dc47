/-!
# UTF-8

Decoding of bytes by the table of well-formed byte sequences of the Unicode standard.  A byte that
begins no character is an invalid start byte; a character that the next byte cannot continue is
reported with its well-formed prefix; and a character that the input cuts short is reported up to
the end of the input.
-/

namespace DesignTokens
namespace Text

/-- Why bytes are not UTF-8. -/
inductive Utf8Defect
  /-- The byte begins no character. -/
  | start
  /-- The byte after the reported ones cannot continue the character. -/
  | continuation
  /-- The input ends within a character. -/
  | truncated
  deriving DecidableEq, Repr

/-- The first defect of some bytes. -/
structure Utf8Fault where
  /-- What is wrong. -/
  defect : Utf8Defect
  /-- Offset of the first byte reported. -/
  offset : Nat
  /-- The first byte reported. -/
  byte : UInt8
  /-- Number of bytes reported. -/
  width : Nat
  deriving DecidableEq, Repr

namespace Utf8

/-- What a first byte announces: the bits it contributes, how many bytes follow, and the range of
the first byte to follow. -/
structure Lead where
  /-- The high bits of the code point. -/
  bits : Nat
  /-- Number of bytes that follow. -/
  following : Nat
  /-- Least second byte. -/
  least : Nat
  /-- Greatest second byte. -/
  greatest : Nat
  deriving DecidableEq, Repr

/-- The table of well-formed first bytes. -/
def lead (byte : Nat) : Option Lead :=
  if byte < 0x80 then some ⟨byte, 0, 0x80, 0xBF⟩
  else if byte < 0xC2 then none
  else if byte < 0xE0 then some ⟨byte - 0xC0, 1, 0x80, 0xBF⟩
  else if byte = 0xE0 then some ⟨0, 2, 0xA0, 0xBF⟩
  else if byte = 0xED then some ⟨0xD, 2, 0x80, 0x9F⟩
  else if byte < 0xF0 then some ⟨byte - 0xE0, 2, 0x80, 0xBF⟩
  else if byte = 0xF0 then some ⟨0, 3, 0x90, 0xBF⟩
  else if byte < 0xF4 then some ⟨byte - 0xF0, 3, 0x80, 0xBF⟩
  else if byte = 0xF4 then some ⟨4, 3, 0x80, 0x8F⟩
  else none

/-- A character whose first bytes have been read. -/
structure Pending where
  /-- Offset of its first byte. -/
  offset : Nat
  /-- Its first byte. -/
  byte : UInt8
  /-- Number of bytes read. -/
  read : Nat
  /-- The code point as far as it is known, and what must follow. -/
  expected : Lead

/-- The fault of a character that breaks off. -/
def Pending.fault (pending : Pending) (defect : Utf8Defect) : Utf8Fault :=
  ⟨defect, pending.offset, pending.byte, pending.read⟩

/-- Decode from the given offset, within the character `pending` if there is one. -/
def decodeFrom (offset : Nat) (pending : Option Pending) :
    List UInt8 → Except Utf8Fault (List Char)
  | [] =>
      match pending with
      | none => .ok []
      | some pending => .error (pending.fault .truncated)
  | byte :: rest =>
      match pending with
      | none =>
          match lead byte.toNat with
          | none => .error ⟨.start, offset, byte, 1⟩
          | some expected =>
              if expected.following = 0 then
                (decodeFrom (offset + 1) none rest).map (Char.ofNat expected.bits :: ·)
              else
                decodeFrom (offset + 1) (some ⟨offset, byte, 1, expected⟩) rest
      | some pending =>
          if pending.expected.least ≤ byte.toNat ∧ byte.toNat ≤ pending.expected.greatest then
            let bits := pending.expected.bits * 64 + (byte.toNat - 0x80)
            if pending.expected.following ≤ 1 then
              (decodeFrom (offset + 1) none rest).map (Char.ofNat bits :: ·)
            else
              decodeFrom (offset + 1)
                (some { pending with
                  read := pending.read + 1
                  expected := ⟨bits, pending.expected.following - 1, 0x80, 0xBF⟩ }) rest
          else
            .error (pending.fault .continuation)

/-- The characters that some bytes encode. -/
def decode (bytes : List UInt8) : Except Utf8Fault (List Char) := decodeFrom 0 none bytes

/-- The bytes of a text. -/
def encode (text : String) : List UInt8 := text.toUTF8.toList

end Utf8

namespace Utf8Fault

/-- The defect in words. -/
def reason (fault : Utf8Fault) : String :=
  match fault.defect with
  | .start => "invalid start byte"
  | .continuation => "invalid continuation byte"
  | .truncated => "unexpected end of data"

end Utf8Fault
end Text
end DesignTokens
