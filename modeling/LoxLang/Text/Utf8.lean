import LoxLang.Text.Hex

/-!
# Reading UTF-8

Bytes are read as text in the UTF-8 encoding, and the first fault stops the
reading.  The first byte of a character says how many bytes follow and in which
interval the second one lies, so that every code point has one encoding and
surrogates have none.  A fault covers the bytes that were acceptable before it:
a byte that begins no character, a byte that does not continue the character
begun, or the end of the input inside a character.

## Main definitions

* `Utf8Fault` — where reading failed and why, with its `message`.
* `Utf8Lead.ofByte?` — what the first byte of a character announces.
* `decodeUtf8` — the text that some bytes encode.

## References

The reading of a file by the reference's `Session`.
-/

namespace LoxLang

/-- Why some bytes are not text. -/
inductive Utf8Reason where
  /-- The byte cannot begin a character. -/
  | badStart
  /-- The byte cannot continue the character begun. -/
  | badContinuation
  /-- The input ends inside a character. -/
  | unexpectedEnd
  deriving DecidableEq, Repr, Inhabited

/-- The wording of a reason. -/
def Utf8Reason.message : Utf8Reason → String
  | .badStart => "invalid start byte"
  | .badContinuation => "invalid continuation byte"
  | .unexpectedEnd => "unexpected end of data"

/-- A fault in a sequence of bytes. -/
structure Utf8Fault where
  /-- The position of the first byte of the character that could not be read. -/
  start : Nat
  /-- That byte. -/
  first : UInt8
  /-- How many bytes the fault covers. -/
  length : Nat
  /-- Why the character could not be read. -/
  reason : Utf8Reason
  deriving DecidableEq, Repr

/-- The wording of a fault: one byte is named by its value, several by their
positions. -/
def Utf8Fault.message (f : Utf8Fault) : String :=
  if f.length = 1 then
    "'utf-8' codec can't decode byte 0x" ++ String.ofList (hexPadded 2 f.first.toNat)
      ++ " in position " ++ toString f.start ++ ": " ++ f.reason.message
  else
    "'utf-8' codec can't decode bytes in position " ++ toString f.start ++ "-"
      ++ toString (f.start + f.length - 1) ++ ": " ++ f.reason.message

/-- What the first byte of a character announces. -/
structure Utf8Lead where
  /-- The bits of the code point that the byte itself holds. -/
  bits : Nat
  /-- How many bytes follow. -/
  following : Nat
  /-- The least byte that may come second. -/
  lo : Nat := 0x80
  /-- The greatest byte that may come second. -/
  hi : Nat := 0xbf

/-- What a byte announces as the first one of a character. -/
def Utf8Lead.ofByte? (b : UInt8) : Option Utf8Lead :=
  let n := b.toNat
  if n < 0x80 then some ⟨n, 0, 0x80, 0xbf⟩
  else if n < 0xc2 then none
  else if n < 0xe0 then some ⟨n - 0xc0, 1, 0x80, 0xbf⟩
  else if n = 0xe0 then some ⟨0, 2, 0xa0, 0xbf⟩
  else if n = 0xed then some ⟨0xd, 2, 0x80, 0x9f⟩
  else if n < 0xf0 then some ⟨n - 0xe0, 2, 0x80, 0xbf⟩
  else if n = 0xf0 then some ⟨0, 3, 0x90, 0xbf⟩
  else if n < 0xf4 then some ⟨n - 0xf0, 3, 0x80, 0xbf⟩
  else if n = 0xf4 then some ⟨4, 3, 0x80, 0x8f⟩
  else none

/-- Reads the bytes that follow the first one.  `bits` is the code point so far,
`read` the number of bytes read, and the next byte lies between `lo` and `hi`. -/
def continueUtf8 (bits read lo hi : Nat) :
    (following : Nat) → List UInt8 → Except (Nat × Utf8Reason) Nat
  | 0, _ => .ok bits
  | _ + 1, [] => .error (read, .unexpectedEnd)
  | k + 1, b :: bs =>
      if lo ≤ b.toNat && b.toNat ≤ hi then
        continueUtf8 (bits * 64 + b.toNat % 64) (read + 1) 0x80 0xbf k bs
      else .error (read, .badContinuation)

/-- Reads bytes from position `offset` on.  The first `skip` of them belong to a
character that has been read, and `text` is what has been read so far, reversed. -/
def decodeUtf8From (text : List Char) :
    (skip offset : Nat) → List UInt8 → Except Utf8Fault (List Char)
  | _, _, [] => .ok text.reverse
  | skip + 1, offset, _ :: bs => decodeUtf8From text skip (offset + 1) bs
  | 0, offset, b :: bs =>
      match Utf8Lead.ofByte? b with
      | none => .error ⟨offset, b, 1, .badStart⟩
      | some lead =>
          match continueUtf8 lead.bits 1 lead.lo lead.hi lead.following bs with
          | .error (length, reason) => .error ⟨offset, b, length, reason⟩
          | .ok code => decodeUtf8From (Char.ofNat code :: text) lead.following (offset + 1) bs

/-- The text that the bytes encode, or the first fault in them. -/
def decodeUtf8 (bytes : List UInt8) : Except Utf8Fault (List Char) := decodeUtf8From [] 0 0 bytes

end LoxLang
