import ThriftTypings.Text.Shown

/-
  This file defines the UTF-8 encoding of texts and its
  decoding, with the exact place and kind of the first
  fault.
-/

namespace ThriftTypings

namespace Utf8

-- Encoding

/- The bytes of a text. -/
def encode
    (text : Text) : List UInt8 :=
  text.flatMap String.utf8EncodeChar

-- Faults

/- The kinds of faults. -/
inductive FaultKind where
  | invalidStart
  | invalidContinuation
  | unexpectedEnd
  deriving DecidableEq, Repr

/-
  A fault: the bytes that it covers, of which there is at
  least one, and the position of the first of them.
-/
structure Fault where
  kind : FaultKind
  position : Nat
  first : UInt8
  length : Nat
  deriving DecidableEq, Repr

/- The wording of a kind of fault. -/
def FaultKind.message : FaultKind → Text
  | .invalidStart => "invalid start byte".toList
  | .invalidContinuation => "invalid continuation byte".toList
  | .unexpectedEnd => "unexpected end of data".toList

/- The wording of a fault. -/
def Fault.message
    (fault : Fault) : Text :=
  let place :=
    if fault.length = 1 then
      "byte 0x".toList ++ Text.hex 2 fault.first.toNat ++
        " in position ".toList ++ Text.ofNat fault.position
    else
      "bytes in position ".toList ++
        Text.ofNat fault.position ++ "-".toList ++
        Text.ofNat (fault.position + fault.length - 1)
  "'utf-8' codec can't decode ".toList ++ place ++
    ": ".toList ++ fault.kind.message

-- Decoding

/-
  The bounds of the second byte after a given first one.
  They keep out overlong forms, surrogates and code points
  beyond the last one.
-/
def secondBounds
    (first : UInt8) : UInt8 × UInt8 :=
  if first = 0xE0 then (0xA0, 0xBF)
  else if first = 0xED then (0x80, 0x9F)
  else if first = 0xF0 then (0x90, 0xBF)
  else if first = 0xF4 then (0x80, 0x8F)
  else (0x80, 0xBF)

/-
  The number of bytes that a first byte announces, and the
  bits of the code point that it carries.
-/
def announced
    (first : UInt8) : Option (Nat × Nat) :=
  if first < 0x80 then some (1, first.toNat)
  else if first < 0xC2 then none
  else if first < 0xE0 then some (2, first.toNat - 0xC0)
  else if first < 0xF0 then some (3, first.toNat - 0xE0)
  else if first < 0xF5 then some (4, first.toNat - 0xF0)
  else none

/-
  Reads `more` continuation bytes. `taken` counts the bytes
  of the character read so far, and `(low, high)` bounds the
  next one. Gives the code point and the rest, or the kind
  of fault and the number of bytes that it covers.
-/
def continued
    (low high : UInt8) :
    (more taken code : Nat) → List UInt8 →
      Except (FaultKind × Nat) (Nat × List UInt8)
  | 0, _, code, rest => .ok (code, rest)
  | _ + 1, taken, _, [] => .error (.unexpectedEnd, taken)
  | more + 1, taken, code, byte :: rest =>
      if low ≤ byte && byte ≤ high then
        continued 0x80 0xBF more (taken + 1)
          (code * 64 + (byte.toNat - 0x80)) rest
      else
        .error (.invalidContinuation, taken)

/- What continued bytes leave is no longer than they were. -/
theorem length_le_of_continued
    {low high : UInt8}
    {more taken code : Nat}
    {bytes rest : List UInt8}
    {value : Nat}
    (h : continued low high more taken code bytes =
      .ok (value, rest)) :
    rest.length ≤ bytes.length := by
  induction more generalizing low high taken code bytes with
  | zero =>
      cases bytes <;> simp [continued] at h <;> simp [h]
  | succ more ih =>
      cases bytes with
      | nil => simp [continued] at h
      | cons byte bytes =>
          simp only [continued] at h
          split at h
          · have := ih h
            simp only [List.length_cons]
            omega
          · cases h

/- Decodes the bytes from a given position on. -/
def decodeFrom
    (position : Nat) : List UInt8 → Except Fault Text
  | [] => .ok []
  | first :: rest =>
      match announced first with
      | none => .error ⟨.invalidStart, position, first, 1⟩
      | some (size, bits) =>
          let bounds := secondBounds first
          match _h : continued bounds.1 bounds.2
              (size - 1) 1 bits rest with
          | .error (kind, length) =>
              .error ⟨kind, position, first, length⟩
          | .ok (code, more) =>
              match decodeFrom (position + size) more with
              | .error fault => .error fault
              | .ok text => .ok (Char.ofNat code :: text)
termination_by bytes => bytes.length
decreasing_by
  have := length_le_of_continued _h
  simp only [List.length_cons]
  omega

/- The text that the bytes encode, or the first fault. -/
def decode
    (bytes : List UInt8) : Except Fault Text :=
  decodeFrom 0 bytes

end Utf8

end ThriftTypings
