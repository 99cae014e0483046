import Scriptlet.Text.Quoted

/-!
# Reading UTF-8

Bytes become text when they are well formed.  When they are not, the first fault is reported: the
bytes of the sequence that went wrong and the reason.  The scanner that finds it reads one byte at
a time and remembers only the sequence it stands in: how many bytes are still owed and between
which bounds the next one must lie.

* `Utf8.firstFault` — the scanner.
* `Utf8.decode` — the text, or the first fault.
-/

set_option autoImplicit false
namespace Scriptlet.Text.Utf8

/-- Why bytes are not well formed. -/
inductive Reason where
  | invalidStart
  | invalidContinuation
  | unexpectedEnd
  deriving DecidableEq, Repr

/-- The wording of a reason. -/
def Reason.message : Reason → String
  | .invalidStart => "invalid start byte"
  | .invalidContinuation => "invalid continuation byte"
  | .unexpectedEnd => "unexpected end of data"

/-- A fault covers the bytes from `start` up to, not including, `stop`; `byte` is the first. -/
structure Fault where
  reason : Reason
  start : Nat
  stop : Nat
  byte : UInt8
  deriving DecidableEq, Repr

/-- The wording of a fault: the byte and its position, or the positions of several bytes. -/
def Fault.message (f : Fault) : String :=
  let place :=
    if f.stop = f.start + 1 then
      "byte 0x" ++ String.ofList (hexPadded 2 f.byte.toNat) ++ " in position " ++ toString f.start
    else "bytes in position " ++ toString f.start ++ "-" ++ toString (f.stop - 1)
  "'utf-8' codec can't decode " ++ place ++ ": " ++ f.reason.message

/-- A sequence that has begun: where, with which byte, how many bytes it still owes, and the bounds
of the next one. -/
structure Pending where
  start : Nat
  byte : UInt8
  owed : Nat
  low : UInt8
  high : UInt8

/-- What the first byte of a longer sequence asks for: the number of further bytes and the bounds
of the next one.  The bounds keep out overlong forms, surrogates and values past the last code
point. -/
def lead? (b : UInt8) : Option (Nat × UInt8 × UInt8) :=
  if 0xc2 ≤ b && b ≤ 0xdf then some (1, 0x80, 0xbf)
  else if b == 0xe0 then some (2, 0xa0, 0xbf)
  else if b == 0xed then some (2, 0x80, 0x9f)
  else if 0xe1 ≤ b && b ≤ 0xef then some (2, 0x80, 0xbf)
  else if b == 0xf0 then some (3, 0x90, 0xbf)
  else if 0xf1 ≤ b && b ≤ 0xf3 then some (3, 0x80, 0xbf)
  else if b == 0xf4 then some (3, 0x80, 0x8f)
  else none

/-- The first fault of the bytes from an offset on, inside a pending sequence or between two. -/
def firstFault (offset : Nat) : Option Pending → List UInt8 → Option Fault
  | none, [] => none
  | some p, [] => some ⟨.unexpectedEnd, p.start, offset, p.byte⟩
  | none, b :: rest =>
    if b < 0x80 then firstFault (offset + 1) none rest
    else match lead? b with
      | none => some ⟨.invalidStart, offset, offset + 1, b⟩
      | some (owed, low, high) => firstFault (offset + 1) (some ⟨offset, b, owed, low, high⟩) rest
  | some p, b :: rest =>
    if p.low ≤ b && b ≤ p.high then
      let next :=
        if p.owed ≤ 1 then none else some { p with owed := p.owed - 1, low := 0x80, high := 0xbf }
      firstFault (offset + 1) next rest
    else some ⟨.invalidContinuation, p.start, offset, p.byte⟩

/-- The text of well-formed bytes, or the first fault. -/
def decode (bytes : ByteArray) : Except Fault String :=
  match String.fromUTF8? bytes with
  | some s => .ok s
  | none =>
    .error ((firstFault 0 none bytes.toList).getD ⟨.unexpectedEnd, bytes.size, bytes.size, 0⟩)

/-- Reading **undoes writing**. -/
theorem decode_toUTF8 (s : String) : decode s.toUTF8 = .ok s := by
  have h : String.fromUTF8? s.toUTF8 = some s := by
    rw [String.fromUTF8?, String.toUTF8_eq_toByteArray, dif_pos s.isValidUTF8]
    rfl
  rw [decode, h]

end Scriptlet.Text.Utf8
