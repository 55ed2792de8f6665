import HeapStore.Text.Utf8

/-!
Where a text may be cut, told by its bytes. A byte that goes on with a character shows it, so
whether an offset lies between two characters is seen from the one byte there, and the nearest such
offset is found by going back byte by byte.
-/

namespace HeapStore.Utf8

/-- Goes on with a character that begins further in front. -/
def continues (b : UInt8) : Bool :=
  0x80 ≤ b.toNat && b.toNat < 0xC0

/-- Both ends of a text are boundaries, and no offset past its end is. -/
def isBoundary (text : List UInt8) (offset : Nat) : Bool :=
  offset == 0 || match text[offset]? with
    | some b => !continues b
    | none => offset == text.length

/-- Goes back to a boundary. There is nothing if it would have to go on below zero. -/
def backUp? (text : List UInt8) : Nat → Option Nat
  | 0 => if isBoundary text 0 then some 0 else none
  | offset + 1 => if isBoundary text (offset + 1) then some (offset + 1) else backUp? text offset

end HeapStore.Utf8
