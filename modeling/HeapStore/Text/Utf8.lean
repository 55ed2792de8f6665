/-!
UTF-8 as lists of bytes. Writing is exact; reading accepts every byte list and puts U+FFFD in
place of each longest run of bytes that starts a character and cannot be completed. A text is
cut only between characters.
-/

namespace HeapStore.Utf8

/-- Bytes that one character takes. -/
def width (c : Char) : Nat :=
  if c.toNat < 0x80 then 1
  else if c.toNat < 0x800 then 2
  else if c.toNat < 0x10000 then 3
  else 4

def encodeChar (c : Char) : List UInt8 :=
  let n := c.toNat
  (if n < 0x80 then [n]
   else if n < 0x800 then [0xC0 + n / 64, 0x80 + n % 64]
   else if n < 0x10000 then [0xE0 + n / 4096, 0x80 + n / 64 % 64, 0x80 + n % 64]
   else [0xF0 + n / 262144, 0x80 + n / 4096 % 64, 0x80 + n / 64 % 64, 0x80 + n % 64]).map
    UInt8.ofNat

def encode (cs : List Char) : List UInt8 :=
  cs.flatMap encodeChar

def size : List Char → Nat
  | [] => 0
  | c :: cs => width c + size cs

/-- The longest initial part that takes at most `room` bytes. -/
def cut : Nat → List Char → List Char
  | _, [] => []
  | room, c :: cs => if width c ≤ room then c :: cut (room - width c) cs else []

/-- A character of which the first bytes have been read: how many more are owed, the range in
which the next one must lie, and the bits so far. -/
structure Lead where
  owed : Nat
  low : Nat
  high : Nat
  bits : Nat

/-- Stands in the text for bytes that are no character. -/
def replacement : Char := '\uFFFD'

/-- What a byte between characters yields: a character of one byte, the beginning of a longer
one, or nothing. The ranges leave out forms longer than needed, surrogates and values past
U+10FFFF. -/
def start (b : Nat) : List Char × Option Lead :=
  if b < 0x80 then ([Char.ofNat b], none)
  else if b < 0xC2 then ([replacement], none)
  else if b < 0xE0 then ([], some ⟨1, 0x80, 0xBF, b - 0xC0⟩)
  else if b = 0xE0 then ([], some ⟨2, 0xA0, 0xBF, 0⟩)
  else if b = 0xED then ([], some ⟨2, 0x80, 0x9F, 0xD⟩)
  else if b < 0xF0 then ([], some ⟨2, 0x80, 0xBF, b - 0xE0⟩)
  else if b = 0xF0 then ([], some ⟨3, 0x90, 0xBF, 0⟩)
  else if b < 0xF4 then ([], some ⟨3, 0x80, 0xBF, b - 0xF0⟩)
  else if b = 0xF4 then ([], some ⟨3, 0x80, 0x8F, 4⟩)
  else ([replacement], none)

/-- One byte: the characters it yields and the character that is pending after it. A byte that
does not fit ends the pending character and is looked at again on its own. -/
def step : Option Lead → Nat → List Char × Option Lead
  | none, b => start b
  | some lead, b =>
    if lead.low ≤ b ∧ b ≤ lead.high then
      let bits := lead.bits * 64 + b % 64
      if lead.owed = 1 then ([Char.ofNat bits], none)
      else ([], some ⟨lead.owed - 1, 0x80, 0xBF, bits⟩)
    else (replacement :: (start b).1, (start b).2)

def decodeFrom : Option Lead → List UInt8 → List Char
  | none, [] => []
  | some _, [] => [replacement]
  | pending, b :: bs =>
    (step pending b.toNat).1 ++ decodeFrom (step pending b.toNat).2 bs

def decode (bs : List UInt8) : List Char :=
  decodeFrom none bs

end HeapStore.Utf8
