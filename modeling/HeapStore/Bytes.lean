/-!
Lists of bytes and of bits: numbers of four bytes, most significant first; eight bits to a
byte, least significant first; and positioned access, where writing past the end fills the gap
with zeros.
-/

namespace HeapStore.Bytes

def zeros (n : Nat) : List UInt8 :=
  List.replicate n 0

/-- Exactly `n` bytes: zeros are added, or what is too much is left out. -/
def resize (bs : List UInt8) (n : Nat) : List UInt8 :=
  bs.take n ++ zeros (n - bs.length)

/-- The `n` bytes at `offset`, if they are all there. -/
def readAt? (bs : List UInt8) (offset n : Nat) : Option (List UInt8) :=
  if offset + n ≤ bs.length then some ((bs.drop offset).take n) else none

def writeAt (bs : List UInt8) (offset : Nat) (data : List UInt8) : List UInt8 :=
  if data = [] then bs
  else resize bs offset ++ data ++ bs.drop (offset + data.length)

/-- The low 32 bits of `n`. -/
def ofNat32 (n : Nat) : List UInt8 :=
  [n / 16777216, n / 65536, n / 256, n].map UInt8.ofNat

def toNat32 (bs : List UInt8) : Nat :=
  (bs.take 4).foldl (fun n b => n * 256 + b.toNat) 0

def ofBits (a b c d e f g h : Bool) : UInt8 :=
  UInt8.ofNat (a.toNat + 2 * b.toNat + 4 * c.toNat + 8 * d.toNat + 16 * e.toNat +
    32 * f.toNat + 64 * g.toNat + 128 * h.toNat)

def bitsOf (b : UInt8) : List Bool :=
  (List.range 8).map b.toNat.testBit

/-- The length of the list is a multiple of eight. -/
def pack : List Bool → List UInt8
  | a :: b :: c :: d :: e :: f :: g :: h :: rest => ofBits a b c d e f g h :: pack rest
  | _ => []

def unpack (bs : List UInt8) : List Bool :=
  bs.flatMap bitsOf

@[simp] theorem length_zeros (n : Nat) : (zeros n).length = n :=
  List.length_replicate

@[simp] theorem length_resize (bs : List UInt8) (n : Nat) : (resize bs n).length = n := by
  simp [resize]
  omega

@[simp] theorem length_ofNat32 (n : Nat) : (ofNat32 n).length = 4 := rfl

end HeapStore.Bytes
