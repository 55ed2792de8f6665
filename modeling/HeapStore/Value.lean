import HeapStore.Bytes
import HeapStore.Schema
import HeapStore.Text.Utf8

/-!
Field values, their order and their fixed-width images. A number takes four bytes, most
significant first. A string is cut at `stringRoom` bytes between two characters; its image is
its length in four bytes, its text and zeros.
-/

namespace HeapStore

inductive Value where
  | int (n : Int32)
  | string (s : String)
  deriving DecidableEq, Repr

namespace Value

def type : Value → FieldType
  | int _ => .int
  | string _ => .string

/-- Values of different types are not comparable. -/
def compare? : Value → Value → Option Ordering
  | int a, int b => some (compare a b)
  | string a, string b => some (compare a b)
  | _, _ => none

instance : ToString Value where
  toString
    | int n => toString n.toInt
    | string s => s

/-- The part of a value that a page keeps. -/
def stored : Value → Value
  | int n => int n
  | string s => string (String.ofList (Utf8.cut stringRoom s.toList))

def encode : Value → List UInt8
  | int n => Bytes.ofNat32 n.toUInt32.toNat
  | string s =>
    let text := Utf8.encode (Utf8.cut stringRoom s.toList)
    Bytes.ofNat32 text.length ++ Bytes.resize text stringRoom

end Value

def decodeInt (bs : List UInt8) : Int32 :=
  Int32.ofNat (Bytes.toNat32 bs)

/-- Fails on a stored length that no string has, and gives that length. -/
def decodeString (bs : List UInt8) : Except Nat String :=
  let length := Bytes.toNat32 bs
  if stringRoom < length then .error length
  else .ok (String.ofList (Utf8.decode ((bs.drop 4).take length)))

end HeapStore
