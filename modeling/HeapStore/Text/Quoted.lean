import HeapStore.Text.Unprintable

/-!
Names in double quotes. A quote and a backslash are preceded by a backslash, four control
characters have a letter of their own, and whatever else cannot be seen is written by its code
point in hexadecimal.
-/

namespace HeapStore.Text

def codePoint (c : Char) : List Char :=
  "\\u\x7b".toList ++ Nat.toDigits 16 c.toNat ++ ['\x7d']

def escape (c : Char) : List Char :=
  if c = '\x00' then ['\\', '0']
  else if c = '\t' then ['\\', 't']
  else if c = '\n' then ['\\', 'n']
  else if c = '\r' then ['\\', 'r']
  else if c = '"' then ['\\', '"']
  else if c = '\\' then ['\\', '\\']
  else if c.toNat < 0x20 || c.toNat = 0x7F || isUnprintable c then codePoint c
  else [c]

def quoted (name : String) : String :=
  String.ofList ('"' :: name.toList.flatMap escape ++ ['"'])

end HeapStore.Text
