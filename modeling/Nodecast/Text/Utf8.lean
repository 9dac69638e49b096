/-!
# Decoding UTF-8

Bytes that are no UTF-8 are read as replacement characters.
-/

namespace Nodecast.Text

def replacement : Char := Char.ofNat 0xFFFD

/-- What a first byte announces: how many bytes follow, the value of its own bits, and the bounds
of the byte that follows next. -/
def utf8Lead (b : Nat) : Option (Nat × Nat × Nat × Nat) :=
  if b < 0x80 then some (0, b, 0x80, 0xBF)
  else if b < 0xC2 then none
  else if b < 0xE0 then some (1, b - 0xC0, 0x80, 0xBF)
  else if b = 0xE0 then some (2, 0, 0xA0, 0xBF)
  else if b = 0xED then some (2, 0xD, 0x80, 0x9F)
  else if b < 0xF0 then some (2, b - 0xE0, 0x80, 0xBF)
  else if b = 0xF0 then some (3, 0, 0x90, 0xBF)
  else if b < 0xF4 then some (3, b - 0xF0, 0x80, 0xBF)
  else if b = 0xF4 then some (3, 4, 0x80, 0x8F)
  else none

/-- Reads bytes one by one. The state is what is expected next, if a character has begun: how many
bytes, the value so far, and the bounds of the next byte. -/
def decodeUtf8 : Option (Nat × Nat × Nat × Nat) → List Nat → List Char
  | none, [] => []
  | some _, [] => [replacement]
  | none, b :: rest =>
    match utf8Lead b with
    | none => replacement :: decodeUtf8 none rest
    | some (0, v, _, _) => Char.ofNat v :: decodeUtf8 none rest
    | some (n, v, low, high) => decodeUtf8 (some (n, v, low, high)) rest
  | some (n, v, low, high), b :: rest =>
    if low ≤ b && b ≤ high then
      let value := v * 64 + (b - 0x80)
      if n ≤ 1 then Char.ofNat value :: decodeUtf8 none rest
      else decodeUtf8 (some (n - 1, value, 0x80, 0xBF)) rest
    else
      -- the byte does not belong to the character that had begun
      match utf8Lead b with
      | none => replacement :: replacement :: decodeUtf8 none rest
      | some (0, v, _, _) => replacement :: Char.ofNat v :: decodeUtf8 none rest
      | some (n, v, low, high) => replacement :: decodeUtf8 (some (n, v, low, high)) rest

def ofUtf8 (bytes : List Nat) : String := String.ofList (decodeUtf8 none bytes)

def toUtf8 (s : String) : List Nat := s.toUTF8.toList.map UInt8.toNat

end Nodecast.Text
