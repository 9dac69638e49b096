import Nodecast.Text.Utf8

/-!
# Paths

A path is split at slashes before its parts are decoded, so that an escaped slash belongs to a
part.
-/

namespace Nodecast.Http

def hexValue? (b : Nat) : Option Nat :=
  let c := Char.ofNat b
  if c.isDigit then some (b - 48)
  else if 'a' ≤ c && c ≤ 'f' then some (b - 87)
  else if 'A' ≤ c && c ≤ 'F' then some (b - 55)
  else none

/-- An escape that is not complete stands for itself. -/
def unescape : List Nat → List Nat
  | 37 :: a :: b :: rest =>
    match hexValue? a, hexValue? b with
    | some x, some y => (16 * x + y) :: unescape rest
    | _, _ => 37 :: unescape (a :: b :: rest)
  | b :: rest => b :: unescape rest
  | [] => []

/-- The text that a part of a path stands for. -/
def decode (part : String) : String := Text.ofUtf8 (unescape (Text.toUtf8 part))

/-- A path without what follows it in a request. -/
def pathOf (target : String) : String :=
  String.ofList (target.toList.takeWhile fun c => c ≠ '?' && c ≠ '#')

/-- The parts of a path, with an empty one in front for the slash it begins with. -/
def parts (path : String) : List String := path.splitOn "/"

/-- One slash in place of several, and one at the beginning. -/
def normalize (base : String) : String :=
  let squeezed := base.toList.foldr (fun c rest =>
    if c = '/' && rest.head? = some '/' then rest else c :: rest) []
  String.ofList (if squeezed.head? = some '/' then squeezed else '/' :: squeezed)

end Nodecast.Http
