import Nodecast.Json.Value

/-!
# JSON text

The compact form: no space between tokens, members in the order given. Strings escape the quote,
the backslash and the control characters below the space, and nothing else.
-/

namespace Nodecast.Json

def hexDigit (n : Nat) : Char :=
  if n < 10 then Char.ofNat ('0'.toNat + n) else Char.ofNat ('a'.toNat + (n - 10))

/-- How one character is written inside a string. -/
def escape (c : Char) : List Char :=
  if c = '"' then ['\\', '"']
  else if c = '\\' then ['\\', '\\']
  else if c = '\x08' then ['\\', 'b']
  else if c = '\x0c' then ['\\', 'f']
  else if c = '\n' then ['\\', 'n']
  else if c = '\r' then ['\\', 'r']
  else if c = '\t' then ['\\', 't']
  else if c.toNat < 0x20 then
    ['\\', 'u', '0', '0', hexDigit (c.toNat / 16), hexDigit (c.toNat % 16)]
  else [c]

def renderText (s : String) : List Char := '"' :: (s.toList.flatMap escape ++ ['"'])

def renderBool (b : Bool) : List Char := (if b then "true" else "false").toList

mutual

def render : Json → List Char
  | null => "null".toList
  | bool b => renderBool b
  | int n => (toString n).toList
  | real literal => literal.toList
  | text s => renderText s
  | list items => '[' :: renderItems items
  | record ms => '\x7b' :: renderMembers ms

/-- The items that are left, up to the closing bracket. -/
def renderItems : List Json → List Char
  | [] => [']']
  | [j] => render j ++ [']']
  | j :: rest => render j ++ ',' :: renderItems rest

/-- The members that are left, up to the closing brace. -/
def renderMembers : List (String × Json) → List Char
  | [] => ['\x7d']
  | [(name, j)] => renderText name ++ ':' :: (render j ++ ['\x7d'])
  | (name, j) :: rest => renderText name ++ ':' :: (render j ++ ',' :: renderMembers rest)

end

def print (j : Json) : String := String.ofList j.render

end Nodecast.Json
