import Nodecast.Api.Request

/-!
# URLs of servers

Whether a text may stand for the URL of a server: a host and a port, perhaps with a scheme in front
and a path behind, or a path alone.
-/

namespace Nodecast.Net

/-- Ranges of ASCII characters that may stand in a host. -/
def hostRanges : List (Nat × Nat) :=
  [(0x21, 0x21), (0x23, 0x24), (0x26, 0x3B), (0x3D, 0x3D), (0x3F, 0x5B), (0x5D, 0x5D), (0x5F, 0x5F),
    (0x61, 0x7A), (0x7E, 0x7E)]

def isSchemeChar (c : Char) : Bool := c.isAlphanum || c = '+' || c = '-' || c = '.'

/-- What stands behind the scheme, if there is one. -/
def afterScheme? (cs : List Char) : Option (List Char) :=
  let scheme := cs.takeWhile isSchemeChar
  match cs.drop scheme.length with
  | ':' :: '/' :: '/' :: rest => if 0 < scheme.length && scheme.length ≤ 64 then some rest else none
  | _ => none

/-- A host with one port at most, perhaps behind the name of a user. Colons of their own may stand
in brackets. -/
def isHost (cs : List Char) : Bool :=
  let host := (cs.reverse.takeWhile (· ≠ '@')).reverse
  let user := cs.take (cs.length - host.length)
  let outside := (host.reverse.takeWhile (· ≠ ']')).reverse
  let inside := host.take (host.length - outside.length)
  let bracketed := inside.head? = some '[' && (inside.filter fun c => c = '[' || c = ']').length = 2
  !host.isEmpty && (user ++ host).all (fun c => Api.inRanges hostRanges c || c = '%') &&
    !host.contains '%' && !user.any (fun c => c = '[' || c = ']') && !outside.contains '[' &&
    (inside.isEmpty || bracketed) && (outside.filter (· = ':')).length ≤ 1

def isUrl (s : String) : Bool :=
  match s.toList with
  | [] => false
  | ['*'] => true
  | '/' :: _ => Api.isSendable s
  | cs =>
    match afterScheme? cs with
    | none => isHost cs
    | some rest =>
      let host := rest.takeWhile fun c => c ≠ '/' && c ≠ '?' && c ≠ '#'
      isHost host && Api.isSendable (String.ofList (rest.drop host.length))

end Nodecast.Net
