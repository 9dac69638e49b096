import Nodecast.Key
import Nodecast.Kind

/-!
# API requests

The paths under which objects are served. Names are put into a path as they are, so that not every
name makes a path.
-/

namespace Nodecast.Api

def root (kind : Kind) : String :=
  (if kind.apiVersion.contains '/' then "/apis/" else "/api/") ++ kind.apiVersion

/-- All objects of a kind. -/
def collectionPath (kind : Kind) : String := s!"{root kind}/{kind.plural}"

/-- One object. The namespace of a key is left out if the kind has none. -/
def objectPath (kind : Kind) (key : Key) : String :=
  if kind.isNamespaced then s!"{root kind}/namespaces/{key.space}/{kind.plural}/{key.name}"
  else s!"{root kind}/{kind.plural}/{key.name}"

/-! ## What may be sent -/

/-- Ranges of ASCII characters that may stand in a path. -/
def pathRanges : List (Nat × Nat) :=
  [(0x21, 0x22), (0x24, 0x3B), (0x3D, 0x3D), (0x40, 0x5F), (0x61, 0x7E)]

/-- Behind a question mark a few more characters may stand. -/
def queryRanges : List (Nat × Nat) := [(0x21, 0x21), (0x24, 0x3B), (0x3D, 0x3D), (0x3F, 0x7E)]

def inRanges (ranges : List (Nat × Nat)) (c : Char) : Bool :=
  ranges.any fun r => r.1 ≤ c.toNat && c.toNat ≤ r.2

/-- What comes behind a number sign is not looked at. -/
def isSendable (target : String) : Bool :=
  let target := target.toList.takeWhile (· ≠ '#')
  let path := target.takeWhile (· ≠ '?')
  let query := target.drop (path.length + 1)
  path.all (inRanges pathRanges) && query.all (inRanges queryRanges)

/-- The part of a target that names the object. -/
def pathOf (target : String) : String :=
  String.ofList (target.toList.takeWhile fun c => c ≠ '?' && c ≠ '#')

end Nodecast.Api
