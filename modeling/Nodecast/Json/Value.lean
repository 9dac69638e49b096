/-!
# JSON values

Numbers are exact. A number written with a fraction or an exponent keeps its spelling, and is
never equal to an integer.
-/

namespace Nodecast

inductive Json where
  | null
  | bool (b : Bool)
  | int (n : Int)
  | real (literal : String)
  | text (s : String)
  | list (items : List Json)
  | record (members : List (String × Json))
deriving Inhabited, Repr

namespace Json

/-- The value of a member. Of members with one name the last counts. -/
def member? (j : Json) (name : String) : Option Json :=
  match j with
  | record ms => ms.reverse.lookup name
  | _ => none

def isNull : Json → Bool
  | null => true
  | _ => false

/-- A member that is there and not null. -/
def present? (j : Json) (name : String) : Option Json :=
  (j.member? name).filter (fun v => !v.isNull)

def bool? : Json → Option Bool
  | bool b => some b
  | _ => none

def int? : Json → Option Int
  | int n => some n
  | _ => none

def text? : Json → Option String
  | text s => some s
  | _ => none

def list? : Json → Option (List Json)
  | list items => some items
  | _ => none

def record? : Json → Option (List (String × Json))
  | record ms => some ms
  | _ => none

def isRecord (j : Json) : Bool := j.record?.isSome

end Json

end Nodecast
