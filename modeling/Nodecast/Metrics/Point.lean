import Nodecast.Decimal.Shortest
import Nodecast.Named
import Nodecast.Text.Blank

/-!
# Points

A point is one line of the line protocol: a measurement, tags and fields in increasing order of
name, and a time.
-/

namespace Nodecast.Metrics

inductive FieldValue where
  | text (s : String)
  | integer (n : Int)
  | unsigned (n : Nat)
  | float (x : Float)
  | boolean (b : Bool)
deriving DecidableEq

structure Point where
  measurement : String
  tags : Named String := ∅
  fields : Named FieldValue := ∅
deriving DecidableEq

namespace Point

/-- A repeated name replaces the earlier value. -/
def tag (p : Point) (name value : String) : Point := { p with tags := p.tags.insert name value }

def field (p : Point) (name : String) (value : FieldValue) : Point :=
  { p with fields := p.fields.insert name value }

/-! ## Escaping -/

/-- A backslash goes before each special character and before each backslash. -/
def escape (special : List Char) (cs : List Char) : List Char :=
  cs.flatMap fun c => if c = '\\' ∨ c ∈ special then ['\\', c] else [c]

def inMeasurement : List Char := [',', ' ']

/-- Tag names, tag values and field names. -/
def inName : List Char := [',', '=', ' ']

def inText : List Char := ['"']

/-! ## Encoding -/

def encodeValue : FieldValue → List Char
  | .text s => '"' :: (escape inText s.toList ++ ['"'])
  | .integer n => (toString n).toList ++ ['i']
  | .unsigned n => (toString n).toList ++ ['u']
  | .float x => (Decimal.print x).toList
  | .boolean b => (if b then "true" else "false").toList

def encodeField (f : String × FieldValue) : List Char :=
  escape inName f.1.toList ++ '=' :: encodeValue f.2

def encodeTag (t : String × String) : List Char :=
  ',' :: (escape inName t.1.toList ++ '=' :: escape inName t.2.toList)

/-- A point without fields still needs one. -/
def shownFields (p : Point) : List (String × FieldValue) :=
  if p.fields.isEmpty then [("_empty", .boolean true)] else p.fields.pairs

def encodeFields : List (String × FieldValue) → List Char
  | [] => []
  | [f] => encodeField f
  | f :: rest => encodeField f ++ ',' :: encodeFields rest

/-- A point without its time. -/
def body (p : Point) : List Char :=
  escape inMeasurement p.measurement.toList ++ p.tags.pairs.flatMap encodeTag ++
    ' ' :: encodeFields p.shownFields

/-- One line, without the line break and without white space at its end. -/
def encode (p : Point) (timestamp : Int) : String :=
  Text.trimEnd (String.ofList (p.body ++ ' ' :: (toString timestamp).toList))

end Point

end Nodecast.Metrics
