import Nodecast.Json.Value
import Nodecast.Named

/-!
# Labels

Labels map names to texts. A selector is a set of labels that an object must carry.
-/

namespace Nodecast

abbrev Labels := Named String

namespace Labels

/-- Every pair of the selector is among the labels. -/
def matches? (l selector : Labels) : Bool :=
  selector.pairs.all fun p => l.get? p.1 = some p.2

/-! ## As JSON -/

def toJson (l : Labels) : Json := .record (l.pairs.map fun p => (p.1, .text p.2))

def ofJson? (j : Json) : Option Labels := do
  let members ← j.record?
  let pairs ← members.mapM fun (name, value) => value.text?.map fun s => (name, s)
  return Named.ofList pairs

end Labels

end Nodecast
