/-!
# Keys

A key names one object of a kind. Objects outside any namespace have an empty one.
-/

namespace Nodecast

structure Key where
  space : String
  name : String
deriving DecidableEq, Repr, Inhabited

namespace Key

def clusterScoped (name : String) : Key := ⟨"", name⟩

def isClusterScoped (k : Key) : Bool := k.space.isEmpty

/-- `space/name`, or the bare name of a cluster-scoped object. -/
def display (k : Key) : String :=
  if k.isClusterScoped then k.name else s!"{k.space}/{k.name}"

/-- By namespace first, then by name. -/
def le (a b : Key) : Bool := a.space < b.space || (a.space = b.space && a.name ≤ b.name)

def sort (ks : List Key) : List Key := ks.mergeSort le

end Key

end Nodecast
