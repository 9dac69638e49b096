import Nodecast.Metadata

/-!
# Tracked objects

Of an object only its metadata reaches the nodes. Beside it stands what is needed to find those
nodes: the selector of a Service and the node of a Pod.
-/

namespace Nodecast

structure Tracked where
  metadata : Metadata
  selector : Option Labels := none
  nodeName : Option String := none

instance : Inhabited Tracked := ⟨{ metadata := {} }⟩

/-- What is looked at in an object as the API has it. -/
structure Object where
  metadata : Metadata := {}
  selector : Option Labels := none
  nodeName : Option String := none

namespace Object

/-- The version or kind of an object need not be given, but may not be a wrong one. -/
def claims (j : Json) (member expected : String) : Option Unit :=
  match j.member? member with
  | none => some ()
  | some v => guard (v.text? = some expected)

/-- Reads an object of the kind. Of its `spec` only what is tracked is looked at. -/
def ofJson? (kind : Kind) (j : Json) : Option Object := do
  guard j.isRecord
  claims j "apiVersion" kind.apiVersion
  claims j "kind" kind.name
  let metadata := (← j.optional? "metadata" Metadata.ofJson?).getD {}
  let spec := (← j.optional? "spec" (fun s => s.record?.map fun _ => s)).getD (.record [])
  let nodeName ← if kind = .pod then spec.optional? "nodeName" Json.text? else some none
  let selector ← if kind = .service then spec.optional? "selector" Labels.ofJson? else some none
  return { metadata, selector, nodeName }

end Object

namespace Tracked

def uid (t : Tracked) : String := t.metadata.uid.getD ""

def name (t : Tracked) : String := t.metadata.name.getD ""

def space (t : Tracked) : String := t.metadata.space.getD ""

/-- What is tracked of an object of the kind. -/
def ofObject (kind : Kind) (o : Object) : Tracked :=
  match kind with
  | .pod => { metadata := o.metadata, nodeName := o.nodeName }
  | .service => { metadata := o.metadata, selector := o.selector }
  | _ => { metadata := o.metadata }

def ofJson? (kind : Kind) (j : Json) : Option Tracked :=
  (Object.ofJson? kind j).map (ofObject kind)

end Tracked

end Nodecast
