import Nodecast.Event
import Nodecast.Json.Printer
import Nodecast.Labels
import Nodecast.Time.Instant

/-!
# Object metadata

The metadata of a Kubernetes object, its JSON form, and the part of it that nodes are told. Fields
that change without the object changing in a way that matters are left out of that part.
-/

namespace Nodecast

structure OwnerReference where
  apiVersion : String := ""
  kind : String := ""
  name : String := ""
  uid : String := ""
  controller : Option Bool := none
  blockOwnerDeletion : Option Bool := none
deriving DecidableEq, Repr

/-- Which fields of an object a client owns. -/
structure ManagedFields where
  apiVersion : Option String := none
  fieldsType : Option String := none
  fields : Option Json := none
  manager : Option String := none
  operation : Option String := none
  subresource : Option String := none
  time : Option Instant := none

structure Metadata where
  annotations : Option Labels := none
  creationTimestamp : Option Instant := none
  deletionGracePeriodSeconds : Option Int := none
  deletionTimestamp : Option Instant := none
  finalizers : Option (List String) := none
  generateName : Option String := none
  generation : Option Int := none
  labels : Option Labels := none
  managedFields : Option (List ManagedFields) := none
  name : Option String := none
  space : Option String := none
  ownerReferences : Option (List OwnerReference) := none
  resourceVersion : Option String := none
  selfLink : Option String := none
  uid : Option String := none

instance : Inhabited Metadata := ⟨{}⟩

namespace Metadata

/-- The key of the object, if it has a name. -/
def key? (m : Metadata) : Option Key := m.name.map fun n => ⟨m.space.getD "", n⟩

def owners (m : Metadata) : List OwnerReference := m.ownerReferences.getD []

end Metadata

/-! ## Writing -/

/-- A member that is left out where there is no value. -/
def Json.optional {α : Type} (name : String) (toJson : α → Json) : Option α → List (String × Json)
  | some a => [(name, toJson a)]
  | none => []

def OwnerReference.toJson (o : OwnerReference) : Json :=
  .record ([("apiVersion", .text o.apiVersion)] ++
    Json.optional "blockOwnerDeletion" .bool o.blockOwnerDeletion ++
    Json.optional "controller" .bool o.controller ++
    [("kind", .text o.kind), ("name", .text o.name), ("uid", .text o.uid)])

def Instant.toJson (t : Instant) : Json := .text t.print

def ManagedFields.toJson (f : ManagedFields) : Json :=
  .record (Json.optional "apiVersion" .text f.apiVersion ++
    Json.optional "fieldsType" .text f.fieldsType ++
    Json.optional "fieldsV1" id f.fields ++
    Json.optional "manager" .text f.manager ++
    Json.optional "operation" .text f.operation ++
    Json.optional "subresource" .text f.subresource ++
    Json.optional "time" Instant.toJson f.time)

namespace Metadata

/-- All members, in increasing order of name. -/
def members (m : Metadata) : List (String × Json) :=
  Json.optional "annotations" Labels.toJson m.annotations ++
  Json.optional "creationTimestamp" Instant.toJson m.creationTimestamp ++
  Json.optional "deletionGracePeriodSeconds" .int m.deletionGracePeriodSeconds ++
  Json.optional "deletionTimestamp" Instant.toJson m.deletionTimestamp ++
  Json.optional "finalizers" (fun l => .list (l.map .text)) m.finalizers ++
  Json.optional "generateName" .text m.generateName ++
  Json.optional "generation" .int m.generation ++
  Json.optional "labels" Labels.toJson m.labels ++
  Json.optional "managedFields" (fun l => .list (l.map ManagedFields.toJson)) m.managedFields ++
  Json.optional "name" .text m.name ++
  Json.optional "namespace" .text m.space ++
  Json.optional "ownerReferences" (fun l => .list (l.map OwnerReference.toJson))
    m.ownerReferences ++
  Json.optional "resourceVersion" .text m.resourceVersion ++
  Json.optional "selfLink" .text m.selfLink ++
  Json.optional "uid" .text m.uid

/-- The members that nodes are never told. -/
def volatileMembers : List String :=
  ["resourceVersion", "creationTimestamp", "deletionTimestamp", "ownerReferences", "finalizers",
   "generateName", "deletionGracePeriodSeconds", "managedFields"]

/-- The text that nodes get as payload, and by which two states of an object are compared. -/
def fields (m : Metadata) : String :=
  (Json.record (m.members.filter fun p => !volatileMembers.contains p.1)).print

end Metadata

/-! ## Reading -/

namespace Json

/-- The value of a member that may be missing or null. -/
def optional? {α : Type} (j : Json) (name : String) (read : Json → Option α) :
    Option (Option α) :=
  match j.present? name with
  | none => some none
  | some v => (read v).map some

/-- An integer of 64 bits with a sign. -/
def int64? (j : Json) : Option Int :=
  j.int?.filter fun n => -(Int.pow 2 63) ≤ n && n < Int.pow 2 63

def instant? (j : Json) : Option Instant := j.text? >>= Instant.parse?

def listOf? {α : Type} (read : Json → Option α) (j : Json) : Option (List α) :=
  j.list? >>= fun items => items.mapM read

end Json

def OwnerReference.ofJson? (j : Json) : Option OwnerReference := do
  guard j.isRecord
  return {
    apiVersion := (← j.optional? "apiVersion" Json.text?).getD ""
    kind := (← j.optional? "kind" Json.text?).getD ""
    name := (← j.optional? "name" Json.text?).getD ""
    uid := (← j.optional? "uid" Json.text?).getD ""
    controller := ← j.optional? "controller" Json.bool?
    blockOwnerDeletion := ← j.optional? "blockOwnerDeletion" Json.bool? }

def ManagedFields.ofJson? (j : Json) : Option ManagedFields := do
  guard j.isRecord
  return {
    apiVersion := ← j.optional? "apiVersion" Json.text?
    fieldsType := ← j.optional? "fieldsType" Json.text?
    fields := ← j.optional? "fieldsV1" some
    manager := ← j.optional? "manager" Json.text?
    operation := ← j.optional? "operation" Json.text?
    subresource := ← j.optional? "subresource" Json.text?
    time := ← j.optional? "time" Json.instant? }

/-- Members that are missing or null count as absent, unknown ones are skipped. -/
def Metadata.ofJson? (j : Json) : Option Metadata := do
  guard j.isRecord
  return {
    annotations := ← j.optional? "annotations" Labels.ofJson?
    creationTimestamp := ← j.optional? "creationTimestamp" Json.instant?
    deletionGracePeriodSeconds := ← j.optional? "deletionGracePeriodSeconds" Json.int64?
    deletionTimestamp := ← j.optional? "deletionTimestamp" Json.instant?
    finalizers := ← j.optional? "finalizers" (Json.listOf? Json.text?)
    generateName := ← j.optional? "generateName" Json.text?
    generation := ← j.optional? "generation" Json.int64?
    labels := ← j.optional? "labels" Labels.ofJson?
    managedFields := ← j.optional? "managedFields" (Json.listOf? ManagedFields.ofJson?)
    name := ← j.optional? "name" Json.text?
    space := ← j.optional? "namespace" Json.text?
    ownerReferences := ← j.optional? "ownerReferences" (Json.listOf? OwnerReference.ofJson?)
    resourceVersion := ← j.optional? "resourceVersion" Json.text?
    selfLink := ← j.optional? "selfLink" Json.text?
    uid := ← j.optional? "uid" Json.text? }

end Nodecast
