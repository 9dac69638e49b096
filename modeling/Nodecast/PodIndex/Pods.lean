import Nodecast.PodIndex.Buckets
import Nodecast.PodIndex.Record

/-!
# Indexed Pods

Pods by key, with buckets that find the keys of a namespace and the keys of an owner.
-/

namespace Nodecast

structure Pods where
  records : Table Key PodRecord := ∅
  bySpace : Buckets Key := ∅
  byOwner : Buckets Key := ∅

namespace Pods

def get? (ps : Pods) (key : Key) : Option PodRecord := ps.records.get? key

def link (ps : Pods) (p : PodRecord) : Pods :=
  { ps with
    bySpace := ps.bySpace.link p.key.space p.key
    byOwner := ps.byOwner.linkAll p.ownerUids p.key }

def unlink (ps : Pods) (p : PodRecord) : Pods :=
  { ps with
    bySpace := ps.bySpace.unlink p.key.space p.key
    byOwner := ps.byOwner.unlinkAll p.ownerUids p.key }

/-- Takes the links of the record under this key away, if there is one. -/
def detach (ps : Pods) (key : Key) : Pods :=
  match ps.get? key with
  | some p => ps.unlink p
  | none => ps

/-- Whether the links of the record under the key of this Pod are right for this Pod too. -/
def isLinkedLike (ps : Pods) (p : PodRecord) : Bool :=
  (ps.get? p.key).any fun q => q.key.space = p.key.space && q.owners = p.owners

/-- Stores a Pod under its own key and answers what was stored there. Most updates leave the links
as they are. -/
def apply (ps : Pods) (p : PodRecord) : Option PodRecord × Pods :=
  let linked := if ps.isLinkedLike p then ps else (ps.detach p.key).link p
  (ps.get? p.key, { linked with records := ps.records.insert p.key p })

def delete (ps : Pods) (key : Key) : Option PodRecord × Pods :=
  (ps.get? key, { ps.detach key with records := ps.records.erase key })

/-- Of two Pods with one key the later one is kept. -/
def ofList (l : List PodRecord) : Pods := l.foldl (fun ps p => (ps.apply p).2) {}

end Pods

end Nodecast
