import Nodecast.Api.Request
import Nodecast.Failure
import Nodecast.Schedule
import Nodecast.Tracked

/-!
# A cluster in memory

Objects of every kind, and what the next calls to the API have to go through.
-/

namespace Nodecast.Simulation

/-- What the next calls of one sort go through. -/
structure Trouble where
  /-- A wait that only the next call has: so many milliseconds, or for ever. -/
  delay : Option (Option Nat) := none
  /-- How many calls fail from now on. -/
  failures : Nat := 0
deriving DecidableEq, Repr

/-- The wait of a call. -/
inductive Wait where
  | past
  | ends (d : Deadline)
  | never
deriving DecidableEq, Repr

namespace Wait

def deadline : Wait → Option Deadline
  | ends d => some d
  | _ => none

def isOver (now : Nat) : Wait → Bool
  | past => true
  | ends d => d.isOver now
  | never => false

end Wait

namespace Trouble

/-- A call begins. -/
def begin (t : Trouble) (m : Moment) : Wait × Trouble :=
  let wait : Wait := match t.delay with
    | none => .past
    | some none => .never
    | some (some ms) => .ends (m.after ms)
  (wait, { t with delay := none })

/-- A call answers, and either fails or not. -/
def fails (t : Trouble) : Bool × Trouble := (0 < t.failures, { t with failures := t.failures - 1 })

end Trouble

structure Cluster where
  objects : Table Kind (Table Key Tracked) := ∅
  reads : Table Kind Trouble := ∅
  /-- Whether an object is asked for by its path. Not every key makes one. -/
  byPath : Bool := false

namespace Cluster

def objectsOf (c : Cluster) (kind : Kind) : Table Key Tracked := c.objects.getD kind ∅

def get? (c : Cluster) (kind : Kind) (key : Key) : Option Tracked := (c.objectsOf kind).get? key

def put (c : Cluster) (kind : Kind) (key : Key) (object : Tracked) : Cluster :=
  { c with objects := c.objects.insert kind ((c.objectsOf kind).insert key object) }

def remove (c : Cluster) (kind : Kind) (key : Key) : Cluster :=
  { c with objects := c.objects.insert kind ((c.objectsOf kind).erase key) }

def readsOf (c : Cluster) (kind : Kind) : Trouble := c.reads.getD kind {}

def setReads (c : Cluster) (kind : Kind) (t : Trouble) : Cluster :=
  { c with reads := c.reads.insert kind t }

/-- A single read begins. -/
def beginRead (c : Cluster) (kind : Kind) (m : Moment) : Wait × Cluster :=
  let (wait, t) := (c.readsOf kind).begin m
  (wait, c.setReads kind t)

def isReadable (c : Cluster) (kind : Kind) (key : Key) : Bool :=
  !c.byPath || Api.isSendable (Api.objectPath kind key)

/-- A single read is answered. -/
def read (c : Cluster) (kind : Kind) (key : Key) : Except CycleError (Option Tracked) × Cluster :=
  if c.isReadable kind key then
    let (failed, t) := (c.readsOf kind).fails
    let answer := if failed then .error (.fetch kind key) else .ok (c.get? kind key)
    (answer, c.setReads kind t)
  else (.error (.fetch kind key), c)

/-- All objects of a kind in order of key. -/
def list (c : Cluster) (kind : Kind) : List Tracked :=
  ((c.objectsOf kind).entries.mergeSort fun a b => a.1.le b.1).map Prod.snd

end Cluster

end Nodecast.Simulation
