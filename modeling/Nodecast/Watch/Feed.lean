import Nodecast.Json.Reader
import Nodecast.Watch.Notice

/-!
# Feeds

The objects of a kind come as pages of a list and then as lines of a watch.
-/

namespace Nodecast.Watch

/-- A page of a list. -/
structure Page where
  objects : List Tracked
  /-- Whether another page is to be asked for. -/
  more : Bool
  /-- The version of the list that a watch starts from. -/
  version : String

namespace Page

def textOr (j : Json) (name : String) : Option String :=
  (j.optional? name Json.text?).map fun s => s.getD ""

def ofJson? (kind : Kind) (j : Json) : Option Page := do
  guard j.isRecord
  let metadata := (j.member? "metadata").getD (.record [])
  guard metadata.isRecord
  let _ ← textOr metadata "selfLink"
  let _ ← metadata.optional? "remainingItemCount" Json.int64?
  let items ← (← j.member? "items").list?
  let objects ← items.mapM (Tracked.ofJson? kind)
  let more := !(← textOr metadata "continue").isEmpty
  return { objects, more, version := ← textOr metadata "resourceVersion" }

end Page

/-- A line of a watch. -/
inductive Line where
  | notice (n : Notice)
  /-- It only says how far the watch has come. -/
  | bookmark
  /-- It is not complete, which may happen at the end of a watch. -/
  | incomplete
  | failure

namespace Line

/-- An object must carry the version that the watch would go on from. -/
def versioned (kind : Kind) (make : Tracked → Notice) (j : Json) : Line :=
  match Tracked.ofJson? kind j with
  | some t => if (t.metadata.resourceVersion.getD "").isEmpty then .failure else .notice (make t)
  | none => .failure

def isBookmark (j : Json) : Bool :=
  (j.member? "metadata" >>= fun m => m.member? "resourceVersion" >>= Json.text?).isSome

def ofJson (kind : Kind) (j : Json) : Line :=
  match j.member? "type" >>= Json.text?, j.member? "object" with
  | some "ADDED", some o | some "MODIFIED", some o => versioned kind .applied o
  | some "DELETED", some o => versioned kind .deleted o
  | some "BOOKMARK", some o => if isBookmark o then .bookmark else .failure
  | _, _ => .failure

def parse (kind : Kind) (s : String) : Line :=
  match Json.parse s with
  | .ok j => ofJson kind j
  | .error .truncated => .incomplete
  | .error _ => .failure

end Line

/-! ## Watching -/

/-- How far the watch of a kind has come. -/
inductive Stage where
  /-- It asks for a page. The objects of the pages before are kept. -/
  | listing (objects : List Tracked)
  /-- It asks for a watch. -/
  | opening
  /-- It reads lines. -/
  | reading
  /-- It failed and rests before it lists again. -/
  | resting

/-- How long a failed watch rests, in milliseconds. -/
def rest : Nat := 5000

/-- A page came, or none did. With the last page the whole list is complete. -/
def listed (objects : List Tracked) : Option Page → Stage × Option Notice
  | none => (.resting, none)
  | some p =>
    let objects := objects ++ p.objects
    if p.more then (.listing objects, none)
    else if p.version.isEmpty then (.resting, none)
    else (.opening, some (.restarted objects))

/-- A line came. A failure ends the attempt. -/
def readLine : Line → Stage × Option Notice
  | .notice n => (.reading, some n)
  | .bookmark | .incomplete => (.reading, none)
  | .failure => (.resting, none)

end Nodecast.Watch
