import Nodecast.Daemon
import Nodecast.Http.Path
import Nodecast.Json.Printer
import Nodecast.Time.Instant
import Nodecast.View

/-!
# Routes

What the daemon answers to a request.
-/

namespace Nodecast.Http

inductive Route where
  /-- The event stream of a node. -/
  | events (node : String)
  | subscribers
  | subscriber (node : String)
  | stats
  /-- Whether the daemon is alive. -/
  | health
  /-- Whether the pod index is complete. -/
  | readiness
deriving DecidableEq, Repr

/-- The routes under the base path. A node has a name that is not empty. -/
def Route.ofParts? : List String → Option Route
  | ["events", node] => if node.isEmpty then none else some (.events (decode node))
  | ["subscribers"] => some .subscribers
  | ["subscribers", node] => if node.isEmpty then none else some (.subscriber (decode node))
  | ["stats"] => some .stats
  | _ => none

def Route.ofPath? (base path : String) : Option Route :=
  match path with
  | "/healthz" => some .health
  | "/readyz" => some .readiness
  | _ =>
    let stem := parts (normalize (base ++ "/"))
    let stem := stem.take (stem.length - 1)
    let all := parts path
    if stem.isPrefixOf all then Route.ofParts? (all.drop stem.length) else none

structure Reply where
  status : Nat
  contentType : Option String := none
  body : String := ""
  /-- The stream that is sent as body. -/
  stream : Option Nat := none
deriving DecidableEq, Repr

namespace Reply

def plain (status : Nat) (body : String) : Reply :=
  { status, contentType := some "text/plain; charset=utf-8", body }

def json (status : Nat) (j : Json) : Reply :=
  { status, contentType := some "application/json; charset=utf-8", body := j.print }

def notFound : Reply := plain 404 "not found"

def methodNotAllowed : Reply := plain 405 "method not allowed"

end Reply

/-! ## Answers -/

def subscriberJson (s : Hub.SubscriberStats) : Json :=
  .record [("connected_at", .text (Instant.ofMillis s.connectedAt).print),
    ("delivered", .int s.delivered), ("pending", .int s.pending)]

/-- Opening the stream of a node registers it and announces its join. -/
def answerRoute (d : Daemon) : Route → Reply × Daemon
  | .events node =>
    let (generation, hub) := d.hub.subscribe node
    ({ status := 200, contentType := some "text/event-stream", stream := some generation },
      { d with hub })
  | .subscribers =>
    let all := d.hub.allSubscribers.map fun (node, s) => (node, subscriberJson s)
    (.json 200 (.record all), d)
  | .subscriber node =>
    match d.hub.subscriber? node with
    | some s => (.json 200 (subscriberJson s), d)
    | none => ({ status := 404 }, d)
  | .stats => (.json 200 (toJson d.hub.stats), d)
  | .health => (.plain 200 "ok", d)
  | .readiness =>
    let ready := d.index.isSynced
    let body := Json.record [("ready", .bool ready),
      ("indexed_pods", .int d.index.pods.records.size)]
    (.json (if ready then 200 else 503) body, d)

/-- A body that nobody reads is closed. -/
def withoutBody (r : Reply) (d : Daemon) : Reply × Daemon :=
  let d := match r.stream with
    | some generation => { d with hub := d.hub.drop generation }
    | none => d
  ({ r with body := "", stream := none }, d)

/-- A request for the head only does all that the request for the whole would do. -/
def answer (d : Daemon) (base method target : String) : Reply × Daemon :=
  match Route.ofPath? base (pathOf target), method with
  | none, _ => (.notFound, d)
  | some route, "GET" => answerRoute d route
  | some route, "HEAD" =>
    let (r, d) := answerRoute d route
    withoutBody r d
  | some _, _ => (.methodNotAllowed, d)

end Nodecast.Http
