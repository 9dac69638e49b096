import Nodecast.Api.Client
import Nodecast.Json.Reader

/-!
# API responses

A client that reads JSON. Of an object it looks at what is tracked only, so that it takes more
bodies for objects than a library does that reads whole objects.
-/

namespace Nodecast.Api

/-- The status and the code must be given, and the code has 16 bits. -/
def Failure.ofJson? (j : Json) : Option Failure := do
  guard j.isRecord
  let text (name : String) : Option String :=
    match j.member? name with
    | none => some ""
    | some v => v.text?
  let status ← (← j.member? "status").text?
  let code ← (← j.member? "code").int?
  guard (0 ≤ code ∧ code < 65536)
  return ⟨status, ← text "message", ← text "reason", code.toNat⟩

namespace Client

def readFailure? (body : String) : Option Failure := Json.parse? body >>= Failure.ofJson?

def readObject? (kind : Kind) (body : String) : Option Object :=
  Json.parse? body >>= Object.ofJson? kind

/-- What a response comes to. -/
def take (kind : Kind) (r : Response) : Except Mishap Object :=
  if 400 ≤ r.status then .error (.refused ((readFailure? r.body).getD (.unreadable r)))
  else (readObject? kind r.body).elim (.error .other) .ok

def ask (kind : Kind) (target : String) : Option Response → Except Mishap Object
  | some r => if isSendable target then take kind r else .error .other
  | none => .error .other

def json : Client where
  sends := isSendable
  isRefusal status := 400 ≤ status
  failure? := readFailure?
  object? := readObject?
  get := ask
  getOpt kind target response := settle (ask kind target response)

end Client

/-- Asks a server that has one response to everything for an object: the paths that are asked for,
and what comes of it. -/
def fetch (kind : Kind) (key : Key) (r : Response) :
    List String × Except CycleError (Option Tracked) :=
  let target := objectPath kind key
  (if isSendable target then [pathOf target] else [], Client.json.fetch kind key (some r))

end Nodecast.Api
