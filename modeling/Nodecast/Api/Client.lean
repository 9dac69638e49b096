import Nodecast.Api.Request
import Nodecast.Failure
import Nodecast.Tracked

/-!
# The client

An object is asked for through a library, which takes the response apart. Only a refusal that names
the reason `NotFound` means to it that the object does not exist.
-/

namespace Nodecast.Api

structure Response where
  status : Nat
  body : String
deriving DecidableEq, Repr

/-- What the API says of a request that it refuses. -/
structure Failure where
  status : String
  message : String
  reason : String
  code : Nat
deriving DecidableEq, Repr

namespace Failure

def isNotFound (f : Failure) : Bool := f.reason = "NotFound"

/-- It stands for the failure that cannot be read from a response. -/
def unreadable (r : Response) : Failure :=
  ⟨toString r.status, r.body, "Failed to parse error data", r.status⟩

end Failure

/-- Why a request does not end with an object. -/
inductive Mishap where
  | refused (f : Failure)
  /-- The request was not sent, nothing came back, or what came back is no object. -/
  | other
deriving DecidableEq, Repr

/-- The library, with its readers of what the API sends. -/
structure Client where
  /-- Whether a request can be made for the target. -/
  sends : String → Bool
  /-- Whether a response with the status is a refusal. -/
  isRefusal : Nat → Bool
  /-- The failure that the body of a refusal tells of. -/
  failure? : String → Option Failure
  /-- The object of a kind that the body of any other response holds. -/
  object? : Kind → String → Option Object
  /-- What comes of asking for an object, given the response if there is one. -/
  get : Kind → String → Option Response → Except Mishap Object
  /-- What comes of asking for an object that need not exist. -/
  getOpt : Kind → String → Option Response → Except Mishap (Option Object)

namespace Client

/-- What is made of an object that need not exist: a refusal that names `NotFound` is no mishap. -/
def settle : Except Mishap Object → Except Mishap (Option Object)
  | .ok o => .ok (some o)
  | .error (.refused f) => if f.isNotFound then .ok none else .error (.refused f)
  | .error .other => .error .other

/-- Asks for the object of a key. Whatever goes wrong is a failure to fetch it. -/
def fetch (client : Client) (kind : Kind) (key : Key) (response : Option Response) :
    Except CycleError (Option Tracked) :=
  match client.getOpt kind (objectPath kind key) response with
  | .ok object => .ok (object.map (Tracked.ofObject kind))
  | .error _ => .error (.fetch kind key)

end Client

end Nodecast.Api
