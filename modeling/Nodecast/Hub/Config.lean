import Nodecast.Failure
import Nodecast.Time.Duration

/-!
# Hub configuration

How many events are buffered for a node, and how often an idle stream is kept alive.
-/

namespace Nodecast.Hub

structure Config where
  queueCapacity : Nat := 1000
  keepAlive : Duration := .ofSecs 15
deriving DecidableEq, Repr

namespace Config

instance : Inhabited Config := ⟨{}⟩

/-- The capacity is looked at first. -/
def validate (c : Config) : Except DeliveryError Unit :=
  if c.queueCapacity = 0 then
    .error (.configuration "subscriber queue capacity must be greater than zero")
  else if c.keepAlive.isZero then
    .error (.configuration "keep-alive interval must be greater than zero")
  else .ok ()

end Config

end Nodecast.Hub
