import Nodecast.Build
import Nodecast.Cli.Arguments
import Nodecast.Log.Record

/-!
# Command line

Builds a daemon from the arguments and tells which kinds it collects. If a kubeconfig is named, its
text is taken from standard input.
-/

namespace Nodecast

/-- What a command ends with: the lines it shows, the complaint, and the exit code. -/
structure Outcome where
  shown : List String := []
  complaint : Option String := none
  code : UInt32 := 0

namespace Outcome

/-- Help and the version are no failures. -/
def ofStop (s : Cli.Stop) : Outcome :=
  match s with
  | .help | .version => { shown := [s.name] }
  | _ => { complaint := some s.name, code := 2 }

def enabled (kind : Kind) : Log.Record :=
  { level := .info, target := "nodecast", message := some "Collector enabled",
    fields := [("kind", .plain kind.name)] }

def ofBuild : Except BuildError Daemon → Outcome
  | .ok d => { shown := Log.shownLines (d.collectors.keys.map enabled) }
  | .error e => { complaint := some s!"Error: {e.message}", code := 1 }

def tell (o : Outcome) : IO UInt32 := do
  o.shown.forM fun line => IO.println line
  o.complaint.forM fun line => IO.eprintln line
  return o.code

end Outcome

/-- All that is left of a stream. -/
partial def readRest (stream : IO.FS.Stream) (read : String) : IO String := do
  let line ← stream.getLine
  if line.isEmpty then return read else readRest stream (read ++ line)

def readSource (s : Settings) : IO Kubeconfig.Source :=
  match s.kubeconfig with
  | none => return .nowhere
  | some _ => return .file (← readRest (← IO.getStdin) "")

end Nodecast

def main (args : List String) : IO UInt32 := do
  match Nodecast.Cli.parse args with
  | .error stop => (Nodecast.Outcome.ofStop stop).tell
  | .ok settings =>
    let source ← Nodecast.readSource settings
    (Nodecast.Outcome.ofBuild (settings.build source)).tell
