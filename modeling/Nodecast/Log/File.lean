import Nodecast.Log.Path

/-!
# Log files

A new file is begun each day. The day is added to its name.
-/

namespace Nodecast.Log

structure File where
  dir : String
  name : String
deriving DecidableEq, Repr

/-- The name with the day behind it. -/
def File.dated (f : File) (day : String) : String := s!"{f.name}.{day}"

/-- Whether the file can be created. Its name is made longer by the day. -/
def File.isCreatable (f : File) : Bool := Log.isCreatable f.dir (f.dated "yyyy-mm-dd")

/-- The file for the lines for people. Without one they go elsewhere. -/
def lineFile? (path : Option String) : Option File :=
  let file? := path.map fun p : String =>
    ({ dir := (parent? p).getD ".", name := (fileName? p).getD "metacollector.log" } : File)
  file?.filter File.isCreatable

/-- Why reports cannot be written. -/
inductive ReportFault where
  | invalidPath (path : String)
  | uncreatable (dir : String)
  /-- Reports go to another file already. -/
  | alreadySet
deriving DecidableEq, Repr

def ReportFault.message : ReportFault → String
  | invalidPath path => s!"invalid metrics file {path}"
  | uncreatable dir => s!"cannot create metrics appender in {dir}"
  | alreadySet => "global tracing subscriber already set"

/-- The file for reports. -/
def reportFile (path : String) : Except ReportFault File :=
  match fileName? path with
  | none => .error (.invalidPath path)
  | some name =>
    let dir := ((parent? path).filter fun d => !d.isEmpty).getD "."
    let file : File := { dir, name }
    if file.isCreatable then .ok file else .error (.uncreatable dir)

/-- Asks for a second file for reports, which is never given. -/
def reportFileAgain (path : String) : ReportFault :=
  match reportFile path with
  | .ok _ => .alreadySet
  | .error e => e

end Nodecast.Log
