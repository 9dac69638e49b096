import Nodecast.Text.Quoted

/-!
# Log records

A record is written as a line for people, or as the bare text of a report.
-/

namespace Nodecast.Log

/-- In increasing order of weight. -/
inductive Level where
  | trace
  | debug
  | info
  | warn
  | error
deriving DecidableEq, Repr

namespace Level

def all : List Level := [trace, debug, info, warn, error]

def name : Level → String
  | trace => "trace"
  | debug => "debug"
  | info => "info"
  | warn => "warn"
  | error => "error"

def ofName? (s : String) : Option Level := all.find? fun l => l.name = s

def rank : Level → Nat
  | trace => 0
  | debug => 1
  | info => 2
  | warn => 3
  | error => 4

/-- Five characters wide, with blanks in front. -/
def label : Level → String
  | trace => "TRACE"
  | debug => "DEBUG"
  | info => " INFO"
  | warn => " WARN"
  | error => "ERROR"

end Level

inductive Value where
  | text (s : String)
  /-- Text that is written as it is wherever it stands. -/
  | plain (s : String)
  /-- Text that is quoted wherever it stands. -/
  | quoted (s : String)
  | int (n : Int)
deriving DecidableEq, Repr

structure Record where
  level : Level
  target : String
  message : Option String := none
  fields : List (String × Value) := []
deriving DecidableEq, Repr

/-! ## Lines for people -/

def Value.shown : Value → String
  | text s | quoted s => Text.quote s
  | plain s => s
  | int n => toString n

/-- Without the time that stands in front. -/
def Record.line (r : Record) : String :=
  let fields := r.fields.map fun (name, value) => s!"{name}={value.shown}"
  let parts := r.message.toList ++ fields
  s!"{r.level.label} {r.target}: " ++ String.intercalate " " parts

/-! ## Reports -/

/-- In a report, text is not quoted. -/
def Value.reported : Value → String
  | text s | plain s => s
  | quoted s => Text.quote s
  | int n => toString n

/-- All values, with nothing between them and nothing behind them. -/
def Record.report (r : Record) : String :=
  String.join (r.message.toList ++ r.fields.map fun f => f.2.reported)

/-! ## Where a record goes -/

/-- The target of reports. -/
def reportTarget : String := "metrics"

def Record.isReport (r : Record) : Bool := r.target = reportTarget

/-- People see what has some weight. -/
def Record.isShown (r : Record) : Bool := !r.isReport && Level.info.rank ≤ r.level.rank

/-- What is added to the reports. -/
def reports (rs : List Record) : String :=
  String.join ((rs.filter Record.isReport).map Record.report)

/-- The lines that are added to the log. -/
def shownLines (rs : List Record) : List String := (rs.filter Record.isShown).map Record.line

end Nodecast.Log
