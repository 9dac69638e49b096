import Nodecast.Settings

/-!
# Arguments

The arguments that a daemon is run with. An option is followed by its value, or holds it behind an
equals sign. The value of an option is looked at when the next option comes.
-/

namespace Nodecast.Cli

/-- Why the arguments do not make a daemon run. -/
inductive Stop where
  | noCommand
  | help
  | version
  | unknownCommand
  | unknownArgument
  /-- An option without a value, or with an empty one where it must not be empty. -/
  | missingValue
  | badValue
  | unneededValue
  | repeatedOption
deriving DecidableEq, Repr

/-- The word for the sort of stop. -/
def Stop.name : Stop → String
  | noCommand => "DisplayHelpOnMissingArgumentOrSubcommand"
  | help => "DisplayHelp"
  | version => "DisplayVersion"
  | unknownCommand => "InvalidSubcommand"
  | unknownArgument => "UnknownArgument"
  | missingValue => "InvalidValue"
  | badValue => "ValueValidation"
  | unneededValue => "TooManyValues"
  | repeatedOption => "ArgumentConflict"

/-! ## Options -/

inductive Switch where
  | kubeconfig
  | listenAddress
  | basePath
  | resources
  | workers
  | queueCapacity
  | keepAlive
  | retryBase
  | retryMax
  | metricsFile
  | metricsInterval
deriving DecidableEq, Repr

namespace Switch

def all : List Switch :=
  [kubeconfig, listenAddress, basePath, resources, workers, queueCapacity, keepAlive, retryBase,
    retryMax, metricsFile, metricsInterval]

def name : Switch → String
  | kubeconfig => "kubeconfig"
  | listenAddress => "listen-addr"
  | basePath => "base-path"
  | resources => "resources"
  | workers => "workers"
  | queueCapacity => "subscriber-queue-size"
  | keepAlive => "keep-alive-secs"
  | retryBase => "retry-base-delay-ms"
  | retryMax => "retry-max-delay-secs"
  | metricsFile => "metrics-file"
  | metricsInterval => "metrics-interval-secs"

def ofName? (s : String) : Option Switch := all.find? fun o => o.name = s

end Switch

/-! ## Values -/

/-- A decimal number below the bound. A plus sign may stand before it. -/
def readNumber (bound : Nat) (s : String) : Except Stop Nat :=
  let digits := match s.toList with
    | '+' :: rest => rest
    | cs => cs
  let value := digits.foldl (fun n c => 10 * n + (c.toNat - 48)) 0
  if digits.isEmpty || digits.any (fun c => !c.isDigit) || bound ≤ value then .error .badValue
  else .ok value

/-- A worker is needed. -/
def readWorkers (s : String) : Except Stop Nat := do
  let n ← readNumber (Nat.pow 2 16) s
  if n = 0 then .error .badValue else .ok n

def readPath (s : String) : Except Stop String :=
  if s.isEmpty then .error .missingValue else .ok s

def readAddress (s : String) : Except Stop Net.Address :=
  match Net.Address.parse? s with
  | some a => .ok a
  | none => .error .badValue

/-- Kinds with commas between them. -/
def readKinds (s : String) : Except Stop (List Kind) :=
  (s.splitOn ",").mapM fun part =>
    match Kind.parse part with
    | .ok kind => .ok kind
    | .error _ => .error .badValue

/-! ## Reading -/

/-- How far the options have been read. -/
structure Progress where
  settings : Settings := {}
  /-- Options whose values are settled. -/
  given : List Switch := []
  /-- The option that was read last, with its value if it has come. -/
  pending : Option (Switch × Option String) := none

namespace Progress

def set (p : Progress) (o : Switch) (value : String) : Except Stop Settings := do
  let s := p.settings
  match o with
  | .kubeconfig => return { s with kubeconfig := some (← readPath value) }
  | .listenAddress => return { s with listenAddress := ← readAddress value }
  | .basePath => return { s with basePath := value }
  | .resources =>
    let kinds ← readKinds value
    return { s with resources := if .resources ∈ p.given then s.resources ++ kinds else kinds }
  | .workers => return { s with workers := ← readWorkers value }
  | .queueCapacity => return { s with queueCapacity := ← readNumber (Nat.pow 2 64) value }
  | .keepAlive => return { s with keepAliveSecs := ← readNumber (Nat.pow 2 64) value }
  | .retryBase => return { s with retryBaseMillis := ← readNumber (Nat.pow 2 64) value }
  | .retryMax => return { s with retryMaxSecs := ← readNumber (Nat.pow 2 64) value }
  | .metricsFile => return { s with metricsFile := ← readPath value }
  | .metricsInterval => return { s with metricsIntervalSecs := ← readNumber (Nat.pow 2 64) value }

/-- Only kinds may be given more than once. That an option is repeated is found before its value is
looked at. -/
def give (p : Progress) (o : Switch) (value : String) : Except Stop Progress := do
  if o ≠ .resources ∧ o ∈ p.given then .error .repeatedOption
  return { settings := ← p.set o value, given := o :: p.given }

/-- Settles the option that was read last. -/
def settle (p : Progress) : Except Stop Progress :=
  match p.pending with
  | none => .ok p
  | some (_, none) => .error .missingValue
  | some (o, some value) => p.give o value

end Progress

/-- The name behind two dashes, and the value behind an equals sign. -/
def longOption? (arg : String) : Option (String × Option String) :=
  match arg.toList with
  | '-' :: '-' :: rest =>
    let name := rest.takeWhile (· ≠ '=')
    let value := (rest.drop name.length).tail?
    some (String.ofList name, value.map String.ofList)
  | _ => none

/-- The letter behind a single dash. -/
def shortOption? (arg : String) : Option Char :=
  match arg.toList with
  | ['-', '-'] => none
  | '-' :: c :: _ => some c
  | _ => none

/-- Help is given once the option before it is settled. -/
def Progress.help (p : Progress) : Except Stop Settings := do
  let _ ← p.settle
  .error .help

def Progress.read (p : Progress) : List String → Except Stop Settings
  | [] => p.settle.map Progress.settings
  | ["--"] => p.settle.map Progress.settings
  | "--" :: _ => .error .unknownArgument
  | arg :: rest =>
    match longOption? arg, shortOption? arg with
    | some ("help", none), _ => p.help
    | some ("help", some _), _ => .error .unneededValue
    | some (name, value), _ =>
      match Switch.ofName? name with
      | none => .error .unknownArgument
      | some o => do
        let p ← p.settle
        match value with
        | some v => (← p.give o v).read rest
        | none => Progress.read { p with pending := some (o, none) } rest
    | none, some c => if c = 'h' then p.help else .error .unknownArgument
    | none, none =>
      match p.pending with
      | some (o, none) => Progress.read { p with pending := some (o, some arg) } rest
      | _ => .error .unknownArgument

/-! ## Commands -/

def commands : List String := ["run", "help"]

/-- Help can be asked for one command. -/
def readHelp : List String → Stop
  | [] => .help
  | [command] => if command ∈ commands then .help else .unknownCommand
  | _ => .unknownCommand

/-- Behind two dashes there is no command. -/
def readBare : List String → Stop
  | [] => .noCommand
  | arg :: _ => if arg ∈ commands then .unknownArgument else .unknownCommand

/-- The settings of a daemon that is to be run. -/
def parse : List String → Except Stop Settings
  | [] => .error .noCommand
  | "run" :: rest => Progress.read {} rest
  | "help" :: rest => .error (readHelp rest)
  | "--" :: rest => .error (readBare rest)
  | arg :: _ =>
    match longOption? arg, shortOption? arg with
    | some ("help", none), _ => .error .help
    | some ("version", none), _ => .error .version
    | some ("help", some _), _ | some ("version", some _), _ => .error .unneededValue
    | some _, _ => .error .unknownArgument
    | none, some 'h' => .error .help
    | none, some 'V' => .error .version
    | none, some _ => .error .unknownArgument
    | none, none => .error .unknownCommand

end Nodecast.Cli
