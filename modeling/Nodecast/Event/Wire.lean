import Nodecast.Event
import Nodecast.Json.Printer
import Nodecast.Json.Reader

/-!
# Events as JSON

An event is a record with its seven members in a fixed order. The payload is left out where there
is none. A reader also takes a list of the values in that order, and skips members it does not
know.
-/

namespace Nodecast.Event

open Json (Fault Reading skipGap stuck)

def payloadMember : Option String → List (String × Json)
  | some p => [("payload", .text p)]
  | none => []

def toJson (e : Event) : Json :=
  .record ([("kind", .text e.change.name), ("resource_kind", .text e.kind.name),
    ("uid", .text e.uid), ("namespace", .text e.space), ("name", .text e.name),
    ("node", .text e.node)] ++ payloadMember e.payload)

def encode (e : Event) : String := e.toJson.print

/-! ## Single values -/

/-- The fault of a value that starts here and has the wrong type. -/
def refuse (cs : List Char) : Fault :=
  let after {α : Type} : Reading α → Fault
    | .ok _ => .mismatch
    | .error e => e
  match cs with
  | [] => .truncated
  | 'n' :: rest => after (Json.readWord ['u', 'l', 'l'] rest)
  | 't' :: rest => after (Json.readWord ['r', 'u', 'e'] rest)
  | 'f' :: rest => after (Json.readWord ['a', 'l', 's', 'e'] rest)
  | '"' :: rest => after (Json.readText false rest)
  | c :: rest =>
    if c = '[' ∨ c = '\x7b' then .mismatch
    else if c = '-' ∨ c.isDigit then after (Json.readNumber (c :: rest))
    else .malformed

def readString (cs : List Char) : Reading String :=
  match skipGap cs with
  | '"' :: rest => (Json.readText false rest).map fun (s, rest) => (String.ofList s, rest)
  | other => .error (refuse other)

def readOptional (cs : List Char) : Reading (Option String) :=
  match skipGap cs with
  | 'n' :: rest => (Json.readWord ['u', 'l', 'l'] rest).map fun (_, rest) => (none, rest)
  | other => (readString other).map fun (s, rest) => (some s, rest)

def readNull (cs : List Char) : Reading Unit :=
  match skipGap cs with
  | 'n' :: rest => Json.readWord ['u', 'l', 'l'] rest
  | other => .error (refuse other)

def readBrace (cs : List Char) : Reading Unit :=
  match skipGap cs with
  | '\x7d' :: rest => .ok ((), rest)
  | other => .error (stuck other)

def readOneOf {α : Type} (ofName? : String → Option α) (cs : List Char) :
    Except Fault (α × List Char) := do
  let (s, rest) ← readString cs
  match ofName? s with
  | some a => return (a, rest)
  | none => throw .mismatch

/-- A name out of a fixed set, alone or as the only member of a record with the value null. -/
def readTag {α : Type} (ofName? : String → Option α) (cs : List Char) :
    Except Fault (α × List Char) :=
  match skipGap cs with
  | '\x7b' :: rest => do
    let (a, rest) ← readOneOf ofName? rest
    let ((), rest) ← Json.readColon rest
    let ((), rest) ← readNull rest
    let ((), rest) ← readBrace rest
    return (a, rest)
  | '"' :: rest => readOneOf ofName? ('"' :: rest)
  | other => .error (stuck other)

/-! ## A record -/

/-- What is known of an event while its members come in. -/
structure Draft where
  change : Option Change := none
  kind : Option Kind := none
  uid : Option String := none
  space : Option String := none
  name : Option String := none
  node : Option String := none
  payload : Option (Option String) := none

/-- All members but the payload are needed. -/
def Draft.finish (d : Draft) : Option Event := do
  return ⟨← d.change, ← d.kind, ← d.uid, ← d.space, ← d.name, ← d.node, d.payload.getD none⟩

/-- Reads the value of a member that may stand only once. -/
def readOnce {α : Type} (known : Option α) (read : List Char → Reading α) (cs : List Char) :
    Except Fault (α × List Char) := do
  if known.isSome then throw .mismatch
  let ((), cs) ← Json.readColon cs
  read cs

def Draft.readMember (d : Draft) (name : String) (cs : List Char) : Reading Draft :=
  match name with
  | "kind" => (readOnce d.change (readTag Change.ofName?) cs).map
      fun (v, cs) => ({ d with change := some v }, cs)
  | "resource_kind" => (readOnce d.kind (readTag Kind.ofName?) cs).map
      fun (v, cs) => ({ d with kind := some v }, cs)
  | "uid" => (readOnce d.uid readString cs).map fun (v, cs) => ({ d with uid := some v }, cs)
  | "namespace" => (readOnce d.space readString cs).map
      fun (v, cs) => ({ d with space := some v }, cs)
  | "name" => (readOnce d.name readString cs).map fun (v, cs) => ({ d with name := some v }, cs)
  | "node" => (readOnce d.node readString cs).map fun (v, cs) => ({ d with node := some v }, cs)
  | "payload" => (readOnce d.payload readOptional cs).map
      fun (v, cs) => ({ d with payload := some v }, cs)
  | _ => (readOnce (none : Option Unit) Json.skipValue cs).map fun (_, cs) => (d, cs)

/-- The members that are left. Each takes at least a character, so `fuel` lasts. -/
def Draft.readMembers : (fuel : Nat) → Draft → List Char → Except Fault (Draft × List Char)
  | 0, _, _ => .error .malformed
  | fuel + 1, d, cs => do
    let (name, cs) ← Json.readName false cs
    let (d, cs) ← d.readMember name cs
    match skipGap cs with
    | ',' :: cs => Draft.readMembers fuel d cs
    | '\x7d' :: cs => return (d, cs)
    | other => throw (stuck other)

def Draft.readRecord (cs : List Char) : Reading Draft :=
  match skipGap cs with
  | '\x7d' :: rest => .ok ({}, rest)
  | other => Draft.readMembers (other.length + 1) {} other

def readRecord (cs : List Char) : Except Fault (Event × List Char) := do
  let (d, rest) ← Draft.readRecord cs
  match d.finish with
  | some e => return (e, rest)
  | none => throw .mismatch

/-! ## A list -/

/-- Moves to the next item, or says that there is none. -/
def readNext (first : Bool) (cs : List Char) : Except Fault (Bool × List Char) :=
  match skipGap cs with
  | [] => .error .truncated
  | ']' :: rest => .ok (false, ']' :: rest)
  | c :: rest =>
    if first then .ok (true, c :: rest)
    else if c = ',' then
      match skipGap rest with
      | [] => .error .truncated
      | ']' :: _ => .error .malformed
      | other => .ok (true, other)
    else .error .malformed

def readItem {α : Type} (first : Bool) (read : List Char → Reading α) (cs : List Char) :
    Except Fault (α × List Char) := do
  match ← readNext first cs with
  | (true, cs) => read cs
  | (false, _) => throw .mismatch

def readClose (cs : List Char) : Reading Unit :=
  match skipGap cs with
  | ']' :: rest => .ok ((), rest)
  | other => .error (stuck other)

def readList (cs : List Char) : Except Fault (Event × List Char) := do
  let (change, cs) ← readItem true (readTag Change.ofName?) cs
  let (kind, cs) ← readItem false (readTag Kind.ofName?) cs
  let (uid, cs) ← readItem false readString cs
  let (space, cs) ← readItem false readString cs
  let (name, cs) ← readItem false readString cs
  let (node, cs) ← readItem false readString cs
  let (more, cs) ← readNext false cs
  let (payload, cs) ← if more then readOptional cs else pure (none, cs)
  let ((), cs) ← readClose cs
  return (⟨change, kind, uid, space, name, node, payload⟩, cs)

def read (cs : List Char) : Except Fault (Event × List Char) :=
  match skipGap cs with
  | '\x7b' :: rest => readRecord rest
  | '[' :: rest => readList rest
  | other => .error (refuse other)

def decode (s : String) : Except Fault Event := Json.complete read s

end Nodecast.Event
