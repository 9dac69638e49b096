import Nodecast.Yaml.Scalar

/-!
# Flow collections

Lists in brackets and mappings in braces, on one line or on several.
-/

namespace Nodecast.Yaml

def skipBlanks (cs : List Char) : List Char := cs.dropWhile fun c => c = ' ' || c = '\t' || c = '\n'

def trimBlanks (cs : List Char) : List Char :=
  (skipBlanks (skipBlanks cs).reverse).reverse

/-- A scalar without quotes, up to what ends it in a flow collection. -/
def takePlain : List Char → List Char × List Char
  | [] => ([], [])
  | ':' :: rest =>
    match rest with
    | [] | ' ' :: _ | ',' :: _ | ']' :: _ | '\x7d' :: _ => ([], ':' :: rest)
    | _ =>
      let (s, rest) := takePlain rest
      (':' :: s, rest)
  | c :: rest =>
    if c ∈ [',', '[', ']', '\x7b', '\x7d', '\n'] then ([], c :: rest)
    else
      let (s, rest) := takePlain rest
      (c :: s, rest)

def readScalar (cs : List Char) : Option (Json × List Char) :=
  match cs with
  | '"' :: _ | '\'' :: _ => (readQuoted cs).map fun (s, rest) => (.text s, rest)
  | _ =>
    let (s, rest) := takePlain cs
    let s := trimBlanks s
    if s.isEmpty || s.head?.any (· ∈ marks) then none
    else some (plainValue (String.ofList s), rest)

/-- What a key stands for as text. -/
def keyText : Json → Option String
  | .text s => some s
  | .int n => some (toString n)
  | _ => none

mutual

def readFlow : (fuel : Nat) → List Char → Option (Json × List Char)
  | 0, _ => none
  | fuel + 1, cs =>
    match skipBlanks cs with
    | '[' :: rest => (readFlowItems fuel rest).map fun (items, rest) => (.list items, rest)
    | '\x7b' :: rest => (readFlowMembers fuel rest).map fun (ms, rest) => (.record ms, rest)
    | cs => readScalar cs

/-- A comma may stand behind the last item. -/
def readFlowItems : (fuel : Nat) → List Char → Option (List Json × List Char)
  | 0, _ => none
  | fuel + 1, cs =>
    match skipBlanks cs with
    | ']' :: rest => some ([], rest)
    | cs => do
      let (item, rest) ← readFlow fuel cs
      match skipBlanks rest with
      | ']' :: rest => return ([item], rest)
      | ',' :: rest =>
        let (items, rest) ← readFlowItems fuel rest
        return (item :: items, rest)
      | _ => none

def readFlowMembers : (fuel : Nat) → List Char → Option (List (String × Json) × List Char)
  | 0, _ => none
  | fuel + 1, cs =>
    match skipBlanks cs with
    | '\x7d' :: rest => some ([], rest)
    | cs => do
      let (key, rest) ← readScalar cs
      let name ← keyText key
      let (value, rest) ← match skipBlanks rest with
        | ':' :: rest => readFlow fuel rest
        | rest => some (.null, rest)
      match skipBlanks rest with
      | '\x7d' :: rest => return ([(name, value)], rest)
      | ',' :: rest =>
        let (ms, rest) ← readFlowMembers fuel rest
        guard (ms.all fun m => m.1 ≠ name)
        return ((name, value) :: ms, rest)
      | _ => none

end

/-- A flow collection or a scalar that takes up the whole text. -/
def flow? (cs : List Char) : Option Json := do
  let (value, rest) ← readFlow (2 * cs.length + 2) cs
  guard (skipBlanks rest).isEmpty
  return value

end Nodecast.Yaml
