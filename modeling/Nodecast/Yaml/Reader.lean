import Nodecast.Yaml.Flow

/-!
# YAML documents

The YAML that configuration files are written in: mappings and lists by indentation, flow
collections, and scalars on one line. Text that uses more than that is refused.
-/

namespace Nodecast.Yaml

/-- A line without its indentation. -/
structure Line where
  indent : Nat
  text : List Char

/-! ## Lines -/

/-- The text of a line in front of its comment. A number sign inside quotes or inside a word begins
no comment. -/
def withoutComment (quote : Option Char) (afterBlank : Bool) : List Char → List Char
  | [] => []
  | c :: rest =>
    match quote with
    | some q => c :: withoutComment (if c = q then none else quote) false rest
    | none =>
      if c = '#' && afterBlank then []
      else
        let opens := (c = '"' || c = '\'') && afterBlank
        c :: withoutComment (if opens then some c else none)
          (c = ' ' || c = '[' || c = '\x7b' || c = ',') rest

def lineOf (s : String) : Line :=
  let all := withoutComment none true s.toList
  let text := all.dropWhile (· = ' ')
  { indent := all.length - text.length, text := trimBlanks text }

/-- The lines that say something. Indentation is made of spaces only. -/
def linesOf? (s : String) : Option (List Line) :=
  let lines := (s.replace "\r\n" "\n").splitOn "\n"
  if lines.any fun l => (l.toList.dropWhile (· = ' ')).head? = some '\t' then none
  else some ((lines.map lineOf).filter fun l => !l.text.isEmpty)

/-! ## Parts of a line -/

def isItem (cs : List Char) : Bool :=
  match cs with
  | ['-'] | '-' :: ' ' :: _ => true
  | _ => false

/-- An item without its dash is a line of its own that stands further in. -/
def itemLine (l : Line) : Line :=
  let text := skipBlanks (l.text.drop 1)
  { indent := l.indent + (l.text.length - text.length), text }

/-- A key and what stands behind its colon. -/
def splitKey? (cs : List Char) : Option (String × List Char) :=
  match cs with
  | '"' :: _ | '\'' :: _ =>
    match readQuoted cs with
    | some (key, ':' :: rest) =>
      if rest.isEmpty || rest.head? = some ' ' then some (key, skipBlanks rest) else none
    | _ => none
  | _ => do
    guard !(cs.head?.any (· ∈ marks))
    let rec find (before : List Char) : List Char → Option (List Char × List Char)
      | [] => none
      | [':'] => some (before.reverse, [])
      | ':' :: ' ' :: rest => some (before.reverse, rest)
      | c :: rest => find (c :: before) rest
    let (key, rest) ← find [] cs
    return (← keyText (plainValue (String.ofList (trimBlanks key))), skipBlanks rest)

/-- A value on one line. -/
def inlineValue? (cs : List Char) : Option Json :=
  match cs with
  | '[' :: _ | '\x7b' :: _ | '"' :: _ | '\'' :: _ => flow? cs
  | _ =>
    if cs.head?.any (· ∈ marks) || (splitKey? cs).isSome then none
    else some (plainValue (String.ofList cs))

/-! ## Blocks -/

mutual

/-- The value that begins with the first line. -/
def readBlock : (fuel : Nat) → List Line → Option (Json × List Line)
  | 0, _ => none
  | _, [] => none
  | fuel + 1, l :: rest =>
    if isItem l.text then
      (readItems fuel l.indent (l :: rest)).map fun (items, rest) => (.list items, rest)
    else if (splitKey? l.text).isSome then
      (readMembers fuel l.indent (l :: rest)).map fun (ms, rest) => (.record ms, rest)
    else (inlineValue? l.text).map fun v => (v, rest)

/-- The value on the lines that stand further in. Without any there is nothing. -/
def readInner : (fuel : Nat) → (indent : Nat) → List Line → Option (Json × List Line)
  | 0, _, _ => none
  | fuel + 1, indent, lines =>
    match lines with
    | l :: _ => if indent < l.indent then readBlock fuel lines else some (.null, lines)
    | [] => some (.null, [])

def readItems : (fuel : Nat) → (indent : Nat) → List Line → Option (List Json × List Line)
  | 0, _, _ => none
  | _, _, [] => some ([], [])
  | fuel + 1, indent, l :: rest =>
    if indent < l.indent then none
    else if l.indent < indent || !isItem l.text then some ([], l :: rest)
    else do
      let inner := itemLine l
      let (item, rest) ←
        if inner.text.isEmpty then readInner fuel indent rest else readBlock fuel (inner :: rest)
      let (items, rest) ← readItems fuel indent rest
      return (item :: items, rest)

/-- A list may stand as far out as the key it belongs to. -/
def readMembers : (fuel : Nat) → (indent : Nat) → List Line →
    Option (List (String × Json) × List Line)
  | 0, _, _ => none
  | _, _, [] => some ([], [])
  | fuel + 1, indent, l :: rest =>
    if indent < l.indent then none
    else if l.indent < indent then some ([], l :: rest)
    else do
      let (key, text) ← splitKey? l.text
      let (value, rest) ←
        if !text.isEmpty then (inlineValue? text).map fun v => (v, rest)
        else if rest.head?.any fun m => m.indent = indent && isItem m.text then
          (readItems fuel indent rest).map fun (items, rest) => (.list items, rest)
        else readInner fuel indent rest
      let (ms, rest) ← readMembers fuel indent rest
      guard (ms.all fun m => m.1 ≠ key)
      return ((key, value) :: ms, rest)

end

/-- A flow collection that takes up the whole document. -/
def flowDocument? (s : String) : Option Json :=
  match skipBlanks s.toList with
  | '[' :: _ | '\x7b' :: _ => flow? s.toList
  | _ => none

/-- The document in a text, or nothing if there is none. -/
def parse? (s : String) : Option (Option Json) :=
  match Json.parse? s, flowDocument? s with
  | some j, _ | none, some j => some (some j)
  | none, none => do
    let lines ← linesOf? s
    let lines := match lines with
      | ⟨0, ['-', '-', '-']⟩ :: rest => rest
      | lines => lines
    if lines.isEmpty then return none
    let (value, rest) ← readBlock (4 * lines.length + 4) lines
    guard rest.isEmpty
    return some value

end Nodecast.Yaml
