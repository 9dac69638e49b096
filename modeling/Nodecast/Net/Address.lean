/-!
# Socket addresses

An IP address and a port, as they are written and read. There are no host names.
-/

namespace Nodecast.Net

inductive Ip where
  | v4 (a b c d : Nat)
  /-- Eight groups of 16 bits and a scope. -/
  | v6 (groups : List Nat) (scope : Nat)
deriving DecidableEq, Repr

structure Address where
  ip : Ip
  port : Nat
deriving DecidableEq, Repr

/-! ## Reading -/

def digit? (radix : Nat) (c : Char) : Option Nat :=
  let n := c.toNat
  let value :=
    if '0' ≤ c && c ≤ '9' then n - 48
    else if 'a' ≤ c && c ≤ 'f' then n - 87
    else if 'A' ≤ c && c ≤ 'F' then n - 55
    else radix
  if value < radix then some value else none

/-- A number below the bound, of as many digits as there are. -/
def readNumber (radix bound : Nat) (cs : List Char) : Option (Nat × List Char) :=
  let digits := (cs.takeWhile fun c => (digit? radix c).isSome).filterMap (digit? radix)
  let value := digits.foldl (fun n d => radix * n + d) 0
  if digits.isEmpty || bound ≤ value then none else some (value, cs.drop digits.length)

def readMark (mark : Char) : List Char → Option (List Char)
  | c :: rest => if c = mark then some rest else none
  | [] => none

/-- A byte has no zero in front. -/
def readByte (cs : List Char) : Option (Nat × List Char) := do
  let (n, rest) ← readNumber 10 256 cs
  guard (cs.length - rest.length = (Nat.toDigits 10 n).length)
  return (n, rest)

/-- A group has at most four digits. -/
def readGroup (cs : List Char) : Option (Nat × List Char) := do
  let (n, rest) ← readNumber 16 65536 cs
  guard (cs.length - rest.length ≤ 4)
  return (n, rest)

/-- Four bytes with points between them. -/
def readQuad (cs : List Char) : Option ((Nat × Nat × Nat × Nat) × List Char) := do
  let (a, cs) ← readByte cs
  let (b, cs) ← readMark '.' cs >>= readByte
  let (c, cs) ← readMark '.' cs >>= readByte
  let (d, cs) ← readMark '.' cs >>= readByte
  return ((a, b, c, d), cs)

/-- All groups but the first follow a colon. -/
def readNext {α : Type} (first : Bool) (read : List Char → Option (α × List Char))
    (cs : List Char) : Option (α × List Char) :=
  if first then read cs else readMark ':' cs >>= read

/-- As many groups as there are, within the room for them. Four bytes may stand for the last two
groups. It is told whether they do. -/
def readGroups (first : Bool) : (room : Nat) → List Char → (List Nat × Bool) × List Char
  | 0, cs => (([], false), cs)
  | room + 1, cs =>
    match if 0 < room then readNext first readQuad cs else none with
    | some ((a, b, c, d), rest) => (([256 * a + b, 256 * c + d], true), rest)
    | none =>
      match readNext first readGroup cs with
      | some (g, rest) =>
        let ((groups, quad), rest) := readGroups false room rest
        ((g :: groups, quad), rest)
      | none => (([], false), cs)

/-- Two colons stand for one or more groups that are zero. -/
def readGroupsOfEight (cs : List Char) : Option (List Nat × List Char) :=
  let ((head, quad), rest) := readGroups true 8 cs
  if head.length = 8 then some (head, rest)
  else if quad then none
  else do
    let rest ← readMark ':' rest >>= readMark ':'
    let ((tail, _), rest) := readGroups true (7 - head.length) rest
    return (head ++ List.replicate (8 - head.length - tail.length) 0 ++ tail, rest)

def readScope (cs : List Char) : Nat × List Char :=
  (readMark '%' cs >>= readNumber 10 (Nat.pow 2 32)).getD (0, cs)

def readIp (cs : List Char) : Option (Ip × List Char) :=
  match readQuad cs with
  | some ((a, b, c, d), rest) => some (.v4 a b c d, rest)
  | none => do
    let (groups, rest) ← readMark '[' cs >>= readGroupsOfEight
    let (scope, rest) := readScope rest
    return (.v6 groups scope, ← readMark ']' rest)

def Address.parse? (s : String) : Option Address := do
  let (ip, rest) ← readIp s.toList
  let (port, rest) ← readMark ':' rest >>= readNumber 10 65536
  guard rest.isEmpty
  return ⟨ip, port⟩

/-! ## Writing -/

def printQuad (a b c d : Nat) : String := s!"{a}.{b}.{c}.{d}"

def printGroups (groups : List Nat) : String :=
  String.intercalate ":" (groups.map fun g => String.ofList (Nat.toDigits 16 g))

def zerosFrom (groups : List Nat) (i : Nat) : Nat := ((groups.drop i).takeWhile (· = 0)).length

/-- Where most zeros follow each other, the first of several such places. -/
def longestZeros (groups : List Nat) : Nat × Nat :=
  (List.range groups.length).foldl (fun best i =>
    if best.2 < zerosFrom groups i then (i, zerosFrom groups i) else best) (0, 0)

/-- The longest run of zeros is left out, unless it is a single one. -/
def printGroupsOfEight (groups : List Nat) : String :=
  match groups with
  | [0, 0, 0, 0, 0, 0xffff, ab, cd] =>
    "::ffff:" ++ printQuad (ab / 256) (ab % 256) (cd / 256) (cd % 256)
  | _ =>
    let (start, length) := longestZeros groups
    if length < 2 then printGroups groups
    else printGroups (groups.take start) ++ "::" ++ printGroups (groups.drop (start + length))

/-- A scope of zero is left out. -/
def printScope (scope : Nat) : String := if scope = 0 then "" else s!"%{scope}"

def Ip.print : Ip → String
  | v4 a b c d => printQuad a b c d
  | v6 groups scope => s!"[{printGroupsOfEight groups}{printScope scope}]"

namespace Address

def print (a : Address) : String := s!"{a.ip.print}:{a.port}"

/-- Only a privileged program may listen on a port below 1024. Any port will do if it is zero. -/
def isOpenToAll (a : Address) : Bool := a.port = 0 || 1024 ≤ a.port

end Address

end Nodecast.Net
