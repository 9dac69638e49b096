import Nodecast.Json.Value

/-!
# Reading JSON

Readers take the text that is left and give back what they read and what is left then. A text
that ends too early is told apart from one that goes wrong.
-/

namespace Nodecast.Json

inductive Fault where
  /-- The text is no JSON. -/
  | malformed
  /-- The text ends too early. -/
  | truncated
  /-- The text is JSON of another shape. -/
  | mismatch
deriving DecidableEq, Repr

abbrev Reading (α : Type) := Except Fault (α × List Char)

/-- JSON's own white space. -/
def isGap (c : Char) : Bool := c = ' ' || c = '\n' || c = '\t' || c = '\r'

def skipGap (cs : List Char) : List Char := cs.dropWhile isGap

/-- The fault of a text that cannot go on as it does. -/
def stuck (cs : List Char) : Fault := if cs.isEmpty then .truncated else .malformed

/-! ## Words -/

/-- Reads the rest of a word such as `null`. -/
def readWord : List Char → List Char → Reading Unit
  | [], cs => .ok ((), cs)
  | w :: word, c :: cs => if w = c then readWord word cs else .error .malformed
  | _ :: _, [] => .error .truncated

/-! ## Strings -/

def hexValue? (c : Char) : Option Nat :=
  if '0' ≤ c ∧ c ≤ '9' then some (c.toNat - '0'.toNat)
  else if 'a' ≤ c ∧ c ≤ 'f' then some (c.toNat - 'a'.toNat + 10)
  else if 'A' ≤ c ∧ c ≤ 'F' then some (c.toNat - 'A'.toNat + 10)
  else none

def hexUnit? (a b c d : Char) : Option Nat := do
  let a ← hexValue? a
  let b ← hexValue? b
  let c ← hexValue? c
  let d ← hexValue? d
  return ((a * 16 + b) * 16 + c) * 16 + d

def unescape? : Char → Option Char
  | '"' => some '"'
  | '\\' => some '\\'
  | '/' => some '/'
  | 'b' => some '\x08'
  | 'f' => some '\x0c'
  | 'n' => some '\n'
  | 'r' => some '\r'
  | 't' => some '\t'
  | _ => none

def isHighUnit (n : Nat) : Bool := 0xD800 ≤ n && n < 0xDC00

def isLowUnit (n : Nat) : Bool := 0xDC00 ≤ n && n < 0xE000

def pairUnits (high low : Nat) : Char :=
  Char.ofNat ((high - 0xD800) * 0x400 + (low - 0xDC00) + 0x10000)

/-- The fault of a hex escape with fewer than four characters left, counted in bytes. -/
def shortEscape (cs : List Char) : Fault :=
  if cs.foldl (fun n c => n + c.utf8Size) 0 < 4 then .truncated else .malformed

def withFirst (c : Char) : Reading (List Char) → Reading (List Char)
  | .ok (s, rest) => .ok (c :: s, rest)
  | .error e => .error e

/-- Reads a string after its opening quote. A text that is only skipped may hold half a pair of
surrogates. -/
def readText (skipping : Bool) : List Char → Reading (List Char)
  | [] => .error .truncated
  | '"' :: rest => .ok ([], rest)
  | '\\' :: 'u' :: a :: b :: c :: d :: rest =>
    match hexUnit? a b c d with
    | none => .error .malformed
    | some n =>
      bif skipping then withFirst '?' (readText skipping rest)
      else if isLowUnit n then .error .malformed
      else if isHighUnit n then
        match rest with
        | '\\' :: 'u' :: e :: f :: g :: h :: rest' =>
          match hexUnit? e f g h with
          | none => .error .malformed
          | some m =>
            if isLowUnit m then withFirst (pairUnits n m) (readText skipping rest')
            else .error .malformed
        | '\\' :: 'u' :: short => .error (shortEscape short)
        | ['\\'] => .error .truncated
        | other => .error (stuck other)
      else withFirst (Char.ofNat n) (readText skipping rest)
  | '\\' :: 'u' :: short => .error (shortEscape short)
  | '\\' :: e :: rest =>
    match unescape? e with
    | some c => withFirst c (readText skipping rest)
    | none => .error .malformed
  | ['\\'] => .error .truncated
  | c :: rest =>
    if c.toNat < 0x20 then .error .malformed else withFirst c (readText skipping rest)

/-! ## Numbers -/

structure Numeral where
  negative : Bool
  whole : List Char
  fraction : Option (List Char)
  /-- Whether the exponent is negative, and its digits. -/
  exponent : Option (Bool × List Char)

def splitDigits (cs : List Char) : List Char × List Char :=
  (cs.takeWhile Char.isDigit, cs.dropWhile Char.isDigit)

/-- Digits of which there must be one. -/
def readDigits (skipping : Bool) (cs : List Char) : Reading (List Char) :=
  match splitDigits cs with
  | ([], rest) => .error (if skipping then .malformed else stuck rest)
  | (ds, rest) => .ok (ds, rest)

def readSign : List Char → Bool × List Char
  | '-' :: rest => (true, rest)
  | cs => (false, cs)

def readWhole (skipping : Bool) (cs : List Char) : Reading (List Char) :=
  match readDigits skipping cs with
  | .ok ('0' :: _ :: _, _) => .error .malformed
  | other => other

def readFraction (skipping : Bool) : List Char → Reading (Option (List Char))
  | '.' :: rest => (readDigits skipping rest).map fun (ds, rest) => (some ds, rest)
  | cs => .ok (none, cs)

def readExponentSign : List Char → Bool × List Char
  | '+' :: rest => (false, rest)
  | cs => readSign cs

def readExponent (skipping : Bool) : List Char → Reading (Option (Bool × List Char))
  | [] => .ok (none, [])
  | c :: rest =>
    if c = 'e' ∨ c = 'E' then
      let (negative, rest) := readExponentSign rest
      (readDigits skipping rest).map fun (ds, rest) => (some (negative, ds), rest)
    else .ok (none, c :: rest)

def readNumeral (skipping : Bool) (cs : List Char) : Except Fault (Numeral × List Char) := do
  let (negative, cs) := readSign cs
  let (whole, cs) ← readWhole skipping cs
  let (fraction, cs) ← readFraction skipping cs
  let (exponent, cs) ← readExponent skipping cs
  return (⟨negative, whole, fraction, exponent⟩, cs)

def digitsValue (ds : List Char) : Nat :=
  ds.foldl (fun n c => n * 10 + (c.toNat - '0'.toNat)) 0

/-- The first magnitude that rounds to no double. -/
def hugeBound : Nat := Nat.pow 2 1024 - Nat.pow 2 970

/-- Whether a double can come near the numeral. -/
def Numeral.fits (n : Numeral) : Bool :=
  let fraction := n.fraction.getD []
  let digits := (n.whole ++ fraction).dropWhile (· = '0')
  let shift : Int := match n.exponent with
    | none => 0
    | some (negative, ds) => if negative then -(digitsValue ds : Int) else digitsValue ds
  let scale : Int := shift - fraction.length
  if digits.isEmpty then true
  else if digits.length + scale > 310 then false
  else if digits.length + scale < 300 then true
  else if scale < 0 then digitsValue digits < hugeBound * Nat.pow 10 scale.natAbs
  else digitsValue digits * Nat.pow 10 scale.natAbs < hugeBound

def Numeral.literal (n : Numeral) : String :=
  let sign := if n.negative then ['-'] else []
  let fraction := match n.fraction with
    | some ds => '.' :: ds
    | none => []
  let exponent := match n.exponent with
    | some (negative, ds) => 'e' :: ((if negative then ['-'] else []) ++ ds)
    | none => []
  String.ofList (sign ++ n.whole ++ fraction ++ exponent)

/-- Minus zero and the integers outside 64 bits count as reals. -/
def Numeral.toJson (n : Numeral) : Json :=
  match n.fraction, n.exponent with
  | none, none =>
    let v := digitsValue n.whole
    if n.negative then
      if v = 0 ∨ v > Nat.pow 2 63 then .real n.literal else .int (-v)
    else if v < Nat.pow 2 64 then .int v else .real n.literal
  | _, _ => .real n.literal

def readNumber (cs : List Char) : Except Fault (Json × List Char) := do
  let (n, cs) ← readNumeral false cs
  if n.fits then return (n.toJson, cs) else throw .malformed

/-! ## Any value -/

/-- What may follow an item of a list or a member of a record. -/
inductive Follow where
  | more
  | done

/-- After an item: a comma, or the closing character. -/
def readFollow (close : Char) (cs : List Char) : Reading Follow :=
  match skipGap cs with
  | [] => .error .truncated
  | c :: rest =>
    if c = ',' then .ok (.more, rest)
    else if c = close then .ok (.done, rest)
    else .error .malformed

def readColon (cs : List Char) : Reading Unit :=
  match skipGap cs with
  | ':' :: rest => .ok ((), rest)
  | other => .error (stuck other)

/-- The name of a member, from before its opening quote to before the colon. -/
def readName (skipping : Bool) (cs : List Char) : Reading String :=
  match skipGap cs with
  | '"' :: rest => (readText skipping rest).map fun (s, rest) => (String.ofList s, rest)
  | other => .error (stuck other)

mutual

/-- `depth` bounds how deep containers may stand in each other. -/
def readValue (skipping : Bool) : (fuel depth : Nat) → List Char → Reading Json
  | 0, _, _ => .error .malformed
  | fuel + 1, depth, cs =>
    match skipGap cs with
    | [] => .error .truncated
    | 'n' :: rest => (readWord ['u', 'l', 'l'] rest).map fun (_, rest) => (.null, rest)
    | 't' :: rest => (readWord ['r', 'u', 'e'] rest).map fun (_, rest) => (.bool true, rest)
    | 'f' :: rest => (readWord ['a', 'l', 's', 'e'] rest).map fun (_, rest) => (.bool false, rest)
    | '"' :: rest =>
      (readText skipping rest).map fun (s, rest) => (.text (String.ofList s), rest)
    | '[' :: rest =>
      match depth with
      | 0 => .error .malformed
      | depth + 1 =>
        match skipGap rest with
        | ']' :: rest => .ok (.list [], rest)
        | rest => (readItems skipping fuel depth rest).map fun (items, rest) => (.list items, rest)
    | '\x7b' :: rest =>
      match depth with
      | 0 => .error .malformed
      | depth + 1 =>
        match skipGap rest with
        | '\x7d' :: rest => .ok (.record [], rest)
        | rest =>
          (readMembers skipping fuel depth rest).map fun (ms, rest) => (.record ms, rest)
    | c :: rest =>
      if c = '-' ∨ c.isDigit then
        if skipping then (readNumeral true (c :: rest)).map fun (_, rest) => (.null, rest)
        else readNumber (c :: rest)
      else .error .malformed

def readItems (skipping : Bool) : (fuel depth : Nat) → List Char →
    Except Fault (List Json × List Char)
  | 0, _, _ => .error .malformed
  | fuel + 1, depth, cs => do
    let (item, cs) ← readValue skipping fuel depth cs
    match ← readFollow ']' cs with
    | (.done, cs) => return ([item], cs)
    | (.more, cs) =>
      let (items, cs) ← readItems skipping fuel depth cs
      return (item :: items, cs)

def readMembers (skipping : Bool) : (fuel depth : Nat) → List Char →
    Except Fault (List (String × Json) × List Char)
  | 0, _, _ => .error .malformed
  | fuel + 1, depth, cs => do
    let (name, cs) ← readName skipping cs
    let ((), cs) ← readColon cs
    let (value, cs) ← readValue skipping fuel depth cs
    match ← readFollow '\x7d' cs with
    | (.done, cs) => return ([(name, value)], cs)
    | (.more, cs) =>
      let (ms, cs) ← readMembers skipping fuel depth cs
      return ((name, value) :: ms, cs)

end

/-- Containers may stand 127 deep. -/
def depthLimit : Nat := 127

/-- Every second call takes a character, so the fuel lasts. -/
def fuelFor (cs : List Char) : Nat := 2 * cs.length + 2

def value (cs : List Char) : Reading Json := readValue false (fuelFor cs) depthLimit cs

/-- Reads over a value without looking into its strings and numbers, however deep it is. -/
def skipValue (cs : List Char) : Reading Unit :=
  (readValue true (fuelFor cs) cs.length cs).map fun (_, rest) => ((), rest)

/-- After the value only white space may stand. -/
def complete {α : Type} (read : List Char → Reading α) (s : String) : Except Fault α := do
  let (a, rest) ← read s.toList
  if (skipGap rest).isEmpty then return a else throw .malformed

def parse (s : String) : Except Fault Json := complete value s

def parse? (s : String) : Option Json := (parse s).toOption

end Nodecast.Json
