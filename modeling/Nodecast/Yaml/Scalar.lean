import Nodecast.Json.Reader

/-!
# YAML scalars

What a scalar stands for. One without quotes is a number, a truth value or nothing, if it looks
like that, and text otherwise.
-/

namespace Nodecast.Yaml

def nulls : List String := ["", "~", "null", "Null", "NULL"]

def truths : List String := ["true", "True", "TRUE"]

def falsehoods : List String := ["false", "False", "FALSE"]

def withoutSign : List Char → List Char
  | '+' :: rest | '-' :: rest => rest
  | cs => cs

/-- Digits without a zero in front. -/
def isWhole (cs : List Char) : Bool :=
  !cs.isEmpty && cs.all Char.isDigit && (cs.head? ≠ some '0' || cs.length = 1)

/-- Digits with a point among them, and perhaps a power of ten. -/
def isDecimal (cs : List Char) : Bool :=
  let mantissa := cs.takeWhile fun c => c ≠ 'e' && c ≠ 'E'
  let power := cs.drop (mantissa.length + 1)
  let digits := mantissa.filter (· ≠ '.')
  !digits.isEmpty && digits.all Char.isDigit && mantissa.length ≤ digits.length + 1 &&
    (mantissa.length < cs.length || digits.length < mantissa.length) &&
    (mantissa.length = cs.length ||
      (!(withoutSign power).isEmpty && (withoutSign power).all Char.isDigit))

def specialNumbers : List String := [".inf", ".Inf", ".INF", ".nan", ".NaN", ".NAN"]

def wholeValue (cs : List Char) : Nat := cs.foldl (fun n c => 10 * n + (c.toNat - 48)) 0

/-- A scalar without quotes. -/
def plainValue (s : String) : Json :=
  let bare := withoutSign s.toList
  if s ∈ nulls then .null
  else if s ∈ truths then .bool true
  else if s ∈ falsehoods then .bool false
  else if isWhole bare then
    .int (if s.startsWith "-" then -(wholeValue bare : Int) else wholeValue bare)
  else if isDecimal bare || String.ofList bare ∈ specialNumbers then .real s
  else .text s

/-- Text in single quotes, behind the first of them. A quote in it is written twice. -/
def readSingle : List Char → Option (List Char × List Char)
  | [] => none
  | '\'' :: '\'' :: rest => (readSingle rest).map fun (s, rest) => ('\'' :: s, rest)
  | '\'' :: rest => some ([], rest)
  | c :: rest => (readSingle rest).map fun (s, rest) => (c :: s, rest)

/-- A scalar in quotes. -/
def readQuoted (cs : List Char) : Option (String × List Char) :=
  match cs with
  | '"' :: rest => (Json.readText false rest).toOption.map fun (s, rest) => (String.ofList s, rest)
  | '\'' :: rest => (readSingle rest).map fun (s, rest) => (String.ofList s, rest)
  | _ => none

/-- Characters that no scalar without quotes begins with. -/
def marks : List Char :=
  ['[', ']', '\x7b', '\x7d', ',', '#', '&', '*', '!', '|', '>', '\'', '"', '%', '@', '\x60']

end Nodecast.Yaml
