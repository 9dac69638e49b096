/-!
# Shortest decimals of doubles

The text of a double has the fewest digits that read back as the same double. Of those it is the
nearest. It is written without an exponent, and with a point only if there are places behind it.
-/

namespace Nodecast.Decimal

/-- A positive double is `mantissa * 2 ^ exponent`. -/
structure Binary where
  mantissa : Nat
  exponent : Int
  /-- The double below is only half as far away as the one above. -/
  narrowBelow : Bool

/-- Splits the bits of a positive finite double. -/
def Binary.ofBits (bits : Nat) : Binary :=
  let fraction : Nat := bits % Nat.pow 2 52
  let biased : Nat := bits / Nat.pow 2 52 % Nat.pow 2 11
  if biased = 0 then ⟨fraction, -1074, false⟩
  else ⟨Nat.pow 2 52 + fraction, Int.ofNat biased - 1075, fraction == 0 && 1 < biased⟩

/-- Digits and the power of ten they are scaled by. -/
structure Scaled where
  digits : Nat
  exponent : Int

/-- In quarters of the last place of `b`, scaled to whole numbers: a factor for quarters, and one
for steps of `10 ^ k`. -/
def scales (b : Binary) (k : Int) : Nat × Nat :=
  let q := b.exponent - 2
  (Nat.pow 2 q.toNat * Nat.pow 10 (-k).toNat, Nat.pow 2 (-q).toNat * Nat.pow 10 k.toNat)

/-- Whether `d * 10 ^ k` reads back as `b`. The ends of the interval read back if the mantissa is
even. -/
def readsBack (b : Binary) (k : Int) (d : Nat) : Bool :=
  let (quarter, step) := scales b k
  let low := (4 * b.mantissa - (if b.narrowBelow then 1 else 2)) * quarter
  let high := (4 * b.mantissa + 2) * quarter
  if b.mantissa % 2 = 0 then low ≤ d * step && d * step ≤ high
  else low < d * step && d * step < high

/-- The point of the grid of `10 ^ k` that reads back and is nearest to `b`. -/
def onGrid (b : Binary) (k : Int) : Option Scaled :=
  let (quarter, step) := scales b k
  let v := 4 * b.mantissa * quarter
  let d := v / step
  let lower := readsBack b k d
  let upper := readsBack b k (d + 1)
  let nearLower := 2 * (v % step) < step
  if lower && (nearLower || !upper) then some ⟨d, k⟩
  else if upper then some ⟨d + 1, k⟩
  else none

/-- Whether `10 ^ e` is at most `b`. -/
def reaches (b : Binary) (e : Int) : Bool :=
  let (quarter, step) := scales b e
  step ≤ 4 * b.mantissa * quarter

/-- The power of ten of the first digit. -/
def leadingPower (b : Binary) : Int :=
  let guess := (b.exponent + Nat.log2 b.mantissa) * 30103 / 100000
  if reaches b (guess + 1) then guess + 1
  else if reaches b guess then guess
  else guess - 1

/-- Tries one digit, then two, up to seventeen. A power of ten just above `b` comes before all. -/
def shortest (b : Binary) : Scaled :=
  let e := leadingPower b + 1
  ((List.range 18).findSome? fun (n : Nat) => onGrid b (e - Int.ofNat n)).getD
    ⟨b.mantissa, b.exponent⟩

def zeros (n : Nat) : String := String.ofList (List.replicate n '0')

def Scaled.print (d : Scaled) : String :=
  let digits := toString d.digits
  if 0 ≤ d.exponent then digits ++ zeros d.exponent.toNat
  else
    let places := d.exponent.natAbs
    if digits.length ≤ places then "0." ++ zeros (places - digits.length) ++ digits
    else
      let cs := digits.toList
      let whole := cs.take (cs.length - places)
      String.ofList (whole ++ '.' :: cs.drop (cs.length - places))

/-- The text of any double. -/
def print (x : Float) : String :=
  let bits := x.toBits.toNat
  let magnitude := bits % Nat.pow 2 63
  if x.isNaN then "NaN"
  else
    let text :=
      if x.isInf then "inf"
      else if magnitude = 0 then "0"
      else (shortest (.ofBits magnitude)).print
    if bits < Nat.pow 2 63 then text else "-" ++ text

/-! ## Reading -/

def digitsValue (ds : List Char) : Nat :=
  ds.foldl (fun n c => n * 10 + (c.toNat - '0'.toNat)) 0

/-- Digits, a point and digits. One of the digits must be there. -/
def readPlain (cs : List Char) : Option (Nat × Nat × List Char) :=
  let whole := cs.takeWhile Char.isDigit
  let rest := cs.drop whole.length
  let (fraction, rest) := match rest with
    | '.' :: more => (more.takeWhile Char.isDigit, more.dropWhile Char.isDigit)
    | other => ([], other)
  if whole.isEmpty && fraction.isEmpty then none
  else some (digitsValue (whole ++ fraction), fraction.length, rest)

def readSigned : List Char → Bool × List Char
  | '-' :: rest => (true, rest)
  | '+' :: rest => (false, rest)
  | cs => (false, cs)

def readPower : List Char → Option Int
  | [] => some 0
  | c :: rest =>
    let (negative, ds) := readSigned rest
    if (c = 'e' || c = 'E') && !ds.isEmpty && ds.all Char.isDigit then
      some (if negative then -(digitsValue ds : Int) else digitsValue ds)
    else none

/-- The double nearest to `n * 10 ^ power`. Powers beyond the range of doubles are cut off. -/
def nearest (n : Nat) (power : Int) : Float :=
  if n = 0 then 0
  else if power < -5000 - (Nat.log2 n : Int) then 0
  else if power > 5000 then 1.0 / 0.0
  else if power < 0 then Float.ofScientific n true power.natAbs
  else Float.ofScientific n false power.natAbs

/-- The double nearest to a decimal without a sign, with an exponent or without. -/
def readMagnitude (cs : List Char) : Option Float := do
  let (n, places, rest) ← readPlain cs
  return nearest n ((← readPower rest) - places)

/-- Reads a decimal or the name of a value that is no number. -/
def parse? (s : String) : Option Float := do
  let (negative, cs) := readSigned s.toList
  let magnitude ← match String.ofList (cs.map Char.toLower) with
    | "inf" | "infinity" => some (1.0 / 0.0)
    | "nan" => some (0.0 / 0.0)
    | _ => readMagnitude cs
  return if negative then -magnitude else magnitude

end Nodecast.Decimal
