import SnmpAgent.Number.Binary64
import SnmpAgent.Text.Digits

/-!
# Decimal text

A *decimal text* is a sign, digits with at most one point among them, and an
exponent, of which only one digit is needed; or a name of infinity or of what
is no number. An exponent is read up to the digit that brings it to `2 ^ 16`;
further digits are ignored.

* `Decimal.parse?`: what a text says, exactly;
* `Decimal.hundredths`: the figure in hundredths, computed in double precision
  and cut to a whole number of 32 bits.
-/

namespace SnmpAgent

/-- What a decimal text says: the number `mantissa * 10 ^ exponent` or its
    opposite, an infinite number, or none. -/
inductive Decimal where
  | number (negative : Bool) (mantissa : Nat) (exponent : Int)
  | infinity (negative : Bool)
  | nan
  deriving DecidableEq

namespace Decimal

/-- The names of infinity and of what is no number, in lower case. -/
def name? (negative : Bool) (text : List Char) : Option Decimal :=
  let text := text.map Char.toLower
  if text = "inf".toList ∨ text = "infinity".toList then some (.infinity negative)
  else if text = "nan".toList then some .nan
  else none

/-- A sign, if any, and what follows it. -/
def sign : List Char → Bool × List Char
  | '-' :: rest => (true, rest)
  | '+' :: rest => (false, rest)
  | text => (false, text)

/-- The exponent from which on further digits are ignored. -/
def exponentLimit : Nat := 1 <<< 16

/-- The exponent that some digits denote, most significant first. -/
def exponentOf (digits : List Nat) : Nat :=
  digits.foldl (fun n d => if n < exponentLimit then 10 * n + d else n) 0

/-- The exponent at the end of a number, which may be missing. -/
def exponent? : List Char → Option Int
  | [] => some 0
  | mark :: rest =>
    if mark = 'e' ∨ mark = 'E' then
      let (negative, digits) := sign rest
      (Text.digits? Text.decimalDigit? digits).map fun digits =>
        if negative then -exponentOf digits else exponentOf digits
    else none

/-- The decimal digits at the beginning of a text, and what follows them. -/
def digits (text : List Char) : List Char × List Char :=
  text.span fun c => '0' ≤ c && c ≤ '9'

/-- A number without its sign. -/
def number? (negative : Bool) (text : List Char) : Option Decimal := do
  let (whole, rest) := digits text
  let (fraction, rest) := match rest with
    | '.' :: rest => digits rest
    | _ => ([], rest)
  let mantissa ← Text.decimal? (whole ++ fraction)
  let exponent ← exponent? rest
  return .number negative mantissa (exponent - fraction.length)

/-- What a text says. -/
def parse? (text : List Char) : Option Decimal :=
  let (negative, rest) := sign text
  (name? negative rest).or (number? negative rest)

/-- The magnitude `mantissa * 10 ^ exponent` in double precision. -/
def magnitude (mantissa : Nat) (exponent : Int) : Rat :=
  if 0 ≤ exponent then Binary64.round ((mantissa * Nat.pow 10 exponent.toNat : Nat) : Rat)
  else Binary64.round (mkRat mantissa (Nat.pow 10 (-exponent).toNat))

/-- A hundred times a number of double precision, cut to a whole number of 32
    bits. -/
def toHundredths (q : Rat) : UInt32 := Binary64.truncate32 (Binary64.round (q * 100))

/-- The figure in hundredths. -/
def hundredths : Decimal → UInt32
  | .number false mantissa exponent => toHundredths (magnitude mantissa exponent)
  | .infinity false => UInt32.ofNat (1 <<< 32 - 1)
  | _ => 0

end Decimal

end SnmpAgent
