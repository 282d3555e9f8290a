/-!
# Digits

Unsigned numbers written in ASCII digits, most significant first. A reader
takes the whole text or nothing.

* `ofDigits_eq_horner`: joining digits pairwise gives the number that they denote;
* `decimal?`, `hexadecimal?`: digits alone, at least one;
* `unsigned?`, `signed?`: digits after at most one sign, within given bounds;
* `hexOctet`: the two upper-case digits of an octet.
-/

namespace SnmpAgent.Text

/-- The value of a decimal digit. -/
def decimalDigit? (c : Char) : Option Nat :=
  if '0' ≤ c ∧ c ≤ '9' then some (c.toNat - '0'.toNat) else none

/-- The value of a hexadecimal digit of either case. -/
def hexDigit? (c : Char) : Option Nat :=
  if '0' ≤ c ∧ c ≤ '9' then some (c.toNat - '0'.toNat)
  else if 'a' ≤ c ∧ c ≤ 'f' then some (c.toNat - 'a'.toNat + 10)
  else if 'A' ≤ c ∧ c ≤ 'F' then some (c.toNat - 'A'.toNat + 10)
  else none

/-- The number that digits of a base denote, least significant first. -/
def horner (base : Nat) (digits : List Nat) : Nat := digits.foldr (fun d n => d + base * n) 0

/-- Joins neighbouring digits of a base to digits of the squared base. -/
def joinPairs (base : Nat) : List Nat → List Nat
  | low :: high :: digits => (low + base * high) :: joinPairs base digits
  | digits => digits

/-- Joined digits denote the same number. -/
theorem horner_joinPairs (base : Nat) (digits : List Nat) :
    horner (base * base) (joinPairs base digits) = horner base digits := by
  fun_induction joinPairs base digits with
  | case1 low high digits ih =>
    simp only [horner, List.foldr_cons] at ih ⊢
    rw [ih, Nat.mul_add, Nat.add_assoc, Nat.mul_assoc]
  | case2 digits h =>
    match digits with
    | [] | [_] => simp [horner]
    | low :: high :: rest => exact absurd rfl (h low high rest)

/-- The number that digits of a base denote, least significant first, after some
    rounds of joining. With a round for each doubling of their number, long
    numbers are read by few large products. -/
def ofDigits : (rounds base : Nat) → List Nat → Nat
  | 0, base, digits => horner base digits
  | rounds + 1, base, digits => ofDigits rounds (base * base) (joinPairs base digits)

/-- The number of rounds does not matter. -/
theorem ofDigits_eq_horner (rounds base : Nat) (digits : List Nat) :
    ofDigits rounds base digits = horner base digits := by
  induction rounds generalizing base digits with
  | zero => rfl
  | succ rounds ih => rw [ofDigits, ih, horner_joinPairs]

/-- The values of digits, at least one. -/
def digits? (digit? : Char → Option Nat) (text : List Char) : Option (List Nat) :=
  if text.isEmpty then none else text.mapM digit?

/-- A number written in digits of a base only. -/
def number? (base : Nat) (digit? : Char → Option Nat) (text : List Char) : Option Nat :=
  (digits? digit? text).map fun digits => ofDigits digits.length.log2 base digits.reverse

/-- A number written in decimal digits only. -/
def decimal? : List Char → Option Nat := number? 10 decimalDigit?

/-- A number written in hexadecimal digits only. -/
def hexadecimal? : List Char → Option Nat := number? 16 hexDigit?

/-- A number below `bound`, which may follow a plus sign. -/
def unsigned? (digits? : List Char → Option Nat) (bound : Nat) (text : List Char) :
    Option Nat := do
  let n ← match text with
    | '+' :: rest => digits? rest
    | _ => digits? text
  if n < bound then some n else none

/-- A number from `-bound` on and below `bound`, which may follow a sign. -/
def signed? (digits? : List Char → Option Nat) (bound : Nat) (text : List Char) : Option Int :=
  match text with
  | '-' :: rest => do
    let n ← digits? rest
    if n ≤ bound then some (-n) else none
  | _ => (unsigned? digits? bound text).map Int.ofNat

/-- The two upper-case hexadecimal digits of an octet. -/
def hexOctet (b : UInt8) : String :=
  String.ofList [Nat.digitChar (b.toNat / 16), Nat.digitChar (b.toNat % 16)] |>.toUpper

/-- The octets that pairs of hexadecimal digits denote. -/
def hexOctets? : List Char → Option (List UInt8)
  | [] => some []
  | a :: b :: rest => do return UInt8.ofNat (← hexadecimal? [a, b]) :: (← hexOctets? rest)
  | [_] => none

end SnmpAgent.Text
