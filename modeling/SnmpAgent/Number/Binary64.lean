/-!
# Rounding to double precision

Figures with a fraction are computed in numbers of 53 significant bits: every
result is the nearest such number, and of two equally near ones the one whose
last bit is zero. Exponents are not limited: a number too large or too small
for the 64-bit format lies far outside the figures that are kept, on the same
side as the limit of the format.

* `round`: the nearest number of 53 significant bits;
* `truncate32`: the whole part of a number, kept within 32 bits.
-/

namespace SnmpAgent.Binary64

/-- The number of significant bits. -/
def precision : Nat := 53

/-- A power of two. -/
def pow2 (e : Int) : Rat :=
  if 0 ≤ e then ((1 <<< e.toNat : Nat) : Rat) else mkRat 1 (1 <<< (-e).toNat)

/-- The largest exponent of a power of two that does not exceed a positive
    number. -/
def floorLog2 (q : Rat) : Int :=
  let e : Int := (Nat.log2 q.num.natAbs : Int) - Nat.log2 q.den
  if pow2 e ≤ q then e else e - 1

/-- The nearest integer; of two equally near ones the even one. -/
def nearestEven (q : Rat) : Int :=
  let below := q.floor
  let excess := q - below
  if excess < mkRat 1 2 then below
  else if mkRat 1 2 < excess then below + 1
  else if below % 2 = 0 then below
  else below + 1

/-- The nearest number of 53 significant bits to a number that is not negative. -/
def round (q : Rat) : Rat :=
  if q ≤ 0 then 0
  else
    let unit := pow2 (floorLog2 q + 1 - precision)
    nearestEven (q / unit) * unit

/-- The whole part of a number, or the nearest end of the range of 32 bits. -/
def truncate32 (q : Rat) : UInt32 := UInt32.ofNat (min q.floor.toNat (1 <<< 32 - 1))

end SnmpAgent.Binary64
