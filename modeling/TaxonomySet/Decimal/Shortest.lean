import TaxonomySet.Decimal.Binary64

namespace TaxonomySet

/-- The number of decimal digits, none for zero. -/
def decimalLength (n : Nat) : Nat := if n = 0 then 0 else decimalLength (n / 10) + 1
termination_by n
decreasing_by omega

namespace Binary64

/-- Whether `c · 10 ^ k ≤ m · 2 ^ e`. -/
def decimalLe (c : Nat) (k : Int) (m : Nat) (e : Int) : Bool :=
  (c * Nat.pow 10 k.toNat) <<< (-e).toNat ≤ (m <<< e.toNat) * Nat.pow 10 (-k).toNat

/-- Whether `m · 2 ^ e ≤ c · 10 ^ k`. -/
def leDecimal (m : Nat) (e : Int) (c : Nat) (k : Int) : Bool :=
  (m <<< e.toNat) * Nat.pow 10 (-k).toNat ≤ (c * Nat.pow 10 k.toNat) <<< (-e).toNat

/-- The numbers that round to a positive finite one lie between `lower` and `upper` quarters of the
unit of its last place, and `value` quarters are the number itself. -/
structure Rounding where
  lower : Nat
  value : Nat
  upper : Nat
  exponent : Int
  closed : Bool

/-- The rounding interval of a positive finite number. Below a power of two the numbers lie twice
as close; the ends belong to the interval when the mantissa is even. -/
def rounding (x : Binary64) : Rounding :=
  let m := x.mantissa
  { lower := 4 * m - (if m = exponentUnit ∧ -1074 < x.exponent then 1 else 2)
    value := 4 * m
    upper := 4 * m + 2
    exponent := x.exponent - 2
    closed := m % 2 = 0 }

/-- Whether `c · 10 ^ k` rounds to the number. -/
def Rounding.holds (r : Rounding) (c : Nat) (k : Int) : Bool :=
  if r.closed then leDecimal r.lower r.exponent c k && decimalLe c k r.upper r.exponent
  else !decimalLe c k r.lower r.exponent && !leDecimal r.upper r.exponent c k

/-- The number of digits before the point of `m · 2 ^ e`, negative for leading zeros behind it. -/
def decimalPoint (m : Nat) (e : Int) : Int :=
  let num := m <<< e.toNat
  let den := 1 <<< (-e).toNat
  if den ≤ num then decimalLength (num / den)
  else 1 - (decimalLength ((den + num - 1) / num - 1) : Int)

/-- Tries decimals of `digits` digits and then of more, up to `fuel` further ones; without a hit
it keeps the last one tried. -/
def Rounding.search (r : Rounding) (point : Int) : (fuel digits : Nat) → Nat × Int
  | fuel, digits =>
    let k := point - digits
    let num := (r.value <<< r.exponent.toNat) * Nat.pow 10 (-k).toNat
    let den := Nat.pow 10 k.toNat <<< (-r.exponent).toNat
    let c := num / den
    let nearerAbove := den ≤ 2 * (num % den)
    if r.holds c k && !(r.holds (c + 1) k && nearerAbove) then (c, k)
    else if r.holds (c + 1) k then if (c + 1) % 10 = 0 then ((c + 1) / 10, k + 1) else (c + 1, k)
    else match fuel with
      | 0 => (c, k)
      | fuel + 1 => r.search point fuel (digits + 1)

/-- The digits and the power of ten of the shortest decimal of a positive finite number. Of the decimals that read
back as the number it has the fewest digits, and among those it is the nearest; a decimal as near on the other side
gives way to the greater. -/
def shortest (x : Binary64) : Nat × Int :=
  let r := x.rounding
  r.search (decimalPoint r.value r.exponent) 16 1

/-- The digits of `n` followed by zeros, or with a point among them or zeros before them. -/
def positional (n : Nat) (k : Int) : List Char :=
  let ds := Nat.toDigits 10 n
  if 0 ≤ k then ds ++ List.replicate k.toNat '0'
  else
    let places := (-k).toNat
    if places < ds.length then
      ds.take (ds.length - places) ++ '.' :: ds.drop (ds.length - places)
    else ['0', '.'] ++ List.replicate (places - ds.length) '0' ++ ds

/-- The shortest text that reads back, without an exponent. -/
def text (x : Binary64) : String :=
  if x.isNaN then "NaN"
  else
    let unsigned :=
      if !x.isFinite then "inf".toList
      else if x.magnitude = 0 then ['0']
      else positional x.shortest.1 x.shortest.2
    String.ofList (if x.isNegative then '-' :: unsigned else unsigned)

end Binary64

end TaxonomySet
