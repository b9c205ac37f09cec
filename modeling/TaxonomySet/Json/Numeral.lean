import TaxonomySet.Decimal.Numeral
import TaxonomySet.Json.Value

namespace TaxonomySet.Json

/-- Whether 64 bits hold a number. -/
def fits (n : Nat) : Bool := n < UInt64.size

/-- Takes digits up to the first that does not fit, and counts those left out. -/
def gather (n : Nat) : List Char → Nat × Nat
  | [] => (n, 0)
  | d :: ds =>
    let n' := n * 10 + (d.toNat - 48)
    if fits n' then gather n' ds else (n, ds.length + 1)

/-- The rounded product of a magnitude and a power of ten, none beyond the range. Powers are applied
up to the greatest that there is at a time. -/
def scale? (x : Binary64) (e : Int) : Option Binary64 :=
  if 0 ≤ e ∧ e ≤ 308 then
    let product := x.mulMagnitude (.ofNat (Nat.pow 10 e.toNat))
    if product.isFinite then some product else none
  else if -308 ≤ e ∧ e < 0 then some (x.divMagnitude (.ofNat (Nat.pow 10 (-e).toNat)))
  else if x.magnitude = 0 then some x
  else if 0 ≤ e then none
  else scale? (x.divMagnitude (.ofNat (Nat.pow 10 308))) (e + 308)
termination_by e.natAbs
decreasing_by omega

/-- The number with given digits, exponent and sign. One beyond the range becomes infinite, which nothing that reads
numbers accepts. The digits are gathered in an integer of 64 bits, which drops those that no longer fit, and the
integer is then multiplied or divided by a power of ten, each step rounded. -/
def numberOf (negative : Bool) (n : Nat) (e : Int) : Json :=
  let x := (scale? (.ofNat n) e).getD .infinity
  float (if negative then x.neg else x)

/-- The integer with given digits and sign; minus zero and what 64 bits do not hold are
floating-point numbers. -/
def integerOf (negative : Bool) (n : Nat) : Json :=
  if !negative then integer n
  else if n = 0 ∨ -(n : Int) < Int64.minValue.toInt then float (Binary64.ofNat n).neg
  else integer (-(n : Int))

/-- The digits at the start of a text, of which there must be one, and the rest. -/
def digits1? (cs : List Char) : Option (List Char × List Char) :=
  let ds := cs.takeWhile Char.isDigit
  if ds.isEmpty then none else some (ds, cs.dropWhile Char.isDigit)

/-- Reads the exponent, if there is one, of a number whose digits are known. -/
def readExponent? (negative : Bool) (n : Nat) (e : Int) (cs : List Char) : Option (Json × List Char) :=
  match cs with
  | c :: r =>
    if c == 'e' || c == 'E' then
      let signed := Numeral.splitSign r
      (digits1? signed.2).map fun (ds, rest) =>
        let shift : Int := Numeral.natOfDigits ds
        (numberOf negative n (if signed.1 then e - shift else e + shift), rest)
    else some (numberOf negative n e, cs)
  | [] => some (numberOf negative n e, [])

/-- Reads a number without its sign. A number does not begin with a zero unless that is all of its
whole part. -/
def readUnsigned? (negative : Bool) (cs : List Char) : Option (Json × List Char) :=
  (digits1? cs).bind fun (whole, rest) =>
    if whole.head? = some '0' ∧ 1 < whole.length then none
    else
      let (n, dropped) := gather 0 whole
      match rest with
      | '.' :: r =>
        (digits1? r).bind fun (fraction, rest) =>
          let (m, left) := gather n fraction
          readExponent? negative m ((dropped : Int) - (fraction.length - left : Nat)) rest
      | c :: _ =>
        if c == 'e' || c == 'E' || dropped ≠ 0 then readExponent? negative n dropped rest
        else some (integerOf negative n, rest)
      | [] => some (if dropped ≠ 0 then numberOf negative n dropped else integerOf negative n, [])

/-- Reads a number. -/
def readNumber? (cs : List Char) : Option (Json × List Char) :=
  match cs with
  | '-' :: r => readUnsigned? true r
  | _ => readUnsigned? false cs

end TaxonomySet.Json
