import TaxonomySet.Decimal.Binary64

namespace TaxonomySet.Numeral

/-- The value of a decimal digit. -/
def digit? (c : Char) : Option Nat := if c.isDigit then some (c.toNat - 48) else none

/-- The integer that digits write. -/
def natOfDigits (ds : List Char) : Nat := ds.foldl (fun n c => n * 10 + (c.toNat - 48)) 0

/-- A sign if there is one, and what follows it. -/
def splitSign : List Char → Bool × List Char
  | '-' :: cs => (true, cs)
  | '+' :: cs => (false, cs)
  | cs => (false, cs)

/-- A decimal before rounding: the digits written, without the point, and the power of ten that
they count. -/
structure Decimal where
  digits : List Char
  exponent : Int

/-- The nearest number to an unsigned decimal. Decimals that lie outside the range by their size
alone are not computed. -/
def Decimal.round (d : Decimal) : Binary64 :=
  let digits := d.digits.dropWhile (· == '0')
  let magnitude := (digits.length : Int) + d.exponent
  if digits.isEmpty || magnitude < -330 then Binary64.zero
  else if 310 < magnitude then Binary64.infinity
  else if 0 ≤ d.exponent then Binary64.ofRatio (natOfDigits digits * Nat.pow 10 d.exponent.toNat) 1
  else Binary64.ofRatio (natOfDigits digits) (Nat.pow 10 (-d.exponent).toNat)

/-- An exponent: a sign and at least one digit, up to the end. -/
def exponent? (cs : List Char) : Option Int :=
  let signed := splitSign cs
  if signed.2.isEmpty || !signed.2.all Char.isDigit then none
  else some (if signed.1 then -(natOfDigits signed.2 : Int) else natOfDigits signed.2)

/-- An unsigned decimal: digits on at least one side of an optional point, then an optional
exponent. -/
def decimal? (cs : List Char) : Option Decimal :=
  let whole := cs.takeWhile Char.isDigit
  let rest := cs.dropWhile Char.isDigit
  let (fraction, rest) := match rest with
    | '.' :: r => (r.takeWhile Char.isDigit, r.dropWhile Char.isDigit)
    | r => ([], r)
  if whole.isEmpty && fraction.isEmpty then none
  else match rest with
    | [] => some ⟨whole ++ fraction, -fraction.length⟩
    | c :: r =>
      if c == 'e' || c == 'E' then
        (exponent? r).map fun e => ⟨whole ++ fraction, e - fraction.length⟩
      else none

/-- An unsigned number: a decimal or one of the three words. -/
def unsigned? (cs : List Char) : Option Binary64 :=
  match decimal? cs with
  | some d => some d.round
  | none =>
    let word := String.ofList (cs.map Char.toLower)
    if word == "inf" || word == "infinity" then some Binary64.infinity
    else if word == "nan" then some Binary64.nan
    else none

/-- The number that a text writes. -/
def number? (s : String) : Option Binary64 :=
  let signed := splitSign s.toList
  (unsigned? signed.2).map fun x => if signed.1 then x.neg else x

/-- The integer that a text writes, without bounds. -/
def integer? (s : String) : Option Int := exponent? s.toList

/-- The integer that a text writes, if 32 bits hold it. -/
def int32? (s : String) : Option Int32 :=
  match integer? s with
  | some n => if Int32.minValue.toInt ≤ n ∧ n ≤ Int32.maxValue.toInt then some (Int32.ofInt n) else none
  | none => none

end TaxonomySet.Numeral
