namespace TaxonomySet

/-- A floating-point number: a sign bit, eleven bits of exponent and fifty-two of fraction. The operations on it are
defined by exact arithmetic. -/
structure Binary64 where
  bits : UInt64
deriving DecidableEq, Inhabited, Repr

namespace Binary64

/-- The weight of the sign in a pattern. -/
def signUnit : Nat := 1 <<< 63

/-- The weight of the exponent in a pattern. The mantissa of all but the smallest numbers has this
bit besides those of the fraction. -/
def exponentUnit : Nat := 1 <<< 52

/-- The pattern of positive infinity, above which lie the patterns that are no numbers. -/
def infinityBits : Nat := 0x7FF * exponentUnit

/-- The pattern without its sign. -/
def magnitude (x : Binary64) : Nat := x.bits.toNat % signUnit

/-- Whether the sign bit is set. -/
def isNegative (x : Binary64) : Bool := signUnit ≤ x.bits.toNat

/-- Whether the number is neither infinite nor undefined. -/
def isFinite (x : Binary64) : Bool := x.magnitude < infinityBits

/-- Whether the pattern stands for no number. -/
def isNaN (x : Binary64) : Bool := infinityBits < x.magnitude

/-- The number with a given magnitude and sign. -/
def ofMagnitude (negative : Bool) (n : Nat) : Binary64 :=
  ⟨UInt64.ofNat (if negative then n + signUnit else n)⟩

/-- The number with the opposite sign. -/
def neg (x : Binary64) : Binary64 := ofMagnitude (!x.isNegative) x.magnitude

def zero : Binary64 := ⟨0⟩
def one : Binary64 := ⟨0x3FF0000000000000⟩
def infinity : Binary64 := ⟨0x7FF0000000000000⟩
def nan : Binary64 := ⟨0x7FF8000000000000⟩

/-- The integer that a finite number's magnitude is a power-of-two multiple of. -/
def mantissa (x : Binary64) : Nat :=
  if x.magnitude / exponentUnit = 0 then x.magnitude else x.magnitude % exponentUnit + exponentUnit

/-- The power of two that the mantissa of a finite number counts. -/
def exponent (x : Binary64) : Int := (max 1 (x.magnitude / exponentUnit) : Nat) - 1075

/-- The quotient rounded to the nearest integer, a tie to the even one. -/
def roundQuotient (num den : Nat) : Nat :=
  let q := num / den
  let r := num % den
  if 2 * r < den then q else if den < 2 * r then q + 1 else q + q % 2

/-- The greatest `d` with `2 ^ d ≤ num / den`, for positive `num` and `den`. -/
def logRatio (num den : Nat) : Int :=
  let d : Int := (num.log2 : Int) - den.log2
  let reached := if 0 ≤ d then den <<< d.toNat ≤ num else den ≤ num <<< (-d).toNat
  if reached then d else d - 1

/-- The nearest number to `num / den`, a tie to the even mantissa, infinity beyond the range. -/
def ofRatio (num den : Nat) : Binary64 :=
  if num = 0 ∨ den = 0 then zero
  else
    let e := max (-1074) (logRatio num den - 52)
    let m := if 0 ≤ e then roundQuotient num (den <<< e.toNat)
      else roundQuotient (num <<< (-e).toNat) den
    ofMagnitude false (min infinityBits ((e + 1074).toNat * exponentUnit + m))

/-- The nearest number to `m · 2 ^ e`. -/
def ofScaled (m : Nat) (e : Int) : Binary64 :=
  if 0 ≤ e then ofRatio (m <<< e.toNat) 1 else ofRatio m (1 <<< (-e).toNat)

/-- The nearest number to an integer. -/
def ofNat (n : Nat) : Binary64 := ofRatio n 1

/-- The rounded product of two finite magnitudes. -/
def mulMagnitude (x y : Binary64) : Binary64 :=
  ofScaled (x.mantissa * y.mantissa) (x.exponent + y.exponent)

/-- The rounded quotient of two finite magnitudes. -/
def divMagnitude (x y : Binary64) : Binary64 :=
  let e := x.exponent - y.exponent
  if 0 ≤ e then ofRatio (x.mantissa <<< e.toNat) y.mantissa
  else ofRatio x.mantissa (y.mantissa <<< (-e).toNat)

/-- The place of a pattern in the total order, which runs from the negative patterns that are no
numbers over the negative numbers, the two zeros and the positive numbers to the rest. -/
def rank (x : Binary64) : Nat :=
  if x.isNegative then signUnit - 1 - x.magnitude else signUnit + x.magnitude

instance : Ord Binary64 := ⟨compareOn rank⟩

theorem rank_inj {x y : Binary64} (h : x.rank = y.rank) : x = y := by
  obtain ⟨a⟩ := x
  obtain ⟨b⟩ := y
  simp only [rank, isNegative, magnitude, signUnit, Nat.reduceShiftLeft] at h
  have ha := a.toNat_lt
  have hb := b.toNat_lt
  congr 1
  apply UInt64.toNat_inj.1
  by_cases hna : 0x8000000000000000 ≤ a.toNat <;> by_cases hnb : 0x8000000000000000 ≤ b.toNat <;>
    simp only [hna, hnb, decide_true, decide_false, Bool.false_eq_true, if_true, if_false] at h <;> omega

instance : Std.TransOrd Binary64 := inferInstanceAs (Std.TransCmp (compareOn rank))

instance : Std.LawfulEqOrd Binary64 where
  eq_of_compare {x y} h :=
    rank_inj (Std.compare_eq_iff_eq.1 (show compare x.rank y.rank = .eq from h))

end Binary64

end TaxonomySet
