import Mathlib
import TaxonomySet.Decimal.Numeral
import TaxonomySet.Proofs.Decimal.Shortest
import TaxonomySet.Proofs.Json.Text

namespace TaxonomySet

namespace Numeral

/-- The number that a decimal writes, before rounding. -/
def Decimal.value (d : Decimal) : ℚ := natOfDigits d.digits * 10 ^ d.exponent

theorem natOfDigits_append (as bs : List Char) :
    natOfDigits (as ++ bs) = natOfDigits as * 10 ^ bs.length + natOfDigits bs := by
  induction bs using List.reverseRecOn with
  | nil => simp [natOfDigits]
  | append_singleton bs c ih =>
    unfold natOfDigits at ih ⊢
    rw [← List.append_assoc, List.foldl_append, ih, List.foldl_append, List.length_append, List.length_singleton,
      pow_succ]
    simp only [List.foldl_cons, List.foldl_nil]
    ring

theorem natOfDigits_zeros (n : ℕ) : natOfDigits (List.replicate n '0') = 0 := by
  induction n with
  | zero => rfl
  | succ n ih => rw [List.replicate_succ', natOfDigits_append, ih]; rfl

theorem decimal?_digits {ds : List Char} (hne : ds ≠ []) (hdigits : ∀ c ∈ ds, c.isDigit = true) :
    decimal? ds = some ⟨ds, 0⟩ := by
  unfold decimal?
  rw [List.takeWhile_eq_self_iff.2 hdigits, List.dropWhile_eq_nil_iff.2 hdigits]
  simp [hne]

theorem decimal?_point {whole fraction : List Char} (hne : whole ≠ [])
    (hwhole : ∀ c ∈ whole, c.isDigit = true) (hfraction : ∀ c ∈ fraction, c.isDigit = true) :
    decimal? (whole ++ '.' :: fraction) = some ⟨whole ++ fraction, -fraction.length⟩ := by
  unfold decimal?
  rw [List.takeWhile_append_of_pos hwhole, List.dropWhile_append_of_pos hwhole]
  simp [hne, List.takeWhile_eq_self_iff.2 hfraction, List.dropWhile_eq_nil_iff.2 hfraction]

theorem decimal?_cons_eq_none {c : Char} (hdigit : c.isDigit = false) (hpoint : c ≠ '.') (cs : List Char) :
    decimal? (c :: cs) = none := by
  unfold decimal?
  simp [hdigit, hpoint]

end Numeral

namespace Binary64

open Numeral

theorem isDigit_of_mem_toDigits {n : ℕ} {c : Char} (h : c ∈ Nat.toDigits 10 n) : c.isDigit = true :=
  Nat.isDigit_of_mem_toDigits (by norm_num) (by norm_num) h

theorem isDigit_of_mem_zeros {n : ℕ} {c : Char} (h : c ∈ List.replicate n '0') : c.isDigit = true := by
  rw [List.eq_of_mem_replicate h]
  rfl

/-- A decimal in positional notation is read as the number that it writes. -/
theorem value_decimal?_positional (n : ℕ) (k : ℤ) :
    (decimal? (positional n k)).map Decimal.value = some ((n : ℚ) * 10 ^ k) := by
  have hdigits : ∀ c ∈ Nat.toDigits 10 n, c.isDigit = true := fun c => isDigit_of_mem_toDigits
  unfold positional
  dsimp only
  split
  · rename_i hk
    obtain ⟨j, rfl⟩ := Int.eq_ofNat_of_zero_le hk
    rw [decimal?_digits (List.append_ne_nil_of_left_ne_nil Nat.toDigits_ne_nil _) fun c hc =>
      (List.mem_append.1 hc).elim (hdigits c) isDigit_of_mem_zeros, Option.map_some, Decimal.value,
      natOfDigits_append, natOfDigits_zeros, Json.natOfDigits_toDigits]
    simp
  · rename_i hk
    obtain ⟨j, rfl⟩ : ∃ j : ℕ, k = -j := ⟨(-k).toNat, by omega⟩
    rw [neg_neg, Int.toNat_natCast]
    split
    · rename_i hj
      have hwhole : (Nat.toDigits 10 n).take ((Nat.toDigits 10 n).length - j) ≠ [] := by
        rw [← List.length_pos_iff, List.length_take]
        omega
      rw [decimal?_point hwhole (fun c hc => hdigits c (List.mem_of_mem_take hc))
        fun c hc => hdigits c (List.mem_of_mem_drop hc), Option.map_some, Decimal.value, List.take_append_drop,
        Json.natOfDigits_toDigits, List.length_drop, Nat.sub_sub_self hj.le]
    · rename_i hj
      have hfraction : ∀ c ∈ List.replicate (j - (Nat.toDigits 10 n).length) '0' ++ Nat.toDigits 10 n,
          c.isDigit = true := fun c hc => (List.mem_append.1 hc).elim isDigit_of_mem_zeros (hdigits c)
      have hlength : (List.replicate (j - (Nat.toDigits 10 n).length) '0' ++ Nat.toDigits 10 n).length = j := by
        rw [List.length_append, List.length_replicate]
        omega
      change (decimal? (['0'] ++ '.' ::
        (List.replicate (j - (Nat.toDigits 10 n).length) '0' ++ Nat.toDigits 10 n))).map Decimal.value = _
      rw [decimal?_point (List.cons_ne_nil _ _) (by simp) hfraction, Option.map_some, Decimal.value, hlength,
        natOfDigits_append, natOfDigits_append, natOfDigits_zeros, Json.natOfDigits_toDigits]
      simp [natOfDigits]

/-- The text of a number behind its sign. -/
def unsigned (x : Binary64) : List Char :=
  if !x.isFinite then "inf".toList
  else if x.magnitude = 0 then ['0']
  else positional x.shortest.1 x.shortest.2

theorem toList_text {x : Binary64} (h : x.isNaN = false) :
    x.text.toList = if x.isNegative then '-' :: x.unsigned else x.unsigned := by
  unfold text
  rw [h, if_neg Bool.false_ne_true, String.toList_ofList]
  rfl

theorem value_decimal?_unsigned (x : Binary64) :
    (decimal? x.unsigned).map Decimal.value =
      if !x.isFinite then none
      else if x.magnitude = 0 then some 0
      else some ((x.shortest.1 : ℚ) * 10 ^ x.shortest.2) := by
  unfold unsigned
  split
  · rw [show decimal? "inf".toList = none by decide]
    rfl
  · split
    · rw [decimal?_digits (List.cons_ne_nil _ _) (by simp)]
      simp [Decimal.value, natOfDigits]
    · exact value_decimal?_positional _ _

theorem isSome_decimal?_unsigned (x : Binary64) : (decimal? x.unsigned).isSome = x.isFinite := by
  rw [← Option.isSome_map (f := Decimal.value), value_decimal?_unsigned]
  cases x.isFinite
  · rfl
  · rw [Bool.not_true, if_neg Bool.false_ne_true]
    split <;> rfl

theorem unsigned_ne_cons {c : Char} (hdigit : c.isDigit = false) (hpoint : c ≠ '.') (hword : c ≠ 'i')
    (x : Binary64) (cs : List Char) : x.unsigned ≠ c :: cs := by
  intro heq
  have hinfinite := isSome_decimal?_unsigned x
  rw [heq, decimal?_cons_eq_none hdigit hpoint, Option.isSome_none] at hinfinite
  rw [unsigned, ← hinfinite, Bool.not_false, if_pos rfl] at heq
  exact hword (List.cons_eq_cons.1 heq).1.symm

theorem low_rounding_pos {x : Binary64} (h : 0 < x.magnitude) : 0 < x.rounding.low := by
  have hzero : (⟨0⟩ : Binary64).magnitude = 0 := by decide
  have hle := (high_rounding_le_low_rounding (x := ⟨0⟩) (y := x) (by rwa [hzero])).1
  have hhigh : 0 < (⟨0⟩ : Binary64).rounding.high := by
    unfold Rounding.high
    exact mul_pos (by decide) (by positivity)
  exact hhigh.trans_le hle

theorem magnitude_eq_of_infinite {x : Binary64} (h : x.isNaN = false) (hinfinite : x.isFinite = false) :
    x.magnitude = infinityBits := by
  unfold isNaN at h
  unfold isFinite at hinfinite
  rw [decide_eq_false_iff_not] at h hinfinite
  omega

theorem magnitude_eq_of_unsigned {x y : Binary64} (hx : x.isNaN = false) (hy : y.isNaN = false)
    (h : x.unsigned = y.unsigned) : x.magnitude = y.magnitude := by
  have hne {z : Binary64} (hz : z.magnitude ≠ 0) : (z.shortest.1 : ℚ) * 10 ^ z.shortest.2 ≠ 0 :=
    ((low_rounding_pos (Nat.pos_of_ne_zero hz)).trans_le
      (Rounding.between_of_mem_range (shortest_mem_range (Nat.pos_of_ne_zero hz))).1).ne'
  have hfinite : x.isFinite = y.isFinite := by
    rw [← isSome_decimal?_unsigned, h, isSome_decimal?_unsigned]
  cases hyFinite : y.isFinite
  · rw [magnitude_eq_of_infinite hx (hfinite.trans hyFinite), magnitude_eq_of_infinite hy hyFinite]
  · have hvalue := value_decimal?_unsigned x
    rw [h, value_decimal?_unsigned, hfinite, hyFinite] at hvalue
    by_cases hxZero : x.magnitude = 0 <;> by_cases hyZero : y.magnitude = 0 <;>
      simp only [hxZero, hyZero, Bool.not_true, Bool.false_eq_true, if_true, if_false, Option.some_inj] at hvalue
    · rw [hxZero, hyZero]
    · exact absurd hvalue (hne hyZero)
    · exact absurd hvalue.symm (hne hxZero)
    · exact magnitude_eq_of_shortest (Nat.pos_of_ne_zero hxZero) (Nat.pos_of_ne_zero hyZero) hvalue.symm

theorem text_ne_of_isNaN {x y : Binary64} (hx : x.isNaN = true) (hy : y.isNaN = false) : x.text ≠ y.text := by
  intro h
  have htext := toList_text hy
  rw [← h, text, if_pos hx] at htext
  split at htext
  · cases htext
  · exact unsigned_ne_cons (by decide) (by decide) (by decide) y _ htext.symm

/-- Numbers of one text are the same, unless they are none. -/
theorem text_inj {x y : Binary64} (h : x.text = y.text) : x = y ∨ x.isNaN = true ∧ y.isNaN = true := by
  cases hx : x.isNaN <;> cases hy : y.isNaN
  · have htext := toList_text hx
    rw [h, toList_text hy] at htext
    have hminus (z : Binary64) (cs : List Char) : z.unsigned ≠ '-' :: cs :=
      unsigned_ne_cons (by decide) (by decide) (by decide) z cs
    refine .inl (rank_inj ?_)
    unfold rank
    split at htext <;> split at htext
    · rename_i hyNegative hxNegative
      rw [if_pos hxNegative, if_pos hyNegative,
        magnitude_eq_of_unsigned hx hy (List.cons_eq_cons.1 htext).2.symm]
    · exact absurd htext.symm (hminus _ _)
    · exact absurd htext (hminus _ _)
    · rename_i hyNegative hxNegative
      rw [if_neg hxNegative, if_neg hyNegative, magnitude_eq_of_unsigned hx hy htext.symm]
  · exact absurd h.symm (text_ne_of_isNaN hy hx)
  · exact absurd h (text_ne_of_isNaN hx hy)
  · exact .inr ⟨rfl, rfl⟩

end Binary64

end TaxonomySet
