import Mathlib.Data.List.GetD
import Mathlib.Data.Nat.Digits.Defs
import TaxonomySet.Decimal.Numeral
import TaxonomySet.Proofs.Text

namespace TaxonomySet.Numeral

/-- Whether characters are the digits of a natural number, and of which one. -/
def IsDecimal (digits : List Char) (n : ℕ) : Prop :=
  digits ≠ [] ∧ (∀ c ∈ digits, c.isDigit = true) ∧
    n = Nat.ofDigits 10 (digits.reverse.map fun c => c.toNat - '0'.toNat)

/-- Whether characters are an integer in decimal: digits, with or without a sign. -/
inductive IsSigned : List Char → ℤ → Prop
  | bare {digits : List Char} {n : ℕ} (h : IsDecimal digits n) : IsSigned digits n
  | plus {digits : List Char} {n : ℕ} (h : IsDecimal digits n) : IsSigned ('+' :: digits) n
  | minus {digits : List Char} {n : ℕ} (h : IsDecimal digits n) : IsSigned ('-' :: digits) (-n)

/-- Whether a text writes an integer in decimal, blanks at its ends not counting. -/
def Writes (raw : String) (p : ℤ) : Prop :=
  ∃ before cs after, raw.toList = before ++ cs ++ after ∧ IsSigned cs p ∧
    (∀ c ∈ before, Text.isBlank c = true) ∧ ∀ c ∈ after, Text.isBlank c = true

theorem natOfDigits_eq (ds : List Char) :
    natOfDigits ds = Nat.ofDigits 10 (ds.reverse.map fun c => c.toNat - '0'.toNat) := by
  rw [Nat.ofDigits_eq_foldr, List.foldr_map, List.foldr_reverse]
  unfold natOfDigits
  congr 1
  funext n c
  rw [Nat.mul_comm, Nat.add_comm]
  rfl

theorem isDecimal_iff {ds : List Char} {n : ℕ} :
    IsDecimal ds n ↔ (ds.isEmpty || !ds.all Char.isDigit) = false ∧ natOfDigits ds = n := by
  unfold IsDecimal
  rw [← natOfDigits_eq, ← and_assoc, @eq_comm _ n]
  refine and_congr_left fun _ => ?_
  simp

theorem splitSign_of_isDigit {ds : List Char} (h : ∀ c ∈ ds, c.isDigit = true) : splitSign ds = (false, ds) := by
  unfold splitSign
  split
  · exact absurd (h '-' List.mem_cons_self) (by decide)
  · exact absurd (h '+' List.mem_cons_self) (by decide)
  · rfl

theorem isSigned_of_splitSign {cs : List Char} {n : ℕ} (h : IsDecimal (splitSign cs).2 n) :
    IsSigned cs (if (splitSign cs).1 then -(n : ℤ) else n) := by
  revert h
  unfold splitSign
  split
  · exact .minus
  · exact .plus
  · exact .bare

/-- Digits are all that may follow a sign. -/
theorem exponent?_eq_some_iff {cs : List Char} {p : ℤ} : exponent? cs = some p ↔ IsSigned cs p := by
  unfold exponent?
  dsimp only
  constructor
  · intro h
    split at h
    · cases h
    · rename_i hdigits
      cases h
      exact isSigned_of_splitSign (isDecimal_iff.2 ⟨Bool.eq_false_iff.2 hdigits, rfl⟩)
  · rintro (hdecimal | hdecimal | hdecimal)
    · rw [splitSign_of_isDigit hdecimal.2.1]
      simp [isDecimal_iff.1 hdecimal]
    · simp [splitSign, isDecimal_iff.1 hdecimal]
    · simp [splitSign, isDecimal_iff.1 hdecimal]

theorem isBlank_of_isDigit {c : Char} (h : c.isDigit = true) : Text.isBlank c = false := by
  rw [Char.isDigit_iff_toNat] at h
  unfold Text.isBlank
  dsimp only
  have hzero : '0'.toNat = 48 := rfl
  have hnine : '9'.toNat = 57 := rfl
  simp only [Bool.or_eq_false_iff, Bool.and_eq_false_iff, decide_eq_false_iff_not, beq_eq_false_iff_ne]
  omega

theorem IsSigned.isBlank {cs : List Char} {p : ℤ} (h : IsSigned cs p) : cs ≠ [] ∧ ∀ c ∈ cs, Text.isBlank c = false := by
  have hblank {digits : List Char} {n : ℕ} (hdecimal : IsDecimal digits n) : ∀ c ∈ digits, Text.isBlank c = false :=
    fun c hc => isBlank_of_isDigit (hdecimal.2.1 c hc)
  cases h with
  | bare hdecimal => exact ⟨hdecimal.1, hblank hdecimal⟩
  | plus hdecimal => exact ⟨List.cons_ne_nil _ _, List.forall_mem_cons.2 ⟨by decide, hblank hdecimal⟩⟩
  | minus hdecimal => exact ⟨List.cons_ne_nil _ _, List.forall_mem_cons.2 ⟨by decide, hblank hdecimal⟩⟩

/-- What is read from a trimmed text is what the text writes. -/
theorem integer?_trim_eq_some_iff {raw : String} {p : ℤ} : integer? (Text.trim raw) = some p ↔ Writes raw p := by
  unfold integer? Text.trim
  rw [String.toList_ofList, exponent?_eq_some_iff]
  constructor
  · intro hsigned
    obtain ⟨before, after, hraw, hbefore, hafter⟩ := Text.exists_append_trimChars Text.isBlank raw.toList
    exact ⟨before, _, after, hraw, hsigned, hbefore, hafter⟩
  · rintro ⟨before, cs, after, hraw, hsigned, hbefore, hafter⟩
    obtain ⟨hne, hblank⟩ := hsigned.isBlank
    rw [hraw, Text.trimChars_isBlank hbefore hafter (fun c hc => hblank c (List.mem_of_mem_head? hc))
      (fun c hc => hblank c (List.mem_of_getLast? hc)) hne]
    exact hsigned

/-- A text writes one integer at most. -/
theorem Writes.unique {raw : String} {p q : ℤ} (hp : Writes raw p) (hq : Writes raw q) : p = q :=
  Option.some_inj.1 ((integer?_trim_eq_some_iff.2 hp).symm.trans (integer?_trim_eq_some_iff.2 hq))

/-- Whether 32 bits hold an integer. -/
def FitsInt32 (p : ℤ) : Prop := -2 ^ 31 ≤ p ∧ p < 2 ^ 31

/-- Of 32 bits an integer is read from a trimmed text exactly if the text writes it. -/
theorem int32?_trim_eq_some_iff {raw : String} {x : Int32} : int32? (Text.trim raw) = some x ↔ Writes raw x.toInt := by
  rw [← integer?_trim_eq_some_iff]
  unfold int32?
  cases integer? (Text.trim raw) with
  | none => simp
  | some p =>
    dsimp only
    constructor
    · intro h
      split at h
      · rename_i hfits
        cases h
        rw [Int32.toInt_ofInt_of_le hfits.1 (Int.lt_add_one_of_le hfits.2)]
      · cases h
    · rintro h
      cases h
      rw [if_pos ⟨Int32.minValue_le_toInt x, Int32.toInt_le x⟩, Int32.ofInt_toInt]

theorem fitsInt32_iff {p : ℤ} : FitsInt32 p ↔ ∃ x : Int32, x.toInt = p := by
  constructor
  · rintro ⟨hmin, hmax⟩
    exact ⟨.ofInt p, Int32.toInt_ofInt_of_le hmin hmax⟩
  · rintro ⟨x, rfl⟩
    exact ⟨Int32.minValue_le_toInt x, Int32.toInt_lt x⟩

theorem int32?_trim_eq_none_iff {raw : String} :
    int32? (Text.trim raw) = none ↔ ∀ p, Writes raw p → ¬ FitsInt32 p := by
  simp only [Option.eq_none_iff_forall_ne_some, ne_eq, int32?_trim_eq_some_iff, fitsInt32_iff]
  constructor
  · rintro h _ hwrites ⟨x, rfl⟩
    exact h x hwrites
  · exact fun h x hwrites => h _ hwrites ⟨x, rfl⟩

end TaxonomySet.Numeral
