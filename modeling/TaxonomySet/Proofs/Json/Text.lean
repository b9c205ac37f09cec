import Mathlib
import TaxonomySet.Json.Printer
import TaxonomySet.Json.Reader

namespace TaxonomySet.Json

theorem hex4?_append {cs r : List Char} {n : Nat} (h : hex4? cs = some (n, r)) (rest : List Char) :
    hex4? (cs ++ rest) = some (n, r ++ rest) := by
  match cs, h with
  | a :: b :: c :: d :: cs, h =>
    unfold hex4? at h
    obtain ⟨m, hm, heq⟩ := Option.map_eq_some_iff.1 h
    cases heq
    change (Markup.digitsValue? 16 [a, b, c, d]).map _ = _
    rw [hm]
    rfl

theorem hex4?_control : ∀ n < 0x20,
    hex4? (['0', '0'] ++ (if n < 0x10 then ['0'] else []) ++ Nat.toDigits 16 n) = some (n, []) := by
  decide +kernel

/-- A control character is read back from the number in its escape. -/
theorem escaped?_control {c : Char} (h : c.toNat < 0x20) (rest : List Char) :
    escaped? (['u', '0', '0'] ++ (if c.toNat < 0x10 then ['0'] else []) ++ Nat.toDigits 16 c.toNat ++ rest) =
      some (c, rest) := by
  have hhex := hex4?_append (hex4?_control c.toNat h) rest
  change (hex4? (['0', '0'] ++ (if c.toNat < 0x10 then ['0'] else []) ++ Nat.toDigits 16 c.toNat ++ rest)).bind
    (fun p => unitChar? p.1 p.2) = _
  rw [hhex, Option.bind_some, List.nil_append]
  change unitChar? c.toNat rest = _
  unfold unitChar?
  rw [if_neg (by omega), if_neg (by omega), Char.ofNat_toNat]

/-- Each character is read back from its escape. -/
theorem readString?_escapeChar (fuel : Nat) (read rest : List Char) (c : Char) :
    readString? (fuel + 1) read (escapeChar c ++ rest) = readString? fuel (c :: read) rest := by
  unfold escapeChar
  split
  case h_8 hquote hbackslash _ _ _ _ _ =>
    split
    case isTrue hcontrol =>
      change (escaped? (['u', '0', '0'] ++ (if c.toNat < 0x10 then ['0'] else []) ++
        Nat.toDigits 16 c.toNat ++ rest)).bind (fun p => readString? fuel (p.1 :: read) p.2) = _
      rw [escaped?_control hcontrol, Option.bind_some]
    case isFalse hplain =>
      rw [List.singleton_append, readString?]
      · rw [if_neg hplain]
      · exact hquote
      · exact hbackslash
  all_goals rfl

theorem readString?_flatMap_escapeChar (cs : List Char) {fuel : Nat} (hfuel : cs.length < fuel)
    (read rest : List Char) :
    readString? fuel read (cs.flatMap escapeChar ++ '\x22' :: rest) =
      some (String.ofList (read.reverse ++ cs), rest) := by
  induction cs generalizing fuel read with
  | nil =>
    obtain ⟨fuel, rfl⟩ := Nat.exists_eq_add_one_of_ne_zero (Nat.ne_of_gt hfuel)
    rw [List.append_nil]
    rfl
  | cons c cs ih =>
    obtain ⟨fuel, rfl⟩ := Nat.exists_eq_add_one_of_ne_zero (Nat.ne_of_gt (Nat.zero_lt_of_lt hfuel))
    rw [List.flatMap_cons, List.append_assoc, readString?_escapeChar, ih (by simpa using hfuel)]
    simp

theorem length_le_flatMap_escapeChar (cs : List Char) : cs.length ≤ (cs.flatMap escapeChar).length := by
  induction cs with
  | nil => exact Nat.le_refl 0
  | cons c cs ih =>
    have hc : 0 < (escapeChar c).length := by
      unfold escapeChar
      split <;> try split
      all_goals simp
    rw [List.flatMap_cons, List.length_append, List.length_cons]
    omega

/-- A string is read back from behind its opening quote. -/
theorem exists_stringText (s : String) : ∃ body, (stringText s).toList = '\x22' :: body ∧
    ∀ rest, readString? ((body ++ rest).length + 1) [] (body ++ rest) = some (s, rest) := by
  refine ⟨s.toList.flatMap escapeChar ++ ['\x22'], String.toList_ofList, fun rest => ?_⟩
  have hlength := length_le_flatMap_escapeChar s.toList
  rw [List.append_assoc, List.singleton_append, readString?_flatMap_escapeChar]
  · rw [List.reverse_nil, List.nil_append, String.ofList_toList]
  · rw [List.length_append]
    omega

/-- Whether a number ends where a text goes on. -/
def EndsNumber (rest : List Char) : Prop :=
  ∀ c ∈ rest.head?, c.isDigit = false ∧ c ≠ '.' ∧ (c == 'e' || c == 'E') = false

theorem endsNumber_nil : EndsNumber [] := fun _ h => by cases h

theorem takeWhile_isDigit_append {rest : List Char} (hrest : EndsNumber rest) (cs : List Char) :
    (cs ++ rest).takeWhile Char.isDigit = cs.takeWhile Char.isDigit := by
  induction cs with
  | nil =>
    cases rest with
    | nil => rfl
    | cons c rest => simp [(hrest c rfl).1]
  | cons c cs ih => simp [List.takeWhile_cons, ih]

theorem dropWhile_isDigit_append {rest : List Char} (hrest : EndsNumber rest) (cs : List Char) :
    (cs ++ rest).dropWhile Char.isDigit = cs.dropWhile Char.isDigit ++ rest := by
  induction cs with
  | nil =>
    cases rest with
    | nil => rfl
    | cons c rest => simp [(hrest c rfl).1]
  | cons c cs ih =>
    rw [List.cons_append, List.dropWhile_cons, List.dropWhile_cons]
    split
    · exact ih
    · rfl

theorem digits1?_append {cs ds r rest : List Char} (h : digits1? cs = some (ds, r)) (hrest : EndsNumber rest) :
    digits1? (cs ++ rest) = some (ds, r ++ rest) := by
  unfold digits1? at h ⊢
  rw [takeWhile_isDigit_append hrest, dropWhile_isDigit_append hrest]
  dsimp only at h ⊢
  split at h
  · cases h
  · rename_i hne
    cases h
    rw [if_neg hne]

theorem splitSign_append {cs ds r : List Char} (h : digits1? (Numeral.splitSign cs).2 = some (ds, r))
    (rest : List Char) :
    Numeral.splitSign (cs ++ rest) = ((Numeral.splitSign cs).1, (Numeral.splitSign cs).2 ++ rest) := by
  cases cs with
  | nil => cases h
  | cons c cs =>
    unfold Numeral.splitSign
    split
    · rename_i heq
      cases heq
      rfl
    · rename_i heq
      cases heq
      rfl
    · rename_i hminus hplus
      rw [List.cons_append] at hminus hplus
      split
      · rename_i heq
        cases heq
        exact absurd rfl (hminus _)
      · rename_i heq
        cases heq
        exact absurd rfl (hplus _)
      · rfl

theorem readExponent?_append {negative : Bool} {n : Nat} {e : Int} {cs r rest : List Char} {j : Json}
    (h : readExponent? negative n e cs = some (j, r)) (hrest : EndsNumber rest) :
    readExponent? negative n e (cs ++ rest) = some (j, r ++ rest) := by
  cases cs with
  | nil =>
    cases h
    cases rest with
    | nil => rfl
    | cons c rest => rw [List.nil_append, readExponent?, (hrest c rfl).2.2, if_neg Bool.false_ne_true]
  | cons c cs =>
    rw [List.cons_append, readExponent?]
    rw [readExponent?] at h
    split at h
    · rename_i hmark
      rw [if_pos hmark]
      obtain ⟨⟨ds, r'⟩, hdigits, heq⟩ := Option.map_eq_some_iff.1 h
      cases heq
      rw [splitSign_append hdigits rest]
      dsimp only
      rw [digits1?_append hdigits hrest]
      rfl
    · rename_i hmark
      cases h
      rw [if_neg hmark]
      rfl

/-- Reads what stands behind the whole part of a number, of which `n` holds the digits that fit. -/
def readBehind? (negative : Bool) (n dropped : Nat) (cs : List Char) : Option (Json × List Char) :=
  match cs with
  | '.' :: r =>
    (digits1? r).bind fun (fraction, rest) =>
      readExponent? negative (gather n fraction).1 ((dropped : Int) - (fraction.length - (gather n fraction).2 : Nat))
        rest
  | c :: _ =>
    if c == 'e' || c == 'E' || dropped ≠ 0 then readExponent? negative n dropped cs
    else some (integerOf negative n, cs)
  | [] => some (if dropped ≠ 0 then numberOf negative n dropped else integerOf negative n, [])

theorem readUnsigned?_eq (negative : Bool) (cs : List Char) :
    readUnsigned? negative cs = (digits1? cs).bind fun (whole, rest) =>
      if whole.head? = some '0' ∧ 1 < whole.length then none
      else readBehind? negative (gather 0 whole).1 (gather 0 whole).2 rest := by
  unfold readUnsigned? readBehind?
  rfl

/-- A whole part at the end of a text, which is all of the number. -/
theorem readBehind?_of_endsNumber (negative : Bool) (n dropped : Nat) {rest : List Char} (hrest : EndsNumber rest) :
    readBehind? negative n dropped rest =
      some (if dropped ≠ 0 then numberOf negative n dropped else integerOf negative n, rest) := by
  cases rest with
  | nil => rfl
  | cons c rest =>
    obtain ⟨-, hpoint, hmark⟩ := hrest c rfl
    unfold readBehind?
    split
    · rename_i heq
      cases heq
      exact absurd rfl hpoint
    · rename_i heq
      cases heq
      rw [hmark, Bool.false_or]
      by_cases hdropped : dropped ≠ 0
      · rw [if_pos (decide_eq_true hdropped), if_pos hdropped]
        have hnone : readExponent? negative n dropped [] = some (numberOf negative n dropped, []) := rfl
        exact readExponent?_append hnone hrest
      · rw [if_neg (by simpa using hdropped), if_neg hdropped]
    · rename_i heq
      cases heq

theorem readBehind?_append {negative : Bool} {n dropped : Nat} {cs r rest : List Char} {j : Json}
    (h : readBehind? negative n dropped cs = some (j, r)) (hrest : EndsNumber rest) :
    readBehind? negative n dropped (cs ++ rest) = some (j, r ++ rest) := by
  unfold readBehind? at h
  split at h
  · obtain ⟨⟨fraction, behind⟩, hfraction, h⟩ := Option.bind_eq_some_iff.1 h
    change (digits1? (_ ++ rest)).bind _ = _
    rw [digits1?_append hfraction hrest]
    exact readExponent?_append h hrest
  · rename_i c tail hpoint
    unfold readBehind?
    split
    · rename_i heq
      cases heq
      exact absurd rfl hpoint
    · rename_i heq
      cases heq
      split at h
      · rename_i hmark
        rw [if_pos hmark]
        exact readExponent?_append h hrest
      · rename_i hmark
        cases h
        rw [if_neg hmark]
    · rename_i heq
      cases heq
  · cases h
    exact readBehind?_of_endsNumber negative n dropped hrest

theorem readUnsigned?_append {negative : Bool} {cs r rest : List Char} {j : Json}
    (h : readUnsigned? negative cs = some (j, r)) (hrest : EndsNumber rest) :
    readUnsigned? negative (cs ++ rest) = some (j, r ++ rest) := by
  rw [readUnsigned?_eq] at h ⊢
  obtain ⟨⟨whole, behind⟩, hdigits, h⟩ := Option.bind_eq_some_iff.1 h
  rw [digits1?_append hdigits hrest, Option.bind_some]
  dsimp only at h ⊢
  split at h
  · cases h
  · rename_i hzero
    rw [if_neg hzero]
    exact readBehind?_append h hrest

/-- A number is read alike wherever it ends. -/
theorem readNumber?_append {cs r rest : List Char} {j : Json} (h : readNumber? cs = some (j, r))
    (hrest : EndsNumber rest) : readNumber? (cs ++ rest) = some (j, r ++ rest) := by
  unfold readNumber? at h
  split at h
  · exact readUnsigned?_append h hrest
  · rename_i hminus
    have hunsigned := readUnsigned?_append h hrest
    unfold readNumber?
    split
    · rename_i r' heq
      cases cs with
      | nil => cases h
      | cons c cs =>
        rw [List.cons_append, List.cons.injEq] at heq
        exact absurd (congrArg (· :: cs) heq.1) (hminus cs)
    · exact hunsigned

/-- A number begins with a digit or with a minus sign. -/
theorem exists_cons_of_readNumber? {cs r : List Char} {j : Json} (h : readNumber? cs = some (j, r)) :
    ∃ c rest, cs = c :: rest ∧ (c = '-' ∨ c.isDigit = true) := by
  unfold readNumber? at h
  split at h
  · exact ⟨_, _, rfl, .inl rfl⟩
  · rw [readUnsigned?_eq] at h
    obtain ⟨⟨whole, behind⟩, hdigits, -⟩ := Option.bind_eq_some_iff.1 h
    cases cs with
    | nil => cases hdigits
    | cons c cs =>
      refine ⟨c, cs, rfl, .inr ?_⟩
      by_contra hc
      unfold digits1? at hdigits
      simp [hc] at hdigits

theorem natOfDigits_toDigits (n : Nat) : Numeral.natOfDigits (Nat.toDigits 10 n) = n := by
  have hdigits := Nat.ofDigitChars_ten_toDigits (n := n)
  rw [Nat.ofDigitChars_eq_foldl] at hdigits
  simp only [Nat.mul_comm] at hdigits
  exact hdigits

/-- Only zero begins with a zero. -/
theorem head?_toDigits_ne_zero {n : Nat} (h : 0 < n) : (Nat.toDigits 10 n).head? ≠ some '0' := by
  induction n using Nat.strongRecOn with
  | ind n ih =>
    rcases Nat.lt_or_ge n 10 with hlt | hge
    · rw [Nat.toDigits_of_lt_base hlt]
      have hsmall : ∀ n < 10, 0 < n → [n.digitChar].head? ≠ some '0' := by decide
      exact hsmall n hlt h
    · rw [Nat.toDigits_of_base_le (by omega) hge, List.head?_append_of_ne_nil _ Nat.toDigits_ne_nil]
      exact ih (n / 10) (by omega) (by omega)

theorem le_foldl_digits (ds : List Char) (n : Nat) : n ≤ ds.foldl (fun n c => n * 10 + (c.toNat - 48)) n := by
  induction ds generalizing n with
  | nil => exact Nat.le_refl n
  | cons d ds ih =>
    have hd := ih (n * 10 + (d.toNat - 48))
    rw [List.foldl_cons]
    omega

/-- Digits whose number 64 bits hold are all taken. -/
theorem gather_of_fits {ds : List Char} {n : Nat}
    (h : ds.foldl (fun n c => n * 10 + (c.toNat - 48)) n < UInt64.size) :
    gather n ds = (ds.foldl (fun n c => n * 10 + (c.toNat - 48)) n, 0) := by
  induction ds generalizing n with
  | nil => rfl
  | cons d ds ih =>
    have hle := le_foldl_digits ds (n * 10 + (d.toNat - 48))
    have hfits : fits (n * 10 + (d.toNat - 48)) = true := by
      unfold fits
      rw [List.foldl_cons] at h
      exact decide_eq_true (Nat.lt_of_le_of_lt hle h)
    unfold gather
    dsimp only
    rw [if_pos hfits, ih h, List.foldl_cons]

theorem readUnsigned?_toDigits (negative : Bool) {n : Nat} (h : n < UInt64.size) :
    readUnsigned? negative (Nat.toDigits 10 n) = some (integerOf negative n, []) := by
  have hall : ∀ c ∈ Nat.toDigits 10 n, c.isDigit = true := fun c hc =>
    Nat.isDigit_of_mem_toDigits (by omega) (by omega) hc
  have hdigits : digits1? (Nat.toDigits 10 n) = some (Nat.toDigits 10 n, []) := by
    unfold digits1?
    rw [List.takeWhile_eq_self_iff.2 hall, List.dropWhile_eq_nil_iff.2 hall]
    simp [Nat.toDigits_ne_nil]
  have hgather : gather 0 (Nat.toDigits 10 n) = (n, 0) := by
    have hvalue := natOfDigits_toDigits n
    unfold Numeral.natOfDigits at hvalue
    rw [gather_of_fits (by rw [hvalue]; exact h), hvalue]
  have hzero : ¬ ((Nat.toDigits 10 n).head? = some '0' ∧ 1 < (Nat.toDigits 10 n).length) := by
    rintro ⟨hhead, hlength⟩
    rcases Nat.eq_zero_or_pos n with rfl | hpos
    · simp at hlength
    · exact head?_toDigits_ne_zero hpos hhead
  rw [readUnsigned?_eq, hdigits, Option.bind_some]
  dsimp only
  rw [if_neg hzero, hgather]
  rfl

/-- An integer of 64 bits, with or without a sign, is read back from its digits. -/
theorem readNumber?_toString {n : Int} (hmin : Int64.minValue.toInt ≤ n) (hmax : n < UInt64.size) :
    readNumber? (toString n).toList = some (integer n, []) := by
  cases n with
  | ofNat n =>
    have htext : (toString (Int.ofNat n)).toList = Nat.toDigits 10 n := String.toList_ofList
    have hplain : readNumber? (Nat.toDigits 10 n) = readUnsigned? false (Nat.toDigits 10 n) := by
      unfold readNumber?
      split
      · rename_i heq
        have hminus := Nat.isDigit_of_mem_toDigits (b := 10) (n := n) (c := '-') (by omega) (by omega)
          (heq ▸ List.mem_cons_self)
        cases hminus
      · rfl
    rw [htext, hplain, readUnsigned?_toDigits false (by simpa using hmax)]
    rfl
  | negSucc n =>
    have htext : (toString (Int.negSucc n)).toList = '-' :: Nat.toDigits 10 (n + 1) := by
      change ("-" ++ String.ofList (Nat.toDigits 10 (n + 1))).toList = _
      rw [String.toList_append, String.toList_ofList, String.toList_ofList]
      rfl
    have hvalue : -((n + 1 : Nat) : Int) = Int.negSucc n := rfl
    have hbound : n + 1 ≤ 2 ^ 63 := by
      have hminimum : Int64.minValue.toInt = -(2 ^ 63 : Nat) := rfl
      omega
    rw [htext]
    change readUnsigned? true (Nat.toDigits 10 (n + 1)) = _
    rw [readUnsigned?_toDigits true (Nat.lt_of_le_of_lt hbound (by decide))]
    have hlarge : ¬ (n + 1 = 0 ∨ -((n + 1 : Nat) : Int) < Int64.minValue.toInt) := by omega
    unfold integerOf
    rw [Bool.not_true, if_neg Bool.false_ne_true, if_neg hlarge, hvalue]

end TaxonomySet.Json
