import Mathlib
import TaxonomySet.Location.Normal
import TaxonomySet.Proofs.Json.Struct
import TaxonomySet.Proofs.Role.Elements
import TaxonomySet.Proofs.Text
import TaxonomySet.Snapshot.Reader

namespace TaxonomySet.Snapshot

open Text

/-- A text without blanks and bars. -/
def IsWord (w : List Char) : Prop := w ≠ [] ∧ ∀ c ∈ w, isBlank c = false ∧ c ≠ '|'

theorem IsWord.head {w : List Char} (h : IsWord w) : ∀ c ∈ w.head?, isBlank c = false :=
  fun c hc => (h.2 c (List.mem_of_mem_head? hc)).1

theorem IsWord.last {w : List Char} (h : IsWord w) : ∀ c ∈ w.getLast?, isBlank c = false :=
  fun c hc => (h.2 c (List.mem_of_getLast? hc)).1

/-- Words joined by bars and blanks are found between the bars. -/
theorem map_trimChars_pieces {ws : List (List Char)} (hws : ∀ w ∈ ws, IsWord w) (hne : ws ≠ []) {pre : List Char}
    (hpre : ∀ c ∈ pre, c = ' ') :
    (pieces '|' (pre ++ " | ".toList.intercalate ws)).map (trimChars isBlank) = ws := by
  have hblank : ∀ c ∈ pre, isBlank c = true := fun c hc => by
    rw [hpre c hc]
    decide
  induction ws generalizing pre with
  | nil => exact absurd rfl hne
  | cons w ws ih =>
    have hw := hws w List.mem_cons_self
    have hbar : '|' ∉ pre ++ w := by
      intro hmem
      rcases List.mem_append.1 hmem with hmem | hmem
      · cases hpre _ hmem
      · exact (hw.2 _ hmem).2 rfl
    cases ws with
    | nil =>
      have htrim := @trimChars_isBlank pre w [] hblank (by simp) hw.head hw.last hw.1
      rw [List.append_nil] at htrim
      rw [List.intercalate_singleton, Location.pieces_eq_singleton hbar, List.map_singleton, htrim]
    | cons v ws =>
      have htext : pre ++ " | ".toList.intercalate (w :: v :: ws) =
          (pre ++ w ++ [' ']) ++ '|' :: ([' '] ++ " | ".toList.intercalate (v :: ws)) := by
        rw [List.intercalate_cons_cons]
        simp
      have hbar' : '|' ∉ pre ++ w ++ [' '] := by
        simp only [List.mem_append, List.mem_singleton] at hbar ⊢
        simpa using hbar
      have hspace : ∀ c ∈ [' '], isBlank c = true := fun c hc => by
        rw [List.mem_singleton.1 hc]
        decide
      have htrim := @trimChars_isBlank pre w [' '] hblank hspace hw.head hw.last hw.1
      have hrest := ih (fun u hu => hws u (List.mem_cons_of_mem _ hu)) (List.cons_ne_nil _ _)
        (fun c hc => List.mem_singleton.1 hc) hspace
      rw [htext, Location.pieces_append, Location.pieces_eq_singleton hbar', List.singleton_append, List.map_cons, htrim,
        hrest]

theorem IsWord.head?_intercalate {w : List Char} (h : IsWord w) (ws : List (List Char)) :
    (" | ".toList.intercalate (w :: ws)).head? = w.head? := by
  cases ws with
  | nil => rw [List.intercalate_singleton]
  | cons v ws => rw [List.intercalate_cons_cons, List.append_assoc, List.head?_append_of_ne_nil _ h.1]

theorem intercalate_ne_nil {ws : List (List Char)} (hws : ∀ w ∈ ws, IsWord w) (hne : ws ≠ []) :
    " | ".toList.intercalate ws ≠ [] := by
  cases ws with
  | nil => exact absurd rfl hne
  | cons w ws =>
    have hw := hws w List.mem_cons_self
    rw [ne_eq, ← List.head?_eq_none_iff, hw.head?_intercalate, List.head?_eq_none_iff]
    exact hw.1

theorem isBlank_getLast?_intercalate {ws : List (List Char)} (hws : ∀ w ∈ ws, IsWord w) :
    ∀ c ∈ (" | ".toList.intercalate ws).getLast?, isBlank c = false := by
  induction ws with
  | nil => simp
  | cons w ws ih =>
    cases ws with
    | nil =>
      rw [List.intercalate_singleton]
      exact (hws w List.mem_cons_self).last
    | cons v ws =>
      have hrest : ∀ u ∈ v :: ws, IsWord u := fun u hu => hws u (List.mem_cons_of_mem _ hu)
      rw [List.intercalate_cons_cons, List.getLast?_append_of_ne_nil _ (intercalate_ne_nil hrest (List.cons_ne_nil _ _))]
      exact ih hrest

/-- Words joined by bars and blanks neither begin nor end with a blank. -/
theorem trimChars_intercalate {ws : List (List Char)} (hws : ∀ w ∈ ws, IsWord w) :
    trimChars isBlank (" | ".toList.intercalate ws) = " | ".toList.intercalate ws := by
  cases ws with
  | nil => rfl
  | cons w ws =>
    have hw := hws w List.mem_cons_self
    have htrim := @trimChars_isBlank [] (" | ".toList.intercalate (w :: ws)) [] (by simp) (by simp)
      (by rw [hw.head?_intercalate]; exact hw.head) (isBlank_getLast?_intercalate hws)
      (intercalate_ne_nil hws (List.cons_ne_nil _ _))
    rwa [List.nil_append, List.append_nil] at htrim

/-- The digits of a number are words for hexadecimal digits. -/
theorem exists_digitChar_of_mem {n : Nat} {c : Char} (h : c ∈ Nat.toDigits 16 n) : ∃ d < 16, c = d.digitChar := by
  induction n using Nat.strongRecOn with
  | ind n ih =>
    rw [Nat.toDigits_eq_if (by decide)] at h
    split at h
    · rename_i hlt
      exact ⟨n, hlt, List.mem_singleton.1 h⟩
    · rename_i hge
      rcases List.mem_append.1 h with h | h
      · exact ih (n / 16) (by omega) h
      · exact ⟨n % 16, Nat.mod_lt _ (by decide), List.mem_singleton.1 h⟩

theorem digitValue?_digitChar : ∀ d < 16, Markup.digitValue? 16 d.digitChar = some d := by decide

theorem digitsValue?_toDigits (n : Nat) : Markup.digitsValue? 16 (Nat.toDigits 16 n) = some n := by
  have hfold : (Nat.toDigits 16 n).foldl (fun n c => n.bind fun n => (Markup.digitValue? 16 c).map (n * 16 + ·))
      (some 0) = some n := by
    induction n using Nat.strongRecOn with
    | ind n ih =>
      rw [Nat.toDigits_eq_if (by decide)]
      split
      · rename_i hlt
        rw [List.foldl_cons, Option.bind_some, digitValue?_digitChar n hlt]
        simp
      · rename_i hge
        rw [List.foldl_append, ih (n / 16) (by omega), List.foldl_cons, Option.bind_some,
          digitValue?_digitChar _ (Nat.mod_lt _ (by decide)), Option.map_some, List.foldl_nil]
        congr 1
        omega
  unfold Markup.digitsValue?
  rw [hfold]
  simp [Nat.toDigits_ne_nil]

/-- The words of a set of flags: its names, and the number of the bits without a name. -/
def wordsOf (f : Flags) : List String :=
  f.names ++ if f.unnamed = 0 then [] else ["0x" ++ String.ofList (Nat.toDigits 16 f.unnamed)]

/-- The flags that the words of a set of flags mean. -/
def partsOf (f : Flags) : List Flags :=
  (standardElements.zipIdx.filter fun e => f.bits.getLsbD e.2).map (fun e => Flags.single e.2) ++
    if f.unnamed = 0 then [] else [⟨BitVec.ofNat 32 f.unnamed⟩]

theorem flag?_name : ∀ e ∈ standardElements.zipIdx, flag? e.1.1 = some (Flags.single e.2) := by
  decide +kernel

theorem unnamed_lt (f : Flags) : f.unnamed < UInt32.size := by
  have hbits := f.bits.isLt
  have hle := Nat.div_mul_le_self f.bits.toNat (2 ^ standardElements.length)
  unfold Flags.unnamed
  rw [Nat.shiftLeft_eq, Nat.shiftRight_eq_div_pow]
  exact Nat.lt_of_le_of_lt hle hbits

/-- The bits without a name are read back from their hexadecimal digits. -/
theorem flag?_unnamed (f : Flags) :
    flag? ("0x" ++ String.ofList (Nat.toDigits 16 f.unnamed)) = some ⟨BitVec.ofNat 32 f.unnamed⟩ := by
  have hsign : ∀ d < 16, d.digitChar ≠ '-' ∧ d.digitChar ≠ '+' := by decide
  have hdigits := digitsValue?_toDigits f.unnamed
  have hmem := fun c => @exists_digitChar_of_mem f.unnamed c
  have hne := @Nat.toDigits_ne_nil f.unnamed 16
  unfold flag?
  rw [afterStart?_eq_some_iff.2 rfl]
  dsimp only
  rw [String.toList_ofList]
  generalize Nat.toDigits 16 f.unnamed = ds at hdigits hmem hne
  cases ds with
  | nil => exact absurd rfl hne
  | cons c cs =>
    obtain ⟨d, hd, hc⟩ := hmem c List.mem_cons_self
    obtain ⟨hminus, hplus⟩ := hsign d hd
    rw [← hc] at hminus hplus
    have hsplit : (Numeral.splitSign (c :: cs)).2 = c :: cs := by
      unfold Numeral.splitSign
      split <;> simp_all
    have hstart : startsWith "-" (String.ofList (c :: cs)) = false := by
      unfold startsWith
      rw [String.toList_ofList, String.toList_ofList]
      change ('-' == c && [].isPrefixOf cs) = false
      rw [beq_false_of_ne hminus.symm, Bool.false_and]
    rw [hsplit, hstart, hdigits, Option.bind_some, if_neg Bool.false_ne_true, if_pos (unnamed_lt f)]

theorem names_eq (f : Flags) : f.names = (standardElements.zipIdx.filter fun e => f.bits.getLsbD e.2).map (·.1.1) := by
  unfold Flags.names
  generalize standardElements.zipIdx = es
  induction es with
  | nil => rfl
  | cons e es ih =>
    rw [List.filterMap_cons, ih, List.filter_cons]
    cases f.bits.getLsbD e.2 <;> rfl

theorem mapM_wordsOf (f : Flags) : (wordsOf f).mapM flag? = some (partsOf f) := by
  have hnames : f.names.mapM flag? =
      some ((standardElements.zipIdx.filter fun e => f.bits.getLsbD e.2).map fun e => Flags.single e.2) := by
    rw [names_eq, List.mapM_map]
    exact Json.mapM_eq_some fun e he => flag?_name e (List.mem_of_mem_filter he)
  unfold wordsOf partsOf
  rw [List.mapM_append, hnames]
  split
  · rfl
  · rw [List.mapM_cons, flag?_unnamed]
    rfl

theorem isWord_of_all {w : List Char} (h : (!w.isEmpty && w.all fun c => !isBlank c && c != '|') = true) :
    IsWord w := by
  rw [Bool.and_eq_true, List.all_eq_true] at h
  refine ⟨by simpa using h.1, fun c hc => ?_⟩
  simpa using h.2 c hc

theorem isWord_name {e : String × QName} (h : e ∈ standardElements) : IsWord e.1.toList := by
  have hall : (standardElements.all fun e =>
      !e.1.toList.isEmpty && e.1.toList.all fun c => !isBlank c && c != '|') = true := by decide +kernel
  exact isWord_of_all (List.all_eq_true.1 hall e h)

theorem isWord_of_mem_wordsOf {f : Flags} {w : String} (h : w ∈ wordsOf f) : IsWord w.toList := by
  rcases List.mem_append.1 h with h | h
  · rw [names_eq] at h
    obtain ⟨e, he, rfl⟩ := List.mem_map.1 h
    exact isWord_name (List.fst_mem_of_mem_zipIdx (List.mem_of_mem_filter he))
  · split at h
    · cases h
    · have hdigit : ∀ d < 16, isBlank d.digitChar = false ∧ d.digitChar ≠ '|' := by decide +kernel
      have hstart : IsWord ['0', 'x'] := isWord_of_all (by decide +kernel)
      rw [List.mem_singleton.1 h, String.toList_append, String.toList_ofList, String.toList_ofList]
      refine ⟨by simp, fun c hc => ?_⟩
      rcases List.mem_append.1 hc with hc | hc
      · exact hstart.2 c hc
      · obtain ⟨d, hd, rfl⟩ := exists_digitChar_of_mem hc
        exact hdigit d hd

theorem getLsbD_foldl_union (fs : List Flags) (f : Flags) (i : Nat) :
    (fs.foldl Flags.union f).bits.getLsbD i = (f.bits.getLsbD i || fs.any fun g => g.bits.getLsbD i) := by
  induction fs generalizing f with
  | nil => simp
  | cons g fs ih =>
    rw [List.foldl_cons, ih, List.any_cons]
    unfold Flags.union
    rw [BitVec.getLsbD_or, Bool.or_assoc]

/-- The flags of the words make up the set. -/
theorem foldl_union_partsOf (f : Flags) : (partsOf f).foldl Flags.union .none = f := by
  have hbits : ((partsOf f).foldl Flags.union .none).bits = f.bits := by
    apply BitVec.eq_of_getLsbD_eq
    intro i hi
    have hnamed : (((standardElements.zipIdx.filter fun e => f.bits.getLsbD e.2).map fun e => Flags.single e.2).any
        fun g => g.bits.getLsbD i) = (decide (i < standardElements.length) && f.bits.getLsbD i) := by
      rw [Bool.eq_iff_iff, List.any_map, List.any_filter, List.any_eq_true, Bool.and_eq_true, decide_eq_true_eq]
      constructor
      · rintro ⟨e, he, h⟩
        rw [Function.comp_apply, Flags.getLsbD_single hi, Bool.and_eq_true, decide_eq_true_eq] at h
        obtain ⟨hbit, rfl⟩ := h
        exact ⟨(List.getElem?_eq_some_iff.1 (List.mem_zipIdx_iff_getElem?.1 he)).1, hbit⟩
      · rintro ⟨hlt, hbit⟩
        refine ⟨(standardElements[i], i), List.mem_zipIdx_iff_getElem?.2 (List.getElem?_eq_getElem hlt), ?_⟩
        rw [Function.comp_apply, Flags.getLsbD_single hi, hbit]
        simp
    have hunnamed : ((if f.unnamed = 0 then [] else [⟨BitVec.ofNat 32 f.unnamed⟩] : List Flags).any
        fun g => g.bits.getLsbD i) = (decide (standardElements.length ≤ i) && f.bits.getLsbD i) := by
      have hbit : f.unnamed.testBit i = (decide (standardElements.length ≤ i) && f.bits.getLsbD i) := by
        unfold Flags.unnamed
        rw [Nat.testBit_shiftLeft, Nat.testBit_shiftRight]
        by_cases hle : standardElements.length ≤ i
        · rw [Nat.add_sub_cancel' hle, BitVec.testBit_toNat]
        · simp [hle]
      split
      · rename_i hzero
        rw [← hbit, hzero, Nat.zero_testBit]
        rfl
      · rw [List.any_cons, List.any_nil, Bool.or_false, BitVec.getLsbD_ofNat, decide_eq_true hi, Bool.true_and, hbit]
    unfold partsOf
    rw [getLsbD_foldl_union, List.any_append, hnamed, hunnamed]
    have hnone : Flags.none.bits.getLsbD i = false := BitVec.getLsbD_zero
    rw [hnone]
    by_cases hlt : i < standardElements.length
    · simp [hlt, Nat.not_le.2 hlt]
    · simp [hlt, Nat.not_lt.1 hlt]
  generalize (partsOf f).foldl Flags.union .none = g at hbits
  cases f
  cases g
  cases hbits
  rfl

/-- A set of flags is read back from its text. -/
theorem readFlags?_flagsText (f : Flags) : readFlags? (flagsText f) = some f := by
  have hwords : ∀ w ∈ (wordsOf f).map String.toList, IsWord w := by
    intro w hw
    obtain ⟨v, hv, rfl⟩ := List.mem_map.1 hw
    exact isWord_of_mem_wordsOf hv
  have htext : (flagsText f).toList = " | ".toList.intercalate ((wordsOf f).map String.toList) :=
    String.toList_intercalate
  have htrim : trim (flagsText f) = flagsText f := by
    unfold trim
    rw [htext, trimChars_intercalate hwords, ← htext, String.ofList_toList]
  have hparts : ((wordsOf f).mapM flag?).map (·.foldl Flags.union .none) = some f := by
    rw [mapM_wordsOf, Option.map_some, foldl_union_partsOf]
  unfold readFlags?
  dsimp only
  rw [htrim]
  by_cases hnil : wordsOf f = []
  · rw [hnil] at hparts htext
    have hempty : flagsText f = "" := String.toList_inj.1 htext
    rw [hempty]
    exact hparts
  · have hne : (flagsText f).isEmpty = false := by
      rw [← Bool.not_eq_true, String.isEmpty_iff, ← String.toList_eq_nil_iff, htext]
      exact intercalate_ne_nil hwords (by simpa using hnil)
    have hpieces := @map_trimChars_pieces _ hwords (by simpa using hnil) [] (by simp)
    rw [List.nil_append, ← htext] at hpieces
    have hread : (pieces '|' (flagsText f).toList).mapM (fun name => flag? (trim (String.ofList name))) =
        (wordsOf f).mapM flag? := calc
      _ = (pieces '|' (flagsText f).toList).mapM fun name => flag? (String.ofList (trimChars isBlank name)) := by
        simp only [trim, String.toList_ofList]
      _ = ((pieces '|' (flagsText f).toList).map (trimChars isBlank)).mapM fun w => flag? (String.ofList w) := by
        rw [List.mapM_map]
        rfl
      _ = (wordsOf f).mapM flag? := by
        rw [hpieces, List.mapM_map]
        simp only [Function.comp_def, String.ofList_toList]
    rw [hne, if_neg Bool.false_ne_true, hread]
    exact hparts

end TaxonomySet.Snapshot
