import TaxonomySet.Proofs.Sorted
import TaxonomySet.Role.UsedOn

namespace TaxonomySet

namespace Flags

theorem getLsbD_single {i : Nat} (hi : i < 32) (j : Nat) : (single j).bits.getLsbD i = decide (i = j) := by
  unfold single
  rw [BitVec.getLsbD_shiftLeft, BitVec.getLsbD_one, Bool.eq_iff_iff]
  simp only [hi, Bool.and_eq_true, Bool.not_eq_true', decide_eq_true_eq, decide_eq_false_iff_not, Nat.zero_lt_succ,
    decide_true, true_and]
  omega

theorem ext_getLsbD {a b : Flags} (h : ∀ i, a.bits.getLsbD i = b.bits.getLsbD i) : a = b := by
  obtain ⟨a⟩ := a
  obtain ⟨b⟩ := b
  rw [mk.injEq]
  exact BitVec.eq_of_getLsbD_eq fun i _ => h i

theorem getLsbD_union (a b : Flags) (i : Nat) :
    (a.union b).bits.getLsbD i = true ↔ a.bits.getLsbD i = true ∨ b.bits.getLsbD i = true := by
  unfold union
  rw [BitVec.getLsbD_or, Bool.or_eq_true]

/-- A set of flags contains those of which it has every bit. -/
theorem contains_iff {a b : Flags} :
    a.contains b = true ↔ ∀ i, b.bits.getLsbD i = true → a.bits.getLsbD i = true := by
  unfold contains
  rw [beq_iff_eq]
  constructor
  · intro h i hb
    rw [← h, BitVec.getLsbD_and, Bool.and_eq_true] at hb
    exact hb.1
  · intro h
    refine BitVec.eq_of_getLsbD_eq fun i _ => ?_
    rw [BitVec.getLsbD_and]
    cases hb : b.bits.getLsbD i with
    | false => rw [Bool.and_false]
    | true => rw [h i hb, Bool.and_true]

/-- A place below the width of the word is a bit of its own. -/
theorem getLsbD_single_iff {i : Nat} (hi : i < 32) {j : Nat} : (single i).bits.getLsbD j = true ↔ i = j := by
  by_cases hj : j < 32
  · rw [getLsbD_single hj, decide_eq_true_iff, eq_comm]
  · exact iff_of_false (fun hbit => hj (BitVec.lt_of_getLsbD hbit)) fun heq => hj (heq ▸ hi)

theorem contains_single_iff {a : Flags} {i : Nat} (hi : i < 32) :
    a.contains (single i) = true ↔ a.bits.getLsbD i = true := by
  simp only [contains_iff, getLsbD_single_iff hi, forall_eq']

theorem isEmpty_iff {a : Flags} : a.isEmpty = true ↔ ∀ i, a.bits.getLsbD i ≠ true := by
  unfold isEmpty
  rw [beq_iff_eq]
  constructor
  · intro h i
    rw [h]
    simp
  · intro h
    refine BitVec.eq_of_getLsbD_eq fun i _ => ?_
    rw [Bool.eq_false_iff.2 (h i)]
    simp

theorem union_eq_right_iff {a b : Flags} : a.union b = b ↔ b.contains a = true := by
  rw [contains_iff]
  constructor
  · intro h i ha
    rw [← h]
    exact (getLsbD_union a b i).2 (.inl ha)
  · intro h
    refine ext_getLsbD fun i => Bool.eq_iff_iff.2 ?_
    rw [getLsbD_union]
    exact or_iff_right_of_imp (h i)

end Flags

theorem SortedSet.union_eq_right_iff {κ : Type} [Ord κ] [Std.TransOrd κ] [Std.LawfulEqOrd κ]
    {s t : SortedSet κ} : s.union t = t ↔ s.subset t = true := by
  rw [SortedSet.subset_iff]
  constructor
  · intro h k hk
    rw [← h]
    exact SortedSet.mem_union.2 (.inl hk)
  · intro h
    refine SortedSet.ext_mem fun k => ?_
    rw [SortedSet.mem_union]
    exact or_iff_right_of_imp (h k)

namespace UsedOn

theorem union_eq_right_iff {u v : UsedOn} : u.union v = v ↔ v.includes u = true := by
  obtain ⟨uflags, ucustom⟩ := u
  obtain ⟨vflags, vcustom⟩ := v
  simp only [union, includes, UsedOn.mk.injEq, Bool.and_eq_true, Flags.union_eq_right_iff,
    SortedSet.union_eq_right_iff]

theorem includes_self (u : UsedOn) : u.includes u = true := by
  unfold includes
  simp only [Bool.and_eq_true]
  exact ⟨by simp [Flags.contains], SortedSet.subset_iff.2 fun _ hk => hk⟩

theorem union_comm (u v : UsedOn) : u.union v = v.union u := by
  have hcustom : u.custom.union v.custom = v.custom.union u.custom :=
    SortedSet.ext_mem fun k => by rw [SortedSet.mem_union, SortedSet.mem_union, or_comm]
  unfold union Flags.union
  rw [hcustom, BitVec.or_comm]

theorem union_assoc (u v w : UsedOn) : (u.union v).union w = u.union (v.union w) := by
  have hcustom : (u.custom.union v.custom).union w.custom = u.custom.union (v.custom.union w.custom) :=
    SortedSet.ext_mem fun k => by simp only [SortedSet.mem_union, or_assoc]
  unfold union Flags.union
  rw [hcustom, BitVec.or_assoc]

theorem includes_trans {u v w : UsedOn} (huv : u.includes v = true) (hvw : v.includes w = true) :
    u.includes w = true := by
  rw [← union_eq_right_iff] at huv hvw ⊢
  rw [← huv, ← union_assoc, hvw]

theorem includes_antisymm {u v : UsedOn} (huv : u.includes v = true) (hvu : v.includes u = true) : u = v := by
  rw [← union_eq_right_iff] at huv hvu
  rw [← huv, union_comm, hvu]

theorem includes_union_left (u v : UsedOn) : (u.union v).includes u = true := by
  rw [← union_eq_right_iff, ← union_assoc, union_eq_right_iff.2 u.includes_self]

/-- Of two sets that nest the union is the wider one. -/
theorem union_of_nests {u v : UsedOn} (h : u.nests v = true) :
    u.union v = u ∧ u.includes v = true ∨ u.union v = v ∧ v.includes u = true := by
  rcases Bool.or_eq_true_iff.1 h with huv | hvu
  · exact .inl ⟨by rw [union_comm, union_eq_right_iff.2 huv], huv⟩
  · exact .inr ⟨union_eq_right_iff.2 hvu, hvu⟩

/-- What is in a set is in each that includes it. -/
theorem contains_of_includes {u v : UsedOn} (h : u.includes v = true) {e : QName} (he : v.contains e = true) :
    u.contains e = true := by
  obtain ⟨hflags, hcustom⟩ := Bool.and_eq_true_iff.1 h
  unfold contains at he ⊢
  cases hflag : Flags.ofElement? e with
  | some flag =>
    rw [hflag] at he
    exact Flags.contains_iff.2 fun i hi => Flags.contains_iff.1 hflags i (Flags.contains_iff.1 he i hi)
  | none =>
    rw [hflag] at he
    exact SortedSet.subset_iff.1 hcustom e he

/-- The place of a standard element among them. -/
def place? (q : QName) : Option Nat := standardElements.findIdx? (·.2 == q)

theorem ofElement?_eq (q : QName) : Flags.ofElement? q = (place? q).map Flags.single := rfl

variable {u v : UsedOn} {qs rs : List QName} {q r : QName} {i : Nat}

theorem place?_lt (h : place? q = some i) : i < 32 :=
  Nat.lt_trans (List.findIdx?_eq_some_iff_getElem.1 h).1 (by decide)

/-- No two elements have one place. -/
theorem eq_of_place? (hq : place? q = some i) (hr : place? r = some i) : q = r := by
  obtain ⟨_, hq, -⟩ := List.findIdx?_eq_some_iff_getElem.1 hq
  obtain ⟨_, hr, -⟩ := List.findIdx?_eq_some_iff_getElem.1 hr
  exact (beq_iff_eq.1 hq).symm.trans (beq_iff_eq.1 hr)

/-- The set is that of the elements of a list: its bits are the places of those that are standard, and its names are
the others. -/
structure IsOf (u : UsedOn) (qs : List QName) : Prop where
  bit_iff : ∀ i, u.flags.bits.getLsbD i = true ↔ ∃ q ∈ qs, place? q = some i
  name_iff : ∀ q, q ∈ u.custom ↔ q ∈ qs ∧ place? q = none

theorem isOf_empty : empty.IsOf [] where
  bit_iff i := by simp [empty, Flags.none]
  name_iff q := by simp [empty, SortedSet.not_mem_empty]

theorem IsOf.insert (h : u.IsOf qs) (q : QName) : (u.insert q).IsOf (qs ++ [q]) := by
  unfold UsedOn.insert
  rw [ofElement?_eq]
  cases hq : place? q with
  | some i =>
    constructor
    · intro j
      simp [Flags.getLsbD_union, h.bit_iff, Flags.getLsbD_single_iff (place?_lt hq), or_and_right, exists_or, hq]
    · intro r
      simp only [Option.map_some, h.name_iff, List.mem_append, List.mem_singleton, or_and_right]
      refine (or_iff_left ?_).symm
      rintro ⟨rfl, hr⟩
      rw [hq] at hr
      cases hr
  | none =>
    constructor
    · intro j
      simp [h.bit_iff, or_and_right, exists_or, hq]
    · intro r
      simp only [Option.map_none, SortedSet.mem_insert, h.name_iff, List.mem_append, List.mem_singleton, or_and_right]
      rw [or_comm]
      refine or_congr_right (iff_self_and.2 ?_)
      rintro rfl
      exact hq

theorem IsOf.insertAll (h : u.IsOf qs) (rs : List QName) : (rs.foldl UsedOn.insert u).IsOf (qs ++ rs) := by
  induction rs generalizing u qs with
  | nil => rwa [List.append_nil]
  | cons r rs ih =>
    have hrest := ih (h.insert r)
    rwa [List.append_assoc, List.singleton_append] at hrest

theorem isOf_ofList (qs : List QName) : (ofList qs).IsOf qs := isOf_empty.insertAll qs

theorem IsOf.union (hu : u.IsOf qs) (hv : v.IsOf rs) : (u.union v).IsOf (qs ++ rs) where
  bit_iff i := by
    unfold UsedOn.union
    simp only [Flags.getLsbD_union, hu.bit_iff, hv.bit_iff, List.mem_append, or_and_right, exists_or]
  name_iff q := by
    unfold UsedOn.union
    simp only [SortedSet.mem_union, hu.name_iff, hv.name_iff, List.mem_append, or_and_right]

theorem IsOf.contains_iff (h : u.IsOf qs) (q : QName) : u.contains q = true ↔ q ∈ qs := by
  unfold UsedOn.contains
  rw [ofElement?_eq]
  cases hq : place? q with
  | some i =>
    refine (Flags.contains_single_iff (place?_lt hq)).trans ((h.bit_iff i).trans ?_)
    constructor
    · rintro ⟨r, hr, hplace⟩
      rwa [eq_of_place? hq hplace]
    · exact fun hmem => ⟨q, hmem, hq⟩
  | none => exact (h.name_iff q).trans (and_iff_left hq)

theorem IsOf.includes_iff (hu : u.IsOf qs) (hv : v.IsOf rs) : u.includes v = true ↔ ∀ q ∈ rs, q ∈ qs := by
  constructor
  · intro h q hq
    exact (hu.contains_iff q).1 (contains_of_includes h ((hv.contains_iff q).2 hq))
  · intro h
    refine Bool.and_eq_true_iff.2 ⟨Flags.contains_iff.2 fun i hi => ?_, SortedSet.subset_iff.2 fun q hq => ?_⟩
    · obtain ⟨q, hq, hplace⟩ := (hv.bit_iff i).1 hi
      exact (hu.bit_iff i).2 ⟨q, h q hq, hplace⟩
    · obtain ⟨hq, hplace⟩ := (hv.name_iff q).1 hq
      exact (hu.name_iff q).2 ⟨h q hq, hplace⟩

theorem IsOf.isEmpty_iff (h : u.IsOf qs) : u.isEmpty = true ↔ qs = [] := by
  constructor
  · intro hempty
    obtain ⟨hflags, hcustom⟩ := Bool.and_eq_true_iff.1 hempty
    refine List.eq_nil_iff_forall_not_mem.2 fun q hq => ?_
    cases hplace : place? q with
    | some i => exact Flags.isEmpty_iff.1 hflags i ((h.bit_iff i).2 ⟨q, hq, hplace⟩)
    | none => exact SortedSet.isEmpty_iff.1 hcustom q ((h.name_iff q).2 ⟨hq, hplace⟩)
  · rintro rfl
    refine Bool.and_eq_true_iff.2 ⟨Flags.isEmpty_iff.2 fun i hi => ?_, SortedSet.isEmpty_iff.2 fun q hq => ?_⟩
    · obtain ⟨q, hq, -⟩ := (h.bit_iff i).1 hi
      cases hq
    · cases ((h.name_iff q).1 hq).1

/-- Sets that are made of lists are the finite sets of what the lists hold: they have the same elements, include each
other, have unions and are empty or equal just as those. -/
theorem ofList_answers (as bs : List QName) :
    (∀ q, (ofList as).contains q = true ↔ q ∈ as) ∧
      ((ofList as).includes (ofList bs) = true ↔ ∀ q ∈ bs, q ∈ as) ∧
      (∀ q, ((ofList as).union (ofList bs)).contains q = true ↔
        (ofList as).contains q = true ∨ (ofList bs).contains q = true) ∧
      ((ofList as).isEmpty = true ↔ as = []) ∧
      (ofList as = ofList bs ↔ ∀ q, q ∈ as ↔ q ∈ bs) := by
  have has := isOf_ofList as
  have hbs := isOf_ofList bs
  refine ⟨has.contains_iff, has.includes_iff hbs, fun q => ?_, has.isEmpty_iff, ?_, fun h => ?_⟩
  · rw [(has.union hbs).contains_iff, has.contains_iff, hbs.contains_iff, List.mem_append]
  · intro heq q
    rw [← has.contains_iff q, ← hbs.contains_iff q, heq]
  · exact includes_antisymm ((has.includes_iff hbs).2 fun q hq => (h q).2 hq)
      ((hbs.includes_iff has).2 fun q hq => (h q).1 hq)

end UsedOn

end TaxonomySet
