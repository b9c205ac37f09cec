import TaxonomySet.Json.Struct
import TaxonomySet.Proofs.Json.RoundTrip
import TaxonomySet.Proofs.Sorted

namespace TaxonomySet.Json

variable {α β : Type}

/-- A list can be read if each of its items can. -/
theorem mapM_eq_ite {as : List α} {read : α → Option β} {p : α → Bool} {f : α → β}
    (h : ∀ a ∈ as, read a = if p a then some (f a) else none) :
    as.mapM read = if as.all p then some (as.map f) else none := by
  induction as with
  | nil => rfl
  | cons a as ih =>
    have hrest := ih fun b hb => h b (List.mem_cons_of_mem _ hb)
    rw [List.mapM_cons, h a List.mem_cons_self, hrest, List.all_cons]
    cases p a <;> cases as.all p <;> rfl

theorem mapM_eq_some {as : List α} {read : α → Option β} {f : α → β} (h : ∀ a ∈ as, read a = some (f a)) :
    as.mapM read = some (as.map f) := by
  have hall := mapM_eq_ite (p := fun _ => true) h
  simpa using hall

theorem listOf?_shown {write : α → Json} {read : Json → Option β} {p : α → Bool} {f : α → β} {as : List α}
    (h : ∀ a ∈ as, read (write a).shown = if p a then some (f a) else none) :
    listOf? read (array (as.map write)).shown = if as.all p then some (as.map f) else none := by
  rw [shown_array, List.map_map]
  change ((as.map (shown ∘ write)).mapM read) = _
  rw [List.mapM_map]
  exact mapM_eq_ite h

theorem mapOf?_shown {write : α → Json} {read : Json → Option β} {p : α → Bool} {f : α → β}
    {m : SortedMap String α} (h : ∀ a ∈ m.values, read (write a).shown = if p a then some (f a) else none) :
    mapOf? read (ofMap write m).shown = if m.values.all p then some (m.mapValues f) else none := by
  have hentries : ∀ e ∈ m.entries, (read (write e.2).shown).map (e.1, ·) =
      if p e.2 then some (e.1, f e.2) else none := by
    intro e he
    rw [h e.2 (List.mem_map_of_mem he)]
    split <;> rfl
  have hall : (m.entries.all fun e => p e.2) = m.values.all p := (List.all_map).symm
  unfold ofMap
  rw [shown_object, List.map_map]
  change ((m.entries.map fun e => (e.1, (write e.2).shown)).mapM fun e => (read e.2).map (e.1, ·)).map
    SortedMap.ofList = _
  rw [List.mapM_map]
  change (m.entries.mapM fun e => (read (write e.2).shown).map (e.1, ·)).map SortedMap.ofList = _
  rw [mapM_eq_ite hentries, hall]
  split
  · exact congrArg some (SortedMap.ofList_entries (m.mapValues f))
  · rfl

theorem legible_array {write : α → Json} {as : List α} (h : ∀ a ∈ as, (write a).Legible) :
    (array (as.map write)).Legible := by
  refine .array fun j hj => ?_
  obtain ⟨a, ha, rfl⟩ := List.mem_map.1 hj
  exact h a ha

theorem legible_ofMap {write : α → Json} {m : SortedMap String α} (h : ∀ a ∈ m.values, (write a).Legible) :
    (ofMap write m).Legible := by
  refine .object fun member hmember => ?_
  obtain ⟨e, he, rfl⟩ := List.mem_map.1 hmember
  exact h e.2 (List.mem_map_of_mem he)

theorem legible_ofOption {write : α → Json} {o : Option α} (h : ∀ a ∈ o, (write a).Legible) :
    (ofOption write o).Legible := by
  cases o with
  | none => exact .null
  | some a => exact h a rfl

theorem filter_fst_eq_singleton {members : List (String × Json)} (hnodup : (members.map (·.1)).Nodup)
    {m : String × Json} (hm : m ∈ members) : members.filter (·.1 == m.1) = [m] := by
  induction members with
  | nil => cases hm
  | cons k members ih =>
    rw [List.map_cons, List.nodup_cons] at hnodup
    rcases List.mem_cons.1 hm with rfl | hm
    · have hnone : members.filter (·.1 == m.1) = [] := by
        rw [List.filter_eq_nil_iff]
        intro k hk heq
        exact hnodup.1 (List.mem_map.2 ⟨k, hk, beq_iff_eq.1 heq⟩)
      rw [List.filter_cons_of_pos (by simp), hnone]
    · have hne : k.1 ≠ m.1 := fun heq => hnodup.1 (List.mem_map.2 ⟨m, hm, heq.symm⟩)
      rw [List.filter_cons_of_neg (by simpa using hne)]
      exact ih hnodup.2 hm

/-- The fields of a structure are found in the object that has just these members. -/
theorem bind_fields?_shown {names : List String} {members : List (String × Json)}
    (h : members.map (·.1) = names ∧ names.Nodup) (read : List (Option Json) → Option α) :
    (fields? names (object members).shown >>= read) = read (members.map fun m => some m.2.shown) := by
  obtain ⟨rfl, hnodup⟩ := h
  have hfields : fields? (members.map (·.1)) (object members).shown = some (members.map fun m => some m.2.shown) := by
    rw [shown_object, fields?, List.mapM_map]
    apply mapM_eq_some
    intro m hm
    have hfilter := filter_fst_eq_singleton hnodup hm
    rw [Function.comp_apply, List.filter_map]
    simp only [Function.comp_def]
    rw [hfilter]
    rfl
  rw [hfields, Option.bind_eq_bind, Option.bind_some]

@[simp] theorem required_some (read : Json → Option α) (j : Json) : required read (some j) = read j := rfl

/-- A value that is read back from the text of what is written for it. -/
structure RoundTrips (write : α → Json) (read : Json → Option α) (a : α) : Prop where
  legible : (write a).Legible
  read_shown : read (write a).shown = some a

namespace RoundTrips

variable {write : α → Json} {read : Json → Option α}

theorem list {l : List α} (h : ∀ a ∈ l, RoundTrips write read a) :
    RoundTrips (fun l => array (l.map write)) (listOf? read) l where
  legible := legible_array fun a ha => (h a ha).legible
  read_shown := by
    have hlist := listOf?_shown (p := fun _ => true) (f := id) fun a ha => (h a ha).read_shown
    simpa using hlist

theorem map {m : SortedMap String α} (h : ∀ a ∈ m.values, RoundTrips write read a) :
    RoundTrips (ofMap write) (mapOf? read) m where
  legible := legible_ofMap fun a ha => (h a ha).legible
  read_shown := by
    have hmap := mapOf?_shown (p := fun _ => true) (f := id) fun a ha => (h a ha).read_shown
    have hid : m.mapValues id = m := SortedMap.mapValues_eq_self_iff.2 fun _ _ => rfl
    simpa [hid] using hmap

/-- An optional field is read back if null stands for none of the values that it may have. -/
theorem option (hnull : read null = none) {o : Option α} (h : ∀ a ∈ o, RoundTrips write read a) :
    RoundTrips (ofOption write) (fun j => optional read (some j)) o where
  legible := legible_ofOption fun a ha => (h a ha).legible
  read_shown := by
    cases o with
    | none =>
      change optional read (some null.shown) = _
      rw [shown_null]
      rfl
    | some a =>
      have ha := (h a rfl).read_shown
      change optional read (some (write a).shown) = _
      generalize (write a).shown = j at ha
      cases j <;> simp_all [optional]

/-- A structure is read back from the object of its fields. -/
theorem record {a : α} {names : List String} {members : List (String × Json)}
    {fields : List (Option Json) → Option α} (hread : ∀ j, read j = fields? names j >>= fields)
    (hwrite : write a = object members) (hnames : members.map (·.1) = names ∧ names.Nodup)
    (hlegible : ∀ m ∈ members, m.2.Legible) (hfields : fields (members.map fun m => some m.2.shown) = some a) :
    RoundTrips write read a where
  legible := by
    rw [hwrite]
    exact .object hlegible
  read_shown := by
    rw [hwrite, hread, bind_fields?_shown hnames, hfields]

end RoundTrips

theorem roundTrips_string (s : String) : RoundTrips string string? s where
  legible := .string s
  read_shown := by
    rw [shown_string]
    rfl

theorem roundTrips_bool (b : Bool) : RoundTrips bool bool? b where
  legible := .bool b
  read_shown := by
    rw [shown_bool]
    rfl

theorem roundTrips_natBelow {bound n : Nat} (hbound : bound ≤ UInt64.size) (h : n < bound) :
    RoundTrips (fun n : Nat => integer n) (natBelow? bound) n where
  legible := by
    have hmin : Int64.minValue.toInt ≤ (n : Int) :=
      (show Int64.minValue.toInt ≤ 0 by decide).trans (Int.natCast_nonneg n)
    exact .integer hmin (Int.ofNat_lt.2 (h.trans_le hbound))
  read_shown := by
    rw [shown_integer]
    unfold natBelow? nat?
    simp [integer?, h]

/-- A number comes back only if it is finite. -/
theorem number?_shown (x : Binary64) : number? (float x).shown = if x.isFinite then some x else none := by
  rw [shown]
  split
  · rename_i hfinite
    exact if_pos hfinite
  · rfl

/-- An optional number is read back if it is finite, and is left out otherwise. -/
theorem optional_number?_shown (o : Option Binary64) :
    optional number? (some (ofOption float o).shown) = some (o.filter Binary64.isFinite) := by
  cases o with
  | none =>
    change optional number? (some null.shown) = _
    rw [shown_null]
    rfl
  | some x =>
    change optional number? (some (float x).shown) = _
    rw [shown]
    cases hfinite : x.isFinite with
    | true =>
      rw [if_pos rfl, Option.filter_some_pos hfinite]
      change (if x.isFinite then some x else none).map some = _
      rw [if_pos hfinite, Option.map_some]
    | false =>
      rw [if_neg Bool.false_ne_true, Option.filter_some_neg (by simp [hfinite])]
      rfl

end TaxonomySet.Json
