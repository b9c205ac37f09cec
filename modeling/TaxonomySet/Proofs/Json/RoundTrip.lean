import TaxonomySet.Proofs.Json.Text

namespace TaxonomySet

/-- Whether the text of a finite number is read back as the number. The reader rounds more than once, so
that it may miss by the last digit. -/
def Binary64.ReadsBack (x : Binary64) : Prop :=
  Json.readNumber? (Json.floatText x).toList = some (.float x, [])

namespace Json

mutual

/-- The value that the text of a value says. -/
def shown : Json → Json
  | float x => if x.isFinite then float x else null
  | array items => array (shownAll items)
  | object members => object (shownMembers members)
  | j => j

/-- What the texts of items say. -/
def shownAll : List Json → List Json
  | [] => []
  | j :: js => j.shown :: shownAll js

/-- What the texts of members say. -/
def shownMembers : List (String × Json) → List (String × Json)
  | [] => []
  | (name, j) :: ms => (name, j.shown) :: shownMembers ms

end

theorem shownAll_eq_map (js : List Json) : shownAll js = js.map shown := by
  induction js with
  | nil => rw [shownAll, List.map_nil]
  | cons j js ih => rw [shownAll, List.map_cons, ih]

theorem shownMembers_eq_map (ms : List (String × Json)) :
    shownMembers ms = ms.map fun m => (m.1, m.2.shown) := by
  induction ms with
  | nil => rw [shownMembers, List.map_nil]
  | cons m ms ih => rw [shownMembers, List.map_cons, ih]

theorem shown_null : null.shown = null := by rw [shown] <;> simp
theorem shown_bool (b : Bool) : (bool b).shown = bool b := by rw [shown] <;> simp
theorem shown_integer (n : Int) : (integer n).shown = integer n := by rw [shown] <;> simp
theorem shown_string (s : String) : (string s).shown = string s := by rw [shown] <;> simp

theorem shown_array (items : List Json) : (array items).shown = array (items.map shown) := by
  rw [shown, shownAll_eq_map]

theorem shown_object (members : List (String × Json)) :
    (object members).shown = object (members.map fun m => (m.1, m.2.shown)) := by
  rw [shown, shownMembers_eq_map]

/-- Values whose numbers are read back: integers of 64 bits, and finite numbers that the reader does not
miss. -/
inductive Legible : Json → Prop
  | null : Legible null
  | bool (b : Bool) : Legible (bool b)
  | integer {n : Int} (hmin : Int64.minValue.toInt ≤ n) (hmax : n < UInt64.size) : Legible (integer n)
  | float {x : Binary64} (h : x.isFinite = true → x.ReadsBack) : Legible (float x)
  | string (s : String) : Legible (string s)
  | array {items : List Json} (h : ∀ j ∈ items, Legible j) : Legible (array items)
  | object {members : List (String × Json)} (h : ∀ m ∈ members, Legible m.2) : Legible (object members)

/-- A text that the reader takes for a value, whatever follows that cannot belong to a number. -/
structure Writes (text : List Char) (j : Json) : Prop where
  begins : ∃ c cs, text = c :: cs ∧ isSpace c = false ∧ c ≠ ']'
  read : ∀ {fuel : Nat} {rest : List Char}, EndsNumber rest → text.length ≤ fuel →
    readValue? fuel (text ++ rest) = some (j, rest)

theorem writes_null : Writes "null".toList null where
  begins := ⟨'n', "ull".toList, rfl, by decide, by decide⟩
  read {fuel rest} _ hfuel := by
    cases fuel with
    | zero => cases hfuel
    | succ fuel => rfl

theorem writes_bool (b : Bool) : Writes (if b then "true" else "false").toList (bool b) := by
  cases b with
  | false =>
    refine ⟨⟨'f', "alse".toList, rfl, by decide, by decide⟩, fun {fuel rest} _ hfuel => ?_⟩
    cases fuel with
    | zero => cases hfuel
    | succ fuel => rfl
  | true =>
    refine ⟨⟨'t', "rue".toList, rfl, by decide, by decide⟩, fun {fuel rest} _ hfuel => ?_⟩
    cases fuel with
    | zero => cases hfuel
    | succ fuel => rfl

theorem ne_of_number {c d : Char} (hc : c = '-' ∨ c.isDigit = true) (hsign : d ≠ '-') (hdigit : d.isDigit = false) :
    c ≠ d := by
  rintro rfl
  rcases hc with rfl | hc
  · exact hsign rfl
  · rw [hdigit] at hc
    cases hc

/-- A text that is read as a number. -/
theorem writes_number {text : List Char} {j : Json} (h : readNumber? text = some (j, [])) : Writes text j := by
  obtain ⟨c, cs, rfl, hc⟩ := exists_cons_of_readNumber? h
  have hspace : isSpace c = false := by
    unfold isSpace
    simp only [Bool.or_eq_false_iff, beq_eq_false_iff_ne]
    exact ⟨⟨⟨ne_of_number hc (by decide) (by decide), ne_of_number hc (by decide) (by decide)⟩,
      ne_of_number hc (by decide) (by decide)⟩, ne_of_number hc (by decide) (by decide)⟩
  refine ⟨⟨c, cs, rfl, hspace, ne_of_number hc (by decide) (by decide)⟩, fun {fuel rest} hrest hfuel => ?_⟩
  cases fuel with
  | zero => cases hfuel
  | succ fuel =>
    have happend := readNumber?_append h hrest
    rw [List.cons_append] at happend ⊢
    rw [readValue?, List.dropWhile_cons_of_neg (by simp [hspace])]
    split
    case h_7 => exact happend
    all_goals
      -- the other values begin with neither a sign nor a digit
      rename_i heq
      rw [List.cons.injEq] at heq
      exact absurd heq.1 (ne_of_number hc (by decide) (by decide))

theorem writes_string (s : String) : Writes (stringText s).toList (string s) := by
  obtain ⟨body, htext, hread⟩ := exists_stringText s
  rw [htext]
  refine ⟨⟨_, _, rfl, by decide, by decide⟩, fun {fuel rest} _ hfuel => ?_⟩
  cases fuel with
  | zero => cases hfuel
  | succ fuel =>
    change (readString? ((body ++ rest).length + 1) [] (body ++ rest)).map _ = _
    rw [hread]
    rfl

theorem endsNumber_of_mem {c : Char} (hc : c ∈ [',', ']', '\x7d']) (rest : List Char) : EndsNumber (c :: rest) := by
  intro d hd
  cases hd
  simp only [List.mem_cons, List.not_mem_nil, or_false] at hc
  rcases hc with rfl | rfl | rfl <;> decide

/-- The items of an array are read up to its end. -/
theorem readItems?_intercalate {texts : List (List Char)} {items : List Json}
    (h : List.Forall₂ Writes texts items) (hne : texts ≠ []) {fuel : Nat} (rest : List Char)
    (hfuel : ([','].intercalate texts).length < fuel) :
    readItems? fuel ([','].intercalate texts ++ ']' :: rest) = some (items, rest) := by
  induction h generalizing fuel with
  | nil => exact absurd rfl hne
  | @cons text j texts items hj hitems ih =>
    obtain ⟨fuel, rfl⟩ := Nat.exists_eq_add_one_of_ne_zero (Nat.ne_of_gt (Nat.zero_lt_of_lt hfuel))
    cases hitems with
    | nil =>
      rw [List.intercalate_singleton] at hfuel ⊢
      rw [readItems?, hj.read (endsNumber_of_mem (by simp) _) (by omega)]
      rfl
    | cons hk hitems =>
      rw [List.intercalate_cons_cons] at hfuel ⊢
      rw [List.length_append, List.length_append, List.length_singleton] at hfuel
      have hrest := ih (List.cons_ne_nil _ _) (show _ < fuel by omega)
      rw [List.append_assoc, List.append_assoc, List.singleton_append, readItems?,
        hj.read (endsNumber_of_mem (by simp) _) (by omega)]
      change (readItems? fuel (_ ++ ']' :: rest)).map _ = _
      rw [hrest]
      rfl

theorem exists_intercalate_cons (c : Char) (cs : List Char) (texts : List (List Char)) :
    ∃ rest, [','].intercalate ((c :: cs) :: texts) = c :: rest := by
  cases texts with
  | nil => exact ⟨cs, List.intercalate_singleton⟩
  | cons text texts => exact ⟨_, List.intercalate_cons_cons⟩

theorem readValue?_array (fuel : Nat) {c : Char} (cs : List Char) (hspace : isSpace c = false) (hne : c ≠ ']') :
    readValue? (fuel + 1) ('[' :: c :: cs) =
      (readItems? fuel (c :: cs)).map fun p => (array p.1, p.2) := by
  have hdrop : (c :: cs).dropWhile isSpace = c :: cs := List.dropWhile_cons_of_neg (by simp [hspace])
  rw [readValue?, List.dropWhile_cons_of_neg (by decide)]
  simp only [hdrop]
  split
  · rename_i heq
    rw [List.cons.injEq] at heq
    exact absurd heq.1 hne
  · rfl

theorem Writes.array {texts : List (List Char)} {items : List Json} (h : List.Forall₂ Writes texts items) :
    Writes ('[' :: ([','].intercalate texts ++ [']'])) (array items) := by
  refine ⟨⟨_, _, rfl, by decide, by decide⟩, fun {fuel rest} _ hfuel => ?_⟩
  cases fuel with
  | zero => cases hfuel
  | succ fuel =>
    rw [List.length_cons, List.length_append, List.length_singleton] at hfuel
    rw [List.cons_append, List.append_assoc, List.singleton_append]
    cases h with
    | nil => rfl
    | @cons text j texts items hj hitems =>
      have hread := readItems?_intercalate (.cons hj hitems) (List.cons_ne_nil _ _) rest (show _ < fuel by omega)
      obtain ⟨c, cs, rfl, hspace, hne⟩ := hj.begins
      obtain ⟨behind, hbegins⟩ := exists_intercalate_cons c cs texts
      rw [hbegins, List.cons_append] at hread ⊢
      rw [readValue?_array fuel _ hspace hne, hread]
      rfl

/-- A text that the reader takes for a member of an object: its name between quotes, a colon and its value. -/
def WritesMember (text : List Char) (m : String × Json) : Prop :=
  ∃ value, text = (stringText m.1).toList ++ ':' :: value ∧ Writes value m.2

/-- A member is read up to what stands behind its value. -/
theorem readMembers?_member {value : List Char} (name : String) {j : Json} (h : Writes value j) {fuel : Nat}
    (hfuel : value.length ≤ fuel) {rest : List Char} (hrest : EndsNumber rest) :
    readMembers? (fuel + 1) ((stringText name).toList ++ ':' :: value ++ rest) =
      match rest.dropWhile isSpace with
      | ',' :: r => (readMembers? fuel r).map fun (ms, r) => ((name, j) :: ms, r)
      | '\x7d' :: r => some ([(name, j)], r)
      | _ => none := by
  obtain ⟨body, htext, hread⟩ := exists_stringText name
  rw [htext, List.append_assoc, List.cons_append, List.cons_append, readMembers?,
    List.dropWhile_cons_of_neg (by decide)]
  change (readString? ((body ++ ':' :: (value ++ rest)).length + 1) [] (body ++ ':' :: (value ++ rest))).bind _ = _
  rw [hread, Option.bind_some]
  change (readValue? fuel (value ++ rest)).bind _ = _
  rw [h.read hrest hfuel]
  rfl

/-- The members of an object are read up to its end. -/
theorem readMembers?_intercalate {texts : List (List Char)} {members : List (String × Json)}
    (h : List.Forall₂ WritesMember texts members) (hne : texts ≠ []) {fuel : Nat} (rest : List Char)
    (hfuel : ([','].intercalate texts).length < fuel) :
    readMembers? fuel ([','].intercalate texts ++ '\x7d' :: rest) = some (members, rest) := by
  induction h generalizing fuel with
  | nil => exact absurd rfl hne
  | @cons text m texts members hm hmembers ih =>
    obtain ⟨fuel, rfl⟩ := Nat.exists_eq_add_one_of_ne_zero (Nat.ne_of_gt (Nat.zero_lt_of_lt hfuel))
    obtain ⟨value, rfl, hvalue⟩ := hm
    cases hmembers with
    | nil =>
      rw [List.intercalate_singleton] at hfuel ⊢
      rw [List.length_append, List.length_cons] at hfuel
      rw [readMembers?_member m.1 hvalue (by omega) (endsNumber_of_mem (by simp) _)]
      rfl
    | cons hk hmembers =>
      rw [List.intercalate_cons_cons] at hfuel ⊢
      simp only [List.length_append, List.length_cons, List.length_nil] at hfuel
      have hrest := ih (List.cons_ne_nil _ _) (show _ < fuel by omega)
      rw [List.append_assoc, List.append_assoc, List.singleton_append,
        readMembers?_member m.1 hvalue (by omega) (endsNumber_of_mem (by simp) _)]
      change (readMembers? fuel (_ ++ '\x7d' :: rest)).map _ = _
      rw [hrest]
      rfl

theorem readValue?_object (fuel : Nat) (cs : List Char) :
    readValue? (fuel + 1) ('\x7b' :: '\x22' :: cs) =
      (readMembers? fuel ('\x22' :: cs)).map fun p => (object p.1, p.2) := by
  have hdrop : ('\x22' :: cs).dropWhile isSpace = '\x22' :: cs := List.dropWhile_cons_of_neg (by decide)
  rw [readValue?, List.dropWhile_cons_of_neg (by decide)]
  simp only [hdrop]
  rfl

theorem Writes.object {texts : List (List Char)} {members : List (String × Json)}
    (h : List.Forall₂ WritesMember texts members) :
    Writes ('\x7b' :: ([','].intercalate texts ++ ['\x7d'])) (object members) := by
  refine ⟨⟨_, _, rfl, by decide, by decide⟩, fun {fuel rest} _ hfuel => ?_⟩
  cases fuel with
  | zero => cases hfuel
  | succ fuel =>
    rw [List.length_cons, List.length_append, List.length_singleton] at hfuel
    rw [List.cons_append, List.append_assoc, List.singleton_append]
    cases h with
    | nil => rfl
    | @cons text m texts members hm hmembers =>
      have hread := readMembers?_intercalate (.cons hm hmembers) (List.cons_ne_nil _ _) rest (show _ < fuel by omega)
      obtain ⟨value, rfl, -⟩ := hm
      obtain ⟨body, htext, -⟩ := exists_stringText m.1
      obtain ⟨behind, hbegins⟩ := exists_intercalate_cons '\x22' (body ++ ':' :: value) texts
      rw [htext, List.cons_append, hbegins, List.cons_append] at hread ⊢
      rw [readValue?_object, hread]
      rfl

theorem renderAll_eq_map (js : List Json) : renderAll js = js.map render := by
  induction js with
  | nil => rw [renderAll, List.map_nil]
  | cons j js ih => rw [renderAll, List.map_cons, ih]

theorem renderMembers_eq_map (ms : List (String × Json)) :
    renderMembers ms = ms.map fun m => stringText m.1 ++ ":" ++ m.2.render := by
  induction ms with
  | nil => rw [renderMembers, List.map_nil]
  | cons m ms ih => rw [renderMembers, List.map_cons, ih]

theorem toList_render_array (items : List Json) :
    (array items).render.toList = '[' :: ([','].intercalate (items.map fun j => j.render.toList) ++ [']']) := by
  rw [render, renderAll_eq_map, String.toList_append, String.toList_append, String.toList_intercalate, List.map_map]
  rfl

theorem toList_render_object (members : List (String × Json)) :
    (object members).render.toList = '\x7b' :: ([','].intercalate (members.map fun m =>
      (stringText m.1).toList ++ ':' :: m.2.render.toList) ++ ['\x7d']) := by
  have hmember (m : String × Json) : (stringText m.1 ++ ":" ++ m.2.render).toList =
      (stringText m.1).toList ++ ':' :: m.2.render.toList := by
    rw [String.toList_append, String.toList_append, List.append_assoc]
    rfl
  rw [render, renderMembers_eq_map, String.toList_append, String.toList_append, String.toList_intercalate,
    List.map_map]
  simp only [Function.comp_def, hmember]
  rfl

/-- The text of a legible value is read back as what it says. -/
theorem Legible.writes {j : Json} (h : j.Legible) : Writes j.render.toList j.shown := by
  induction h with
  | null =>
    rw [shown_null, render]
    exact writes_null
  | bool b =>
    rw [shown_bool, render]
    exact writes_bool b
  | integer hmin hmax =>
    rw [shown_integer, render]
    exact writes_number (readNumber?_toString hmin hmax)
  | @float x h =>
    rw [render, shown]
    cases hfinite : x.isFinite with
    | true =>
      rw [if_pos rfl]
      exact writes_number (h hfinite)
    | false =>
      rw [if_neg Bool.false_ne_true, floatText, hfinite]
      exact writes_null
  | string s =>
    rw [shown_string, render]
    exact writes_string s
  | @array items _ ih =>
    rw [shown_array, toList_render_array]
    apply Writes.array
    rw [List.forall₂_map_left_iff, List.forall₂_map_right_iff, List.forall₂_same]
    exact ih
  | @object members _ ih =>
    rw [shown_object, toList_render_object]
    apply Writes.object
    rw [List.forall₂_map_left_iff, List.forall₂_map_right_iff, List.forall₂_same]
    exact fun m hm => ⟨_, rfl, ih m hm⟩

/-- The text of a legible value is a text of what it says. -/
theorem Legible.parse?_render {j : Json} (h : j.Legible) : parse? j.render = some j.shown := by
  have hfuel : j.render.toList.length ≤ 2 * j.render.toList.length + 2 := by omega
  have hread := h.writes.read endsNumber_nil hfuel
  rw [List.append_nil] at hread
  unfold parse?
  dsimp only
  rw [hread]
  rfl

end Json

end TaxonomySet
